import AccessPolicy.Index.Basic
import AccessPolicy.Json.Parser
import AccessPolicy.Json.Record
import AccessPolicy.Policy.Validation
import AccessPolicy.Text.Blank

/-!
# The configuration of a retrieval point

A configuration says which kind of index is used, how many clauses the formula of a target may
have, and whether statistics are kept. It is read from a record or from settings, and missing
parts take their defaults. In settings, blanks around a value and the case of its letters do
not matter.
-/

namespace AccessPolicy

/-- The configuration of a retrieval point. -/
structure Config where
  index : IndexKind := .canonical
  maxClauses : Nat := 256
  statistics : Bool := true
deriving DecidableEq, Repr

/-- What can be wrong with a configuration. -/
inductive ConfigFault where
  | malformed
  | unknownIndex (word : String)
  | notNumber (setting : String)
  | notBoolean (word : String)
  | noClauses
deriving DecidableEq, Repr

namespace ConfigFault

/-- The wording of a fault. -/
def message : ConfigFault → String
  | malformed => "malformed configuration"
  | unknownIndex word => "unknown index kind '" ++ word ++ "'"
  | notNumber setting => "AUTHZ_PRP_MAX_CLAUSES is not a number: '" ++ setting ++ "'"
  | notBoolean word => "AUTHZ_PRP_METRICS is not a boolean: '" ++ word ++ "'"
  | noClauses => "max_clauses_per_target must be at least 1"

/-- The refusal of a faulty configuration. -/
def refusal (f : ConfigFault) : Refusal := .configuration f.message

end ConfigFault

namespace IndexKind

/-- The words for the kinds of index. -/
def words : List (String × IndexKind) := [("canonical", .canonical), ("naive", .naive)]

/-- The word for a kind of index. -/
def word : IndexKind → String
  | canonical => "canonical"
  | naive => "naive"

end IndexKind

namespace Config

/-- Checks that a configuration can be used. -/
def validate (c : Config) : Except ConfigFault Config :=
  if c.maxClauses = 0 then .error .noClauses else .ok c

/-! ## Records -/

/-- The names of the fields of a configuration. -/
def fieldNames : List String := ["index", "max_clauses_per_target", "enable_metrics"]

/-- Reads a configuration that need not be usable from a text. -/
def read? (s : String) : Option Config := do
  match ← Json.readFields? fieldNames s with
  | [index, maxClauses, statistics] =>
    return {
      index := ← Json.withDefault (Json.choice? IndexKind.words) .canonical index
      maxClauses := ← Json.withDefault Json.nat64? 256 maxClauses
      statistics := ← Json.withDefault Json.bool? true statistics }
  | _ => none

/-- Reads a configuration from a text. -/
def parse (s : String) : Except ConfigFault Config :=
  match read? s with
  | some c => c.validate
  | none => .error .malformed

/-! ## Settings -/

/-- The word that a setting is: without blanks at the ends and in lower case. -/
def settingWord (s : String) : String := Text.lowercase (Text.trim s)

/-- The kind of index that a setting names. -/
def readIndex (s : String) : Except ConfigFault IndexKind :=
  match Dict.get? IndexKind.words (settingWord s) with
  | some kind => .ok kind
  | none => .error (.unknownIndex (settingWord s))

/-- The number that a list of digits spells, if it is one and fits 64 bits. -/
def digitsNat? (cs : List Char) : Option Nat :=
  match Digit.run cs with
  | ([], _) => none
  | (ds, []) => if fitsNat64 (Digit.value ds) then some (Digit.value ds) else none
  | _ => none

/-- The number of clauses that a setting names; a plus sign may stand before it. -/
def readMaxClauses (s : String) : Except ConfigFault Nat :=
  let digits := match (Text.trim s).toList with
    | '+' :: rest => rest
    | cs => cs
  match digitsNat? digits with
  | some n => .ok n
  | none => .error (.notNumber s)

/-- The truth value that a setting names. -/
def readBool (s : String) : Except ConfigFault Bool :=
  if ["1", "true", "yes", "on"].contains (settingWord s) then .ok true
  else if ["0", "false", "no", "off"].contains (settingWord s) then .ok false
  else .error (.notBoolean (settingWord s))

/-- Reads a setting that may be missing; a missing one takes a default. -/
def readSetting {α : Type} (read : String → Except ConfigFault α) (default : α) :
    Option String → Except ConfigFault α
  | none => .ok default
  | some s => read s

/-- Reads a configuration from settings. -/
def ofSettings (lookup : String → Option String) : Except ConfigFault Config := do
  let index ← readSetting readIndex .canonical (lookup "AUTHZ_PRP_INDEX")
  let maxClauses ← readSetting readMaxClauses 256 (lookup "AUTHZ_PRP_MAX_CLAUSES")
  let statistics ← readSetting readBool true (lookup "AUTHZ_PRP_METRICS")
  validate ⟨index, maxClauses, statistics⟩

end Config

end AccessPolicy
