import AccessPolicy.Json.Ignored

/-!
# Records

A record is written as an object, in which unknown members are ignored and no known one is
repeated, or as the array of its first fields in order. A word from a list of choices is
written as a string, or as an object with that one key and the member `null`.

Records are read from a text, since of an ignored member less is asked than of a document. Their
fields are documents as they were written.
-/

namespace AccessPolicy.Json

/-- The member of some name, if there is at most one. -/
def singleMember? (members : List (String × Json)) (name : String) : Option (Option Json) :=
  match members.filter fun member => member.1 == name with
  | [] => some none
  | [member] => some (some member.2)
  | _ => none

/-- The fields of a record that is written as an array, in the order of their names. -/
def fieldsInOrder? (names : List String) (items : List Json) : Option (List (Option Json)) :=
  if names.length < items.length then none
  else some (names.zipIdx.map fun (_, i) => items[i]?)

/-- Reads the value of a member of a record as a document as it was written if it is a field,
and passes over it if not. -/
def readField? (names : List String) (name : String) (cs : List Char) :
    Option (Option Json × List Char) :=
  if names.contains name then
    (readValue? (maxNesting - 1) cs).map fun (value, rest) => (some value, rest)
  else (passValue? cs.length cs).map fun (_, rest) => (none, rest)

/-- Reads a whole text as a record with fields of some names, each of which may be missing. -/
def readFields? (names : List String) (s : String) : Option (List (Option Json)) :=
  match skipBlanks s.toList with
  | '\x7b' :: rest => do
    let (members, rest) ← readItems? (readMember? (readField? names)) '\x7d' rest
    if (skipBlanks rest).isEmpty then
      names.mapM (singleMember? (members.filterMap fun (name, value?) => value?.map (name, ·)))
    else none
  | _ =>
    match read? s with
    | some (array items) => fieldsInOrder? names items
    | _ => none

/-- The choice that a document names, of several choices with their words. -/
def choice? {α : Type} (choices : List (String × α)) : Json → Option α
  | string word => Dict.get? choices word
  | object [(word, null)] => Dict.get? choices word
  | _ => none

/-- A truth value. -/
def bool? : Json → Option Bool
  | bool b => some b
  | _ => none

/-- A list of documents. -/
def items? : Json → Option (List Json)
  | array items => some items
  | _ => none

/-- A natural number that fits 64 bits, spelled with digits alone. -/
def nat64? : Json → Option Nat
  | number n => n.toNat64?
  | _ => none

/-- Reads a field that may be missing; a missing one takes a default. -/
def withDefault {α : Type} (read : Json → Option α) (default : α) : Option Json → Option α
  | none => some default
  | some j => read j

end AccessPolicy.Json
