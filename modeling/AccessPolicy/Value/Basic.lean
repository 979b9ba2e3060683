import AccessPolicy.Json.Printer

/-!
# Values of expressions

An expression has one of three outcomes: a JSON document, nothing (`undefined`), or an error
with a message and the messages of what caused it, nearest first. A value is an outcome
together with the record of the operator that computed it. The record is for the reader of a
report: two values are *the same* when their outcomes are equal, whatever their records.
-/

namespace AccessPolicy

/-- What an expression evaluates to. -/
inductive Outcome where
  | defined (document : Json)
  | undefined
  | error (message : String) (causes : List String)
deriving DecidableEq, Inhabited

/-- How an outcome was computed: by an operator from operands with traces of their own, or
in no recorded way. -/
inductive Trace where
  | unrecorded
  | applied (operator : String) (operands : List (Outcome × Trace))
deriving Inhabited

/-- An outcome with the record of how it was computed. -/
structure Value where
  outcome : Outcome
  trace : Trace := .unrecorded
deriving Inhabited

namespace Outcome

/-- The text of an outcome. -/
def text : Outcome → String
  | defined document => document.text
  | undefined => "undefined"
  | error message _ => "ERROR[" ++ message ++ "]"

/-- The word for the type of an outcome. -/
def typeName : Outcome → String
  | defined document => document.kindName
  | undefined => "undefined"
  | error _ _ => "error"

end Outcome

namespace Value

/-- The value of a document. -/
def of (document : Json) : Value := ⟨.defined document, .unrecorded⟩

/-- The undefined value. -/
def undefined : Value := ⟨.undefined, .unrecorded⟩

/-- The value of an error that nothing caused. -/
def error (message : String) : Value := ⟨.error message [], .unrecorded⟩

/-- The value of a truth value. -/
def bool (b : Bool) : Value := of (.bool b)

/-- Whether two values have the same outcome. -/
def same (a b : Value) : Bool := a.outcome == b.outcome

/-- Whether a value is a document. -/
def isDefined (v : Value) : Bool := v.outcome matches .defined _

/-- Whether a value is undefined. -/
def isUndefined (v : Value) : Bool := v.outcome matches .undefined

/-- Whether a value is an error. -/
def isError (v : Value) : Bool := v.outcome matches .error _ _

/-- The document of a defined value. -/
def document? (v : Value) : Option Json :=
  match v.outcome with
  | .defined document => some document
  | _ => none

/-- The truth value of a value that is one. -/
def bool? (v : Value) : Option Bool :=
  match v.outcome with
  | .defined (.bool b) => some b
  | _ => none

/-- The text of a value that is a string. -/
def string? (v : Value) : Option String :=
  match v.outcome with
  | .defined (.string s) => some s
  | _ => none

/-- The items of a value that is an array. -/
def items? (v : Value) : Option (List Json) :=
  match v.outcome with
  | .defined (.array items) => some items
  | _ => none

/-- The children of a value that is a container. -/
def children? (v : Value) : Option (List Json) := v.document?.bind Json.children?

/-- The message of a value that is an error. -/
def message? (v : Value) : Option String :=
  match v.outcome with
  | .error message _ => some message
  | _ => none

/-- The text of a value. -/
def text (v : Value) : String := v.outcome.text

/-- The word for the type of a value. -/
def typeName (v : Value) : String := v.outcome.typeName

/-- Records that a value was computed by an operator. -/
def recordedAs (v : Value) (operator : String) (operands : List Value) : Value :=
  ⟨v.outcome, .applied operator (operands.map fun o => (o.outcome, o.trace))⟩

/-- The first error among some values. -/
def firstError? (values : List Value) : Option Value := values.find? isError

/-- The documents of the defined values among some values. -/
def documents (values : List Value) : List Json := values.filterMap document?

end Value

/-! ## Reports of traces -/

namespace Trace

mutual

/-- The report of a trace: the operator and, for each operand, its text and its own report.
Where nothing was recorded there is no report. -/
def report? : Trace → Option Json
  | unrecorded => none
  | applied operator operands =>
    some (.object [("arguments", .array (operandReports operands)), ("operator", .string operator)])

/-- The reports of the operands of an operator. -/
def operandReports : List (Outcome × Trace) → List Json
  | [] => []
  | (outcome, trace) :: operands =>
    let own := match report? trace with
      | none => []
      | some report => [("trace", report)]
    .object (own ++ [("value", .string outcome.text)]) :: operandReports operands

end

end Trace

end AccessPolicy
