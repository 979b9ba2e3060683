import AccessPolicy.Value.Basic

/-!
# What can go wrong in an evaluation

Errors are values: they flow through expressions like any other outcome, and only their
message is observable. The causes that evaluation itself can give are listed here, and
`Fault.message` holds the wording of each.
-/

namespace AccessPolicy

/-- What an operation expects of an operand. -/
inductive Expectation where
  | boolean
  | number
  | string
  | array
  | object
  | container
  | selector
  | conditionResult
deriving DecidableEq, Repr

namespace Expectation

/-- The words for what was expected. -/
def phrase : Expectation → String
  | boolean => "a boolean"
  | number => "a number"
  | string => "a string"
  | array => "an array"
  | object => "an object"
  | container => "an object or array"
  | selector => "a string or an integer"
  | conditionResult => "a boolean condition result"

end Expectation

/-- The reasons for which a function of the registry gives no value. -/
inductive CallFailure where
  | arity (expected : String) (actual : Nat)
  | argument (position : Nat) (reason : String)
  | failed (reason : String)
  | crashed (reason : String)
deriving DecidableEq, Repr

/-- The causes of the errors that evaluation itself raises. -/
inductive Fault where
  | mismatch (expected : Expectation) (actual : String)
  | divisionByZero
  | numberOutOfRange (shown : String)
  | malformedPattern (pattern : String)
  | largePattern
  | unbound (name : String)
  | relativeUnbound
  | undefinedItem
  | lazyInTarget (label : String)
  | finderInTarget
  | unknownFinder (name : String)
  | crashedFinder (name reason : String)
  | indexOutOfBounds (index : Int) (length : Nat)
  | zeroStride
  | fractionalIndex (numeral : Numeral)
  | filteredUndefined
  | eachOfNonArray
  | unsupportedTarget (step : String)
  | unknownFunction (name : String)
  | functionFailed (name : String) (failure : CallFailure)
  | targetWithoutValue
  | targetNotBoolean (actual : String)
deriving DecidableEq, Repr

namespace CallFailure

/-- The wording of a failure, after the name of the function. -/
def message : CallFailure → String
  | arity expected actual =>
    "failed: Illegal number of arguments. Expected " ++ expected ++ ", got " ++ toString actual
  | argument position reason =>
    "failed: Illegal argument " ++ toString position ++ ": " ++ reason
  | failed reason => "failed: " ++ reason
  | crashed reason => "panicked: " ++ reason

end CallFailure

namespace Fault

/-- The start of the wording for a pattern that is refused. -/
def invalidPattern : String := "Invalid regular expression"

/-- The characters of a text that is shown line by line: how its lines end makes no difference. -/
def shownLines : List Char → List Char
  | [] => []
  | '\r' :: '\n' :: rest => '\n' :: shownLines rest
  | c :: rest => c :: shownLines rest

/-- The wording of an error. The one for a malformed pattern shows the pattern. -/
def message : Fault → String
  | mismatch expected actual =>
    "Type mismatch. Expected " ++ expected.phrase ++ ", but got " ++ actual
  | divisionByZero => "Division by zero"
  | numberOutOfRange shown => "Number out of range: " ++ shown
  | malformedPattern pattern =>
    invalidPattern ++ ": " ++ String.ofList (shownLines pattern.toList)
  | largePattern => invalidPattern ++ ": Compiled regex exceeds size limit of 10485760 bytes."
  | unbound name => "Unbound variable " ++ name
  | relativeUnbound => "@ is not bound in this context"
  | undefinedItem => "Undefined values cannot be added to arrays"
  | lazyInTarget label => "Lazy " ++ label ++ " operator is not allowed in the target"
  | finderInTarget => "Attribute finders are not allowed in target expressions"
  | unknownFinder name => "Unknown attribute finder " ++ name
  | crashedFinder name reason => "Attribute finder " ++ name ++ " panicked: " ++ reason
  | indexOutOfBounds index length =>
    "Index out of bounds. Index must be between 0 and " ++ toString length
      ++ " (exclusive), was: " ++ toString index
  | zeroStride => "Step must not be zero"
  | fractionalIndex numeral => "Index must be an integer, was: " ++ numeral.text
  | filteredUndefined => "Filters cannot be applied to undefined values"
  | eachOfNonArray => "Cannot filter non array values with each keyword"
  | unsupportedTarget step => "Step " ++ step ++ " is not supported in filter targets"
  | unknownFunction name => "Unknown function " ++ name
  | functionFailed name failure => "Function " ++ name ++ " " ++ failure.message
  | targetWithoutValue => "Target expression produced no value"
  | targetNotBoolean actual =>
    "Type mismatch. Target expression must return a boolean, but got " ++ actual

end Fault

namespace Value

/-- The error value of a fault. -/
def fault (f : Fault) : Value := error f.message

/-- The error of a value that is not what an operation expects. -/
def mismatch (expected : Expectation) (actual : Value) : Value :=
  fault (.mismatch expected actual.typeName)

/-- What an operation takes from an operand. An error is passed on as it is, and any other
value that does not fit is a mismatch. -/
def require {α : Type} (expected : Expectation) (take? : Value → Option α) (v : Value) :
    Except Value α :=
  if v.isError then .error v
  else
    match take? v with
    | some a => .ok a
    | none => .error (mismatch expected v)

/-- The truth value that an operation requires. -/
def requireBool (v : Value) : Except Value Bool := require .boolean bool? v

/-- The value of an array of some results, undefined ones left out; the first error wins. -/
def arrayOf (values : List Value) : Value :=
  match firstError? values with
  | some e => e
  | none => of (.array (documents values))

/-- The value of an object of some results under some keys, undefined ones left out; the first
error wins, and of two results under one key the later one. -/
def objectOf (keys : List String) (values : List Value) : Value :=
  match firstError? values with
  | some e => e
  | none =>
    of (.object (Dict.ofEntries ((keys.zip values).filterMap fun (key, v) =>
      v.document?.map fun document => (key, document))))

/-- The value of an array of some results, all of which must be defined; the first error
wins. -/
def strictArrayOf (values : List Value) : Value :=
  match firstError? values with
  | some e => e
  | none =>
    if values.all isDefined then of (.array (documents values)) else fault .undefinedItem

end Value

end AccessPolicy
