import AccessPolicy.Decimal.Quotient
import AccessPolicy.Pattern.Matching
import AccessPolicy.Value.Equality
import AccessPolicy.Value.Number

/-!
# Operators

An operator turns the values of its operands into a value and records that it did. An error
among the operands is the result, the left one before the right one. The operators that
evaluate their right operand only if need be, `&&` and `||`, are applied here to two known
values; what their laziness means is the business of evaluation.
-/

namespace AccessPolicy

/-- The operators of one operand. -/
inductive UnaryOperator where
  | not
  | negate
  | plus
deriving DecidableEq, Repr

/-- The operators of two operands. -/
inductive BinaryOperator where
  | add
  | subtract
  | multiply
  | divide
  | modulo
  | equals
  | notEquals
  | less
  | lessEquals
  | greater
  | greaterEquals
  | regex
  | elementOf
  | lazyAnd
  | lazyOr
  | eagerAnd
  | eagerOr
  | xor
deriving DecidableEq, Repr

/-- What operators leave to the libraries under them: the engine that runs patterns, and what
becomes of a number whose spelling is refused. -/
structure Libraries where
  engine : Pattern.Engine := {}
  numbers : Decimal.Fallback := {}

namespace UnaryOperator

/-- The symbol of an operator. -/
def symbol : UnaryOperator → String
  | not => "!"
  | negate => "-"
  | plus => "+"

/-- The value of an operator before it is recorded. A plus sign asks for a number and leaves
its spelling alone. -/
def compute (op : UnaryOperator) (libraries : Libraries) (operand : Value) : Except Value Value :=
  match op with
  | not => (Value.requireBool operand).map fun b => Value.bool !b
  | negate =>
    (Value.require .number Value.decimal? operand).map fun d =>
      Value.ofDecimal libraries.numbers d.neg
  | plus => (Value.require .number Value.decimal? operand).map fun _ => operand

/-- Applies an operator to a value. -/
def apply (op : UnaryOperator) (libraries : Libraries) (operand : Value) : Value :=
  (match op.compute libraries operand with
  | .ok v => v
  | .error e => e).recordedAs op.symbol [operand]

end UnaryOperator

namespace BinaryOperator

/-- The symbol of an operator. -/
def symbol : BinaryOperator → String
  | add => "+"
  | subtract => "-"
  | multiply => "*"
  | divide => "/"
  | modulo => "%"
  | equals => "=="
  | notEquals => "!="
  | less => "<"
  | lessEquals => "<="
  | greater => ">"
  | greaterEquals => ">="
  | regex => "=~"
  | elementOf => "in"
  | lazyAnd => "&&"
  | lazyOr => "||"
  | eagerAnd => "&"
  | eagerOr => "|"
  | xor => "^"

/-- Whether an operator evaluates its right operand only if the left one does not decide. -/
def isLazy : BinaryOperator → Bool
  | lazyAnd | lazyOr => true
  | _ => false

/-- Applies a function to the decimals of two operands. -/
def onDecimals (left right : Value) (f : Decimal → Decimal → Except Value Value) :
    Except Value Value := do
  let a ← Value.require .number Value.decimal? left
  let b ← Value.require .number Value.decimal? right
  f a b

/-- Compares the decimals of two operands. -/
def comparing (left right : Value) (accept : Ordering → Bool) : Except Value Value :=
  onDecimals left right fun a b => .ok (Value.bool (accept (a.compare b)))

/-- Applies a function of two truth values to two operands. -/
def onBools (left right : Value) (f : Bool → Bool → Bool) : Except Value Value := do
  let a ← Value.requireBool left
  let b ← Value.requireBool right
  return Value.bool (f a b)

/-- The value of a function of the decimals of two operands. -/
def reckoning (libraries : Libraries) (left right : Value) (f : Decimal → Decimal → Decimal) :
    Except Value Value :=
  onDecimals left right fun a b => .ok (Value.ofDecimal libraries.numbers (f a b))

/-- Divides the decimals of two operands, the divisor not being zero. -/
def dividing (libraries : Libraries) (left right : Value) (f : Decimal → Decimal → Decimal) :
    Except Value Value :=
  onDecimals left right fun a b =>
    if b.isZero then .error (Value.fault .divisionByZero)
    else .ok (Value.ofDecimal libraries.numbers (f a b))

/-- Whether a text as a whole matches a pattern. -/
def matching (engine : Pattern.Engine) (left right : Value) : Except Value Value := do
  let text ← Value.require .string Value.string? left
  let pattern ← Value.require .string Value.string? right
  match Pattern.accepts engine pattern text with
  | .ok found => return Value.bool found
  | .error .malformed => throw (Value.fault (.malformedPattern pattern))
  | .error .tooLarge => throw (Value.fault .largePattern)

/-- Whether a value equals an item of an array. -/
def membership (left right : Value) : Except Value Value :=
  match right.items? with
  | none => .error (Value.mismatch .array right)
  | some items =>
    match left.document? with
    | none => .ok (Value.bool false)
    | some needle => .ok (Value.bool (items.any fun item => needle.agrees item))

/-- The sum of two operands: two texts are joined, anything else is added as numbers. -/
def adding (libraries : Libraries) (left right : Value) : Except Value Value :=
  match left.string?, right.string? with
  | some a, some b => .ok (Value.of (.string (a ++ b)))
  | _, _ => reckoning libraries left right Decimal.add

/-- The value of an operator for two operands that are no errors. -/
def compute (op : BinaryOperator) (libraries : Libraries) (left right : Value) :
    Except Value Value :=
  match op with
  | add => adding libraries left right
  | subtract => reckoning libraries left right Decimal.sub
  | multiply => reckoning libraries left right Decimal.mul
  | divide => dividing libraries left right Decimal.quotient
  | modulo => dividing libraries left right Decimal.remainder
  | equals => .ok (Value.bool (left.agrees right))
  | notEquals => .ok (Value.bool !(left.agrees right))
  | less => comparing left right (· == .lt)
  | lessEquals => comparing left right (· != .gt)
  | greater => comparing left right (· == .gt)
  | greaterEquals => comparing left right (· != .lt)
  | regex => matching libraries.engine left right
  | elementOf => membership left right
  | lazyAnd | eagerAnd => onBools left right (· && ·)
  | lazyOr | eagerOr => onBools left right (· || ·)
  | xor => onBools left right Bool.xor

/-- Applies an operator to two values. -/
def apply (op : BinaryOperator) (libraries : Libraries) (left right : Value) : Value :=
  (if left.isError then left
  else if right.isError then right
  else
    match op.compute libraries left right with
    | .ok v => v
    | .error e => e).recordedAs op.symbol [left, right]

end BinaryOperator

end AccessPolicy
