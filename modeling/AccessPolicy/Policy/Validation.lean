import AccessPolicy.Expr.Printer
import AccessPolicy.Expr.Traversal
import AccessPolicy.Policy.Document

/-!
# Which targets are allowed

A target is evaluated for every request, whether or not its document turns out to be meant for
it. It may therefore not use the operators that skip their right operand, nor look up
attributes. A document is valid if all its targets are; the first expression that offends
gives the reason.
-/

namespace AccessPolicy

/-- Why a target is refused. -/
inductive TargetViolation where
  | lazyAnd
  | lazyOr
  | finder (text : String)
deriving DecidableEq, Repr

namespace TargetViolation

/-- The wording of a violation. -/
def message : TargetViolation → String
  | lazyAnd => "Lazy AND operator is not allowed in the target"
  | lazyOr => "Lazy OR operator is not allowed in the target"
  | finder text => "Attribute finder " ++ text ++ " is not allowed in the target"

end TargetViolation

/-- What the library refuses to do. -/
inductive Refusal where
  | configuration (reason : String)
  | document (name reason : String)
  | target (violation : TargetViolation)
  | closedChannel
deriving DecidableEq, Repr

namespace Refusal

/-- The wording of a refusal. -/
def message : Refusal → String
  | configuration reason => "Invalid configuration: " ++ reason
  | document name reason => "Invalid document " ++ name ++ ": " ++ reason
  | target violation => "Invalid target: " ++ violation.message
  | closedChannel => "Document update channel closed"

end Refusal

/-- What a single expression does that no target may do, apart from what the expressions
inside it do. -/
def Expr.violation? : Expr → Option TargetViolation
  | .binary .lazyAnd _ _ => some .lazyAnd
  | .binary .lazyOr _ _ => some .lazyOr
  | .finder name _ _ => some (.finder ("<" ++ name ++ ">"))
  | .path _ steps => (steps.find? Step.isFinder).map fun s => .finder s.text
  | _ => none

/-- The first violation in a target. -/
def Expr.targetViolation? (target : Expr) : Option TargetViolation :=
  target.nodes.findSome? Expr.violation?

/-- Checks a target. -/
def Expr.validateTarget (target : Expr) : Except Refusal Unit :=
  match target.targetViolation? with
  | none => .ok ()
  | some violation => .error (.target violation)

/-- Checks all targets of a document. -/
def Document.validate (d : Document) : Except Refusal Unit :=
  match d.targets.findSome? Expr.targetViolation? with
  | none => .ok ()
  | some violation => .error (.document d.name (Refusal.target violation).message)

end AccessPolicy
