import AccessPolicy.Policy.Decide
import AccessPolicy.Expr.Printer

/-!
# Predicates and literals

A predicate is a truth value or an expression together with the imports that its names are
resolved by: the same text under other imports is another predicate. A literal is a predicate
or its negation.
-/

namespace AccessPolicy

/-- What a target can be made of. -/
inductive Predicate where
  | constant (value : Bool)
  | expression (e : Expr) (imports : Dict String String)
deriving DecidableEq

namespace Predicate

/-- The truth value of a predicate that needs no evaluation. -/
def constant? : Predicate → Option Bool
  | constant value => some value
  | expression _ _ => none

/-- The answer of a predicate, and the functions that were called for it. -/
def evaluate (p : Predicate) (ctx : Context) : Value × List Event :=
  match p with
  | constant value => (Value.bool value, [])
  | expression e imports => evaluateTarget (some e) (ctx.importing imports)

/-- The text of a predicate. -/
def text : Predicate → String
  | constant value => if value then "true" else "false"
  | expression e _ => e.text

end Predicate

/-- A predicate or its negation. -/
structure Literal where
  predicate : Predicate
  negated : Bool
deriving DecidableEq

namespace Literal

/-- The opposite of a literal. -/
def negate (l : Literal) : Literal := { l with negated := !l.negated }

/-- Whether two literals are about the same predicate. -/
def sharesPredicate (a b : Literal) : Bool := decide (a.predicate = b.predicate)

/-- Whether both or neither of two literals are negated. -/
def sharesNegation (a b : Literal) : Bool := a.negated == b.negated

/-- Whether two literals are opposites. -/
def contradicts (a b : Literal) : Bool := a.sharesPredicate b && !a.sharesNegation b

/-- The truth value of a literal for a truth value of its predicate. -/
def apply (l : Literal) (value : Bool) : Bool := value != l.negated

/-- The truth value of a literal that needs no evaluation. -/
def constant? (l : Literal) : Option Bool := l.predicate.constant?.map l.apply

/-- The text of a literal. -/
def text (l : Literal) : String :=
  if l.negated then "!(" ++ l.predicate.text ++ ")" else l.predicate.text

end Literal

end AccessPolicy
