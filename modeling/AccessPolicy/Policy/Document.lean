import AccessPolicy.Expr.Basic

/-!
# Policy documents

A policy says for which requests it is meant (its target), under which conditions it applies
(its body), what it then decides (its entitlement) and what goes along with the decision. A
policy set decides by combining the decisions of its policies. A document holds one or the
other, with the imports that its names are resolved by.
-/

namespace AccessPolicy

/-- What a policy decides when it applies. -/
inductive Entitlement where
  | permit
  | deny
deriving DecidableEq, Repr

/-- A statement of the body of a policy. -/
inductive Statement where
  | define (name : String) (value : Expr)
  | condition (test : Expr)
deriving DecidableEq

/-- A policy. -/
structure Policy where
  name : String
  entitlement : Entitlement
  target : Option Expr := none
  body : List Statement := []
  obligations : List Expr := []
  advice : List Expr := []
  transformation : Option Expr := none
deriving DecidableEq

/-- A policy set. -/
structure PolicySet where
  name : String
  algorithm : String
  target : Option Expr := none
  definitions : List (String × Expr) := []
  policies : List Policy := []
deriving DecidableEq

/-- A policy or a policy set. -/
inductive Element where
  | policy (p : Policy)
  | set (s : PolicySet)
deriving DecidableEq

/-- A policy or a policy set with its imports. -/
structure Document where
  imports : Dict String String := []
  element : Element
deriving DecidableEq

namespace Document

/-- The name of a document. -/
def name (d : Document) : String :=
  match d.element with
  | .policy p => p.name
  | .set s => s.name

/-- The target of a document. -/
def target (d : Document) : Option Expr :=
  match d.element with
  | .policy p => p.target
  | .set s => s.target

/-- All targets in a document, that of a set before those of its policies. -/
def targets (d : Document) : List Expr :=
  match d.element with
  | .policy p => p.target.toList
  | .set s => s.target.toList ++ s.policies.filterMap Policy.target

end Document

end AccessPolicy
