import AccessPolicy.Proofs.Expr.Occurrence
import AccessPolicy.Proofs.Policy.Validation

/-!
# What the check of targets refuses

No target may contain an operator that may skip its right operand, nor an attribute finder. The
check of a target looks at every expression that occurs in it, and refuses what it finds there: the
lazy operators, the finders that stand on their own, and the paths with a finder among their steps.
It is exact as far as that goes.

A finder may also be a step to what an edit addresses. The traversal goes through such a step to the
arguments of the finder, and does not stop at the step itself, which is no expression. So the check
misses the finders there.
-/

namespace AccessPolicy

namespace Expr

/-- **An expression that is forbidden** in targets, by itself and not for what occurs in it. -/
inductive Forbidden : Expr → Prop where
  | lazyAnd (left right : Expr) : Forbidden (.binary .lazyAnd left right)
  | lazyOr (left right : Expr) : Forbidden (.binary .lazyOr left right)
  | finder (name : String) (arguments : List Expr) (head : Bool) :
      Forbidden (.finder name arguments head)
  | step {base : Expr} {s : Step} {steps : List Step} :
      s ∈ steps → s.isFinder = true → Forbidden (.path base steps)

/-- A filter with a finder among the steps to what one of its edits addresses. -/
inductive AddressesByFinder : Expr → Prop where
  | edit {base : Expr} {edit : Edit} {edits : List Edit} {s : Step} :
      edit ∈ edits → s ∈ edit.target → s.isFinder = true → AddressesByFinder (.filter base edits)

/-- Nothing that no target may contain occurs in an expression: it is free of lazy operators and of
finders, those that edits address by included. -/
def FitForTarget (e : Expr) : Prop :=
  ∀ n : Expr, n.OccursIn e → ¬ n.Forbidden ∧ ¬ n.AddressesByFinder

/-- A single expression is a violation exactly if it is forbidden. -/
theorem violation?_eq_none_iff {e : Expr} : e.violation? = none ↔ ¬ e.Forbidden := by
  rw [violation?_eq_none]
  constructor
  · rintro ⟨hskips, hseeks⟩ hforbidden
    cases hforbidden with
    | lazyAnd | lazyOr => cases hskips
    | finder => cases hseeks
    | step hs hfinder => exact List.any_eq_false.1 hseeks _ hs hfinder
  · intro h
    cases e with
    | binary op left right =>
      cases op with
      | lazyAnd => exact absurd (.lazyAnd left right) h
      | lazyOr => exact absurd (.lazyOr left right) h
      | _ => exact ⟨rfl, rfl⟩
    | finder name arguments head => exact absurd (.finder name arguments head) h
    | path base steps =>
      exact ⟨rfl, List.any_eq_false.2 fun s hs hfinder => h (.step hs hfinder)⟩
    | _ => exact ⟨rfl, rfl⟩

/-- **The check of a target is exact** for what is forbidden: a target passes it if and only if no
forbidden expression occurs in the target, at any depth. -/
theorem passes_iff_nothing_forbidden (e : Expr) :
    e.validateTarget = .ok () ↔ ∀ n : Expr, n.OccursIn e → ¬ n.Forbidden := by
  rw [validateTarget_eq_ok, targetViolation?, List.findSome?_eq_none_iff]
  simp only [violation?_eq_none_iff, mem_nodes_iff]

/-- A target may pass the check although it is not fit. The filter here removes what a finder
addresses. -/
theorem passes_with_addressing_finder :
    ¬ ∀ e : Expr, e.validateTarget = .ok () ↔ e.FitForTarget := by
  intro h
  have hpasses : (Expr.filter (.var "subject")
      [.remove false [.finder "role" [] false]]).validateTarget = .ok () := rfl
  have hfit := (h _).1 hpasses
  exact (hfit _ .refl).2 (.edit List.mem_cons_self List.mem_cons_self rfl)

end Expr

end AccessPolicy
