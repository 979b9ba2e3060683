import AccessPolicy.Policy.Validation
import AccessPolicy.Proofs.Evaluation.Compositional
import AccessPolicy.Proofs.Evaluation.Surroundings

/-!
# Checked targets

The check of a target looks at the expressions inside it for those that an evaluation in target
mode would refuse. Once the check has been passed nothing is refused, and so it does not matter in
which mode the target is evaluated: it asks nothing of the sources and gives a single value.
-/

namespace AccessPolicy

open Machine

/-! ## What the check looks for -/

namespace Expr

/-- The violations are the expressions whose evaluation depends on the mode. -/
theorem violation?_eq_none {e : Expr} :
    e.violation? = none ↔ e.skips = false ∧ e.seeks = false := by
  cases e with
  | binary op left right => cases op <;> simp [violation?, skips, seeks, BinaryOperator.isLazy]
  | path base steps =>
    simp only [violation?, skips, seeks, Option.map_eq_none_iff, List.find?_eq_none,
      List.any_eq_false, true_and]
  | finder name arguments head => simp [violation?, seeks]
  | _ => exact iff_of_true rfl ⟨rfl, rfl⟩

theorem targetViolation?_eq_none {e : Expr} :
    e.targetViolation? = none ↔ ∀ n ∈ e.nodes, n.skips = false ∧ n.seeks = false := by
  rw [targetViolation?, List.findSome?_eq_none_iff]
  simp only [violation?_eq_none]

theorem validateTarget_eq_ok {e : Expr} :
    e.validateTarget = .ok () ↔ e.targetViolation? = none := by
  unfold validateTarget
  split <;> simp [*]

end Expr

/-- The check of a document checks each of its targets. -/
theorem Document.validate_eq_ok {d : Document} :
    d.validate = .ok () ↔ ∀ t ∈ d.targets, t.validateTarget = .ok () := by
  simp only [Expr.validateTarget_eq_ok, ← List.findSome?_eq_none_iff]
  unfold validate
  split <;> simp [*]

/-! ## What a target that was checked does -/

namespace Expr

/-- An expression has passed the check, by itself or as a target of a document. -/
def Accepted (e : Expr) : Prop :=
  e.validateTarget = .ok () ∨ ∃ d : Document, d.validate = .ok () ∧ e ∈ d.targets

/-- **An expression is safe as a target.** -/
structure Safe (e : Expr) : Prop where
  /-- Its stream is the same in both modes. Nothing is refused in body mode, and so nothing is in
  target mode. -/
  stream : ∀ ctx : Context, e.evaluate (ctx.inMode .target) = e.evaluate (ctx.inMode .body)
  /-- In both modes it gives one value, the same one, and then ends. -/
  single : ∀ ctx : Context, ∃ v, (e.evaluate (ctx.inMode .target)).Gives v
    ∧ (e.evaluate (ctx.inMode .body)).Gives v
  /-- In neither mode it opens a subscription of a source or holds one. -/
  quiet : ∀ (ctx : Context) (mode : Mode), (e.evaluate (ctx.inMode mode)).Quiet
  /-- No expression inside it is one that target mode refuses to evaluate. -/
  unrefused : ∀ n ∈ e.nodes, n.skips = false ∧ n.seeks = false

/-- An expression without lazy operators and finders is safe. -/
theorem safe_of_unrefused {e : Expr} (h : ∀ n ∈ e.nodes, n.skips = false ∧ n.seeks = false) :
    e.Safe := by
  have hstream : ∀ ctx : Context,
      e.evaluate (ctx.inMode .body) = e.evaluate (ctx.inMode .target) := by
    intro ctx
    have hunmoved : ∀ n ∈ e.nodes,
        n.Unmoved (ctx.inMode .target) ((ctx.inMode .target).elsewhere .body ctx.sources) := by
      intro n hn
      obtain ⟨hskips, hseeks⟩ := h n hn
      exact ⟨by rw [hskips]; rintro ⟨⟩, by rw [hseeks]; rintro ⟨⟩⟩
    exact evaluate_elsewhere e (ctx.inMode .target) hunmoved
  -- in target mode a compositional property holds without further ado
  have htarget : ∀ {P : {α : Type} → Machine α → Prop}, Compositional P → ∀ ctx : Context,
      P (e.evaluate (ctx.inMode .target)) := fun hP ctx =>
    hP.evaluate e (ctx.inMode .target) (Compositional.answers_target rfl _)
  refine ⟨fun ctx => (hstream ctx).symm, fun ctx => ?_, fun ctx mode => ?_, h⟩
  · obtain ⟨v, hv⟩ := htarget compositional_single ctx
    exact ⟨v, hv, hstream ctx ▸ hv⟩
  · have hquiet : (e.evaluate (ctx.inMode .target)).Quiet := htarget compositional_quiet ctx
    cases mode with
    | target => exact hquiet
    | body => exact hstream ctx ▸ hquiet

/-- **The check of targets is sound**: what has passed it is safe. -/
theorem safe_of_accepted {e : Expr} (h : e.Accepted) : e.Safe := by
  refine safe_of_unrefused (targetViolation?_eq_none.1 (validateTarget_eq_ok.1 ?_))
  cases h with
  | inl hok => exact hok
  | inr hdocument =>
    obtain ⟨d, hok, hmem⟩ := hdocument
    exact Document.validate_eq_ok.1 hok e hmem

/-- A finder in what an edit addresses passes the check. Edits do not follow it in either mode. -/
theorem safe_of_accepted_addressed :
    let e : Expr := .filter (.var "subject") [.remove false [.finder "role" [] false]]
    e.Accepted ∧ e.Safe :=
  ⟨.inl rfl, safe_of_accepted (.inl rfl)⟩

end Expr

end AccessPolicy
