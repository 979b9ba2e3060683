import AccessPolicy.Policy.Decide
import AccessPolicy.Proofs.Evaluation.Adequacy

/-!
# The answers of targets

In target mode an expression asks nothing of the sources, so that its stream has a single value
however the attributes are: its meaning. The answer of a target is that value if it is a truth
value or an error, and otherwise an error.
-/

namespace AccessPolicy

open Machine Reading

/-- **In target mode** an expression gives its meaning as its single value, whatever the
attributes. -/
theorem Expr.gives_target (ctx : Context) (hp : ctx.functions.Pure) (hm : ctx.mode = .target)
    (attributes : String → Query → Value) (e : Expr) :
    ∃ v, (e.evaluate ctx).Gives v ∧ v.bare = e.meaning attributes ctx.bare :=
  tells_evaluate single (fun _ => attributes) e ctx hp fun hbody => by rw [hm] at hbody; cases hbody

namespace Value

theorem bare_asTarget (v : Value) : v.asTarget.bare = v.bare.asTarget := by
  unfold asTarget
  rw [isError_bare, bool?_bare]
  split <;> rfl

/-- An answer is a truth value exactly if the value of the target is. -/
theorem bool?_asTarget (v : Value) : v.asTarget.bool? = v.bool? := by
  unfold asTarget
  split
  · rfl
  · next h =>
    rw [Bool.or_eq_true, not_or] at h
    exact (Option.not_isSome_iff_eq_none.1 h.2).symm

/-- An answer that is no error is a truth value. -/
theorem isSome_bool?_asTarget {v : Value} (h : v.asTarget.isError = false) :
    v.asTarget.bool?.isSome = true := by
  unfold asTarget at h ⊢
  split
  · next hor =>
    rw [if_pos hor] at h
    rw [h, Bool.false_or] at hor
    exact hor
  · next hor =>
    rw [if_neg hor] at h
    cases h

end Value

/-- What a target means in a context. -/
def targetMeaning (target : Option Expr) (ctx : Context) : Value :=
  match target with
  | none => Value.bool true
  | some t => (t.meaning (fun _ _ => Value.undefined) (ctx.inMode .target).bare).asTarget

/-- **The stream of the answer of a target** gives what the target means, and nothing more. -/
theorem gives_targetStream (ctx : Context) (hp : ctx.functions.Pure) (target : Option Expr) :
    ∃ v, (targetStream target ctx).Gives v ∧ v.bare = targetMeaning target ctx := by
  cases target with
  | none => exact ⟨_, gives_just _, rfl⟩
  | some t =>
    obtain ⟨v, hv, hmeans⟩ := Expr.gives_target (ctx.inMode .target) hp rfl
      (fun _ _ => Value.undefined) t
    refine ⟨v.asTarget, ?_, ?_⟩
    · exact (gives_once (hv.first_followedBy _)).mapReporting fun v => (v.asTarget, [])
    · rw [Value.bare_asTarget, hmeans]
      rfl

/-- The answer of a target is what the target means. -/
theorem bare_evaluateTarget (ctx : Context) (hp : ctx.functions.Pure) (target : Option Expr) :
    (evaluateTarget target ctx).1.bare = targetMeaning target ctx := by
  obtain ⟨v, hv, hmeans⟩ := gives_targetStream ctx hp target
  show (((targetStream target ctx).run []).values.head?.getD _).bare = _
  rw [(hv.run []).1]
  exact hmeans

/-- The answer of a document is what its target means under its own imports. -/
theorem Document.bare_answer {ctx : Context} (hp : ctx.functions.Pure) (d : Document) :
    (d.answer ctx).1.bare = targetMeaning d.target (ctx.importing d.imports) :=
  bare_evaluateTarget (ctx.importing d.imports) hp d.target

end AccessPolicy
