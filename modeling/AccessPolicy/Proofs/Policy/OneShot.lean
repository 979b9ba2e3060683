import AccessPolicy.Policy.Decide
import AccessPolicy.Proofs.Evaluation.Compositional
import AccessPolicy.Proofs.Evaluation.Surroundings

/-!
# Evaluations that take one poll

Only attributes make an evaluation last: it is because of them that an expression is evaluated to a
stream and not to a value. Where none is looked up, be it that the expression contains no finder or
that target mode refuses the finders, the stream is **one-shot**. Its first poll gives a value and
its second one the end, and the sources are neither asked nor of any account.

Targets are always evaluated in target mode. So a target has a value of its own in every case, and
the error that would stand in for a missing one is never given.
-/

namespace AccessPolicy

open Machine

/-- A stream of a single value is never pending. -/
theorem Machine.Gives.answer_ne_pending {α : Type} {m : Machine α} {a : α} {history : List Feeds}
    {s : m.State} {last : Option α} (h : m.Gives a) (hs : m.Reached history s last)
    (feeds : Feeds) : (m.poll feeds s).answer ≠ .pending := by
  intro hp
  rcases h.reached hs with ⟨rfl, -⟩ | ⟨feeds', rfl, -⟩ | ⟨hover, -⟩
  · cases (h.first feeds).symm.trans hp
  · cases (h.second feeds' feeds).symm.trans hp
  · cases (hover feeds).1.symm.trans hp

/-- In target mode no finder gets to a source. -/
theorem Context.find_of_target {ctx : Context} (h : ctx.mode = .target) :
    ctx.find = fun _ _ _ _ => just (Value.fault .finderInTarget) := by
  funext subject name arguments head
  unfold find
  rw [h]

namespace Expr

variable {e : Expr} {ctx : Context}

/-- **A one-shot expression** in a context. -/
structure OneShot (e : Expr) (ctx : Context) : Prop where
  /-- Its first poll gives a value and its second one the end, and the value is the same whatever
  the sources of the context are. -/
  single : ∃ v, ∀ sources : Sources, (e.evaluate (ctx.elsewhere ctx.mode sources)).Gives v
  /-- It is never pending, in any course of time. -/
  prompt : ∀ history s last, (e.evaluate ctx).Reached history s last →
    ∀ feeds, ((e.evaluate ctx).poll feeds s).answer ≠ .pending
  /-- It opens no subscription and holds none. -/
  quiet : (e.evaluate ctx).Quiet

/-- **An expression answers for itself** as a target. -/
structure AnswersForItself (e : Expr) (ctx : Context) (v : Value) : Prop where
  /-- In target mode the expression gives the value. -/
  value : (e.evaluate (ctx.inMode .target)).Gives v
  /-- What would stand in for a missing value is of no account. -/
  standIn : ∀ other : Value, ((e.evaluate (ctx.inMode .target)).followedBy other).once.Gives v
  /-- The stream of the answer gives the value as an answer, and the answer is that. -/
  stream : (targetStream (some e) ctx).Gives v.asTarget
  answer : (evaluateTarget (some e) ctx).1 = v.asTarget

/-- An expression that looks up an attribute has a finder. -/
theorem seeks_eq_false {n : Expr} (h : n.ownFinders = []) : n.seeks = false := by
  cases n with
  | finder name arguments head => cases h
  | path base steps =>
    refine List.any_eq_false.2 fun s hs hfinder => ?_
    cases s with
    | finder name arguments head =>
      have hnone : (Step.finder name arguments head).finder? = none :=
        List.filterMap_eq_nil_iff.1 h _ hs
      cases hnone
    | _ => cases hfinder
  | _ => rfl

theorem ownFinders_eq_nil (h : e.finders = []) {n : Expr} (hn : n ∈ e.nodes) :
    n.ownFinders = [] :=
  List.flatMap_eq_nil_iff.1 h n hn

/-- Where no attribute is looked up the sources make no difference. -/
theorem evaluate_otherSources (h : ctx.mode = .target ∨ e.finders = []) (sources : Sources) :
    e.evaluate (ctx.elsewhere ctx.mode sources) = e.evaluate ctx := by
  refine evaluate_elsewhere e ctx fun n hn => ⟨fun _ => rfl, fun hseeks => ?_⟩
  cases h with
  | inl hmode =>
    rw [Context.find_of_target hmode]
    exact Context.find_of_target hmode
  | inr hfree =>
    rw [seeks_eq_false (ownFinders_eq_nil hfree hn)] at hseeks
    cases hseeks

/-- Where no attribute is looked up a compositional property holds of the stream. -/
theorem evaluate_unasked {P : {α : Type} → Machine α → Prop} (hP : Compositional P)
    (h : ctx.mode = .target ∨ e.finders = []) : P (e.evaluate ctx) := by
  refine hP.evaluate e ctx ?_
  cases h with
  | inl hmode => exact Compositional.answers_target hmode _
  | inr hfree =>
    rw [hfree]
    rintro _ f ⟨⟩

theorem oneShot_of_unasked (h : ctx.mode = .target ∨ e.finders = []) : e.OneShot ctx := by
  obtain ⟨v, hv⟩ := evaluate_unasked compositional_single h
  refine ⟨⟨v, fun sources => ?_⟩, fun history s last hs feeds => ?_, ?_⟩
  · rw [evaluate_otherSources h]
    exact hv
  · exact hv.answer_ne_pending hs feeds
  · exact evaluate_unasked compositional_quiet h

/-- A target is a one-shot evaluation, so what follows its end does not come first. -/
theorem exists_answersForItself (e : Expr) (ctx : Context) : ∃ v, e.AnswersForItself ctx v := by
  obtain ⟨v, hv⟩ : (e.evaluate (ctx.inMode .target)).Single :=
    evaluate_unasked compositional_single (.inl rfl)
  have hfirst : ∀ other : Value,
      ((e.evaluate (ctx.inMode .target)).followedBy other).once.Gives v :=
    fun other => gives_once (hv.first_followedBy other)
  have hstream : (targetStream (some e) ctx).Gives v.asTarget :=
    (hfirst (Value.fault .targetWithoutValue)).mapReporting fun v => (v.asTarget, [])
  refine ⟨v, hv, hfirst, hstream, ?_⟩
  show ((targetStream (some e) ctx).run []).values.head?.getD _ = _
  rw [(hstream.run []).1]
  rfl

/-- **Evaluation without attributes takes one poll.** In target mode, or if it contains no finder,
an expression is one-shot. Hence every target answers for itself. -/
theorem takes_one_poll (h : ctx.mode = .target ∨ e.finders = []) :
    e.OneShot ctx ∧ ∀ (target : Expr) (outer : Context), ∃ v, target.AnswersForItself outer v :=
  ⟨oneShot_of_unasked h, exists_answersForItself⟩

/-- In target mode, a condition on the children of what a finder would find. The source hangs. -/
theorem takes_one_poll_hanging :
    let e : Expr := .path (.finder "groups" [] false) [.condition .relative]
    let ctx : Context := { sources := [("groups", .script [.hang])], mode := .target }
    (ctx.mode = .target ∨ e.finders = []) ∧ e.OneShot ctx
      ∧ ∀ (target : Expr) (outer : Context), ∃ v, target.AnswersForItself outer v :=
  ⟨.inl rfl, takes_one_poll (.inl rfl)⟩

end Expr

end AccessPolicy
