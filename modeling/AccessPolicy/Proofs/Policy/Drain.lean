import AccessPolicy.Index.Retrieval
import AccessPolicy.Proofs.Evaluation.Compositional
import AccessPolicy.Proofs.Policy.Target
import AccessPolicy.Proofs.Stream.Drain

/-!
# Deciding with and without the target

The target of a document is answered once. What is decided from then on is what the document comes
to without its target: the stream that the answer opens makes no difference to what is given, time
after time. Where the answer is no, or where there is none, that is decided at once.
-/

namespace AccessPolicy

open Machine

/-! ## Everything that is decided -/

namespace Compositional

variable {P : {α : Type} → Machine α → Prop}

/-- The answer of a target asks nothing of the sources. -/
theorem targetStream (h : Compositional P) (target : Option Expr) (ctx : Context) :
    P (targetStream target ctx) := by
  cases target with
  | none => exact h.just _
  | some t =>
    exact h.map _ (h.first _ (h.evaluate t (ctx.inMode .target) (answers_target rfl _)))

section Sourced

variable (h : Compositional P) (ctx : Context)
  (hs : ∀ name q, P (ctx.sources.subscribe name q))
include h hs

theorem runBody (body : List Statement) : P (runBody body ctx) := by
  induction body generalizing ctx with
  | nil => exact h.just _
  | cons statement body ih =>
    cases statement with
    | condition test =>
      refine h.switch (h.evaluate test ctx fun _ f _ q => hs _ q) fun v => ?_
      split
      · exact ih ctx hs
      · exact h.just _
      · exact h.just _
    | define name value =>
      refine h.switch (h.evaluate value ctx fun _ f _ q => hs _ q) fun v => ?_
      split
      · exact ih _ hs
      · exact h.just _

/-- The decisions of a policy are those of a stream that is over once it has ended, without the
repetitions. -/
theorem exists_evaluatePolicy (p : Policy) :
    ∃ m, p.evaluate ctx = m.distinct (· == ·) ∧ P m ∧ m.Fused := by
  refine ⟨_, rfl, h.switch (h.runBody (ctx.inMode .body) hs p.body) fun result => ?_,
    fused_switchMap _ _⟩
  split
  · next scope =>
    exact h.map _ (h.combine (h.evaluateAll p.attachments _ fun _ f _ q => hs _ q))
  · exact h.just _
  · exact h.just _

theorem evaluatePolicy (p : Policy) : P (p.evaluate ctx) := by
  obtain ⟨m, heq, hm, -⟩ := h.exists_evaluatePolicy ctx hs p
  exact heq ▸ h.distinct _ hm

theorem decidePolicy (p : Policy) : P (p.decide ctx) := by
  refine h.switch (h.targetStream p.target ctx) fun answer => ?_
  split
  · exact h.evaluatePolicy ctx hs p
  · exact h.just _
  · exact h.just _

theorem runDefinitions (definitions : List (String × Expr)) :
    P (runDefinitions definitions ctx) := by
  induction definitions generalizing ctx with
  | nil => exact h.just _
  | cons definition definitions ih =>
    refine h.switch (h.evaluate definition.2 ctx fun _ f _ q => hs _ q) fun v => ?_
    split
    · exact ih _ hs
    · exact h.just _

/-- So are those of a set, unless its algorithm is unknown. -/
theorem exists_evaluateSet (s : PolicySet) :
    (∃ m, s.evaluate ctx = m.distinct (· == ·) ∧ P m ∧ m.Fused)
      ∨ s.evaluate ctx = Machine.just Decision.indeterminate := by
  unfold PolicySet.evaluate
  split
  · exact .inr rfl
  · have hscopes := h.runDefinitions (ctx.inMode .body) hs s.definitions
    refine .inl ⟨_, rfl, h.switch hscopes fun scope => ?_, fused_switchMap _ _⟩
    split
    · refine h.distinct _ (h.map _ (h.combine fun m hm => ?_))
      obtain ⟨p, -, rfl⟩ := List.mem_map.1 hm
      exact h.decidePolicy ((ctx.inMode .body).within _) hs p
    · exact h.just _

/-- What a document comes to without its target is a stream without repetitions that is over once
it has ended, or a single decision. -/
theorem exists_evaluateDocument (d : Document) :
    (∃ m, d.evaluate ctx = m.distinct (· == ·) ∧ P m ∧ m.Fused)
      ∨ d.evaluate ctx = Machine.just Decision.indeterminate := by
  unfold Document.evaluate
  split
  · exact .inl (h.exists_evaluatePolicy (ctx.importing d.imports) hs _)
  · exact h.exists_evaluateSet (ctx.importing d.imports) hs _

theorem evaluateSet (s : PolicySet) : P (s.evaluate ctx) := by
  obtain ⟨m, heq, hm, -⟩ | heq := h.exists_evaluateSet ctx hs s
  · exact heq ▸ h.distinct _ hm
  · exact heq ▸ h.just _

theorem evaluateDocument (d : Document) : P (d.evaluate ctx) := by
  unfold Document.evaluate
  split
  · exact h.evaluatePolicy (ctx.importing d.imports) hs _
  · exact h.evaluateSet (ctx.importing d.imports) hs _

theorem decideDocument (d : Document) : P (d.decide ctx) := by
  refine h.distinct _ (h.switch (h.targetStream d.target _) fun answer => ?_)
  split
  · exact h.evaluateDocument ctx hs d
  · exact h.just _
  · exact h.just _

theorem combinedMatches (r : Matches) (algorithm : Algorithm) :
    P (r.combined ctx algorithm) := by
  unfold Matches.combined
  split
  · refine h.distinct _ (h.map _ (h.combine fun m hm => ?_))
    obtain ⟨d, -, rfl⟩ := List.mem_map.1 hm
    exact h.evaluateDocument ctx hs d
  · exact h.just _

end Sourced

end Compositional

namespace Document

variable {d : Document} {ctx : Context}

/-- The target of a document gives the answer, and nothing more. -/
theorem gives_answer (d : Document) (ctx : Context) :
    (targetStream d.target (ctx.importing d.imports)).Gives (d.answer ctx).1 := by
  obtain ⟨v, hv⟩ := compositional_single.targetStream d.target (ctx.importing d.imports)
  have hanswer : (d.answer ctx).1 = v := by
    show ((targetStream d.target (ctx.importing d.imports)).run []).values.head?.getD _ = v
    rw [(hv.run []).1]
    rfl
  exact hanswer ▸ hv

/-! ## What makes no difference -/

/-- What a document comes to without its target can be asked for once too often if the sources are
steady, and it is over once it has ended. To drop its repetitions drops nothing. -/
theorem settled_evaluate (d : Document) (hs : ctx.sources.Steady) :
    (d.evaluate ctx).Steady ∧ (d.evaluate ctx).Fused
      ∧ ((d.evaluate ctx).distinct (· == ·)).DrainsLike (d.evaluate ctx) := by
  obtain ⟨m, heq, hm, hfused⟩ | heq :=
    compositional_steady.exists_evaluateDocument ctx hs.subscribe d
  · rw [heq]
    exact ⟨hm.distinct _, hfused.distinct _, hm.drainsLike_distinct _⟩
  · rw [heq]
    exact ⟨steady_just _, fused_just _, ((gives_just _).distinct _).drainsLike (gives_just _)⟩

/-! ## The two stages -/

/-- A document whose target is false is decided to be not applicable, at once. -/
theorem gives_decide_of_false (h : (d.answer ctx).1.bool? = some false) :
    (d.decide ctx).Gives Decision.notApplicable := by
  refine ((gives_answer d ctx).switchMap ?_).distinct _
  rw [h]
  exact gives_just _

/-- A document whose target has no truth value is decided to be indeterminate, at once. -/
theorem gives_decide_of_none (h : (d.answer ctx).1.bool? = none) :
    (d.decide ctx).Gives Decision.indeterminate := by
  refine ((gives_answer d ctx).switchMap ?_).distinct _
  rw [h]
  exact gives_just _

/-- **A document whose target is true** is decided as what it comes to without the target, if the
sources are steady: the stream that the answer opens polls them once more than the other. -/
theorem drainsLike_decide (hs : ctx.sources.Steady) (h : (d.answer ctx).1.bool? = some true) :
    (d.decide ctx).DrainsLike (d.evaluate ctx) := by
  obtain ⟨hsteady, hfused, hdistinct⟩ := settled_evaluate d hs
  have htarget := compositional_steady.targetStream d.target (ctx.importing d.imports)
  have hopens := gives_answer d ctx
  unfold decide
  -- the answer opens a stream, and with the answer given it is the one without the target
  refine ((hopens.drainsLike_switchMap htarget ?rest ?fused).distinct _
    (htarget.switchMap ?rest) (?rest _)).trans ?same
  case rest =>
    intro answer
    split
    · exact hsteady
    · exact steady_just _
    · exact steady_just _
  case fused =>
    rw [h]
    exact hfused
  case same =>
    rw [h]
    exact hdistinct

end Document

end AccessPolicy
