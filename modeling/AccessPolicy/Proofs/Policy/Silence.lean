import AccessPolicy.Proofs.Policy.Drain
import AccessPolicy.Proofs.Policy.Reference
import AccessPolicy.Proofs.Stream.Silence

/-!
# Decisions that never come

A stream of decisions may end without a decision. A source that ends without a value leaves the
expression that asks it without one, and from there the silence goes all the way up: through the
statements of a body, through what goes along with a decision, through the definitions of a set and
through its members. Only a target is protected, since an error stands in for a value that does not
come.

This is the one way in which a decision fails to come. If a stream of decisions has ended and has
not given any, then a finder outside the targets asks a source that has ended without a value.
-/

namespace AccessPolicy

open Machine

variable {history : List Feeds}

/-! ## Expressions -/

/-- **An expression lacks an answer**: one of its finders asks a source that is barren. -/
def Expr.Lacks (e : Expr) (ctx : Context) (history : List Feeds) : Prop :=
  ∃ f ∈ e.finders, ∃ q, (ctx.sources.subscribe (ctx.resolve f.1) q).Barren history

namespace Expr

variable {e : Expr} {ctx ctx' : Context}

theorem Lacks.of_since {older newer : List Feeds} (h : e.Lacks ctx newer)
    (hs : Since older newer history) : e.Lacks ctx history := by
  obtain ⟨f, hf, q, hq⟩ := h
  exact ⟨f, hf, q, hq.of_since hs⟩

theorem Lacks.of_shares (h : e.Lacks ctx' history) (hs : ctx.Shares ctx') :
    e.Lacks ctx history := by
  obtain ⟨f, hf, q, hq⟩ := h
  refine ⟨f, hf, q, ?_⟩
  rwa [hs.sources, Context.resolve, hs.imports]

/-- An expression is barren only for lack of an answer. -/
theorem lacks_of_barren (h : (e.evaluate ctx).Barren history) : e.Lacks ctx history := by
  by_contra hall
  exact (compositional_not_barren history).evaluate e ctx
    (fun _ f hf q hq => hall ⟨f, hf, q, hq⟩) h

end Expr

/-! ## Bodies and definitions -/

theorem lacks_of_barren_runBody {body : List Statement} {ctx : Context}
    (h : (runBody body ctx).Barren history) :
    ∃ e ∈ body.map Statement.expr, e.Lacks ctx history := by
  induction body generalizing ctx history with
  | nil => exact absurd h (gives_just _).not_barren
  | cons statement body ih =>
    simp only [List.map_cons, List.mem_cons, exists_eq_or_imp]
    cases statement with
    | condition test =>
      rcases barren_switchMap h with hbarren | ⟨v, older, newer, hsince, -, hbarren⟩
      · exact .inl (Expr.lacks_of_barren hbarren)
      · split at hbarren
        · obtain ⟨e, he, hlacks⟩ := ih hbarren
          exact .inr ⟨e, he, hlacks.of_since hsince⟩
        · exact absurd hbarren (gives_just _).not_barren
        · exact absurd hbarren (gives_just _).not_barren
    | define name value =>
      rcases barren_switchMap h with hbarren | ⟨v, older, newer, hsince, -, hbarren⟩
      · exact .inl (Expr.lacks_of_barren hbarren)
      · split at hbarren
        · obtain ⟨e, he, hlacks⟩ := ih hbarren
          exact .inr ⟨e, he, hlacks.of_since hsince⟩
        · exact absurd hbarren (gives_just _).not_barren

theorem lacks_of_barren_runDefinitions {definitions : List (String × Expr)} {ctx : Context}
    (h : (runDefinitions definitions ctx).Barren history) :
    ∃ e ∈ definitions.map Prod.snd, e.Lacks ctx history := by
  induction definitions generalizing ctx history with
  | nil => exact absurd h (gives_just _).not_barren
  | cons definition definitions ih =>
    simp only [List.map_cons, List.mem_cons, exists_eq_or_imp]
    rcases barren_switchMap h with hbarren | ⟨v, older, newer, hsince, -, hbarren⟩
    · exact .inl (Expr.lacks_of_barren hbarren)
    · split at hbarren
      · obtain ⟨e, he, hlacks⟩ := ih hbarren
        exact .inr ⟨e, he, hlacks.of_since hsince⟩
      · exact absurd hbarren (gives_just _).not_barren

/-! ## Decisions -/

/-- The answer of a target never fails to come. -/
theorem not_barren_targetStream (target : Option Expr) (ctx : Context) :
    ¬ (targetStream target ctx).Barren history :=
  (compositional_not_barren history).targetStream target ctx

theorem Policy.lacks_of_barren_evaluate {p : Policy} {ctx : Context}
    (h : (p.evaluate ctx).Barren history) : ∃ e ∈ p.exprs, e.Lacks ctx history := by
  have hmode := ctx.shares_inMode .body
  rcases barren_switchMap (barren_distinct h) with
    hbarren | ⟨result, older, newer, hsince, -, hbarren⟩
  · obtain ⟨e, he, hlacks⟩ := lacks_of_barren_runBody hbarren
    exact ⟨e, List.mem_append_left _ he, hlacks.of_shares hmode⟩
  · cases result with
    | notApplicable => exact absurd hbarren (gives_just _).not_barren
    | indeterminate => exact absurd hbarren (gives_just _).not_barren
    | holds scope =>
      have hshares := hmode.trans ((ctx.inMode .body).shares_within scope)
      obtain ⟨m, hm, hbarren⟩ := barren_combineLatest (barren_mapReporting hbarren)
      rw [Expr.evaluateAll_eq_map] at hm
      obtain ⟨e, he, rfl⟩ := List.mem_map.1 hm
      exact ⟨e, List.mem_append_right _ he,
        ((Expr.lacks_of_barren hbarren).of_shares hshares).of_since hsince⟩

theorem Policy.lacks_of_barren_decide {p : Policy} {ctx : Context}
    (h : (p.decide ctx).Barren history) : ∃ e ∈ p.exprs, e.Lacks ctx history := by
  rcases barren_switchMap h with hbarren | ⟨answer, older, newer, hsince, -, hbarren⟩
  · exact absurd hbarren (not_barren_targetStream _ _)
  · split at hbarren
    · obtain ⟨e, he, hlacks⟩ := lacks_of_barren_evaluate hbarren
      exact ⟨e, he, hlacks.of_since hsince⟩
    · exact absurd hbarren (gives_just _).not_barren
    · exact absurd hbarren (gives_just _).not_barren

theorem PolicySet.lacks_of_barren_evaluate {s : PolicySet} {ctx : Context}
    (h : (s.evaluate ctx).Barren history) : ∃ e ∈ s.exprs, e.Lacks ctx history := by
  have hmode := ctx.shares_inMode .body
  unfold PolicySet.evaluate at h
  split at h
  · exact absurd h (gives_just _).not_barren
  · rcases barren_switchMap (barren_distinct h) with
      hbarren | ⟨scope, older, newer, hsince, -, hbarren⟩
    · obtain ⟨e, he, hlacks⟩ := lacks_of_barren_runDefinitions hbarren
      exact ⟨e, List.mem_append_left _ he, hlacks.of_shares hmode⟩
    · cases scope with
      | none => exact absurd hbarren (gives_just _).not_barren
      | some scope =>
        have hshares := hmode.trans ((ctx.inMode .body).shares_within scope)
        obtain ⟨m, hm, hbarren⟩ :=
          barren_combineLatest (barren_mapReporting (barren_distinct hbarren))
        obtain ⟨p, hp, rfl⟩ := List.mem_map.1 hm
        obtain ⟨e, he, hlacks⟩ := Policy.lacks_of_barren_decide hbarren
        exact ⟨e, List.mem_append_right _ (List.mem_flatMap.2 ⟨p, hp, he⟩),
          (hlacks.of_shares hshares).of_since hsince⟩

namespace Document

theorem lacks_of_barren_evaluate {d : Document} {ctx : Context}
    (h : (d.evaluate ctx).Barren history) :
    ∃ e ∈ d.exprs, e.Lacks (ctx.importing d.imports) history := by
  obtain ⟨imports, element⟩ := d
  cases element with
  | policy p => exact Policy.lacks_of_barren_evaluate h
  | set s => exact PolicySet.lacks_of_barren_evaluate h

theorem lacks_of_barren_decide {d : Document} {ctx : Context}
    (h : (d.decide ctx).Barren history) :
    ∃ e ∈ d.exprs, e.Lacks (ctx.importing d.imports) history := by
  rcases barren_switchMap (barren_distinct h) with
    hbarren | ⟨answer, older, newer, hsince, -, hbarren⟩
  · exact absurd hbarren (not_barren_targetStream _ _)
  · split at hbarren
    · obtain ⟨e, he, hlacks⟩ := lacks_of_barren_evaluate hbarren
      exact ⟨e, he, hlacks.of_since hsince⟩
    · exact absurd hbarren (gives_just _).not_barren
    · exact absurd hbarren (gives_just _).not_barren

/-- **A decision comes before the end**, unless a source has nothing to say. If none of the sources
that the finders outside the targets ask ends without a value, then a stream of decisions that has
ended has given a decision. -/
theorem decides_before_end {d : Document} {ctx : Context} {last : Option Decision}
    (hsources : ∀ e ∈ d.exprs, ∀ f ∈ e.finders, ∀ q,
      ¬ (ctx.sources.subscribe ((ctx.importing d.imports).resolve f.1) q).Barren history)
    (hend : (d.decide ctx).Finished history last) :
    ∃ decision, last = some decision ∧ (d.decide ctx).Emitted history decision := by
  cases last with
  | some decision => exact ⟨decision, rfl, hend.emitted⟩
  | none =>
    obtain ⟨e, he, f, hf, q, hbarren⟩ := lacks_of_barren_decide hend
    exact absurd hbarren (hsources e he f hf q)

/-- A policy with a condition on an attribute that has a value. -/
theorem decides_before_end_cleared :
    let d : Document := { element := .policy { name := "p", entitlement := .permit,
                                               body := [.condition (.finder "clear" [] false)] } }
    let ctx : Context := { sources := [("clear", .script [.value (Value.bool true)])] }
    (∀ e ∈ d.exprs, ∀ f ∈ e.finders, ∀ q,
        ¬ (ctx.sources.subscribe ((ctx.importing d.imports).resolve f.1) q).Barren [[]])
      ∧ ∃ decision, some ⟨.permit, none, [], []⟩ = some decision
        ∧ (d.decide ctx).Emitted [[]] decision := by
  intro d ctx
  have hsource : ∀ q, (ctx.sources.subscribe "clear" q).Gives (Value.bool true) :=
    Sources.gives_subscribe rfl
  have hsources : ∀ e ∈ d.exprs, ∀ f ∈ e.finders, ∀ q,
      ¬ (ctx.sources.subscribe ((ctx.importing d.imports).resolve f.1) q).Barren [[]] := by
    intro e he f hf q
    obtain rfl : e = .finder "clear" [] false := List.mem_singleton.1 he
    obtain rfl : f = ("clear", false) := List.mem_singleton.1 hf
    exact (hsource q).not_barren
  have hcondition : ((Expr.finder "clear" [] false).evaluate (ctx.importing [])).Gives
      (Value.bool true) :=
    (gives_combineLatest .nil).switchMap (hsource _)
  have hbody : (runBody [.condition (.finder "clear" [] false)] (ctx.importing [])).Gives
      (.holds []) :=
    hcondition.switchMap (gives_just _)
  have hpolicy : (d.evaluate ctx).Gives ⟨.permit, none, [], []⟩ :=
    (hbody.switchMap ((gives_combineLatest .nil).mapReporting _)).distinct _
  have hdecide : (d.decide ctx).Gives ⟨.permit, none, [], []⟩ :=
    ((gives_just (Value.bool true)).switchMap hpolicy).distinct _
  exact ⟨hsources, decides_before_end hsources (hdecide.finished [] [])⟩

/-- A policy with a condition on an attribute that never has a value: the stream of its decisions
ends, and no decision has come. -/
theorem decide_silent :
    let d : Document := { element := .policy { name := "p", entitlement := .permit,
                                               body := [.condition (.finder "silent" [] false)] } }
    let ctx : Context := { sources := [("silent", .script [])] }
    (d.decide ctx).Barren [[]] ∧ ((d.decide ctx).run []).values = []
      ∧ ((d.decide ctx).run []).ended = true := by
  intro d ctx
  have hsource : ∀ q, (ctx.sources.subscribe "silent" q).Mute := fun q feeds => rfl
  have hmute : (d.decide ctx).Mute := by
    have hcondition : ((Expr.finder "silent" [] false).evaluate (ctx.importing [])).Mute :=
      (gives_combineLatest .nil).mute_switchMap (hsource _)
    have hpolicy : (d.evaluate ctx).Mute := ((hcondition.switchMap _).switchMap _).distinct _
    exact ((gives_just (Value.bool true)).mute_switchMap hpolicy).distinct _
  exact ⟨hmute.barren [] [], hmute.run []⟩

end Document

end AccessPolicy
