import AccessPolicy.Function.Library
import AccessPolicy.Proofs.Index.History
import AccessPolicy.Proofs.Policy.Drain
import AccessPolicy.Proofs.Retrieval.History
import AccessPolicy.Proofs.Stream.Supply

/-!
# Two routes to a decision

A document can be decided by itself, target and all, or it is retrieved first and what it comes to
without its target is its decision. Where the target has a truth value and the result is valid, the
two routes agree: they drain alike if the document was found, and otherwise it is not applicable.
That they drain alike takes steady sources, since the first route asks them once more than the
second (`Supply.not_drainsLike_reluctant`).

A target without a truth value is decided to be indeterminate. The naive index lets no such target
pass in a valid result. The canonical one evaluates what is left of a target in its formula, and
where nothing of the part without a value is left, the result is valid all the same.
-/

namespace AccessPolicy

open Machine

/-! ## Either kind of index -/

namespace Index

variable {index : Index} {ctx : Context} {d : Document}

/-- The kind of an index. -/
def kind : Index → IndexKind
  | canonical _ => .canonical
  | naive _ => .naive

@[simp] theorem kind_empty (kind : IndexKind) (limit : Nat) : (empty kind limit).kind = kind := by
  cases kind <;> rfl

@[simp] theorem kind_insert (index : Index) (d : Document) :
    (index.insert d).kind = index.kind := by
  cases index <;> rfl

@[simp] theorem kind_erase (index : Index) (name : String) :
    (index.erase name).kind = index.kind := by
  cases index <;> rfl

/-- A document whose target has a truth value is found if it is true. -/
theorem Sound.found_iff (h : index.Sound) (hp : ctx.functions.Pure) {b : Bool}
    (hd : d ∈ index.documents) (hb : d.truth? ctx = some b) :
    d ∈ (index.retrieve ctx).found.documents ↔ b = true := by
  cases h with
  | canonical c hsound => exact hsound.found_iff hp hd hb
  | naive n =>
    show d ∈ (n.retrieve ctx).found.documents ↔ b = true
    rw [n.found_documents, List.mem_filter, hb]
    exact (and_iff_right hd).trans (by simp)

/-- If all targets have truth values the result is valid. -/
theorem Sound.valid_of_answered (h : index.Sound) (hp : ctx.functions.Pure)
    (hall : ∀ d ∈ index.documents, (d.truth? ctx).isSome = true) :
    (index.retrieve ctx).found.valid = true := by
  cases h with
  | canonical c hsound => exact (hsound.found_of_answered hp hall).2
  | naive n => exact (n.found_valid ctx).trans (List.all_eq_true.2 hall)

/-- In a valid result of the naive index all targets have truth values. -/
theorem isSome_truth?_of_naive (hkind : index.kind = .naive)
    (hvalid : (index.retrieve ctx).found.valid = true) (hd : d ∈ index.documents) :
    (d.truth? ctx).isSome = true := by
  cases index with
  | canonical c => cases hkind
  | naive n => exact List.all_eq_true.1 ((n.found_valid ctx).symm.trans hvalid) d hd

end Index

namespace Holdings

/-- No update changes the kind of the index. -/
theorem kind_update (h : Holdings) (u : Update) : (h.update u).index.kind = h.index.kind := by
  obtain ⟨d, -, -, -, heq⟩ | ⟨name, reason, -, -, -, heq⟩ | ⟨name, -, -, -, heq⟩ | rfl :=
    h.update_cases u
  · rw [heq, Index.kind_insert]
  · rw [heq, reject, Index.kind_erase]
  · rw [heq, Index.kind_erase]
  · rfl

theorem kind_after (c : Config) (updates : List Update) :
    ((empty c).after updates).index.kind = c.index := by
  induction updates using List.reverseRecOn with
  | nil => exact Index.kind_empty _ _
  | append_singleton updates u ih => rw [after_concat, kind_update, ih]

end Holdings

/-! ## The routes -/

/-- **The two routes to the decision of a document agree** on what was found: if it was found then
what it comes to without its target drains like its decision, provided that the sources are steady,
and if it was not then it is decided to be not applicable, and nothing else. -/
structure Matches.Agree (found : Matches) (d : Document) (ctx : Context) : Prop where
  matched : d ∈ found.documents → ctx.sources.Steady → (d.decide ctx).DrainsLike (d.evaluate ctx)
  unmatched : d ∉ found.documents → (d.decide ctx).Gives Decision.notApplicable

/-- The routes agree on a document that was found exactly if its target is true. -/
theorem Matches.agree_of_truth? {found : Matches} {d : Document} {ctx : Context} {b : Bool}
    (hb : d.truth? ctx = some b) (hfound : d ∈ found.documents ↔ b = true) : found.Agree d ctx where
  matched hd hs := Document.drainsLike_decide hs (by rw [← hfound.1 hd]; exact hb)
  unmatched hd := by
    have hfalse : b = false := Bool.eq_false_iff.2 fun htrue => hd (hfound.2 htrue)
    exact Document.gives_decide_of_false (by rw [← hfalse]; exact hb)

namespace RetrievalPoint

variable {p : RetrievalPoint} {ctx : Context}

theorem find_of_not_inconsistent (h : p.standing ≠ .inconsistent) (ctx : Context) :
    p.find ctx = p.holdings.index.retrieve ctx := by
  unfold find
  split
  · next hstanding => exact absurd hstanding h
  · rfl

/-- In an inconsistent state there is no valid result. -/
theorem not_inconsistent_of_valid (h : (p.find ctx).found.valid = true) :
    p.standing ≠ .inconsistent := by
  intro hinconsistent
  rw [find_of_inconsistent hinconsistent] at h
  cases h

section After

variable (c : Config) (commands : List Command)

theorem sound_index_after : ((new c).after commands).holdings.index.Sound := by
  rw [(holdings_after c commands).2]
  exact (Holdings.sound_after c (recent commands)).index

/-- A document whose target has a truth value is found if it is true. -/
theorem found_iff (hp : ctx.functions.Pure)
    (hopen : ((new c).after commands).standing ≠ .inconsistent) {d : Document} {b : Bool}
    (hd : d ∈ ((new c).after commands).documents) (hb : d.truth? ctx = some b) :
    d ∈ (((new c).after commands).find ctx).found.documents ↔ b = true := by
  rw [find_of_not_inconsistent hopen]
  exact (sound_index_after c commands).found_iff hp hd hb

/-- If no target is evaluated to an error then the result is valid. -/
theorem valid_of_answered (hp : ctx.functions.Pure)
    (hopen : ((new c).after commands).standing ≠ .inconsistent)
    (hall : ∀ d ∈ ((new c).after commands).documents, (d.answer ctx).1.isError = false) :
    (((new c).after commands).find ctx).found.valid = true := by
  rw [find_of_not_inconsistent hopen]
  exact (sound_index_after c commands).valid_of_answered hp fun d hd =>
    Document.isSome_truth? hp (hall d hd)

/-- **The routes agree** after any batches and resets wherever the result is valid, on every
document whose target is not evaluated to an error. On the naive index they agree on every
document, because there a valid result says that no target is. -/
theorem routes_agree (hp : ctx.functions.Pure) (elapsed : Nat)
    (hvalid : (((new c).after commands).retrieve ctx elapsed).1.found.valid = true) :
    ∀ d ∈ ((new c).after commands).documents,
      (c.index = .naive ∨ (d.answer ctx).1.isError = false) →
        (((new c).after commands).retrieve ctx elapsed).1.found.Agree d ctx := by
  intro d hd hanswered
  change (((new c).after commands).find ctx).found.valid = true at hvalid
  show (((new c).after commands).find ctx).found.Agree d ctx
  have hopen := not_inconsistent_of_valid hvalid
  have htruth : (d.truth? ctx).isSome = true := by
    rcases hanswered with hnaive | hanswered
    · rw [find_of_not_inconsistent hopen] at hvalid
      refine Index.isSome_truth?_of_naive ?_ hvalid hd
      rw [(holdings_after c commands).2, Holdings.kind_after, hnaive]
    · exact Document.isSome_truth? hp hanswered
  obtain ⟨b, hb⟩ := Option.isSome_iff_exists.1 htruth
  exact Matches.agree_of_truth? hb (found_iff c commands hp hopen hd hb)

end After

/-- A document that is permitted if its target and its conditions are true. -/
def permitting (target : Expr) (conditions : List Expr := []) : Document where
  element := .policy { name := "p", entitlement := .permit, target := some target,
                       body := conditions.map .condition }

/-- The commands that publish a document. -/
def publishing (d : Document) : List Command := [.apply [.publish (.valid d)]]

/-- The routes agree on a document whose target calls a function and whose condition is on an
attribute that is watched. -/
theorem routes_agree_ready :
    let target : Expr := .call "filter.replace" [.literal (.bool false), .var "ready"]
    let d := permitting target [.finder "clear" [] false]
    let ctx : Context := { bindings := [("ready", Value.of (.bool true))]
                           functions := Functions.standard
                           sources := [("clear", .watch fun _ => "clear")] }
    let p := (new {}).after (publishing d)
    let found := (p.retrieve ctx 0).1.found
    found.valid = true ∧ d ∈ found.documents ∧ (d.decide ctx).DrainsLike (d.evaluate ctx) := by
  intro target d ctx p found
  have hp : ctx.functions.Pure := Functions.pure_standard
  have hs : ctx.sources.Steady := by
    intro name source hsource
    obtain ⟨-, hwatch, -⟩ := Source.steady_common
    obtain ⟨-, rfl⟩ := Prod.mk.inj (List.mem_singleton.1 (Dict.mem_of_get? hsource))
    exact hwatch _ _
  have hdocuments : p.documents = [d] := by cbv
  have hmem : d ∈ p.documents := hdocuments ▸ List.mem_singleton_self d
  have hstanding : p.standing = .consistent := by cbv
  have hopen : p.standing ≠ .inconsistent := by
    rw [hstanding]
    rintro ⟨⟩
  have htruth : d.truth? ctx = some true := by
    rw [Document.truth?, Value.bool?_of_bare (Document.bare_answer hp d)]
    rfl
  have hanswered : (d.answer ctx).1.isError = false := by
    rw [← Value.isError_bare, Document.bare_answer hp]
    rfl
  have hvalid : (p.find ctx).found.valid = true :=
    valid_of_answered {} (publishing d) hp hopen fun d' hd' => by
      rw [hdocuments] at hd'
      rwa [List.mem_singleton.1 hd']
  have hfound : d ∈ (p.find ctx).found.documents :=
    (found_iff {} (publishing d) hp hopen hmem htruth).2 rfl
  have hagree := routes_agree {} (publishing d) hp 0 hvalid d hmem (.inr hanswered)
  exact ⟨hvalid, hfound, hagree.matched hfound hs⟩

/-! ## Where the routes part -/

/-- A target that has no truth value where its variable is unbound, though its formula says that it
is true. -/
def masked : Expr := .binary .eagerOr (.literal (.bool true)) (.var "x")

/-- The index in which the document with that target is published. -/
def maskedIndex : CanonicalIndex := (CanonicalIndex.empty 256).insert (permitting masked)

theorem sound_maskedIndex : maskedIndex.Sound :=
  (CanonicalIndex.sound_empty 256).insert (permitting masked)

theorem documents_maskedIndex : (Index.canonical maskedIndex).documents = [permitting masked] := by
  cbv

theorem formula_masked :
    (permitting masked).formula maskedIndex.maxClauses = Formula.constant true := by cbv

/-- The document is found, and the result is valid. -/
theorem found_masked (ctx : Context) :
    (maskedIndex.retrieve ctx).found.valid = true
      ∧ permitting masked ∈ (maskedIndex.retrieve ctx).found.documents := by
  refine ⟨sound_maskedIndex.valid_of_answered fun d hd => ?_, sound_maskedIndex.mem_found.2 ?_⟩
  · rw [documents_maskedIndex] at hd
    rw [List.mem_singleton.1 hd, formula_masked]
    exact Formula.over_constant true
  · rw [documents_maskedIndex, formula_masked]
    exact ⟨List.mem_singleton_self _, {}, List.mem_singleton_self _, by rintro _ ⟨⟩⟩

/-- Without its target the document is permitted. -/
theorem gives_evaluate_permitting (target : Expr) (ctx : Context) :
    ((permitting target).evaluate ctx).Gives { verdict := .permit } := by
  let p : Policy := { name := "p", entitlement := .permit, target := some target }
  have hconcluded : ((combineLatest []).map p.conclude).Gives { verdict := .permit } :=
    (gives_combineLatest .nil).mapReporting fun values => (p.conclude values, [])
  refine Gives.distinct (Gives.switchMap (gives_just _) ?_) _
  exact hconcluded

/-- **The routes part** on the canonical index: the document is published and found, and the result
is valid, but the document is decided to be indeterminate, while it is permitted without its
target. -/
theorem routes_part_masked :
    let d := permitting masked
    let p := (new {}).after (publishing d)
    (p.retrieve {} 0).1.found.valid = true ∧ d ∈ p.documents
      ∧ d ∈ (p.retrieve {} 0).1.found.documents
      ∧ (d.decide {}).Gives Decision.indeterminate
      ∧ (d.evaluate {}).Gives { verdict := .permit } := by
  intro d p
  have hp : ({} : Context).functions.Pure := fun _ _ h => by cases h
  have hindex : p.holdings.index = .canonical maskedIndex := by cbv
  have hstanding : p.standing = .consistent := by cbv
  have hopen : p.standing ≠ .inconsistent := by
    rw [hstanding]
    rintro ⟨⟩
  have hfind : p.find {} = maskedIndex.retrieve {} := by
    rw [find_of_not_inconsistent hopen, hindex]
    rfl
  have hundecided : (d.answer {}).1.bool? = none := by
    rw [Value.bool?_of_bare (Document.bare_answer hp d)]
    rfl
  obtain ⟨hvalid, hfound⟩ := found_masked {}
  refine ⟨?_, ?_, ?_, Document.gives_decide_of_none hundecided, gives_evaluate_permitting _ _⟩
  · show (p.find {}).found.valid = true
    rwa [hfind]
  · show d ∈ p.holdings.index.documents
    rw [hindex, documents_maskedIndex]
    exact List.mem_singleton_self d
  · show d ∈ (p.find {}).found.documents
    rwa [hfind]

end RetrievalPoint

end AccessPolicy
