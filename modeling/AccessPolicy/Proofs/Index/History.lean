import AccessPolicy.Proofs.Index.Lookup
import Mathlib

/-!
# What an index remembers of its history

Which slot a predicate has, and with that the order in which the terms of a clause are evaluated,
depends on the documents that were stored and removed before. The documents found do not depend on
it: they are those whose formulas are met. Whether the result is valid does. A clause is given up
at its first term that fails, so that a predicate without a truth value makes the result invalid
only if no term before it fails.
-/

namespace AccessPolicy

namespace CanonicalIndex

variable {index : CanonicalIndex} {ctx : Context}

/-! ## The limit of clauses -/

@[simp] theorem maxClauses_erase (index : CanonicalIndex) (name : String) :
    (index.erase name).maxClauses = index.maxClauses := by
  unfold erase
  split
  · rfl
  · rw [foldl_dropClause]

theorem Sound.maxClauses_insert (h : index.Sound) (d : Document) :
    (index.insert d).maxClauses = index.maxClauses := by
  obtain ⟨index', keys, hadded, heq⟩ := h.insert_added d
  rw [heq]
  exact hadded.maxClauses.trans (maxClauses_erase index d.name)

/-! ## The first term of a clause -/

/-- A clause is given up at a first term that is not met. Nothing is missed if the term has an
answer, and the rest of the clause makes no difference. -/
theorem check_of_not_met {s : Search} {t : Term} {ts : List Term} {truth : Option Bool}
    (h : s.Truthful index ctx) (hanswer : index.answer? ctx t.slot = some truth)
    (hnot : truth ≠ some !t.negated) :
    (index.check ctx s (t :: ts)).1.valid = (s.valid && truth.isSome) := by
  obtain ⟨s', hs', -, -, hvalid⟩ := answer_spec h hanswer
  rw [check, hs']
  cases truth with
  | none => exact (Bool.and_false _).symm
  | some value =>
    have hvalue : value = t.negated := by
      by_contra hne
      exact hnot (by rw [Bool.eq_not.2 hne])
    dsimp only
    rw [hvalue, bne_self_eq_false, if_neg Bool.false_ne_true, hvalid]
    exact (Bool.and_true _).symm

/-- The result from a single clause whose first term is not met is valid if the term has an
answer. -/
theorem valid_of_not_met {t : Term} {ts : List Term} {name : String} {truth : Option Bool}
    (hclauses : index.clauses = [(t :: ts, [(name, ())])])
    (hanswer : index.answer? ctx t.slot = some truth) (hnot : truth ≠ some !t.negated) :
    (index.retrieve ctx).found.valid = truth.isSome := by
  have hcovers : Search.covers {} [(name, ())] = false := rfl
  have hrefutes : Search.refutes {} (t :: ts) = false :=
    List.any_eq_false.2 fun t _ => by rintro ⟨⟩
  have hvalid : (index.retrieve ctx).found.valid = (index.check ctx {} (t :: ts)).1.valid := by
    show (index.search ctx).valid = _
    rw [search, hclauses, List.foldl_cons, List.foldl_nil, visit, hcovers, hrefutes]
    show Search.valid (if (index.check ctx {} (t :: ts)).2 = true then _ else _) = _
    split <;> rfl
  rw [hvalid, check_of_not_met Search.Sound.start.truthful hanswer hnot]
  exact Bool.true_and _

/-! ## The same documents -/

/-- **The documents found** are the same in two indexes with the same limit and documents. -/
theorem Sound.found_congr {index' : CanonicalIndex} (h : index.Sound) (h' : index'.Sound)
    (hlimit : index.maxClauses = index'.maxClauses)
    (hsame : (Index.canonical index).documents = (Index.canonical index').documents)
    (ctx : Context) :
    (index.retrieve ctx).found.documents = (index'.retrieve ctx).found.documents := by
  refine eq_of_ascending Document.name (h.found_ascending ctx) (h'.found_ascending ctx) fun d => ?_
  rw [h.mem_found, h'.mem_found, hsame, hlimit]

/-- The result is valid if all predicates of all formulas have truth values. -/
theorem Sound.valid_of_answered (h : index.Sound)
    (hall : ∀ d ∈ (Index.canonical index).documents, (d.formula index.maxClauses).Answered ctx) :
    (index.retrieve ctx).found.valid = true := by
  by_contra hnot
  obtain ⟨name, entry, hentry, hunanswered⟩ :=
    h.exists_unanswered ctx ((Bool.not_eq_true _).mp hnot)
  have hname := (h.entries name entry hentry).1
  exact hunanswered (hall _ (h.mem_documents.2 ⟨entry, hname ▸ hentry, rfl⟩))

end CanonicalIndex

/-! ## Two histories -/

namespace Index

/-- An index that starts as a canonical one stays one, sound and with its limit of clauses. -/
theorem canonical_after (limit : Nat) (updates : List IndexUpdate) :
    ∃ c, (empty .canonical limit).after updates = canonical c ∧ c.Sound
      ∧ c.maxClauses = max limit 1 := by
  suffices h : ∀ c : CanonicalIndex, c.Sound → ∃ c', (canonical c).after updates = canonical c'
      ∧ c'.Sound ∧ c'.maxClauses = c.maxClauses from h _ (CanonicalIndex.sound_empty limit)
  induction updates with
  | nil => exact fun c h => ⟨c, rfl, h, rfl⟩
  | cons update updates ih =>
    intro c h
    cases update with
    | insert d =>
      obtain ⟨c', hafter, hsound, hlimit⟩ := ih _ (h.insert d)
      exact ⟨c', hafter, hsound, hlimit.trans (h.maxClauses_insert d)⟩
    | erase name =>
      obtain ⟨c', hafter, hsound, hlimit⟩ := ih _ (h.erase name)
      exact ⟨c', hafter, hsound, hlimit.trans (c.maxClauses_erase name)⟩

/-- **The documents found do not depend on the history**: two indexes with the same limit that
store the same documents find the same ones in every context. Where all predicates of their
formulas have truth values, the results are valid, and so the same altogether. -/
theorem found_of_same_documents (limit : Nat) {updates updates' : List IndexUpdate}
    (hsame : ((empty .canonical limit).after updates).documents
      = ((empty .canonical limit).after updates').documents) (ctx : Context) :
    let i := (empty .canonical limit).after updates
    let j := (empty .canonical limit).after updates'
    (i.retrieve ctx).found.documents = (j.retrieve ctx).found.documents
      ∧ ((∀ d ∈ i.documents, (d.formula (max limit 1)).Answered ctx) →
        (i.retrieve ctx).found = (j.retrieve ctx).found ∧ (i.retrieve ctx).found.valid = true) := by
  obtain ⟨c, hc, hsound, hlimit⟩ := canonical_after limit updates
  obtain ⟨c', hc', hsound', hlimit'⟩ := canonical_after limit updates'
  rw [hc, hc'] at hsame ⊢
  have hfound := hsound.found_congr hsound' (hlimit.trans hlimit'.symm) hsame ctx
  refine ⟨hfound, fun hall => ?_⟩
  have hvalid := hsound.valid_of_answered (hlimit ▸ hall)
  rw [hsame] at hall
  have hvalid' := hsound'.valid_of_answered (hlimit' ▸ hall)
  exact ⟨Matches.ext hfound (hvalid.trans hvalid'.symm), hvalid⟩

/-! ## A result that depends on the history -/

/-- Two expressions that must both hold. In the context of the example the first one fails, and
the second one has no truth value. -/
def guarded : Document :=
  { element := .policy
      { name := "d", entitlement := .permit,
        target := some (.binary .eagerAnd (.var "a") (.var "b")) } }

/-- The second one of the expressions alone. -/
def sharing : Document :=
  { element := .policy { name := "e", entitlement := .permit, target := some (.var "b") } }

/-- One history: the guarded document is stored. -/
def plain : List IndexUpdate := [.insert guarded]

/-- Another one, in which the second expression is given its slot before the first one. -/
def roundabout : List IndexUpdate := [.insert sharing, .insert guarded, .erase "e"]

/-- The context of the example. -/
def oneBound : Context := { bindings := [("a", Value.of (.bool false))] }

theorem oneBound_pure : oneBound.functions.Pure := fun _ _ h => by cases h

theorem documents_plain_roundabout :
    ((empty .canonical 1).after plain).documents
      = ((empty .canonical 1).after roundabout).documents := by cbv

/-- The two histories leave indexes that find the same documents. -/
theorem found_of_same_documents_roundabout :
    ((empty .canonical 1).after plain).documents
        = ((empty .canonical 1).after roundabout).documents
      ∧ (((empty .canonical 1).after plain).retrieve oneBound).found.documents
        = (((empty .canonical 1).after roundabout).retrieve oneBound).found.documents :=
  ⟨documents_plain_roundabout,
    (found_of_same_documents 1 documents_plain_roundabout oneBound).1⟩

/-- The index after the one history. -/
def plainIndex : CanonicalIndex := (CanonicalIndex.empty 1).insert guarded

/-- The index after the other history. -/
def roundaboutIndex : CanonicalIndex :=
  (((CanonicalIndex.empty 1).insert sharing).insert guarded).erase "e"

/-- After the one history the first term of the clause fails. -/
theorem valid_plain :
    (((empty .canonical 1).after plain).retrieve oneBound).found.valid = true := by
  have hslot : plainIndex.arena.predicate? 0 = some (.expression (.var "a") []) := by cbv
  have hclauses : plainIndex.clauses = [([⟨0, false⟩, ⟨1, false⟩], [("d", ())])] := by cbv
  have hanswer : plainIndex.answer? oneBound 0 = some (some false) := by
    rw [CanonicalIndex.answer?, hslot, Option.map_some, Predicate.truth?_expression oneBound_pure]
    rfl
  exact CanonicalIndex.valid_of_not_met hclauses hanswer (by decide)

/-- After the other history the first term of the clause has no answer. -/
theorem invalid_roundabout :
    (((empty .canonical 1).after roundabout).retrieve oneBound).found.valid = false := by
  have hslot : roundaboutIndex.arena.predicate? 0 = some (.expression (.var "b") []) := by cbv
  have hclauses : roundaboutIndex.clauses = [([⟨0, false⟩, ⟨1, false⟩], [("d", ())])] := by cbv
  have hanswer : roundaboutIndex.answer? oneBound 0 = some none := by
    rw [CanonicalIndex.answer?, hslot, Option.map_some, Predicate.truth?_expression oneBound_pure]
    rfl
  exact CanonicalIndex.valid_of_not_met hclauses hanswer (by decide)

/-- **Whether the result is valid depends on the history.** After both histories the same document
is stored. In the one the expression that fails has the first slot, so that the other one is not
looked at; in the other one it is the other way around. -/
theorem valid_depends_on_history :
    ((empty .canonical 1).after plain).documents
        = ((empty .canonical 1).after roundabout).documents
      ∧ (((empty .canonical 1).after plain).retrieve oneBound).found.valid = true
      ∧ (((empty .canonical 1).after roundabout).retrieve oneBound).found.valid = false :=
  ⟨documents_plain_roundabout, valid_plain, invalid_roundabout⟩

end Index

end AccessPolicy
