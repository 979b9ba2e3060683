import AccessPolicy.Proofs.Index.Tables

/-!
# What a search costs

A retrieval reports how many predicates it has evaluated and how many of them had no answer. The
numbers stand for evaluations that are made one at a time, at a clause and a term of it, with the
answers known by then; so the account is right if the evaluations can be listed such that both
numbers, and the log, can be read off the list. `Makes` says when a search comes to evaluate a
predicate, without any reference to the account, and `Search.Accounts` that a list is the one that
the account is about.

An evaluation is never made in vain: the clause has a document that has not been found, and none of
its terms is known to fail. When the search enters the clause this is what it looks at. In the
course of the clause it stays so because the slots of a clause go up: an answer that is found there
is about a term that has been dealt with.
-/

namespace AccessPolicy

namespace CanonicalIndex

variable {index : CanonicalIndex} {ctx : Context}

/-- An evaluation in the course of a search: the clause that it is made for, the slot and its
predicate, and the search as it was before. -/
structure Evaluation where
  clause : ClauseKey × Dict String Unit
  slot : Nat
  predicate : Predicate
  before : Search

/-- Checking some terms comes to an evaluation: the terms before hold, and the answer of the next
one is not known. -/
inductive Comes (index : CanonicalIndex) (ctx : Context) (clause : ClauseKey × Dict String Unit) :
    Search → List Term → Evaluation → Prop
  | here {s : Search} {t : Term} {ts : List Term} {p : Predicate}
      (hunknown : Dict.get? s.known t.slot = none)
      (hslot : index.arena.predicate? t.slot = some p) :
      Comes index ctx clause s (t :: ts) ⟨clause, t.slot, p, s⟩
  | later {s s' : Search} {t : Term} {ts : List Term} {e : Evaluation}
      (hholds : index.check ctx s [t] = (s', true)) (hlater : Comes index ctx clause s' ts e) :
      Comes index ctx clause s (t :: ts) e

/-- Searching some clauses comes to an evaluation: a clause is neither covered nor refuted by what
the clauses before have brought, and checking its terms comes to it. -/
def Makes (index : CanonicalIndex) (ctx : Context)
    (clauses : List (ClauseKey × Dict String Unit)) (e : Evaluation) : Prop :=
  ∃ done clause rest, clauses = done ++ clause :: rest
    ∧ ((done.foldl (index.visit ctx) {}).covers clause.2
      || (done.foldl (index.visit ctx) {}).refutes clause.1) = false
    ∧ index.Comes ctx clause (done.foldl (index.visit ctx) {}) clause.1 e

/-! ## One term -/

namespace Search

/-- The search after a predicate has been evaluated. -/
def noted (s : Search) (ctx : Context) (slot : Nat) (p : Predicate) : Search :=
  { s with
    known := (slot, p.truth? ctx) :: s.known
    evaluations := s.evaluations + 1
    errors := if (p.truth? ctx).isNone then s.errors + 1 else s.errors
    log := s.log ++ (p.evaluate ctx).2 }

/-- The search after an answer has been looked at, which is invalid if it is missing. -/
def judged (s : Search) (truth : Option Bool) : Search :=
  { s with valid := s.valid && truth.isSome }

end Search

/-- Looking at an answer tells whether the term holds. -/
theorem check_of_answer {s s' : Search} {t : Term} {truth : Option Bool}
    (h : index.answer ctx s t.slot = (s', some truth)) :
    index.check ctx s [t] = (s'.judged truth, truth == some !t.negated) := by
  rw [check, h]
  cases truth with
  | none => simp only [Search.judged, Option.isSome_none, Bool.and_false]; rfl
  | some value =>
    dsimp only
    rw [Search.judged, Option.isSome_some, Bool.and_true]
    cases value <;> cases t.negated <;> rfl

/-- An answer that is known is used again. -/
theorem check_known {s : Search} {t : Term} {truth : Option Bool}
    (h : Dict.get? s.known t.slot = some truth) :
    index.check ctx s [t] = (s.judged truth, truth == some !t.negated) := by
  refine check_of_answer ?_
  rw [answer, h]

/-- An answer that is not known is found by evaluating the predicate. -/
theorem check_unknown {s : Search} {t : Term} {p : Predicate}
    (h : Dict.get? s.known t.slot = none) (hslot : index.arena.predicate? t.slot = some p) :
    index.check ctx s [t]
      = ((s.noted ctx t.slot p).judged (p.truth? ctx), p.truth? ctx == some !t.negated) := by
  obtain ⟨o, ho, rfl⟩ := Option.map_eq_some_iff.1 hslot
  refine check_of_answer ?_
  rw [answer, h]
  dsimp only
  rw [ho]
  rfl

/-- The terms of a clause are checked one by one, up to the first one that does not hold. -/
theorem check_cons (s : Search) (t : Term) (ts : List Term) :
    index.check ctx s (t :: ts)
      = if (index.check ctx s [t]).2 then index.check ctx (index.check ctx s [t]).1 ts
        else index.check ctx s [t] := by
  rcases hanswer : index.answer ctx s t.slot with ⟨s', _ | _ | value⟩ <;>
    simp only [check, hanswer]
  · rfl
  · rfl
  · by_cases hvalue : value = t.negated <;> simp [hvalue]

theorem comes_cons {clause : ClauseKey × Dict String Unit} {s : Search} {t : Term}
    {ts : List Term} {e : Evaluation} :
    index.Comes ctx clause s (t :: ts) e ↔ index.Comes ctx clause s [t] e
      ∨ (index.check ctx s [t]).2 = true
        ∧ index.Comes ctx clause (index.check ctx s [t]).1 ts e := by
  constructor
  · intro h
    cases h with
    | here hunknown hslot => exact .inl (.here hunknown hslot)
    | later hholds hlater =>
      rw [hholds]
      exact .inr ⟨rfl, hlater⟩
  · rintro (h | ⟨hholds, hlater⟩)
    · cases h with
      | here hunknown hslot => exact .here hunknown hslot
      | later _ hlater => cases hlater
    · exact .later (Prod.ext rfl hholds) hlater

/-! ## The account -/

/-- **A search accounts for some evaluations**: what it knows, the numbers it reports and the
log are those of the evaluations, and it is invalid if one of them has brought no answer. -/
structure Search.Accounts (index : CanonicalIndex) (ctx : Context) (es : List Evaluation)
    (s : Search) : Prop where
  known : s.known = (es.map fun e => (e.slot, e.predicate.truth? ctx)).reverse
  evaluations : s.evaluations = es.length
  errors : s.errors = es.countP fun e => (e.predicate.truth? ctx).isNone
  log : s.log = es.flatMap fun e => (e.predicate.evaluate ctx).2
  invalid : s.valid = false ↔ 0 < s.errors
  /-- Each evaluation is that of the predicate in its slot. -/
  held : ∀ e ∈ es, index.arena.predicate? e.slot = some e.predicate
  /-- No slot is evaluated twice. -/
  once : (es.map Evaluation.slot).Nodup

namespace Search.Accounts

variable {es : List Evaluation} {s : Search}

theorem start : Search.Accounts index ctx [] {} where
  known := rfl
  evaluations := rfl
  errors := rfl
  log := rfl
  invalid := iff_of_false (by rintro ⟨⟩) (Nat.lt_irrefl 0)
  held := by rintro _ ⟨⟩
  once := .nil

/-- What is known has been found by one of the evaluations. -/
theorem exists_evaluation (h : s.Accounts index ctx es) {slot : Nat} {truth : Option Bool}
    (hknown : Dict.get? s.known slot = some truth) :
    ∃ e ∈ es, e.slot = slot ∧ e.predicate.truth? ctx = truth := by
  have hmem := Dict.mem_of_get? hknown
  rw [h.known, List.mem_reverse] at hmem
  obtain ⟨e, he, heq⟩ := List.mem_map.1 hmem
  exact ⟨e, he, congrArg Prod.fst heq, congrArg Prod.snd heq⟩

/-- What is not known has not been evaluated. -/
theorem not_mem_slots (h : s.Accounts index ctx es) {slot : Nat}
    (hunknown : Dict.get? s.known slot = none) : slot ∉ es.map Evaluation.slot := by
  intro hmem
  have hkey : slot ∈ Dict.keys s.known := by
    rw [h.known, Dict.keys, List.map_reverse, List.mem_reverse, List.map_map]
    exact hmem
  rw [← Dict.hasKey_iff_mem_keys, Dict.hasKey, hunknown] at hkey
  cases hkey

/-- **Looking at an answer** that is known changes the account only if it is missing, and then the
search has been invalid before. -/
theorem judged (h : s.Accounts index ctx es) {slot : Nat} {truth : Option Bool}
    (hknown : Dict.get? s.known slot = some truth) : (s.judged truth).Accounts index ctx es := by
  refine { h with invalid := ?_ }
  cases truth with
  | some value => simpa [Search.judged] using h.invalid
  | none =>
    obtain ⟨e, he, -, htruth⟩ := h.exists_evaluation hknown
    have hpos : 0 < s.errors := by
      rw [h.errors]
      exact List.countP_pos_iff.2 ⟨e, he, by rw [htruth]; rfl⟩
    simpa [Search.judged] using hpos

/-- **Evaluating a predicate** adds one to the account. -/
theorem noted (h : s.Accounts index ctx es) {e : Evaluation}
    (hunknown : Dict.get? s.known e.slot = none)
    (hslot : index.arena.predicate? e.slot = some e.predicate) :
    ((s.noted ctx e.slot e.predicate).judged (e.predicate.truth? ctx)).Accounts index ctx
      (es ++ [e]) where
  known := by simp [Search.judged, Search.noted, h.known]
  evaluations := by simp [Search.judged, Search.noted, h.evaluations]
  errors := by
    simp only [Search.judged, Search.noted, h.errors, List.countP_append, List.countP_singleton]
    split <;> rfl
  log := by simp [Search.judged, Search.noted, h.log]
  invalid := by
    cases htruth : e.predicate.truth? ctx with
    | some value => simpa [Search.judged, Search.noted, htruth] using h.invalid
    | none => simp [Search.judged, Search.noted, htruth]
  held := by
    intro e' he'
    rcases List.mem_append.1 he' with he' | he'
    · exact h.held e' he'
    · rw [List.mem_singleton.1 he', hslot]
  once := by
    rw [List.map_append]
    exact h.once.append (List.nodup_singleton _)
      (List.disjoint_singleton.2 (h.not_mem_slots hunknown))

/-- **Checking one term** makes the evaluation that it comes to, if any. -/
theorem checkTerm (h : s.Accounts index ctx es) (clause : ClauseKey × Dict String Unit) {t : Term}
    (hoccupied : (index.arena.predicate? t.slot).isSome) :
    ∃ new, (index.check ctx s [t]).1.Accounts index ctx (es ++ new)
      ∧ ∀ e, e ∈ new ↔ index.Comes ctx clause s [t] e := by
  cases hknown : Dict.get? s.known t.slot with
  | some truth =>
    refine ⟨[], ?_, fun e => iff_of_false List.not_mem_nil fun hcomes => ?_⟩
    · rw [check_known hknown, List.append_nil]
      exact h.judged hknown
    · cases hcomes with
      | here hunknown _ => exact Option.some_ne_none _ (hknown.symm.trans hunknown)
      | later _ hlater => cases hlater
  | none =>
    obtain ⟨p, hslot⟩ := Option.isSome_iff_exists.1 hoccupied
    refine ⟨[⟨clause, t.slot, p, s⟩], ?_, fun e => ?_⟩
    · rw [check_unknown hknown hslot]
      exact h.noted hknown hslot
    · rw [List.mem_singleton]
      constructor
      · rintro rfl
        exact .here hknown hslot
      · intro hcomes
        cases hcomes with
        | here _ hslot' => rw [Option.some.inj (hslot.symm.trans hslot')]
        | later _ hlater => cases hlater

/-- **Checking the terms of a clause** makes the evaluations that it comes to. -/
theorem check (h : s.Accounts index ctx es) (clause : ClauseKey × Dict String Unit)
    {ts : List Term} (hoccupied : ∀ t ∈ ts, (index.arena.predicate? t.slot).isSome) :
    ∃ new, (index.check ctx s ts).1.Accounts index ctx (es ++ new)
      ∧ ∀ e, e ∈ new ↔ index.Comes ctx clause s ts e := by
  induction ts generalizing s es with
  | nil =>
    refine ⟨[], ?_, fun e => iff_of_false List.not_mem_nil (by rintro ⟨⟩)⟩
    rw [List.append_nil]
    exact h
  | cons t ts ih =>
    obtain ⟨hfirst, hrest⟩ := List.forall_mem_cons.1 hoccupied
    obtain ⟨first, haccounts, hcomes⟩ := h.checkTerm clause hfirst
    rw [check_cons]
    by_cases hholds : (index.check ctx s [t]).2 = true
    · obtain ⟨more, haccounts', hcomes'⟩ := ih haccounts hrest
      refine ⟨first ++ more, ?_, fun e => ?_⟩
      · rw [if_pos hholds, ← List.append_assoc]
        exact haccounts'
      · rw [List.mem_append, hcomes, hcomes']
        refine Iff.trans ?_ comes_cons.symm
        rw [and_iff_right hholds]
    · refine ⟨first, ?_, fun e => ?_⟩
      · rw [if_neg hholds]
        exact haccounts
      · rw [hcomes]
        refine Iff.trans ?_ comes_cons.symm
        exact (or_iff_left fun hlater => hholds hlater.1).symm

/-- Finding documents is not part of the account. -/
theorem found (h : s.Accounts index ctx es) (matched : Dict String Unit) :
    Search.Accounts index ctx es { s with matched := matched } :=
  { h with }

end Search.Accounts

/-- One more clause comes to the evaluations of the clauses before, and to its own. -/
theorem makes_concat {clauses : List (ClauseKey × Dict String Unit)}
    {clause : ClauseKey × Dict String Unit} {e : Evaluation} :
    index.Makes ctx (clauses ++ [clause]) e ↔ index.Makes ctx clauses e
      ∨ ((clauses.foldl (index.visit ctx) {}).covers clause.2
          || (clauses.foldl (index.visit ctx) {}).refutes clause.1) = false
        ∧ index.Comes ctx clause (clauses.foldl (index.visit ctx) {}) clause.1 e := by
  constructor
  · rintro ⟨done, clause', rest, hsplit, hcomes⟩
    rcases List.eq_nil_or_concat rest with rfl | ⟨rest, last, rfl⟩
    · obtain ⟨rfl, hlast⟩ := List.append_inj' hsplit rfl
      obtain rfl := List.singleton_inj.1 hlast
      exact .inr hcomes
    · rw [List.concat_eq_append, ← List.cons_append, ← List.append_assoc] at hsplit
      exact .inl ⟨done, clause', rest, (List.append_inj' hsplit rfl).1, hcomes⟩
  · rintro (⟨done, clause', rest, rfl, hcomes⟩ | hcomes)
    · exact ⟨done, clause', rest ++ [clause], by rw [List.append_assoc]; rfl, hcomes⟩
    · exact ⟨clauses, clause, [], rfl, hcomes⟩

variable (ctx) in
/-- **Visiting clauses** makes the evaluations that it comes to. -/
theorem exists_accounts (clauses : List (ClauseKey × Dict String Unit))
    (hoccupied : ∀ clause ∈ clauses, ∀ t ∈ clause.1, (index.arena.predicate? t.slot).isSome) :
    ∃ es, (clauses.foldl (index.visit ctx) {}).Accounts index ctx es
      ∧ ∀ e, e ∈ es ↔ index.Makes ctx clauses e := by
  induction clauses using List.reverseRecOn with
  | nil =>
    refine ⟨[], .start, fun e => iff_of_false List.not_mem_nil ?_⟩
    rintro ⟨done, clause, rest, hnil, -⟩
    exact List.append_ne_nil_of_right_ne_nil done (List.cons_ne_nil _ _) hnil.symm
  | append_singleton clauses clause ih =>
    obtain ⟨es, haccounts, hmakes⟩ := ih fun c hc => hoccupied c (List.mem_append_left _ hc)
    have hclause := hoccupied clause (List.mem_append_right _ (List.mem_singleton_self _))
    rw [List.foldl_append, List.foldl_cons, List.foldl_nil]
    simp only [makes_concat, ← hmakes]
    generalize clauses.foldl (index.visit ctx) {} = s at haccounts
    rw [visit]
    by_cases hskip : (s.covers clause.2 || s.refutes clause.1) = true
    · refine ⟨es, ?_, fun e => ?_⟩
      · rw [if_pos hskip]
        exact haccounts
      · rw [hskip]
        exact (or_iff_left fun hcomes => Bool.noConfusion hcomes.1).symm
    · obtain ⟨new, haccounts', hcomes⟩ := haccounts.check clause hclause
      refine ⟨es ++ new, ?_, fun e => ?_⟩
      · rw [if_neg hskip]
        dsimp only
        split
        · exact haccounts'.found _
        · exact haccounts'
      · rw [List.mem_append, hcomes, and_iff_right (Bool.eq_false_iff.2 hskip)]

/-! ## No evaluation is in vain -/

variable (index ctx) in
/-- What checking one term leaves of what was known and found before, and what it adds if the
term holds. -/
theorem check_term_frame (s : Search) (t : Term) :
    (index.check ctx s [t]).1.matched = s.matched
      ∧ (∀ slot, slot ≠ t.slot →
        Dict.get? (index.check ctx s [t]).1.known slot = Dict.get? s.known slot)
      ∧ (∀ truth, Dict.get? s.known t.slot = some truth →
        Dict.get? (index.check ctx s [t]).1.known t.slot = some truth)
      ∧ ((index.check ctx s [t]).2 = true →
        Dict.get? (index.check ctx s [t]).1.known t.slot = some (some !t.negated)) := by
  cases hknown : Dict.get? s.known t.slot with
  | some truth =>
    rw [check_known hknown]
    refine ⟨rfl, fun _ _ => rfl, fun _ h => hknown.trans h, fun hholds => ?_⟩
    exact hknown.trans (congrArg some (beq_iff_eq.1 hholds))
  | none =>
    cases hslot : index.arena.predicate? t.slot with
    | none =>
      have hcheck : index.check ctx s [t] = (s, false) := by
        rw [check, answer, hknown, Option.map_eq_none_iff.1 hslot]
      rw [hcheck]
      exact ⟨rfl, fun _ _ => rfl, by rintro _ ⟨⟩, by rintro ⟨⟩⟩
    | some p =>
      rw [check_unknown hknown hslot]
      have hnew (slot : Nat) :
          Dict.get? ((s.noted ctx t.slot p).judged (p.truth? ctx)).known slot
            = if slot = t.slot then some (p.truth? ctx) else Dict.get? s.known slot := by
        rw [Search.judged, Search.noted, Dict.get?]
      refine ⟨rfl, fun slot hne => ?_, by rintro _ ⟨⟩, fun hholds => ?_⟩
      · rw [hnew, if_neg hne]
      · rw [hnew, if_pos rfl, beq_iff_eq.1 hholds]

namespace Comes

variable {clause : ClauseKey × Dict String Unit} {s : Search} {ts : List Term} {e : Evaluation}

theorem clause_eq (h : index.Comes ctx clause s ts e) : e.clause = clause := by
  induction h with
  | here => rfl
  | later _ _ ih => exact ih

/-- The slot is that of one of the terms. -/
theorem slot_mem (h : index.Comes ctx clause s ts e) : ∃ t ∈ ts, t.slot = e.slot := by
  induction h with
  | here => exact ⟨_, List.mem_cons_self, rfl⟩
  | later _ _ ih =>
    obtain ⟨t, ht, hslot⟩ := ih
    exact ⟨t, List.mem_cons_of_mem _ ht, hslot⟩

/-- No document is found on the way. -/
theorem matched_eq (h : index.Comes ctx clause s ts e) : e.before.matched = s.matched := by
  induction h with
  | here => rfl
  | @later s s' t _ _ hholds _ ih =>
    have hmatched := (check_term_frame index ctx s t).1
    rw [hholds] at hmatched
    exact ih.trans hmatched

/-- An answer that is known on the way stays known. -/
theorem get?_known (h : index.Comes ctx clause s ts e) {slot : Nat} {truth : Option Bool}
    (hknown : Dict.get? s.known slot = some truth) :
    Dict.get? e.before.known slot = some truth := by
  induction h with
  | here => exact hknown
  | @later s s' t _ _ hholds _ ih =>
    obtain ⟨-, hother, hsame, -⟩ := check_term_frame index ctx s t
    rw [hholds] at hother hsame
    by_cases heq : slot = t.slot
    · subst heq
      exact ih (hsame truth hknown)
    · exact ih ((hother slot heq).trans hknown)

/-- **A clause stays open**: no term of it comes to fail before the evaluation, since the terms that
have been checked hold and nothing new is known about the others. -/
theorem not_refuted (h : index.Comes ctx clause s ts e)
    (hascending : (ts.map Term.slot).Pairwise (· < ·))
    (hopen : ∀ t ∈ ts, Dict.get? s.known t.slot ≠ some (some t.negated)) :
    ∀ t ∈ ts, Dict.get? e.before.known t.slot ≠ some (some t.negated) := by
  induction h with
  | here => exact hopen
  | @later s s' t ts e hholds hlater ih =>
    obtain ⟨-, hother, -, hnew⟩ := check_term_frame index ctx s t
    rw [hholds] at hother hnew
    rw [List.map_cons, List.pairwise_cons] at hascending
    rw [List.forall_mem_cons]
    constructor
    · rw [hlater.get?_known (hnew rfl)]
      cases t.negated <;> simp
    · refine ih hascending.2 fun t' ht' => ?_
      have hne : t'.slot ≠ t.slot := (hascending.1 _ (List.mem_map_of_mem ht')).ne'
      rw [hother _ hne]
      exact hopen t' (List.mem_cons_of_mem _ ht')

end Comes

/-- **An evaluation is not made in vain**: it is for a term of a clause that has a document not
found so far, and no term of which is known to fail. -/
theorem Makes.not_in_vain {clauses : List (ClauseKey × Dict String Unit)} {e : Evaluation}
    (h : index.Makes ctx clauses e)
    (hascending : ∀ clause ∈ clauses, (clause.1.map Term.slot).Pairwise (· < ·)) :
    e.clause ∈ clauses ∧ (∃ t ∈ e.clause.1, t.slot = e.slot)
      ∧ (∃ name, Dict.hasKey e.clause.2 name = true ∧ Dict.hasKey e.before.matched name = false)
      ∧ ∀ t ∈ e.clause.1, Dict.get? e.before.known t.slot ≠ some (some t.negated) := by
  obtain ⟨done, clause, rest, rfl, hskip, hcomes⟩ := h
  generalize done.foldl (index.visit ctx) {} = s at hskip hcomes
  obtain ⟨hcovers, hrefutes⟩ := Bool.or_eq_false_iff.1 hskip
  have hmem : clause ∈ done ++ clause :: rest :=
    List.mem_append_right _ List.mem_cons_self
  have hopen : ∀ t ∈ clause.1, Dict.get? s.known t.slot ≠ some (some t.negated) :=
    fun t ht heq => List.any_eq_false.1 hrefutes t ht (beq_iff_eq.2 heq)
  rw [hcomes.clause_eq, hcomes.matched_eq]
  refine ⟨hmem, hcomes.slot_mem, ?_, hcomes.not_refuted (hascending clause hmem) hopen⟩
  obtain ⟨name, hname, hnew⟩ := List.all_eq_false.1 hcovers
  exact ⟨name, Dict.hasKey_iff_mem_keys.2 hname, Bool.eq_false_iff.2 hnew⟩

/-! ## The account of a retrieval -/

/-- The slots in a clause of the index are occupied. -/
theorem Sound.occupied (h : index.Sound) {clause : ClauseKey × Dict String Unit}
    (hclause : clause ∈ index.clauses) {t : Term} (ht : t ∈ clause.1) :
    (index.arena.predicate? t.slot).isSome := by
  obtain ⟨name, entry, hentry, hkey⟩ := h.owner hclause
  obtain ⟨c, -, hrep⟩ := h.clause hentry hkey
  obtain ⟨l, -, hdenotes⟩ := hrep.literal ht
  exact Option.isSome_of_eq_some hdenotes.1

/-- The predicate of an occupied slot has an answer, be it that it is missing. -/
theorem answer_ne_none (s : Search) {slot : Nat} (h : (index.arena.predicate? slot).isSome) :
    (index.answer ctx s slot).2 ≠ none := by
  obtain ⟨p, hp⟩ := Option.isSome_iff_exists.1 h
  obtain ⟨o, ho, -⟩ := Option.map_eq_some_iff.1 hp
  rw [answer, ho]
  split <;> exact Option.some_ne_none _

/-- Evaluations in different slots are of different predicates, each one in use. -/
theorem Sound.length_le_predicateCount (h : index.Sound) {es : List Evaluation} {s : Search}
    (haccounts : s.Accounts index ctx es) :
    (es.map Evaluation.predicate).Nodup ∧ es.length ≤ index.predicateCount := by
  have hnodup : (es.map Evaluation.predicate).Nodup := by
    refine List.pairwise_map.2 ((List.pairwise_map.1 haccounts.once).imp_of_mem ?_)
    intro e e' he he' hne heq
    have hheld' := haccounts.held e' he'
    rw [← heq] at hheld'
    exact hne (h.arena.distinct (haccounts.held e he) hheld')
  refine ⟨hnodup, ?_⟩
  have hsub : es.map Evaluation.predicate ⊆ Dict.keys index.arena.ids := by
    intro p hp
    obtain ⟨e, he, rfl⟩ := List.mem_map.1 hp
    have hslot : index.arena.slotOf? e.predicate = some e.slot :=
      (h.arena.ids e.predicate e.slot).2 (haccounts.held e he)
    rw [← Dict.hasKey_iff_mem_keys]
    exact Option.isSome_of_eq_some hslot
  calc es.length = (es.map Evaluation.predicate).length := (List.length_map _).symm
    _ ≤ (Dict.keys index.arena.ids).length := (hnodup.subperm hsub).length_le
    _ = index.predicateCount := List.length_map _

end CanonicalIndex

namespace Index

open CanonicalIndex in
/-- **The account of a retrieval is right after every history.** However documents were stored and
removed before, and in every context, the evaluations that a retrieval makes can be listed, and they
are what it reports: their number, the number of those without an answer, and the functions called.
No predicate is evaluated twice, so there are at most as many as predicates in use; the result is
invalid exactly if one of them had no answer; and none was made for a clause whose documents had all
been found or one of whose terms was known to fail. The slot of a term is never found free, whatever
the search has come upon by then. -/
theorem retrieval_accounted (limit : Nat) (updates : List IndexUpdate) :
    ∃ c, (empty .canonical limit).after updates = canonical c ∧ ∀ ctx,
      (∃ es : List Evaluation, (∀ e, e ∈ es ↔ c.Makes ctx c.clauses e)
        ∧ (∀ e ∈ es, c.arena.predicate? e.slot = some e.predicate)
        ∧ (es.map Evaluation.slot).Nodup ∧ (es.map Evaluation.predicate).Nodup
        ∧ (c.retrieve ctx).evaluations = es.length
        ∧ (c.retrieve ctx).errors = es.countP (fun e => (e.predicate.evaluate ctx).1.bool?.isNone)
        ∧ (c.retrieve ctx).log = es.flatMap (fun e => (e.predicate.evaluate ctx).2)
        ∧ ∀ e ∈ es, e.clause ∈ c.clauses ∧ (∃ t ∈ e.clause.1, t.slot = e.slot)
          ∧ (∃ name, Dict.hasKey e.clause.2 name = true
            ∧ Dict.hasKey e.before.matched name = false)
          ∧ ∀ t ∈ e.clause.1, Dict.get? e.before.known t.slot ≠ some (some t.negated))
      ∧ (c.retrieve ctx).evaluations ≤ c.predicateCount
      ∧ ((c.retrieve ctx).found.valid = false ↔ 0 < (c.retrieve ctx).errors)
      ∧ ∀ clause ∈ c.clauses, ∀ t ∈ clause.1, ∀ s : Search, (c.answer ctx s t.slot).2 ≠ none := by
  obtain ⟨c, hc, hsound, -⟩ := canonical_after limit updates
  refine ⟨c, hc, fun ctx => ?_⟩
  have hoccupied : ∀ clause ∈ c.clauses, ∀ t ∈ clause.1, (c.arena.predicate? t.slot).isSome :=
    fun _ hclause _ ht => hsound.occupied hclause ht
  have hascending : ∀ clause ∈ c.clauses, (clause.1.map Term.slot).Pairwise (· < ·) :=
    fun clause hclause => hsound.ascending_key
      (Dict.hasKey_iff_mem_keys.2 (List.mem_map_of_mem hclause))
  obtain ⟨es, haccounts, hmakes⟩ := exists_accounts ctx c.clauses hoccupied
  obtain ⟨hdistinct, hbound⟩ := hsound.length_le_predicateCount haccounts
  refine ⟨⟨es, hmakes, haccounts.held, haccounts.once, hdistinct, haccounts.evaluations,
      haccounts.errors, haccounts.log, fun e he => ((hmakes e).1 he).not_in_vain hascending⟩,
    ?_, haccounts.invalid, fun clause hclause t ht s => answer_ne_none s (hoccupied _ hclause t ht)⟩
  exact haccounts.evaluations.trans_le hbound

end Index

end AccessPolicy
