import AccessPolicy.Proofs.Index.Canonical
import AccessPolicy.Proofs.Index.Truth

/-!
# What a search finds

A search goes through the clauses in order and takes two short cuts: it evaluates no predicate
twice, and it passes over a clause that is known to fail or whose documents have been found
already. Neither can be seen in what it finds: after each clause, the names found are exactly
those of the clauses so far whose terms all have the answer that they ask for, and the search is
invalid only if one of the terms so far has no answer.
-/

namespace AccessPolicy

namespace CanonicalIndex

variable {index : CanonicalIndex} {ctx : Context}

/-- The answer of the predicate in a slot, which may be missing. There is none for a free slot. -/
def answer? (index : CanonicalIndex) (ctx : Context) (slot : Nat) : Option (Option Bool) :=
  (index.arena.predicate? slot).map fun p => p.truth? ctx

/-- A term is met if its predicate has the answer that it asks for. -/
def Meets (index : CanonicalIndex) (ctx : Context) (t : Term) : Prop :=
  index.answer? ctx t.slot = some (some !t.negated)

/-- A search is truthful if what it takes for known is so. -/
def Search.Truthful (index : CanonicalIndex) (ctx : Context) (s : Search) : Prop :=
  ∀ slot truth, Dict.get? s.known slot = some truth → index.answer? ctx slot = some truth

/-! ## One clause -/

/-- What a search makes of the predicate in a slot: it stays truthful, and nothing else that
matters changes. -/
theorem answer_spec {s : Search} {slot : Nat} {truth : Option Bool}
    (h : s.Truthful index ctx) (hslot : index.answer? ctx slot = some truth) :
    ∃ s', index.answer ctx s slot = (s', some truth) ∧ s'.Truthful index ctx
      ∧ s'.matched = s.matched ∧ s'.valid = s.valid := by
  unfold answer
  split
  · next truth' hknown =>
    have heq := h slot truth' hknown
    rw [hslot] at heq
    obtain rfl := Option.some.inj heq
    exact ⟨s, rfl, h, rfl, rfl⟩
  · obtain ⟨p, hp, rfl⟩ := Option.map_eq_some_iff.1 hslot
    obtain ⟨o, ho, rfl⟩ := Option.map_eq_some_iff.1 hp
    rw [ho]
    refine ⟨_, rfl, fun slot' truth' h' => ?_, rfl, rfl⟩
    rw [Dict.get?] at h'
    split at h'
    · next heq =>
      obtain rfl := Option.some.inj h'
      rw [heq]
      exact hslot
    · exact h slot' truth' h'

/-- What a search makes of a clause whose slots are all occupied. -/
theorem check_spec {s : Search} {ts : List Term} (h : s.Truthful index ctx)
    (hoccupied : ∀ t ∈ ts, ∃ truth, index.answer? ctx t.slot = some truth) :
    (index.check ctx s ts).1.Truthful index ctx
      ∧ (index.check ctx s ts).1.matched = s.matched
      ∧ ((index.check ctx s ts).2 = true ↔ ∀ t ∈ ts, index.Meets ctx t)
      ∧ ((index.check ctx s ts).1.valid = false →
        s.valid = false ∨ ∃ t ∈ ts, index.answer? ctx t.slot = some none) := by
  induction ts generalizing s with
  | nil => exact ⟨h, rfl, iff_of_true rfl (by rintro _ ⟨⟩), .inl⟩
  | cons t ts ih =>
    obtain ⟨⟨truth, hslot⟩, hrest⟩ := List.forall_mem_cons.1 hoccupied
    obtain ⟨s', hanswer, htruthful, hmatched, hvalid⟩ := answer_spec h hslot
    rw [check, hanswer]
    cases truth with
    | none =>
      -- a missing answer ends the clause and makes the search invalid
      refine ⟨htruthful, hmatched, iff_of_false (by rintro ⟨⟩) fun hall => ?_,
        fun _ => .inr ⟨t, List.mem_cons_self, hslot⟩⟩
      have hmeets := hall t List.mem_cons_self
      rw [Meets, hslot] at hmeets
      cases hmeets
    | some value =>
      dsimp only
      split
      · next hne =>
        obtain ⟨htruthful', hmatched', hholds, hinvalid⟩ := ih htruthful hrest
        have hmeets : index.Meets ctx t := by
          rw [Meets, hslot, Bool.eq_not.2 (bne_iff_ne.1 hne)]
        refine ⟨htruthful', hmatched'.trans hmatched, hholds.trans ?_, fun hv => ?_⟩
        · rw [List.forall_mem_cons]
          exact (and_iff_right hmeets).symm
        · rw [← hvalid]
          refine (hinvalid hv).imp_right ?_
          rintro ⟨t', ht', hnone⟩
          exact ⟨t', List.mem_cons_of_mem _ ht', hnone⟩
      · next heq =>
        -- the first term that is not met ends the clause
        refine ⟨htruthful, hmatched, iff_of_false (by rintro ⟨⟩) fun hall => heq ?_,
          fun hv => .inl (hvalid ▸ hv)⟩
        have hmeets := hall t List.mem_cons_self
        rw [Meets, hslot] at hmeets
        rw [Option.some.inj (Option.some.inj hmeets)]
        cases t.negated <;> rfl

/-! ## All clauses -/

/-- **The invariant of a search**, for the clauses that it has gone through. -/
structure Search.Sound (index : CanonicalIndex) (ctx : Context)
    (done : List (ClauseKey × Dict String Unit)) (s : Search) : Prop where
  truthful : s.Truthful index ctx
  /-- The names found are those of the clauses that are met. -/
  matched : ∀ name, Dict.hasKey s.matched name = true
    ↔ ∃ clause ∈ done, Dict.hasKey clause.2 name = true ∧ ∀ t ∈ clause.1, index.Meets ctx t
  sorted : Dict.Sorted s.matched
  /-- An invalid search has come upon a term without an answer. -/
  invalid : s.valid = false → ∃ clause ∈ done, ∃ t ∈ clause.1, index.answer? ctx t.slot = some none

theorem matchAll_spec {matched : Dict String Unit} (names : List String)
    (hsorted : Dict.Sorted matched) :
    Dict.Sorted (names.foldl (fun d name => Dict.insert d name ()) matched)
      ∧ ∀ name, Dict.hasKey (names.foldl (fun d name => Dict.insert d name ()) matched) name = true
        ↔ Dict.hasKey matched name = true ∨ name ∈ names := by
  induction names generalizing matched with
  | nil => exact ⟨hsorted, fun _ => by simp⟩
  | cons name names ih =>
    obtain ⟨hsorted', hmatched⟩ := ih (hsorted.insert name ())
    refine ⟨hsorted', fun name' => (hmatched name').trans ?_⟩
    rw [Dict.hasKey_insert, List.mem_cons, or_comm (a := name' = name), or_assoc]

namespace Search.Sound

variable {done : List (ClauseKey × Dict String Unit)} {s : Search}

/-- What one more clause has to add to what was found. -/
theorem extend (h : s.Sound index ctx done) {clause : ClauseKey × Dict String Unit} {s' : Search}
    (htruthful : s'.Truthful index ctx) (hsorted : Dict.Sorted s'.matched)
    (hmatched : ∀ name, Dict.hasKey s'.matched name = true ↔ Dict.hasKey s.matched name = true
      ∨ Dict.hasKey clause.2 name = true ∧ ∀ t ∈ clause.1, index.Meets ctx t)
    (hinvalid : s'.valid = false →
      s.valid = false ∨ ∃ t ∈ clause.1, index.answer? ctx t.slot = some none) :
    s'.Sound index ctx (done ++ [clause]) where
  truthful := htruthful
  matched name := by
    rw [hmatched, h.matched]
    simp only [List.mem_append, List.mem_singleton, or_and_right, exists_or, exists_eq_left]
  sorted := hsorted
  invalid hv := by
    cases hinvalid hv with
    | inl hv =>
      obtain ⟨clause', hdone, hnone⟩ := h.invalid hv
      exact ⟨clause', List.mem_append_left _ hdone, hnone⟩
    | inr hnone => exact ⟨clause, List.mem_append_right _ (List.mem_singleton_self _), hnone⟩

/-- A clause that is passed over would add nothing: its names are found already, or it is not
met. -/
theorem of_skipped (h : s.Sound index ctx done) {key : ClauseKey} {names : Dict String Unit}
    (hskip : (s.covers names || s.refutes key) = true) {name : String}
    (hname : Dict.hasKey names name = true) (hall : ∀ t ∈ key, index.Meets ctx t) :
    Dict.hasKey s.matched name = true := by
  rw [Bool.or_eq_true] at hskip
  cases hskip with
  | inl hcovers => exact List.all_eq_true.1 hcovers name (Dict.hasKey_iff_mem_keys.1 hname)
  | inr hrefutes =>
    obtain ⟨t, ht, hfails⟩ := List.any_eq_true.1 hrefutes
    have hanswer := h.truthful t.slot _ (beq_iff_eq.1 hfails)
    rw [hall t ht] at hanswer
    exact absurd (Option.some.inj (Option.some.inj hanswer)) (by cases t.negated <;> rintro ⟨⟩)

/-- **Visiting one more clause** keeps the invariant. -/
theorem visit (h : s.Sound index ctx done) {clause : ClauseKey × Dict String Unit}
    (hoccupied : ∀ t ∈ clause.1, ∃ truth, index.answer? ctx t.slot = some truth) :
    (index.visit ctx s clause).Sound index ctx (done ++ [clause]) := by
  obtain ⟨key, names⟩ := clause
  unfold CanonicalIndex.visit
  dsimp only
  split
  · next hskip =>
    refine h.extend h.truthful h.sorted (fun name => ?_) .inl
    exact (or_iff_left_of_imp fun hnew => h.of_skipped hskip hnew.1 hnew.2).symm
  · obtain ⟨htruthful, hmatched, hholds, hinvalid⟩ := check_spec h.truthful hoccupied
    split
    · next hmet =>
      have hall := hholds.1 hmet
      obtain ⟨hsorted, hnames⟩ := matchAll_spec (Dict.keys names) h.sorted
      rw [← hmatched] at hsorted hnames
      refine h.extend htruthful hsorted (fun name => (hnames name).trans ?_) hinvalid
      rw [hmatched, Dict.hasKey_iff_mem_keys (d := names)]
      exact or_congr_right (and_iff_left hall).symm
    · next hmet =>
      have hnot := hholds.not.1 hmet
      refine h.extend htruthful (hmatched ▸ h.sorted) (fun name => ?_) hinvalid
      rw [hmatched]
      exact (or_iff_left fun hnew => hnot hnew.2).symm

/-- Visiting some clauses, one after another. -/
theorem visitAll (h : s.Sound index ctx done) {clauses : List (ClauseKey × Dict String Unit)}
    (hoccupied : ∀ clause ∈ clauses, ∀ t ∈ clause.1,
      ∃ truth, index.answer? ctx t.slot = some truth) :
    (clauses.foldl (index.visit ctx) s).Sound index ctx (done ++ clauses) := by
  induction clauses generalizing s done with
  | nil => rwa [List.append_nil]
  | cons clause clauses ih =>
    obtain ⟨hclause, hclauses⟩ := List.forall_mem_cons.1 hoccupied
    rw [List.append_cons]
    exact ih (h.visit hclause) hclauses

theorem start : Search.Sound index ctx [] {} where
  truthful _ _ h := by cases h
  matched _ := iff_of_false (by rintro ⟨⟩) (by rintro ⟨_, ⟨⟩, _⟩)
  sorted := Dict.sorted_nil
  invalid h := by cases h

end Search.Sound

/-! ## The documents found -/

/-- A clause that is listed belongs to a document that is stored. -/
theorem Sound.owner (h : index.Sound) {clause : ClauseKey × Dict String Unit}
    (hclause : clause ∈ index.clauses) :
    ∃ name entry, Dict.get? index.documents name = some entry ∧ clause.1 ∈ entry.keys := by
  obtain ⟨key, names⟩ := clause
  have hnames := h.clauses.sorted.mem_iff.1 hclause
  obtain ⟨name, hname⟩ := List.exists_mem_of_ne_nil _ (h.clauses.names key names hnames).2
  have hlinked : Linked index.clauses key name.1 :=
    ⟨names, hnames, Dict.hasKey_iff_mem_keys.2 (List.mem_map_of_mem hname)⟩
  exact ⟨name.1, (h.links key name.1).1 hlinked⟩

/-- A key of a document that is stored stands for a clause of its formula. -/
theorem Sound.clause (h : index.Sound) {name : String} {entry : Entry}
    (hentry : Dict.get? index.documents name = some entry) {key : ClauseKey}
    (hkey : key ∈ entry.keys) :
    ∃ c ∈ (entry.document.formula index.maxClauses).clauses, index.arena.Represents key c :=
  forall₂_mem_left (h.entries name entry hentry).2 hkey

theorem answer?_of_denotes {t : Term} {l : Literal} (h : index.arena.Denotes t l) :
    index.answer? ctx t.slot = some (l.predicate.truth? ctx) := by
  rw [answer?, h.1]
  rfl

/-- The terms of a key are met if the literals of its clause are. -/
theorem meets_iff {key : ClauseKey} {c : Clause} (h : index.arena.Represents key c) :
    (∀ t ∈ key, index.Meets ctx t) ↔ c.Met ctx := by
  constructor
  · intro hall l hl
    obtain ⟨t, ht, hdenotes⟩ := h.term hl
    have hmeets := hall t ht
    rw [Meets, answer?_of_denotes hdenotes, hdenotes.2] at hmeets
    exact Option.some.inj hmeets
  · intro hall t ht
    obtain ⟨l, hl, hdenotes⟩ := h.literal ht
    rw [Meets, answer?_of_denotes hdenotes, hdenotes.2, hall l hl]

theorem Sound.search (h : index.Sound) (ctx : Context) :
    (index.search ctx).Sound index ctx index.clauses := by
  refine Search.Sound.start.visitAll fun clause hclause t ht => ?_
  obtain ⟨name, entry, hentry, hkey⟩ := h.owner hclause
  obtain ⟨c, -, hrep⟩ := h.clause hentry hkey
  obtain ⟨l, -, hdenotes⟩ := hrep.literal ht
  exact ⟨_, answer?_of_denotes hdenotes⟩

/-- **The names found** are those of the documents whose formulas are met. -/
theorem Sound.hasKey_matched (h : index.Sound) (ctx : Context) (name : String) :
    Dict.hasKey (index.search ctx).matched name = true
      ↔ ∃ entry, Dict.get? index.documents name = some entry
        ∧ (entry.document.formula index.maxClauses).Met ctx := by
  rw [(h.search ctx).matched]
  constructor
  · rintro ⟨⟨key, names⟩, hclause, hname, hall⟩
    have hlinked : Linked index.clauses key name :=
      ⟨names, h.clauses.sorted.mem_iff.1 hclause, hname⟩
    obtain ⟨entry, hentry, hkey⟩ := (h.links key name).1 hlinked
    obtain ⟨c, hc, hrep⟩ := h.clause hentry hkey
    exact ⟨entry, hentry, c, hc, (meets_iff hrep).1 hall⟩
  · rintro ⟨entry, hentry, c, hc, hmet⟩
    obtain ⟨key, hkey, hrep⟩ := forall₂_mem_left (h.entries name entry hentry).2.flip hc
    obtain ⟨names, hnames, hname⟩ := (h.links key name).2 ⟨entry, hentry, hkey⟩
    exact ⟨(key, names), Dict.mem_of_get? hnames, hname, (meets_iff hrep).2 hmet⟩

/-- **An invalid search** has come upon a predicate of a stored document that has no truth
value. -/
theorem Sound.exists_unanswered (h : index.Sound) (ctx : Context)
    (hinvalid : (index.search ctx).valid = false) :
    ∃ name entry, Dict.get? index.documents name = some entry
      ∧ ¬ (entry.document.formula index.maxClauses).Answered ctx := by
  obtain ⟨clause, hclause, t, ht, hnone⟩ := (h.search ctx).invalid hinvalid
  obtain ⟨name, entry, hentry, hkey⟩ := h.owner hclause
  obtain ⟨c, hc, hrep⟩ := h.clause hentry hkey
  obtain ⟨l, hl, hdenotes⟩ := hrep.literal ht
  refine ⟨name, entry, hentry, fun hover => ?_⟩
  rw [answer?_of_denotes hdenotes] at hnone
  have hsome : (l.predicate.truth? ctx).isSome = true := hover c hc l hl
  rw [Option.some.inj hnone] at hsome
  cases hsome

end CanonicalIndex

end AccessPolicy
