import AccessPolicy.Proofs.Index.History
import AccessPolicy.Proofs.Index.Reduced

/-!
# What the tables of an index hold

The tables of a canonical index are filled and emptied slot by slot, and slots go from one
predicate to another. All the same the tables are exact: what stands in them is determined, up to
the choice of the slots, by the documents that are stored.

The keys of the documents are the link. The slots in a key hold the predicates of the clause that it
stands for, so the slots in use are the predicates that occur in the stored formulas, as often as
they occur there; and two keys are equal if and only if their clauses have the same literals.
Counting one is counting the other.
-/

namespace AccessPolicy

/-! ## What documents are made of -/

/-- The predicates of a formula, each listed once for each occurrence in a clause. -/
def Formula.predicates (f : Formula) : List Predicate :=
  f.clauses.flatMap fun c => c.literals.map Literal.predicate

/-- The predicates of the formulas of some documents. -/
def predicatesOf (ds : List Document) (limit : Nat) : List Predicate :=
  ds.flatMap fun d => (d.formula limit).predicates

/-- The clauses of the formulas of some documents, as sets of literals. -/
def clausesOf (ds : List Document) (limit : Nat) : List (Finset Literal) :=
  ds.flatMap fun d => (d.formula limit).clauses.map fun c => c.literals.toFinset

/-- No two literals of a reduced clause are about the same predicate. -/
theorem Clause.Reduced.predicates_nodup {c : Clause} (h : c.Reduced) :
    (c.literals.map Literal.predicate).Nodup := by
  refine List.pairwise_map.2 (h.listedOnce.imp_of_mem fun {l l'} hl hl' hne heq => ?_)
  obtain ⟨p, negated⟩ := l
  obtain ⟨p', negated'⟩ := l'
  obtain rfl : p = p' := heq
  obtain rfl : negated' = !negated := Bool.eq_not.2 fun hsign => hne (by rw [hsign])
  exact h.consistent _ hl hl'

/-! ## The keys of clauses -/

namespace Arena

variable {a : Arena} {used : List Nat} {key key' : ClauseKey} {c c' : Clause}

/-- The slots of some terms hold the predicates of the literals that they stand for. -/
theorem map_predicate?_of_denotes {terms : List Term} {ls : List Literal}
    (h : List.Forall₂ a.Denotes terms ls) :
    (terms.map Term.slot).map a.predicate? = (ls.map Literal.predicate).map some := by
  induction h with
  | nil => rfl
  | cons hdenotes _ ih => exact congrArg₂ List.cons hdenotes.1 ih

namespace Represents

theorem perm_predicates (h : a.Represents key c) :
    ((key.map Term.slot).map a.predicate?).Perm ((c.literals.map Literal.predicate).map some) := by
  obtain ⟨terms, rfl, hterms⟩ := h
  rw [← map_predicate?_of_denotes hterms]
  exact ((List.mergeSort_perm terms _).map _).map _

theorem slots_nodup (h : a.Represents key c) (hc : c.Reduced) : (key.map Term.slot).Nodup := by
  refine List.Nodup.of_map a.predicate? (h.perm_predicates.nodup_iff.2 ?_)
  exact hc.predicates_nodup.map (Option.some_injective _)

/-- The terms of a key are in order. -/
theorem ordered (h : a.Represents key c) : key.Pairwise fun s t => s.rank ≤ t.rank := by
  obtain ⟨terms, rfl, -⟩ := h
  refine (List.pairwise_mergeSort (fun s t u hst htu => ?_) (fun s t => ?_) terms).imp
    of_decide_eq_true
  · exact decide_eq_true (Nat.le_trans (of_decide_eq_true hst) (of_decide_eq_true htu))
  · rw [Bool.or_eq_true, decide_eq_true_eq, decide_eq_true_eq]
    exact Nat.le_total s.rank t.rank

/-- **The slots of a key** go up: no slot occurs twice, with whatever signs. -/
theorem ascending (h : a.Represents key c) (hc : c.Reduced) :
    (key.map Term.slot).Pairwise (· < ·) := by
  have hslots : key.Pairwise fun s t => s.slot ≠ t.slot := List.pairwise_map.1 (h.slots_nodup hc)
  refine List.pairwise_map.2 ((h.ordered.and hslots).imp fun {s t} hst => ?_)
  obtain ⟨hrank, hne⟩ := hst
  unfold Term.rank at hrank
  have hs := Bool.toNat_le s.negated
  have ht := Bool.toNat_le t.negated
  omega

end Represents

/-- A term stands for one literal. -/
theorem Denotes.literal_eq {t : Term} {l l' : Literal} (h : a.Denotes t l) (h' : a.Denotes t l') :
    l = l' := by
  obtain ⟨p, negated⟩ := l
  obtain ⟨p', negated'⟩ := l'
  obtain rfl : p = p' := Option.some.inj (h.1.symm.trans h'.1)
  exact congrArg (Literal.mk p) (h.2.symm.trans h'.2)

/-- A literal has one term. -/
theorem Sound.term_eq (ha : a.Sound used) {t t' : Term} {l : Literal} (h : a.Denotes t l)
    (h' : a.Denotes t' l) : t = t' := by
  obtain ⟨slot, negated⟩ := t
  obtain ⟨slot', negated'⟩ := t'
  obtain rfl : slot = slot' := ha.distinct h.1 h'.1
  exact congrArg (Term.mk slot) (h.2.trans h'.2.symm)

/-- The literals that a key stands for. -/
def literalsOf (a : Arena) (key : ClauseKey) : Finset Literal :=
  (key.filterMap fun t => (a.predicate? t.slot).map (Literal.mk · t.negated)).toFinset

theorem mem_literalsOf {l : Literal} : l ∈ a.literalsOf key ↔ ∃ t ∈ key, a.Denotes t l := by
  obtain ⟨p, negated⟩ := l
  unfold literalsOf Denotes
  simp only [List.mem_toFinset, List.mem_filterMap, Option.map_eq_some_iff, Literal.mk.injEq]
  grind

theorem Represents.literalsOf_eq (h : a.Represents key c) :
    a.literalsOf key = c.literals.toFinset := by
  ext l
  rw [mem_literalsOf, List.mem_toFinset]
  constructor
  · rintro ⟨t, ht, hdenotes⟩
    obtain ⟨l', hl', hdenotes'⟩ := h.literal ht
    rwa [hdenotes.literal_eq hdenotes']
  · exact h.term

/-- If all literals of a key are literals of another one, so are the terms. -/
theorem Sound.subset_of_literalsOf (ha : a.Sound used) (h : a.Represents key c)
    (hsub : a.literalsOf key ⊆ a.literalsOf key') : key ⊆ key' := by
  intro t ht
  obtain ⟨l, -, hdenotes⟩ := h.literal ht
  obtain ⟨t', ht', hdenotes'⟩ := mem_literalsOf.1 (hsub (mem_literalsOf.2 ⟨t, ht, hdenotes⟩))
  rwa [ha.term_eq hdenotes hdenotes']

/-- **A key tells its clause**: keys of reduced clauses with the same literals are equal. -/
theorem Sound.key_eq (ha : a.Sound used) (h : a.Represents key c) (h' : a.Represents key' c')
    (hc : c.Reduced) (hc' : c'.Reduced) (heq : a.literalsOf key = a.literalsOf key') :
    key = key' := by
  have hperm : key.Perm key' :=
    (List.perm_ext_iff_of_nodup (h.slots_nodup hc).of_map (h'.slots_nodup hc').of_map).2 fun t =>
      ⟨fun ht => ha.subset_of_literalsOf h heq.subset ht,
        fun ht => ha.subset_of_literalsOf h' heq.symm.subset ht⟩
  exact hperm.eq_of_pairwise
    (fun s t _ _ hst hts => Term.eq_of_rank s t (Nat.le_antisymm hst hts)) h.ordered h'.ordered

end Arena

namespace CanonicalIndex

/-! ## The slots in use -/

/-- The slots of some keys hold the predicates of the clauses that they stand for. -/
theorem perm_slotsOf {a : Arena} {keys : List ClauseKey} {cs : List Clause}
    (h : List.Forall₂ a.Represents keys cs) :
    ((slotsOf keys).map a.predicate?).Perm
      ((cs.flatMap fun c => c.literals.map Literal.predicate).map some) := by
  induction h with
  | nil => exact .refl _
  | cons hrep _ ih =>
    rw [slotsOf_cons, List.map_append, List.flatMap_cons, List.map_append]
    exact hrep.perm_predicates.append ih

section Slots

variable {a : Arena} {keys : List ClauseKey} {f : Formula}
  (h : List.Forall₂ a.Represents keys f.clauses)
include h

/-- Every predicate of a formula has a slot in its keys. -/
theorem mem_predicates_iff {p : Predicate} :
    p ∈ f.predicates ↔ ∃ slot ∈ slotsOf keys, a.predicate? slot = some p := by
  rw [← List.mem_map, (perm_slotsOf h).mem_iff, List.mem_map_of_injective (Option.some_injective _)]
  rfl

/-- **The slots in the keys of a formula** are those of its predicates. -/
theorem mem_slotsOf {used : List Nat} (ha : a.Sound used) {slot : Nat} :
    slot ∈ slotsOf keys ↔ ∃ p ∈ f.predicates, a.predicate? slot = some p := by
  constructor
  · intro hslot
    have hheld : a.predicate? slot ∈ (slotsOf keys).map a.predicate? := List.mem_map_of_mem hslot
    obtain ⟨p, -, hp⟩ := List.mem_map.1 ((perm_slotsOf h).mem_iff.1 hheld)
    exact ⟨p, (mem_predicates_iff h).2 ⟨slot, hslot, hp.symm⟩, hp.symm⟩
  · rintro ⟨p, hp, hslot⟩
    obtain ⟨slot', hslot', heq⟩ := (mem_predicates_iff h).1 hp
    rwa [ha.distinct hslot heq]

end Slots

variable {index : CanonicalIndex}

/-- The documents that are stored. -/
abbrev stored (index : CanonicalIndex) : List Document := (Index.canonical index).documents

/-- The predicates of the stored documents, each listed once for each occurrence. -/
def predicatesStored (index : CanonicalIndex) : List Predicate :=
  predicatesOf index.stored index.maxClauses

/-- An entry that is listed is stored under its name. -/
theorem Sound.represents (h : index.Sound) {name : String} {entry : Entry}
    (hmem : (name, entry) ∈ index.documents) :
    List.Forall₂ index.arena.Represents entry.keys
      (entry.document.formula index.maxClauses).clauses :=
  (h.entries name entry (h.documents.mem_iff.1 hmem)).2

/-- **The slots in use** hold the predicates of the stored documents, each as often as it
occurs. -/
theorem Sound.perm_slotsUsed (h : index.Sound) :
    ((slotsUsed index.documents).map index.arena.predicate?).Perm
      (index.predicatesStored.map some) := by
  have hall : ∀ x ∈ index.documents, List.Forall₂ index.arena.Represents x.2.keys
      (x.2.document.formula index.maxClauses).clauses := fun x hx => h.represents hx
  show List.Perm _ ((predicatesOf ((Dict.values index.documents).map Entry.document)
    index.maxClauses).map some)
  revert hall
  generalize index.documents = documents
  intro hall
  induction documents with
  | nil => exact .refl _
  | cons x documents ih =>
    obtain ⟨hx, hrest⟩ := List.forall_mem_cons.1 hall
    show ((slotsOf x.2.keys ++ slotsUsed documents).map _).Perm
      (((x.2.document.formula _).predicates ++ predicatesOf _ _).map some)
    rw [List.map_append, List.map_append]
    exact (perm_slotsOf hx).append (ih hrest)

/-- A predicate has a slot exactly if it occurs in a stored document. -/
theorem Sound.slotOf?_isSome (h : index.Sound) {p : Predicate} :
    (index.slotOf? p).isSome ↔ p ∈ index.predicatesStored := by
  rw [← List.mem_map_of_injective (Option.some_injective _), ← h.perm_slotsUsed.mem_iff,
    List.mem_map, Option.isSome_iff_exists]
  refine exists_congr fun slot => ?_
  refine (h.arena.ids p slot).trans ⟨fun hslot => ⟨?_, hslot⟩, And.right⟩
  obtain ⟨o, ho, -⟩ := Option.map_eq_some_iff.1 hslot
  exact h.arena.mem_used.2 ⟨o, ho⟩

/-- The uses of a slot are the occurrences of its predicate. -/
theorem Sound.uses_eq (h : index.Sound) {slot : Nat} {o : Occupant}
    (ho : index.arena.occupant? slot = some o) :
    o.uses = index.predicatesStored.count o.predicate := by
  have hslot := Arena.predicate?_of_occupant? ho
  have hcounted := h.arena.counted slot
  rw [Arena.usesOf, ho] at hcounted
  calc o.uses = (slotsUsed index.documents).count slot := hcounted
    _ = ((slotsUsed index.documents).map index.arena.predicate?).count (some o.predicate) := by
        rw [List.count, List.count, List.countP_map]
        refine List.countP_congr fun s _ => ?_
        simp only [Function.comp_apply, beq_iff_eq]
        exact ⟨fun heq => heq ▸ hslot, fun hs => h.arena.distinct hs hslot⟩
    _ = (index.predicatesStored.map some).count (some o.predicate) :=
        h.perm_slotsUsed.count_eq _
    _ = index.predicatesStored.count o.predicate :=
        List.count_map_of_injective _ _ (Option.some_injective _) _

/-! ## The clauses in use -/

/-- The keys that are listed are those of the stored documents. -/
theorem Sound.hasKey_clauses (h : index.Sound) {key : ClauseKey} :
    Dict.hasKey index.clauses key = true
      ↔ ∃ name entry, Dict.get? index.documents name = some entry ∧ key ∈ entry.keys := by
  rw [Dict.hasKey, Option.isSome_iff_exists]
  constructor
  · rintro ⟨names, hnames⟩
    obtain ⟨⟨name, _⟩, rest, rfl⟩ := List.exists_cons_of_ne_nil (h.clauses.names key names hnames).2
    exact ⟨name, (h.links key name).1 ⟨_, hnames, by rw [Dict.hasKey, Dict.get?, if_pos rfl]; rfl⟩⟩
  · rintro ⟨name, entry, hentry, hkey⟩
    obtain ⟨names, hnames, -⟩ := (h.links key name).2 ⟨entry, hentry, hkey⟩
    exact ⟨names, hnames⟩

/-- A key that is listed is that of a clause of a stored document. -/
theorem Sound.exists_clause (h : index.Sound) {key : ClauseKey}
    (hkey : Dict.hasKey index.clauses key = true) :
    ∃ d ∈ index.stored, ∃ c ∈ (d.formula index.maxClauses).clauses,
      index.arena.Represents key c := by
  obtain ⟨name, entry, hentry, hmem⟩ := h.hasKey_clauses.1 hkey
  obtain ⟨hname, hrep⟩ := h.entries name entry hentry
  exact ⟨entry.document, h.mem_documents.2 ⟨entry, hname ▸ hentry, rfl⟩, forall₂_mem_left hrep hmem⟩

/-- A clause of a stored document has a key that is listed. -/
theorem Sound.exists_key (h : index.Sound) {d : Document} (hd : d ∈ index.stored) {c : Clause}
    (hc : c ∈ (d.formula index.maxClauses).clauses) :
    ∃ key, Dict.hasKey index.clauses key = true ∧ index.arena.Represents key c := by
  obtain ⟨entry, hentry, rfl⟩ := h.mem_documents.1 hd
  obtain ⟨key, hkey, hrep⟩ := forall₂_mem_left (h.entries _ entry hentry).2.flip hc
  exact ⟨key, h.hasKey_clauses.2 ⟨_, entry, hentry, hkey⟩, hrep⟩

theorem Sound.ascending_key (h : index.Sound) {key : ClauseKey}
    (hkey : Dict.hasKey index.clauses key = true) : (key.map Term.slot).Pairwise (· < ·) := by
  obtain ⟨d, -, c, hc, hrep⟩ := h.exists_clause hkey
  exact hrep.ascending ((d.reduced_formula _).clauses c hc)

/-- **As many keys are listed** as there are different clauses in the stored documents. -/
theorem Sound.clauseCount_eq (h : index.Sound) :
    index.clauseCount = (clausesOf index.stored index.maxClauses).toFinset.card := by
  have himage : (Dict.keys index.clauses).toFinset.image index.arena.literalsOf
      = (clausesOf index.stored index.maxClauses).toFinset := by
    ext literals
    simp only [Finset.mem_image, List.mem_toFinset, ← Dict.hasKey_iff_mem_keys, clausesOf,
      List.mem_flatMap, List.mem_map]
    constructor
    · rintro ⟨key, hkey, rfl⟩
      obtain ⟨d, hd, c, hc, hrep⟩ := h.exists_clause hkey
      exact ⟨d, hd, c, hc, hrep.literalsOf_eq.symm⟩
    · rintro ⟨d, hd, c, hc, rfl⟩
      obtain ⟨key, hkey, hrep⟩ := h.exists_key hd hc
      exact ⟨key, hkey, hrep.literalsOf_eq⟩
  have hinjective : Set.InjOn index.arena.literalsOf (Dict.keys index.clauses).toFinset := by
    intro key hkey key' hkey' heq
    rw [Finset.mem_coe, List.mem_toFinset, ← Dict.hasKey_iff_mem_keys] at hkey hkey'
    obtain ⟨d, -, c, hc, hrep⟩ := h.exists_clause hkey
    obtain ⟨d', -, c', hc', hrep'⟩ := h.exists_clause hkey'
    exact h.arena.key_eq hrep hrep' ((d.reduced_formula _).clauses c hc)
      ((d'.reduced_formula _).clauses c' hc') heq
  rw [← himage, Finset.card_image_of_injOn hinjective,
    List.toFinset_card_of_nodup h.clauses.sorted.keys_nodup]
  exact (List.length_map _).symm

/-- As many predicates are listed as there are different ones in the stored documents. -/
theorem Sound.predicateCount_eq (h : index.Sound) :
    index.predicateCount = index.predicatesStored.toFinset.card := by
  have hkeys : (Dict.keys index.arena.ids).toFinset = index.predicatesStored.toFinset := by
    ext p
    rw [List.mem_toFinset, List.mem_toFinset, ← Dict.hasKey_iff_mem_keys, ← h.slotOf?_isSome]
    rfl
  rw [← hkeys, List.toFinset_card_of_nodup h.arena.listed]
  exact (List.length_map _).symm

/-! ## Exactness -/

/-- **The tables of an index are exact** for the documents that are stored. -/
structure Exact (index : CanonicalIndex) : Prop where
  /-- The table of predicates pairs off the predicates of the stored documents with the slots that
  are occupied. -/
  ids : Set.BijOn index.slotOf? {p | p ∈ index.predicatesStored}
    (some '' {slot | (index.arena.occupant? slot).isSome})
  /-- The slot that it tells is the one that holds the predicate. If none does, it tells none. -/
  slots : ∀ p slot, index.slotOf? p = some slot ↔ index.arena.predicate? slot = some p
  /-- It lists no predicate twice. -/
  listed : (Dict.keys index.arena.ids).Nodup
  /-- The free slots are those that are not occupied, each waiting once. -/
  free : ∀ slot, slot ∈ index.arena.free
    ↔ slot < index.arena.slots.length ∧ index.arena.occupant? slot = none
  freeOnce : index.arena.free.Nodup
  /-- The uses of a slot are its occurrences in the keys of all documents, and those of its
  predicate in all clauses of all documents. -/
  counted : ∀ slot, index.arena.usesOf slot = (slotsUsed index.documents).count slot
  uses : ∀ slot o, index.arena.occupant? slot = some o →
    0 < o.uses ∧ o.uses = index.predicatesStored.count o.predicate
  /-- Whichever document is removed next, each release has a use to give up. -/
  releases : ∀ name entry, Dict.get? index.documents name = some entry →
    index.arena.Releasable (slotsOf entry.keys)
  /-- The documents are listed in the order of their names. -/
  documents : Dict.Sorted index.documents
  /-- A document is stored under its name, and its keys stand for the clauses of its formula. -/
  entries : ∀ name entry, Dict.get? index.documents name = some entry →
    entry.document.name = name ∧ List.Forall₂ index.arena.Represents entry.keys
      (entry.document.formula index.maxClauses).clauses
  /-- The keys are listed in order, each once, and so are the names of each, of which there are
  some. -/
  clauses : Tidy index.clauses
  /-- The slots of a key go up, so that none occurs twice, with whatever signs. -/
  ascending : ∀ key, Dict.hasKey index.clauses key = true → (key.map Term.slot).Pairwise (· < ·)
  /-- The keys that are listed are those of the stored documents. -/
  keys : ∀ key, Dict.hasKey index.clauses key = true
    ↔ ∃ name entry, Dict.get? index.documents name = some entry ∧ key ∈ entry.keys
  /-- The names that are listed for a key are those of the documents that have it. -/
  names : ∀ key names, Dict.get? index.clauses key = some names →
    ∀ name, Dict.hasKey names name = true
      ↔ ∃ entry, Dict.get? index.documents name = some entry ∧ key ∈ entry.keys
  /-- The numbers of predicates and of clauses are those of the stored documents. -/
  predicateCount : index.predicateCount = index.predicatesStored.toFinset.card
  clauseCount : index.clauseCount = (clausesOf index.stored index.maxClauses).toFinset.card
  /-- Two documents share a slot exactly if they share a predicate. -/
  shared : ∀ name entry name' entry', Dict.get? index.documents name = some entry →
    Dict.get? index.documents name' = some entry' →
      ((∃ slot ∈ slotsOf entry.keys, slot ∈ slotsOf entry'.keys)
        ↔ ∃ p ∈ (entry.document.formula index.maxClauses).predicates,
          p ∈ (entry'.document.formula index.maxClauses).predicates)

theorem Sound.bijOn_slotOf? (h : index.Sound) :
    Set.BijOn index.slotOf? {p | p ∈ index.predicatesStored}
      (some '' {slot | (index.arena.occupant? slot).isSome}) := by
  refine ⟨fun p hp => ?_, fun p hp q _ heq => ?_, ?_⟩
  · obtain ⟨slot, hslot⟩ := Option.isSome_iff_exists.1 (h.slotOf?_isSome.2 hp)
    obtain ⟨o, ho, -⟩ := Option.map_eq_some_iff.1 ((h.arena.ids p slot).1 hslot)
    exact ⟨slot, Option.isSome_of_eq_some ho, hslot.symm⟩
  · obtain ⟨slot, hslot⟩ := Option.isSome_iff_exists.1 (h.slotOf?_isSome.2 hp)
    have hp' := (h.arena.ids p slot).1 hslot
    have hq' := (h.arena.ids q slot).1 (heq.symm.trans hslot)
    exact Option.some.inj (hp'.symm.trans hq')
  · rintro _ ⟨slot, hslot, rfl⟩
    obtain ⟨o, ho⟩ := Option.isSome_iff_exists.1 hslot
    have hid := (h.arena.ids o.predicate slot).2 (Arena.predicate?_of_occupant? ho)
    exact ⟨o.predicate, h.slotOf?_isSome.1 (Option.isSome_of_eq_some hid), hid⟩

theorem Sound.shared_iff (h : index.Sound) {name name' : String} {entry entry' : Entry}
    (hentry : Dict.get? index.documents name = some entry)
    (hentry' : Dict.get? index.documents name' = some entry') :
    (∃ slot ∈ slotsOf entry.keys, slot ∈ slotsOf entry'.keys)
      ↔ ∃ p ∈ (entry.document.formula index.maxClauses).predicates,
        p ∈ (entry'.document.formula index.maxClauses).predicates := by
  have hrep := (h.entries name entry hentry).2
  have hrep' := (h.entries name' entry' hentry').2
  constructor
  · rintro ⟨slot, hslot, hslot'⟩
    obtain ⟨p, hp, hheld⟩ := (mem_slotsOf hrep h.arena).1 hslot
    obtain ⟨p', hp', hheld'⟩ := (mem_slotsOf hrep' h.arena).1 hslot'
    obtain rfl : p = p' := Option.some.inj (hheld.symm.trans hheld')
    exact ⟨p, hp, hp'⟩
  · rintro ⟨p, hp, hp'⟩
    obtain ⟨slot, hslot, hheld⟩ := (mem_predicates_iff hrep).1 hp
    exact ⟨slot, hslot, (mem_slotsOf hrep' h.arena).2 ⟨p, hp', hheld⟩⟩

/-- **The tables of a sound index are exact.** -/
theorem Sound.exact (h : index.Sound) : index.Exact where
  ids := h.bijOn_slotOf?
  slots := h.arena.ids
  listed := h.arena.listed
  free := h.arena.free
  freeOnce := h.arena.nodup
  counted := h.arena.counted
  uses slot o ho := ⟨h.arena.positive slot o ho, h.uses_eq ho⟩
  releases name entry hentry :=
    (h.arena.perm (slotsUsed_perm (h.documents.erase_perm hentry))).releasable
  documents := h.documents
  entries := h.entries
  clauses := h.clauses
  ascending _ := h.ascending_key
  keys _ := h.hasKey_clauses
  names key names hnames name := by
    rw [← h.links]
    exact ⟨fun hname => ⟨names, hnames, hname⟩, fun ⟨names', hnames', hname⟩ => by
      rwa [Option.some.inj (hnames.symm.trans hnames')]⟩
  predicateCount := h.predicateCount_eq
  clauseCount := h.clauseCount_eq
  shared _ _ _ _ := h.shared_iff

end CanonicalIndex

namespace Index

/-- **The tables are exact after every history.** However documents were stored and removed before,
the tables of a canonical index are exact for those that are stored by now. So the numbers of
predicates and of clauses depend on nothing else: they are the same after every other history that
leaves the same documents. -/
theorem tables_exact_after (limit : Nat) (updates : List IndexUpdate) :
    ∃ c, (empty .canonical limit).after updates = canonical c ∧ c.maxClauses = max limit 1
      ∧ c.Exact
      ∧ ∀ updates' c', (empty .canonical limit).after updates' = canonical c' →
        c.stored = c'.stored →
          c.predicateCount = c'.predicateCount ∧ c.clauseCount = c'.clauseCount := by
  obtain ⟨c, hc, hsound, hlimit⟩ := canonical_after limit updates
  refine ⟨c, hc, hlimit, hsound.exact, fun updates' c' hc' hsame => ?_⟩
  obtain ⟨c'', hc'', hsound', hlimit'⟩ := canonical_after limit updates'
  obtain rfl : c' = c'' := canonical.inj (hc'.symm.trans hc'')
  have hpredicates : c.predicatesStored = c'.predicatesStored := by
    rw [CanonicalIndex.predicatesStored, CanonicalIndex.predicatesStored, hsame, hlimit, hlimit']
  refine ⟨?_, ?_⟩
  · rw [hsound.predicateCount_eq, hsound'.predicateCount_eq, hpredicates]
  · rw [hsound.clauseCount_eq, hsound'.clauseCount_eq, hsame, hlimit, hlimit']

end Index

end AccessPolicy
