import AccessPolicy.Proofs.Dict
import AccessPolicy.Proofs.Index.Arena
import AccessPolicy.Proofs.Lists

/-!
# What an index stores

An index keeps three tables in step: the documents with the keys of their clauses, the arena of
the predicates that the keys are made of, and for each key the names of the documents that have
it. It is **sound** if the arena is sound for the slots of all keys of all documents, if the keys
of each document stand for the clauses of its formula, and if a name is listed for a key exactly
if the document of that name has it.

Storing and removing a document both go through its keys one by one, and in between the tables
are out of step. So what each loop does to the arena and what it does to the table of clauses is
said separately, and the two are put together only when it is done.
-/

namespace AccessPolicy

theorem Term.eq_of_rank (s t : Term) (h : s.rank = t.rank) : s = t := by
  obtain ⟨slot, negated⟩ := s
  obtain ⟨slot', negated'⟩ := t
  unfold rank at h
  cases negated <;> cases negated' <;> simp at h ⊢ <;> omega

instance : LawfulKeyOrder ClauseKey where
  asymm _ _ := lexBefore_asymm _ _
  trans _ _ _ := lexBefore_trans _ _ _
  total _ _ := lexBefore_total Term.eq_of_rank _ _

/-! ## Clauses and their keys -/

/-- A key stands for a clause: it has, in order, the terms that stand for the literals. -/
def Arena.Represents (a : Arena) (key : ClauseKey) (c : Clause) : Prop :=
  ∃ terms, key = CanonicalIndex.sortTerms terms ∧ List.Forall₂ a.Denotes terms c.literals

namespace Arena.Represents

variable {a a' : Arena} {key : ClauseKey} {c : Clause}

theorem mem_sortTerms {terms : List Term} {t : Term} :
    t ∈ CanonicalIndex.sortTerms terms ↔ t ∈ terms := List.mem_mergeSort

theorem literal (h : a.Represents key c) {t : Term} (ht : t ∈ key) :
    ∃ l ∈ c.literals, a.Denotes t l := by
  obtain ⟨terms, rfl, hterms⟩ := h
  exact forall₂_mem_left hterms (mem_sortTerms.1 ht)

theorem term (h : a.Represents key c) {l : Literal} (hl : l ∈ c.literals) :
    ∃ t ∈ key, a.Denotes t l := by
  obtain ⟨terms, rfl, hterms⟩ := h
  obtain ⟨t, ht, hdenotes⟩ := forall₂_mem_left hterms.flip hl
  exact ⟨t, mem_sortTerms.2 ht, hdenotes⟩

/-- A key stands for the same clause as long as its slots keep their predicates. -/
theorem keep (h : a.Represents key c) (hkeeps : a.Keeps a' (key.map Term.slot)) :
    a'.Represents key c := by
  obtain ⟨terms, rfl, hterms⟩ := h
  refine ⟨terms, rfl, ?_⟩
  have hslots : ∀ t ∈ terms, a'.predicate? t.slot = a.predicate? t.slot :=
    fun t ht => hkeeps _ (List.mem_map_of_mem (mem_sortTerms.2 ht))
  refine ((List.forall₂_and_left _ _).2 ⟨hslots, hterms⟩).imp ?_
  rintro t l ⟨hslot, hpred, hsign⟩
  exact ⟨hslot.trans hpred, hsign⟩

end Arena.Represents

/-! ## The table of clauses -/

/-- A name is listed for a key. -/
def Linked (clauses : Dict ClauseKey (Dict String Unit)) (key : ClauseKey) (name : String) :
    Prop :=
  ∃ names, Dict.get? clauses key = some names ∧ Dict.hasKey names name = true

/-- A table of clauses is tidy if it is sorted, and if the names for each key are and there are
any. -/
structure Tidy (clauses : Dict ClauseKey (Dict String Unit)) : Prop where
  sorted : Dict.Sorted clauses
  names : ∀ key names, Dict.get? clauses key = some names → Dict.Sorted names ∧ names ≠ []

namespace CanonicalIndex

variable {clauses : Dict ClauseKey (Dict String Unit)}

theorem tidy_link (h : Tidy clauses) (key : ClauseKey) (name : String) :
    Tidy (link clauses key name) where
  sorted := h.sorted.insert _ _
  names key' names hnames := by
    unfold link at hnames
    rw [Dict.get?_insert] at hnames
    split at hnames
    · obtain rfl := Option.some.inj hnames
      refine ⟨Dict.Sorted.insert ?_ _ _, fun hnil => ?_⟩
      · cases hkey : Dict.get? clauses key with
        | none => exact Dict.sorted_nil
        | some names => exact (h.names key names hkey).1
      · have hname := Dict.get?_insert ((Dict.get? clauses key).getD []) name name ()
        rw [hnil, if_pos rfl] at hname
        cases hname
    · exact h.names key' names hnames

/-- Linking a name to a key lists it there. -/
theorem linked_link {key key' : ClauseKey} {name name' : String} :
    Linked (link clauses key name) key' name'
      ↔ Linked clauses key' name' ∨ key' = key ∧ name' = name := by
  unfold Linked link
  rw [Dict.get?_insert]
  split
  · next heq =>
    subst heq
    cases hkey : Dict.get? clauses key' with
    | none => simp [Dict.hasKey_insert]
    | some names => simp [Dict.hasKey_insert, or_comm]
  · next hne => simp [hne]

theorem tidy_unlink (h : Tidy clauses) (key : ClauseKey) (name : String) :
    Tidy (unlink clauses key name) := by
  unfold unlink
  split
  · exact h
  · next names hnames =>
    dsimp only
    split
    · exact ⟨h.sorted.erase key, fun key' names' h' => by
        rw [Dict.get?_erase] at h'
        split at h'
        · cases h'
        · exact h.names key' names' h'⟩
    · next hempty =>
      refine ⟨h.sorted.insert key _, fun key' names' h' => ?_⟩
      rw [Dict.get?_insert] at h'
      split at h'
      · obtain rfl := Option.some.inj h'
        exact ⟨(h.names key names hnames).1.erase name, fun hnil => hempty (by rw [hnil]; rfl)⟩
      · exact h.names key' names' h'

/-- Unlinking a name from a key removes it there. -/
theorem linked_unlink {key key' : ClauseKey} {name name' : String} :
    Linked (unlink clauses key name) key' name'
      ↔ Linked clauses key' name' ∧ ¬ (key' = key ∧ name' = name) := by
  unfold Linked unlink
  split
  · next hnone =>
    refine (and_iff_left_of_imp ?_).symm
    rintro ⟨names, hnames, -⟩ ⟨rfl, -⟩
    rw [hnone] at hnames
    cases hnames
  · next names hnames =>
    have herase : ∀ n, Dict.hasKey (Dict.erase names name) n = true
        ↔ Dict.hasKey names n = true ∧ n ≠ name := fun n => Dict.hasKey_erase.trans and_comm
    dsimp only
    split
    · next hempty =>
      -- no name is left, so the key goes too, and there was no other name to lose
      have hnot := (herase name').not.1 (by rw [List.isEmpty_iff.1 hempty]; rintro ⟨⟩)
      rw [Dict.get?_erase]
      split
      · next heq =>
        subst heq
        simp only [hnames, Option.some.injEq, exists_eq_left', true_and]
        exact iff_of_false (by rintro ⟨_, ⟨⟩, _⟩) hnot
      · next hne => simp [hne]
    · rw [Dict.get?_insert]
      split
      · next heq =>
        subst heq
        simp [hnames, herase]
      · next hne => simp [hne]

/-- Removes a name from those that have some clauses. -/
def unlinkAll (name : String) (clauses : Dict ClauseKey (Dict String Unit))
    (keys : List ClauseKey) : Dict ClauseKey (Dict String Unit) :=
  keys.foldl (fun clauses key => unlink clauses key name) clauses

theorem tidy_unlinkAll (h : Tidy clauses) (name : String) (keys : List ClauseKey) :
    Tidy (unlinkAll name clauses keys) := by
  induction keys generalizing clauses with
  | nil => exact h
  | cons key keys ih => exact ih (tidy_unlink h key name)

theorem linked_unlinkAll {name name' : String} {keys : List ClauseKey} {key : ClauseKey} :
    Linked (unlinkAll name clauses keys) key name'
      ↔ Linked clauses key name' ∧ ¬ (key ∈ keys ∧ name' = name) := by
  induction keys generalizing clauses with
  | nil => simp [unlinkAll]
  | cons key' keys ih =>
    refine ih.trans ?_
    rw [linked_unlink, List.mem_cons]
    grind

/-! ## The invariant -/

/-- The slots of some keys, one item for each term. -/
def slotsOf (keys : List ClauseKey) : List Nat := keys.flatMap (List.map Term.slot)

theorem slotsOf_cons (key : ClauseKey) (keys : List ClauseKey) :
    slotsOf (key :: keys) = key.map Term.slot ++ slotsOf keys := List.flatMap_cons

/-- The slots of the keys of all documents. -/
def slotsUsed (documents : Dict String Entry) : List Nat :=
  documents.flatMap fun entry => slotsOf entry.2.keys

theorem slotsUsed_perm {documents rest : Dict String Entry} {name : String} {entry : Entry}
    (h : documents.Perm ((name, entry) :: rest)) :
    (slotsUsed documents).Perm (slotsOf entry.keys ++ slotsUsed rest) := h.flatMap_right _

/-- **An index is sound** if its tables are in step. -/
structure Sound (index : CanonicalIndex) : Prop where
  /-- The documents are listed in the order of their names. -/
  documents : Dict.Sorted index.documents
  /-- The clauses are listed in order, with the names of each. -/
  clauses : Tidy index.clauses
  /-- The arena counts the terms of all keys of all documents. -/
  arena : index.arena.Sound (slotsUsed index.documents)
  /-- A document is stored under its name, and its keys stand for the clauses of its formula. -/
  entries : ∀ name entry, Dict.get? index.documents name = some entry →
    entry.document.name = name ∧ List.Forall₂ index.arena.Represents entry.keys
      (entry.document.formula index.maxClauses).clauses
  /-- A name is listed for the keys of its document. -/
  links : ∀ key name, Linked index.clauses key name
    ↔ ∃ entry, Dict.get? index.documents name = some entry ∧ key ∈ entry.keys

theorem sound_empty (maxClauses : Nat) : (empty maxClauses).Sound where
  documents := Dict.sorted_nil
  clauses := ⟨Dict.sorted_nil, by rintro _ _ ⟨⟩⟩
  arena := .empty
  entries := by rintro _ _ ⟨⟩
  links _ _ := iff_of_false (by rintro ⟨_, ⟨⟩, _⟩) (by rintro ⟨_, ⟨⟩, _⟩)

/-- The slots of an entry that is stored are in use. -/
theorem slotsOf_subset {documents : Dict String Entry} {name : String} {entry : Entry}
    (h : Dict.get? documents name = some entry) : slotsOf entry.keys ⊆ slotsUsed documents :=
  fun _ hslot => List.mem_flatMap.2 ⟨(name, entry), Dict.mem_of_get? h, hslot⟩

/-- The keys of an entry stand for the same clauses as long as the slots in use are kept. -/
theorem represents_keep {a a' : Arena} {keys : List ClauseKey} {cs : List Clause}
    (h : List.Forall₂ a.Represents keys cs) (hkeeps : a.Keeps a' (slotsOf keys)) :
    List.Forall₂ a'.Represents keys cs := by
  have hslots : ∀ key ∈ keys, a.Keeps a' (key.map Term.slot) := fun key hkey =>
    hkeeps.mono fun slot hslot => List.mem_flatMap.2 ⟨key, hkey, hslot⟩
  exact ((List.forall₂_and_left _ _).2 ⟨hslots, h⟩).imp fun _ _ hboth => hboth.2.keep hboth.1

/-! ## Removing documents -/

/-- Giving up some clauses releases their slots and unlinks the name, and nothing else. -/
theorem foldl_dropClause (name : String) (index : CanonicalIndex) (keys : List ClauseKey) :
    keys.foldl (dropClause name) index
      = { index with
          clauses := unlinkAll name index.clauses keys
          arena := (slotsOf keys).foldl Arena.release index.arena } := by
  induction keys generalizing index with
  | nil => rfl
  | cons key keys ih =>
    rw [List.foldl_cons, ih, slotsOf_cons, List.foldl_append, List.foldl_map]
    rfl

theorem documents_erase (index : CanonicalIndex) (name : String) :
    (index.erase name).documents = Dict.erase index.documents name := by
  unfold erase
  split
  · next hnone => exact (Dict.erase_of_absent hnone).symm
  · rw [foldl_dropClause]

/-- **Removing a document** keeps the tables in step. -/
theorem Sound.erase {index : CanonicalIndex} (h : index.Sound) (name : String) :
    (index.erase name).Sound := by
  unfold CanonicalIndex.erase
  split
  · exact h
  · next entry hentry =>
    rw [foldl_dropClause]
    obtain ⟨hsound, hkeeps⟩ :=
      (h.arena.perm (slotsUsed_perm (h.documents.erase_perm hentry))).releaseAll
    refine ⟨h.documents.erase name, tidy_unlinkAll h.clauses name entry.keys, hsound,
      fun name' entry' h' => ?_, fun key name' => ?_⟩
    · -- the slots of the other documents stay in use, so their keys stand for what they did
      have hstored : Dict.get? index.documents name' = some entry' := by
        rw [Dict.get?_erase] at h'
        split at h'
        · cases h'
        · exact h'
      obtain ⟨hname, hrep⟩ := h.entries name' entry' hstored
      exact ⟨hname, represents_keep hrep (hkeeps.mono (slotsOf_subset h'))⟩
    · rw [linked_unlinkAll, h.links, Dict.get?_erase]
      split
      · next heq =>
        subst heq
        simp [hentry]
      · next hne => simp [hne]

/-! ## Storing documents -/

/-- What is known after some clauses of a document have been interned: the slots of their keys are
in use, and the keys stand for the clauses and are linked to the name. -/
structure Added (index : CanonicalIndex) (used : List Nat) (name : String) (cs : List Clause)
    (index' : CanonicalIndex) (keys : List ClauseKey) : Prop where
  arena : index'.arena.Sound (slotsOf keys ++ used)
  keeps : index.arena.Keeps index'.arena used
  represents : List.Forall₂ index'.arena.Represents keys cs
  clauses : Tidy index'.clauses
  links : ∀ key name', Linked index'.clauses key name'
    ↔ Linked index.clauses key name' ∨ key ∈ keys ∧ name' = name
  documents : index'.documents = index.documents
  maxClauses : index'.maxClauses = index.maxClauses

theorem addClauses_added (index : CanonicalIndex) (used : List Nat) (name : String)
    (cs : List Clause) (ha : index.arena.Sound used) (ht : Tidy index.clauses) :
    Added index used name cs (index.addClauses name cs).1 (index.addClauses name cs).2 := by
  induction cs generalizing index used with
  | nil => exact ⟨ha, .refl, .nil, ht, fun _ _ => by simp [addClauses], rfl, rfl⟩
  | cons c cs ih =>
    obtain ⟨hsound, hdenotes, hkeeps⟩ := ha.internAll c.literals
    -- the first clause is interned and linked; the others are added to what comes of that
    let r := index.arena.internAll c.literals
    let key := sortTerms r.2
    have hperm : (r.2.map Term.slot ++ used).Perm (key.map Term.slot ++ used) :=
      ((List.mergeSort_perm r.2 _).symm.map _).append_right _
    have hadded := ih { index with arena := r.1, clauses := link index.clauses key name }
      (key.map Term.slot ++ used) (hsound.perm hperm) (tidy_link ht key name)
    have hrep : r.1.Represents key c := ⟨r.2, rfl, hdenotes⟩
    refine ⟨?_, hkeeps.trans hadded.keeps (List.subset_append_right _ _),
      .cons (hrep.keep (hadded.keeps.mono (List.subset_append_left _ _))) hadded.represents,
      hadded.clauses, fun key' name' => ?_, hadded.documents, hadded.maxClauses⟩
    · refine hadded.arena.perm ?_
      show (slotsOf _ ++ (key.map Term.slot ++ used)).Perm (slotsOf (key :: _) ++ used)
      rw [slotsOf_cons, ← List.append_assoc]
      exact List.perm_append_comm.append_right _
    · refine (hadded.links key' name').trans ?_
      show Linked (link index.clauses key name) key' name' ∨ _ ↔ _ ∨ key' ∈ key :: _ ∧ _
      rw [linked_link, List.mem_cons, or_and_right, or_assoc]

/-- A document is stored by adding its clauses after the document of its name has been removed. -/
theorem Sound.insert_added {index : CanonicalIndex} (h : index.Sound) (d : Document) :
    ∃ index' keys, Added (index.erase d.name) (slotsUsed (index.erase d.name).documents) d.name
        (d.formula (index.erase d.name).maxClauses).clauses index' keys
      ∧ index.insert d = { index' with
          documents := Dict.insert (index.erase d.name).documents d.name ⟨d, keys⟩ } := by
  have herased := h.erase d.name
  have hadded := addClauses_added (index.erase d.name) _ d.name
    (d.formula (index.erase d.name).maxClauses).clauses herased.arena herased.clauses
  refine ⟨_, _, hadded, ?_⟩
  rw [← hadded.documents]
  rfl

/-- **Storing a document** keeps the tables in step. -/
theorem Sound.insert {index : CanonicalIndex} (h : index.Sound) (d : Document) :
    (index.insert d).Sound := by
  have herased := h.erase d.name
  have habsent : Dict.get? (index.erase d.name).documents d.name = none := by
    rw [documents_erase, Dict.get?_erase, if_pos rfl]
  obtain ⟨index', keys, hadded, heq⟩ := h.insert_added d
  rw [heq]
  refine ⟨herased.documents.insert _ _, hadded.clauses, ?_, fun name entry hentry => ?_,
    fun key name => (hadded.links key name).trans ?_⟩
  · exact hadded.arena.perm (slotsUsed_perm (Dict.insert_perm (Entry.mk d keys) habsent)).symm
  · dsimp only at hentry ⊢
    rw [Dict.get?_insert] at hentry
    rw [hadded.maxClauses]
    split at hentry
    · next heq =>
      obtain rfl := Option.some.inj hentry
      exact ⟨heq.symm, hadded.represents⟩
    · obtain ⟨hname, hrep⟩ := herased.entries name entry hentry
      exact ⟨hname, represents_keep hrep (hadded.keeps.mono (slotsOf_subset hentry))⟩
  · dsimp only
    rw [herased.links, Dict.get?_insert]
    split
    · next heq =>
      subst heq
      simp [habsent]
    · next hne => simp [hne]

theorem Sound.documents_insert {index : CanonicalIndex} (h : index.Sound) (d : Document) :
    ∃ keys, (index.insert d).documents = Dict.insert index.documents d.name ⟨d, keys⟩ := by
  obtain ⟨index', keys, -, heq⟩ := h.insert_added d
  refine ⟨keys, ?_⟩
  rw [heq]
  dsimp only
  rw [documents_erase, h.documents.insert_erase]

end CanonicalIndex

end AccessPolicy
