import AccessPolicy.Index.Basic
import AccessPolicy.Proofs.Index.Search

/-!
# The two indexes agree

The canonical index and the naive one store the same documents after the same updates, and they
find the same ones wherever all targets have truth values. Where some have none, the canonical
index still decides every other document as its target says, and it gives up less often: it is
invalid only if the naive index is.
-/

namespace AccessPolicy

/-- A change of the documents of an index. -/
inductive IndexUpdate where
  | insert (d : Document)
  | erase (name : String)

namespace Index

/-- The index after an update. -/
def apply (index : Index) : IndexUpdate → Index
  | .insert d => index.insert d
  | .erase name => index.erase name

/-- The index after some updates, one after another. -/
def after (index : Index) (updates : List IndexUpdate) : Index := updates.foldl apply index

end Index

attribute [ext] Matches

/-! ## What the naive index finds -/

namespace NaiveIndex

variable {ctx : Context}

theorem consider_found (ctx : Context) (r : Retrieval) (d : Document) :
    (consider ctx r d).found.documents
        = r.found.documents ++ [d].filter (fun d => d.truth? ctx = some true)
      ∧ (consider ctx r d).found.valid = (r.found.valid && (d.truth? ctx).isSome) := by
  unfold consider Document.truth?
  dsimp only
  cases hb : (d.answer ctx).1.bool? with
  | none => simp [hb]
  | some b => cases b <;> simp [hb]

theorem foldl_consider (ds : List Document) (r : Retrieval) :
    (ds.foldl (consider ctx) r).found.documents
        = r.found.documents ++ ds.filter (fun d => d.truth? ctx = some true)
      ∧ (ds.foldl (consider ctx) r).found.valid
        = (r.found.valid && ds.all fun d => (d.truth? ctx).isSome) := by
  induction ds generalizing r with
  | nil => exact ⟨(List.append_nil _).symm, (Bool.and_true _).symm⟩
  | cons d ds ih =>
    obtain ⟨hfound, hvalid⟩ := consider_found ctx r d
    obtain ⟨hfounds, hvalids⟩ := ih (consider ctx r d)
    refine ⟨?_, ?_⟩
    · rw [List.foldl_cons, hfounds, hfound, List.append_assoc, ← List.filter_append]
      rfl
    · rw [List.foldl_cons, hvalids, hvalid, List.all_cons, Bool.and_assoc]

/-- **The naive index** finds the documents whose targets are true. -/
theorem found_documents (index : NaiveIndex) (ctx : Context) :
    (index.retrieve ctx).found.documents
      = (Dict.values index.table).filter (fun d => d.truth? ctx = some true) :=
  (foldl_consider _ _).1

/-- The result of the naive index is valid if all targets have truth values. -/
theorem found_valid (index : NaiveIndex) (ctx : Context) :
    (index.retrieve ctx).found.valid
      = (Dict.values index.table).all fun d => (d.truth? ctx).isSome :=
  (foldl_consider _ _).2

end NaiveIndex

/-! ## What the canonical index finds -/

namespace CanonicalIndex

variable {index : CanonicalIndex} {ctx : Context}

/-- A document is stored under its name. -/
theorem Sound.mem_documents (h : index.Sound) {d : Document} :
    d ∈ (Index.canonical index).documents
      ↔ ∃ entry, Dict.get? index.documents d.name = some entry ∧ entry.document = d := by
  show d ∈ (Dict.values index.documents).map Entry.document ↔ _
  rw [List.mem_map]
  constructor
  · rintro ⟨entry, hentry, rfl⟩
    obtain ⟨⟨name, _⟩, hmem, rfl⟩ := List.mem_map.1 hentry
    have hstored := h.documents.mem_iff.1 hmem
    rw [(h.entries name _ hstored).1]
    exact ⟨_, hstored, rfl⟩
  · rintro ⟨entry, hentry, rfl⟩
    exact ⟨entry, List.mem_map_of_mem (Dict.mem_of_get? hentry), rfl⟩

/-- What is found under a name is the document of that name. -/
theorem Sound.name_found (h : index.Sound) {name : String} {d : Document}
    (hd : (Dict.get? index.documents name).map Entry.document = some d) : d.name = name := by
  obtain ⟨entry, hentry, rfl⟩ := Option.map_eq_some_iff.1 hd
  exact (h.entries name entry hentry).1

/-- **The canonical index** finds the documents whose formulas are met. -/
theorem Sound.mem_found (h : index.Sound) {d : Document} :
    d ∈ (index.retrieve ctx).found.documents
      ↔ d ∈ (Index.canonical index).documents ∧ (d.formula index.maxClauses).Met ctx := by
  show d ∈ (Dict.keys (index.search ctx).matched).filterMap _ ↔ _
  rw [List.mem_filterMap, h.mem_documents]
  simp only [← Dict.hasKey_iff_mem_keys, h.hasKey_matched]
  constructor
  · rintro ⟨name, ⟨entry, hentry, hmet⟩, hd⟩
    obtain rfl := h.name_found hd
    rw [hentry] at hd
    obtain rfl := Option.some.inj hd
    exact ⟨⟨entry, hentry, rfl⟩, hmet⟩
  · rintro ⟨⟨entry, hentry, rfl⟩, hmet⟩
    exact ⟨entry.document.name, ⟨entry, hentry, hmet⟩, by rw [hentry]; rfl⟩

/-- The documents found are in the order of their names. -/
theorem Sound.found_ascending (h : index.Sound) (ctx : Context) :
    (index.retrieve ctx).found.documents.Pairwise
      fun d d' => KeyOrder.before d.name d'.name = true := by
  show ((Dict.keys (index.search ctx).matched).filterMap _).Pairwise _
  rw [List.pairwise_filterMap]
  have hkeys : (Dict.keys (index.search ctx).matched).Pairwise
      fun a b => KeyOrder.before a b = true := List.pairwise_map.2 (h.search ctx).sorted
  refine hkeys.imp fun {name name'} hbefore d hd d' hd' => ?_
  rw [h.name_found hd, h.name_found hd']
  exact hbefore

/-- The documents stored are in the order of their names. -/
theorem Sound.documents_ascending (h : index.Sound) :
    (Index.canonical index).documents.Pairwise
      fun d d' => KeyOrder.before d.name d'.name = true := by
  show ((Dict.values index.documents).map Entry.document).Pairwise _
  rw [List.pairwise_map, Dict.values, List.pairwise_map]
  refine h.documents.imp_of_mem fun {x y} hx hy hbefore => ?_
  rw [(h.entries x.1 x.2 (h.documents.mem_iff.1 hx)).1,
    (h.entries y.1 y.2 (h.documents.mem_iff.1 hy)).1]
  exact hbefore

/-- **A document whose target has a truth value** is found if it is true. -/
theorem Sound.found_iff (h : index.Sound) (hp : ctx.functions.Pure) {d : Document} {b : Bool}
    (hd : d ∈ (Index.canonical index).documents) (hb : d.truth? ctx = some b) :
    d ∈ (index.retrieve ctx).found.documents ↔ b = true := by
  rw [h.mem_found, (Document.answered_formula hp hb index.maxClauses).2]
  exact and_iff_right hd

/-- If the result is invalid then some target has no truth value. -/
theorem Sound.exists_undecided (h : index.Sound) (hp : ctx.functions.Pure)
    (hinvalid : (index.retrieve ctx).found.valid = false) :
    ∃ d ∈ (Index.canonical index).documents, d.truth? ctx = none := by
  obtain ⟨name, entry, hentry, hnot⟩ := h.exists_unanswered ctx hinvalid
  refine ⟨entry.document, h.mem_documents.2 ⟨entry, ?_, rfl⟩, ?_⟩
  · rw [(h.entries name entry hentry).1, hentry]
  · cases hb : entry.document.truth? ctx with
    | none => rfl
    | some b => exact absurd (Document.answered_formula hp hb index.maxClauses).1 hnot

/-- If all targets have truth values then those that are true are found, and nothing is missed. -/
theorem Sound.found_of_answered (h : index.Sound) (hp : ctx.functions.Pure)
    (hall : ∀ d ∈ (Index.canonical index).documents, (d.truth? ctx).isSome = true) :
    (index.retrieve ctx).found.documents
        = (Index.canonical index).documents.filter (fun d => d.truth? ctx = some true)
      ∧ (index.retrieve ctx).found.valid = true := by
  constructor
  · refine eq_of_ascending Document.name (h.found_ascending ctx)
      (h.documents_ascending.filter _) fun d => ?_
    rw [List.mem_filter, decide_eq_true_eq]
    constructor
    · intro hfound
      have hd := (h.mem_found.1 hfound).1
      obtain ⟨b, hb⟩ := Option.isSome_iff_exists.1 (hall d hd)
      obtain rfl := (h.found_iff hp hd hb).1 hfound
      exact ⟨hd, hb⟩
    · rintro ⟨hd, htrue⟩
      exact (h.found_iff hp hd htrue).2 rfl
  · by_contra hnot
    obtain ⟨d, hd, hnone⟩ := h.exists_undecided hp (Bool.not_eq_true _ ▸ hnot)
    have hsome := hall d hd
    rw [hnone] at hsome
    cases hsome

end CanonicalIndex

/-! ## The same updates -/

namespace Index

/-- A canonical index and a naive one are counterparts if they store the same documents. -/
inductive Counterparts : Index → Index → Prop where
  | intro (c : CanonicalIndex) (n : NaiveIndex) (sound : c.Sound)
    (table : n.table = c.documents.map fun entry => (entry.1, entry.2.document)) :
    Counterparts (.canonical c) (.naive n)

/-- An update of counterparts leaves counterparts. -/
theorem Counterparts.apply {i j : Index} (h : Counterparts i j) (update : IndexUpdate) :
    Counterparts (i.apply update) (j.apply update) := by
  obtain ⟨c, n, hsound, htable⟩ := h
  cases update with
  | insert d =>
    refine .intro (c.insert d) (n.insert d) (hsound.insert d) ?_
    obtain ⟨keys, hdocuments⟩ := hsound.documents_insert d
    rw [NaiveIndex.insert, hdocuments, Dict.map_insert, htable]
  | erase name =>
    refine .intro (c.erase name) (n.erase name) (hsound.erase name) ?_
    rw [NaiveIndex.erase, CanonicalIndex.documents_erase, Dict.map_erase, htable]

theorem counterparts_after (limit : Nat) (updates : List IndexUpdate) :
    Counterparts ((empty .canonical limit).after updates) ((empty .naive limit).after updates) := by
  -- the empty indexes are counterparts, and every update keeps them so
  suffices h : ∀ i j, Counterparts i j → Counterparts (i.after updates) (j.after updates) from
    h _ _ (.intro _ _ (CanonicalIndex.sound_empty limit) rfl)
  induction updates with
  | nil => exact fun _ _ h => h
  | cons update updates ih => exact fun i j h => ih _ _ (h.apply update)

/-- **An index agrees** with another one in a context. -/
structure Agrees (i j : Index) (ctx : Context) : Prop where
  /-- Both store the same documents. -/
  documents : i.documents = j.documents
  /-- A document whose target has a truth value is found if it is true, whatever becomes of the
  other targets. -/
  decided : ∀ d ∈ i.documents, ∀ b, (d.answer ctx).1.bool? = some b →
    (d ∈ (i.retrieve ctx).found.documents ↔ b = true)
  /-- The result is invalid only if that of the other index is. -/
  invalid : (i.retrieve ctx).found.valid = false → (j.retrieve ctx).found.valid = false
  /-- The documents found are in the order of their names. -/
  ascending : (i.retrieve ctx).found.names.Pairwise fun a b => KeyOrder.before a b = true
  /-- If no target is evaluated to an error, both find the same, and they may be relied on. -/
  same : (∀ d ∈ i.documents, (d.answer ctx).1.isError = false) →
    (i.retrieve ctx).found = (j.retrieve ctx).found ∧ (i.retrieve ctx).found.valid = true

theorem Counterparts.documents {i j : Index} (h : Counterparts i j) :
    i.documents = j.documents := by
  obtain ⟨c, n, hsound, htable⟩ := h
  show (Dict.values c.documents).map Entry.document = Dict.values n.table
  rw [htable, Dict.values, Dict.values, List.map_map, List.map_map]
  rfl

/-- Counterparts agree in every context with pure functions. -/
theorem Counterparts.agrees {i j : Index} (h : Counterparts i j) {ctx : Context}
    (hp : ctx.functions.Pure) : Agrees i j ctx := by
  have hdocuments := h.documents
  obtain ⟨c, n, hsound, -⟩ := h
  refine ⟨hdocuments, fun d hd b hb => hsound.found_iff hp hd hb, fun hinvalid => ?_,
    List.pairwise_map.2 (hsound.found_ascending ctx), fun hall => ?_⟩
  · obtain ⟨d, hd, hnone⟩ := hsound.exists_undecided hp hinvalid
    rw [hdocuments] at hd
    refine (n.found_valid ctx).trans (List.all_eq_false.2 ⟨d, hd, ?_⟩)
    rw [hnone]
    rintro ⟨⟩
  · have hanswered : ∀ d ∈ Index.documents (.canonical c), (d.truth? ctx).isSome = true :=
      fun d hd => Document.isSome_truth? hp (hall d hd)
    obtain ⟨hfound, hvalid⟩ := hsound.found_of_answered hp hanswered
    refine ⟨Matches.ext ?_ (hvalid.trans ?_), hvalid⟩
    · rw [hdocuments] at hfound
      exact hfound.trans (n.found_documents ctx).symm
    · rw [hdocuments] at hanswered
      exact ((n.found_valid ctx).trans (List.all_eq_true.2 hanswered)).symm

/-- **The canonical index agrees with the naive one** after any updates, whatever its limit of
clauses is. -/
theorem canonical_agrees_with_naive (limit : Nat) (updates : List IndexUpdate) {ctx : Context}
    (hp : ctx.functions.Pure) :
    Agrees ((empty .canonical limit).after updates) ((empty .naive limit).after updates) ctx :=
  (counterparts_after limit updates).agrees hp

/-- A document that takes the place of another one with the same predicate, which is a call of a
function. -/
theorem canonical_agrees_with_naive_after_replacement :
    let same : Expr :=
      .binary .equals (.call "standard.toString" [.var "subject"]) (.literal (.string "alice"))
    let permit : Policy :=
      { name := "p", entitlement := .permit, target := some (.unary .not same) }
    let deny : Policy := { name := "p", entitlement := .deny, target := some same }
    let old : Document := { element := .policy permit }
    let new : Document := { element := .policy deny }
    let updates := [.insert old, .insert new, .erase "q"]
    let ctx : Context := { bindings := [("subject", Value.of (.string "alice"))],
                           functions := Functions.standard }
    let c := (empty .canonical 1).after updates
    let n := (empty .naive 1).after updates
    (c.retrieve ctx).found = (n.retrieve ctx).found ∧ (c.retrieve ctx).found.valid = true := by
  intro same permit deny old new updates ctx c n
  have hp : ctx.functions.Pure := Functions.pure_standard
  have hagrees := canonical_agrees_with_naive 1 updates hp
  refine hagrees.same fun d hd => ?_
  rw [hagrees.documents] at hd
  obtain rfl : d = new := List.mem_singleton.1 hd
  rw [← Value.isError_bare, Document.bare_answer hp]
  rfl

end Index

end AccessPolicy
