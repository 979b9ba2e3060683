import AccessPolicy.Proofs.Index.Agreement

/-!
# Lookups in an index

Both kinds of index keep their documents in a table by name, and for all that follows from that
it does not matter which kind it is: storing and removing a document is seen under its name
alone, and the documents listed are those that can be looked up, in the order of their names.
-/

namespace AccessPolicy

namespace Index

/-- **An index of either kind is sound** if it lists its documents in the order of their names,
each under its own, and if the other tables of a canonical one are in step with that. -/
inductive Sound : Index → Prop where
  | canonical (c : CanonicalIndex) (sound : c.Sound) : Sound (.canonical c)
  | naive (n : NaiveIndex) (sorted : Dict.Sorted n.table)
    (named : ∀ name d, Dict.get? n.table name = some d → d.name = name) : Sound (.naive n)

variable {index : Index}

theorem sound_empty (kind : IndexKind) (limit : Nat) : (empty kind limit).Sound := by
  cases kind with
  | canonical => exact .canonical _ (CanonicalIndex.sound_empty limit)
  | naive => exact .naive _ Dict.sorted_nil (by rintro _ _ ⟨⟩)

theorem Sound.insert (h : index.Sound) (d : Document) : (index.insert d).Sound := by
  cases h with
  | canonical c hsound => exact .canonical _ (hsound.insert d)
  | naive n hsorted hnamed =>
    refine .naive _ (hsorted.insert d.name d) fun name d' hd' => ?_
    rw [NaiveIndex.insert, Dict.get?_insert] at hd'
    split at hd'
    · next heq =>
      rw [← Option.some.inj hd', heq]
    · exact hnamed name d' hd'

theorem Sound.erase (h : index.Sound) (name : String) : (index.erase name).Sound := by
  cases h with
  | canonical c hsound => exact .canonical _ (hsound.erase name)
  | naive n hsorted hnamed =>
    refine .naive _ (hsorted.erase name) fun name' d hd => ?_
    rw [NaiveIndex.erase, Dict.get?_erase] at hd
    split at hd
    · cases hd
    · exact hnamed name' d hd

@[simp] theorem get?_empty (kind : IndexKind) (limit : Nat) (name : String) :
    (empty kind limit).get? name = none := by
  cases kind <;> rfl

/-- A document that is stored is found under its name, and no other name notices. -/
theorem Sound.get?_insert (h : index.Sound) (d : Document) (name : String) :
    (index.insert d).get? name = if name = d.name then some d else index.get? name := by
  cases h with
  | canonical c hsound =>
    obtain ⟨keys, hdocuments⟩ := hsound.documents_insert d
    show (Dict.get? (c.insert d).documents name).map Entry.document = _
    rw [hdocuments, Dict.get?_insert, apply_ite (Option.map Entry.document)]
    rfl
  | naive n => exact Dict.get?_insert _ _ _ _

/-- Nothing is found under a name whose document was removed, and no other name notices. -/
theorem get?_erase (index : Index) (name name' : String) :
    (index.erase name).get? name' = if name' = name then none else index.get? name' := by
  cases index with
  | canonical c =>
    show (Dict.get? (c.erase name).documents name').map Entry.document = _
    rw [CanonicalIndex.documents_erase, Dict.get?_erase, apply_ite (Option.map Entry.document)]
    rfl
  | naive n => exact Dict.get?_erase _ _ _

/-- **The documents of an index** are those that are found under their names. -/
theorem Sound.mem_documents (h : index.Sound) {d : Document} :
    d ∈ index.documents ↔ index.get? d.name = some d := by
  cases h with
  | canonical c hsound => rw [hsound.mem_documents, get?, Option.map_eq_some_iff]
  | naive n hsorted hnamed =>
    show d ∈ n.table.map Prod.snd ↔ Dict.get? n.table d.name = some d
    rw [← hsorted.mem_iff, List.mem_map]
    constructor
    · rintro ⟨⟨name, d'⟩, hmem, rfl⟩
      rwa [hnamed name d' (hsorted.mem_iff.1 hmem)]
    · exact fun hmem => ⟨_, hmem, rfl⟩

/-- The documents of an index are in the order of their names. -/
theorem Sound.ascending (h : index.Sound) :
    index.documents.Pairwise fun d d' => KeyOrder.before d.name d'.name = true := by
  cases h with
  | canonical c hsound => exact hsound.documents_ascending
  | naive n hsorted hnamed =>
    show (n.table.map Prod.snd).Pairwise _
    rw [List.pairwise_map]
    refine hsorted.imp_of_mem fun {x y} hx hy hbefore => ?_
    rw [hnamed x.1 x.2 (hsorted.mem_iff.1 hx), hnamed y.1 y.2 (hsorted.mem_iff.1 hy)]
    exact hbefore

end Index

end AccessPolicy
