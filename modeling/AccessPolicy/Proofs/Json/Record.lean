import AccessPolicy.Json.Record
import AccessPolicy.Proofs.Json.RoundTrip

/-!
# Records are read as they are printed

A record that is printed as an object of some of its fields is read back field by field, and the
fields that were left out are missing. What a reader of records reads, from whatever text, are
documents that are writable within the containers that the record leaves.
-/

namespace AccessPolicy.Json

/-! ## Fields -/

theorem singleMember?_of_nodup {members : List (String × Json)} (h : (Dict.keys members).Nodup)
    (name : String) : singleMember? members name = some (Dict.get? members name) := by
  induction members with
  | nil => rfl
  | cons m members ih =>
    obtain ⟨key, value⟩ := m
    obtain ⟨hkey, h⟩ := List.nodup_cons.1 h
    by_cases hname : key = name
    · subst hname
      have hrest : members.filter (fun m => m.1 == key) = [] :=
        List.filter_eq_nil_iff.2 fun m hm heq =>
          hkey (List.mem_map.2 ⟨m, hm, eq_of_beq heq⟩)
      simp [singleMember?, hrest, Dict.get?]
    · have hbeq : (key == name) = false := beq_false_of_ne hname
      have hget : Dict.get? ((key, value) :: members) name = Dict.get? members name :=
        if_neg (Ne.symm hname)
      rw [hget, ← ih h]
      simp [singleMember?, hbeq]

theorem mem_of_singleMember? {members : List (String × Json)} {name : String} {j : Json}
    (h : singleMember? members name = some (some j)) : ∃ m ∈ members, m.2 = j := by
  unfold singleMember? at h
  split at h
  · cases h
  · next m heq =>
    cases h
    exact ⟨m, List.mem_of_mem_filter (heq ▸ List.mem_singleton_self m), rfl⟩
  · cases h

theorem readMember?_field {names : List String} {m : String × Json} (hname : m.1 ∈ names)
    (h : m.2.Writable (maxNesting - 1)) {rest : List Char} (hrest : Numeral.Stops rest) :
    readMember? (readField? names) (memberChars m ++ rest) = some ((m.1, some m.2), rest) := by
  rw [memberChars, List.append_assoc, List.cons_append, readMember?_quote, readField?,
    if_pos (List.contains_iff_mem.2 hname), readValue?_text h hrest]
  rfl

theorem writable_of_readField? {names : List String} {name : String} {cs rest : List Char}
    {field : Option Json} (h : readField? names name cs = some (field, rest)) :
    ∀ j ∈ field, j.Writable (maxNesting - 1) := by
  unfold readField? at h
  split at h
  · obtain ⟨⟨value, _⟩, hread, h⟩ := Option.map_eq_some_iff.1 h
    cases h
    rintro j ⟨⟩
    exact writable_of_readValue? hread
  · obtain ⟨_, -, h⟩ := Option.map_eq_some_iff.1 h
    cases h
    rintro j ⟨⟩

/-! ## Whole records -/

/-- **A record is read back** from the text of its fields. -/
theorem readFields?_text {names : List String} {members : List (String × Json)}
    (hnames : ∀ m ∈ members, m.1 ∈ names) (hnodup : (Dict.keys members).Nodup)
    (h : ∀ m ∈ members, m.2.Writable (maxNesting - 1)) :
    readFields? names (object members).text = some (names.map (Dict.get? members)) := by
  have hread := readItems?_join (.inr rfl) (fun m _ => startsItem_memberChars m)
    (fun m hm rest hrest => readMember?_field (hnames m hm) (h m hm) hrest) []
  have hopen : ∀ cs, skipBlanks ('\x7b' :: cs) = '\x7b' :: cs := fun _ => rfl
  have hfields : names.mapM (singleMember? members) = some (names.map (Dict.get? members)) := by
    rw [mapM_eq_some_iff, List.forall₂_map_right_iff, List.forall₂_same]
    exact fun name _ => singleMember?_of_nodup hnodup name
  have hkept : (members.map fun m => (m.1, some m.2)).filterMap
      (fun field => field.2.map fun value => (field.1, value)) = members := by
    simp [List.filterMap_map]
  simp only [readFields?, toList_text_object, hopen, hread, Option.bind_eq_bind, Option.bind_some,
    hkept, hfields]
  rfl

/-- **What is read of a record** is writable. -/
theorem writable_of_readFields? {names : List String} {s : String} {fields : List (Option Json)}
    (h : readFields? names s = some fields) :
    ∀ field ∈ fields, ∀ j ∈ field, j.Writable (maxNesting - 1) := by
  unfold readFields? at h
  split at h
  · obtain ⟨⟨members, rest⟩, hmembers, h⟩ := Option.bind_eq_some_iff.1 h
    dsimp only at h
    split at h
    · have hfound : ∀ m ∈ members, ∀ j ∈ m.2, j.Writable (maxNesting - 1) :=
        forall_of_readItems? (of_readMember? writable_of_readField?) hmembers
      intro field hfield j hj
      obtain ⟨name, -, hname⟩ := forall₂_mem_left (mapM_eq_some_iff.1 h).flip hfield
      obtain rfl : field = some j := hj
      obtain ⟨m, hm, rfl⟩ := mem_of_singleMember? hname
      obtain ⟨member, hmember, hvalue⟩ := List.mem_filterMap.1 hm
      obtain ⟨value, hsome, rfl⟩ := Option.map_eq_some_iff.1 hvalue
      exact hfound member hmember value hsome
    · cases h
  · split at h
    · next items hread =>
      intro field hfield j hj
      have hitems : ∀ x ∈ items, x.Writable (maxNesting - 1) := by
        cases writable_of_read? hread with
        | array hitems => exact hitems
      unfold fieldsInOrder? at h
      split at h
      · cases h
      · cases h
        obtain ⟨place, -, rfl⟩ := List.mem_map.1 hfield
        exact hitems j (List.mem_of_getElem? hj)
    · cases h

end AccessPolicy.Json
