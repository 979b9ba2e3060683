import AccessPolicy.Proofs.Path.Search

/-!
# Canonical documents

The type of documents leaves room for objects that no map can be: their members may stand in any
order, and a name may be repeated. None of these is a value. A document that is read or put together
lists the members of each object in the order of their names, at every depth, and this is what it
means to be **canonical**.
-/

namespace AccessPolicy.Json

/-- **A document is canonical** if each object in it lists its members in key order, each key
once. -/
inductive Canonical : Json → Prop where
  | null : Canonical null
  | bool (b : Bool) : Canonical (bool b)
  | number (n : Numeral) : Canonical (number n)
  | string (s : String) : Canonical (string s)
  | array {items : List Json} : (∀ x ∈ items, x.Canonical) → Canonical (array items)
  | object {members : List (String × Json)} : Dict.Sorted members →
      (∀ m ∈ members, m.2.Canonical) → Canonical (object members)

theorem Canonical.items {items : List Json} (h : (Json.array items).Canonical) :
    ∀ x ∈ items, x.Canonical := by
  cases h with
  | array hitems => exact hitems

theorem Canonical.members {members : List (String × Json)} (h : (Json.object members).Canonical) :
    Dict.Sorted members ∧ ∀ m ∈ members, m.2.Canonical := by
  cases h with
  | object hsorted hmembers => exact ⟨hsorted, hmembers⟩

/-! ## What is read is canonical -/

mutual

/-- The canonical document of a document as it was written is canonical. -/
theorem canonical_of_canonical? : (d : Json) → {c : Json} → d.canonical? = some c → c.Canonical
  | .null, _, h => by cases h; exact .null
  | .bool b, _, h => by cases h; exact .bool b
  | .number n, _, h => by cases h; exact .number n
  | .string s, _, h => by cases h; exact .string s
  | .array items, c, h => by
    obtain ⟨kept, hkept, rfl⟩ := Option.map_eq_some_iff.1 h
    exact .array (canonical_of_canonicalItems? items hkept)
  | .object members, c, h => by
    rw [canonical?] at h
    split at h
    · unfold numberForm? at h
      split at h
      · obtain ⟨n, -, rfl⟩ := Option.map_eq_some_iff.1 h
        exact .number n
      · cases h
    · obtain ⟨kept, hkept, rfl⟩ := Option.map_eq_some_iff.1 h
      obtain ⟨hsorted, hvalues⟩ :=
        canonical_of_canonicalMembers? members Dict.sorted_nil (by rintro m ⟨⟩) hkept
      exact .object hsorted hvalues

theorem canonical_of_canonicalItems? : (items : List Json) → {kept : List Json} →
    canonicalItems? items = some kept → ∀ x ∈ kept, x.Canonical
  | [], _, h => by cases h; rintro x ⟨⟩
  | item :: items, kept, h => by
    rw [canonicalItems?] at h
    obtain ⟨first, hfirst, h⟩ := Option.bind_eq_some_iff.1 h
    obtain ⟨rest, hrest, h⟩ := Option.bind_eq_some_iff.1 h
    cases h
    exact List.forall_mem_cons.2
      ⟨canonical_of_canonical? item hfirst, canonical_of_canonicalItems? items hrest⟩

theorem canonical_of_canonicalMembers? : (members : List (String × Json)) →
    {kept all : Dict String Json} → kept.Sorted → (∀ m ∈ kept, m.2.Canonical) →
      canonicalMembers? members kept = some all → all.Sorted ∧ ∀ m ∈ all, m.2.Canonical
  | [], _, _, hsorted, hvalues, h => by cases h; exact ⟨hsorted, hvalues⟩
  | (key, value) :: members, kept, all, hsorted, hvalues, h => by
    rw [canonicalMembers?] at h
    obtain ⟨c, hc, h⟩ := Option.bind_eq_some_iff.1 h
    refine canonical_of_canonicalMembers? members (hsorted.insert key c) (fun m hm => ?_) h
    rcases Dict.mem_insert hm with rfl | hm
    · exact canonical_of_canonical? value hc
    · exact hvalues m hm

end

end AccessPolicy.Json
