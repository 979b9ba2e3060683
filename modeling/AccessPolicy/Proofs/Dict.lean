import AccessPolicy.Dict
import Mathlib.Data.List.Induction
import Mathlib.Data.List.Nodup
import Mathlib.Data.List.Perm.Basic

/-!
# Lookups and order in dictionaries

A dictionary is the list of its entries, and most proofs are about what is found under a key.
Where the order of the keys is **lawful**, the dictionaries that `insert` and `erase` build are
sorted: their entries are exactly what can be found in them, and two of them are equal as soon
as the same things are found in both.
-/

namespace AccessPolicy

universe u

/-! ## Orders of keys -/

/-- An order of keys is strict and compares any two of them. -/
class LawfulKeyOrder (κ : Type) [KeyOrder κ] : Prop where
  asymm : ∀ a b : κ, KeyOrder.before a b = true → KeyOrder.before b a = false
  trans : ∀ a b c : κ, KeyOrder.before a b = true → KeyOrder.before b c = true →
    KeyOrder.before a c = true
  total : ∀ a b : κ, a ≠ b → KeyOrder.before a b = false → KeyOrder.before b a = true

section Lex

variable {α : Type} {rank : α → Nat}

theorem lexBefore_asymm (as bs : List α) (h : lexBefore rank as bs = true) :
    lexBefore rank bs as = false := by
  fun_induction lexBefore rank as bs with
  | case1 => cases h
  | case2 => rfl
  | case3 a as b bs hlt =>
    rw [lexBefore, if_neg (Nat.lt_asymm hlt), if_neg (Nat.ne_of_gt hlt)]
  | case4 a as b bs hlt heq ih =>
    rw [lexBefore, if_neg (heq ▸ Nat.lt_irrefl _), if_pos heq.symm]
    exact ih h
  | case5 => cases h

theorem lexBefore_trans (as bs cs : List α) (h : lexBefore rank as bs = true)
    (h' : lexBefore rank bs cs = true) : lexBefore rank as cs = true := by
  induction cs generalizing as bs with
  | nil => cases bs <;> cases h'
  | cons c cs ih =>
    cases as with
    | nil => rfl
    | cons a as =>
      cases bs with
      | nil => cases h
      | cons b bs => grind [lexBefore]

/-- Words of which neither comes before the other are equal if their letters can be told apart by
their ranks. -/
theorem lexBefore_total (hrank : ∀ a b, rank a = rank b → a = b) (as bs : List α) (hne : as ≠ bs)
    (h : lexBefore rank as bs = false) : lexBefore rank bs as = true := by
  fun_induction lexBefore rank as bs with
  | case1 as =>
    cases as with
    | nil => exact absurd rfl hne
    | cons a as => rfl
  | case2 => cases h
  | case3 => cases h
  | case4 a as b bs hlt heq ih =>
    rw [lexBefore, if_neg (heq ▸ Nat.lt_irrefl _), if_pos heq.symm]
    exact ih (fun htail => hne (by rw [hrank a b heq, htail])) h
  | case5 a as b bs hlt heq => rw [lexBefore, if_pos (by omega)]

end Lex

instance : LawfulKeyOrder String where
  asymm _ _ := lexBefore_asymm _ _
  trans _ _ _ := lexBefore_trans _ _ _
  total _ _ hne := lexBefore_total (fun _ _ => Char.toNat_inj.1) _ _ fun h =>
    hne (String.toList_injective h)

/-- Two lists in ascending order of some keys are equal if they have the same items. -/
theorem eq_of_ascending {α κ : Type} [KeyOrder κ] [LawfulKeyOrder κ] (key : α → κ)
    {as bs : List α} (ha : as.Pairwise fun x y => KeyOrder.before (key x) (key y) = true)
    (hb : bs.Pairwise fun x y => KeyOrder.before (key x) (key y) = true)
    (hmem : ∀ x, x ∈ as ↔ x ∈ bs) : as = bs := by
  -- strictly ascending lists have no repetitions, so equal items make them permutations
  have hirrefl : ∀ x y : α, KeyOrder.before (key x) (key y) = true → x ≠ y := by
    rintro x _ h rfl
    exact absurd (LawfulKeyOrder.asymm _ _ h) (by rw [h]; decide)
  have hperm : as.Perm bs :=
    (List.perm_ext_iff_of_nodup (ha.imp fun h => hirrefl _ _ h)
      (hb.imp fun h => hirrefl _ _ h)).2 hmem
  refine hperm.eq_of_pairwise (fun x y _ _ hxy hyx => ?_) ha hb
  rw [LawfulKeyOrder.asymm _ _ hxy] at hyx
  cases hyx

namespace Dict

variable {κ ν ν' : Type}

/-- A dictionary is sorted if each key comes before those that are listed after it. -/
def Sorted [KeyOrder κ] (d : Dict κ ν) : Prop :=
  d.Pairwise fun x y => KeyOrder.before x.1 y.1 = true

theorem sorted_nil [KeyOrder κ] : Sorted ([] : Dict κ ν) := .nil

/-- The order is one of the keys alone. -/
theorem sorted_iff_keys [KeyOrder κ] {d : Dict κ ν} :
    Sorted d ↔ (keys d).Pairwise fun k k' => KeyOrder.before k k' = true := by
  rw [Sorted, keys, List.pairwise_map]

variable [DecidableEq κ]

/-! ## Lookups -/

/-- A lookup after the values have been changed, each in view of its key. -/
theorem get?_map {ν ν' : Type u} (f : κ → ν → ν') (d : Dict κ ν) (k : κ) :
    get? (d.map fun entry => (entry.1, f entry.1 entry.2)) k = (get? d k).map (f k) := by
  induction d with
  | nil => rfl
  | cons entry d ih =>
    rw [List.map_cons, get?, get?, ih]
    split
    · next hk => rw [← hk]; rfl
    · rfl

/-- Changing the values of a dictionary commutes with storing one. -/
theorem map_insert [KeyOrder κ] (f : ν → ν') (d : Dict κ ν) (k : κ) (v : ν) :
    (insert d k v).map (fun entry => (entry.1, f entry.2))
      = insert (d.map fun entry => (entry.1, f entry.2)) k (f v) := by
  fun_induction insert d k v with
  | case1 => rfl
  | case2 => simp [insert]
  | case3 k' v' rest k v hk hb => simp [insert, hk, hb]
  | case4 k' v' rest k v hk hb ih => simp [insert, hk, hb, ih]

/-- Changing the values of a dictionary commutes with removing one. -/
theorem map_erase (f : ν → ν') (d : Dict κ ν) (k : κ) :
    (erase d k).map (fun entry => (entry.1, f entry.2))
      = erase (d.map fun entry => (entry.1, f entry.2)) k := by
  rw [erase, erase, List.filter_map]
  rfl

/-- What is found in a dictionary is one of its entries. -/
theorem mem_of_get? {ν : Type u} {d : Dict κ ν} {k : κ} {v : ν} (h : get? d k = some v) :
    (k, v) ∈ d := by
  fun_induction get? d k with
  | case1 => cases h
  | case2 => cases h; exact List.mem_cons_self
  | case3 k' v' rest k hk ih => exact List.mem_cons_of_mem _ (ih h)

/-- The keys of a dictionary are those that something is found under. -/
theorem hasKey_iff_mem_keys {d : Dict κ ν} {k : κ} : hasKey d k = true ↔ k ∈ keys d := by
  rw [hasKey]
  fun_induction get? d k with
  | case1 => simp [keys]
  | case2 => simp [keys]
  | case3 k' v' rest k hk ih => simpa [keys, hk] using ih

@[simp] theorem hasKey_nil (k : κ) : hasKey ([] : Dict κ ν) k = false := rfl

theorem hasKey_insert [KeyOrder κ] {d : Dict κ ν} {k k' : κ} {v : ν} :
    hasKey (insert d k v) k' = true ↔ k' = k ∨ hasKey d k' = true := by
  rw [hasKey, hasKey, get?_insert]
  split <;> simp [*]

theorem hasKey_erase {d : Dict κ ν} {k k' : κ} :
    hasKey (erase d k) k' = true ↔ k' ≠ k ∧ hasKey d k' = true := by
  rw [hasKey, hasKey, get?_erase]
  split <;> simp [*]

/-- Removing a key that is not stored changes nothing. -/
theorem erase_of_absent {d : Dict κ ν} {k : κ} (h : get? d k = none) : erase d k = d := by
  refine List.filter_eq_self.2 fun entry hentry => ?_
  have hk : k ∉ keys d := hasKey_iff_mem_keys.not.1 (by rw [hasKey, h]; rintro ⟨⟩)
  rw [Bool.not_eq_true', decide_eq_false_iff_not]
  rintro rfl
  exact hk (List.mem_map_of_mem hentry)

/-! ## Sorted dictionaries -/

variable [KeyOrder κ]

theorem Sorted.erase {d : Dict κ ν} (h : Sorted d) (k : κ) : Sorted (d.erase k) := h.filter _

omit [DecidableEq κ] in
theorem Sorted.map_values {d : Dict κ ν} (h : Sorted d) (f : κ → ν → ν') :
    Sorted (d.map fun entry => (entry.1, f entry.1 entry.2)) := by
  rw [Sorted, List.pairwise_map]
  exact h

/-- Storing a value leaves the other entries as they are. -/
theorem mem_insert {d : Dict κ ν} {k : κ} {v : ν} {entry : κ × ν} (h : entry ∈ insert d k v) :
    entry = (k, v) ∨ entry ∈ d := by
  fun_induction insert d k v with
  | case1 => exact .inl (List.mem_singleton.1 h)
  | case2 => exact (List.mem_cons.1 h).imp_right (List.mem_cons_of_mem _)
  | case3 => exact List.mem_cons.1 h
  | case4 k' v' rest k v hk hb ih =>
    rcases List.mem_cons.1 h with rfl | h
    · exact .inr List.mem_cons_self
    · exact (ih h).imp_right (List.mem_cons_of_mem _)

/-- The dictionary of some entries and one more stores that one last. -/
theorem ofEntries_concat (entries : List (κ × ν)) (entry : κ × ν) :
    ofEntries (entries ++ [entry]) = insert (ofEntries entries) entry.1 entry.2 :=
  List.foldl_concat _ _ _ _

/-- A dictionary has none but the entries that it is made of. -/
theorem mem_of_mem_ofEntries {entries : List (κ × ν)} {entry : κ × ν}
    (h : entry ∈ ofEntries entries) : entry ∈ entries := by
  induction entries using List.reverseRecOn with
  | nil => exact h
  | append_singleton entries last ih =>
    rw [ofEntries_concat] at h
    rcases mem_insert h with rfl | h
    · exact List.mem_append_right _ List.mem_cons_self
    · exact List.mem_append_left _ (ih h)

/-- A value that is stored under a new key becomes one more entry. -/
theorem insert_perm {d : Dict κ ν} {k : κ} (v : ν) (h : get? d k = none) :
    (insert d k v).Perm ((k, v) :: d) := by
  fun_induction insert d k v with
  | case1 => exact .refl _
  | case2 => simp [get?] at h
  | case3 => exact .refl _
  | case4 k' v' rest k v hk hb ih =>
    rw [get?, if_neg hk] at h
    exact ((ih h).cons _).trans (.swap _ _ _)

section Lawful

variable [LawfulKeyOrder κ]

theorem Sorted.insert {d : Dict κ ν} (h : Sorted d) (k : κ) (v : ν) : Sorted (d.insert k v) := by
  fun_induction Dict.insert d k v with
  | case1 => exact List.pairwise_singleton _ _
  | case2 => exact List.pairwise_cons.2 (List.pairwise_cons.1 h)
  | case3 k' v' rest k v hk hb =>
    -- the new key comes before the first one, and through it before all others
    refine List.pairwise_cons.2 ⟨fun entry hentry => ?_, h⟩
    rcases List.mem_cons.1 hentry with rfl | hentry
    · exact hb
    · exact LawfulKeyOrder.trans _ _ _ hb ((List.pairwise_cons.1 h).1 entry hentry)
  | case4 k' v' rest k v hk hb ih =>
    refine List.pairwise_cons.2 ⟨fun entry hentry => ?_, ih (List.pairwise_cons.1 h).2⟩
    rcases mem_insert hentry with rfl | hentry
    · exact LawfulKeyOrder.total _ _ hk (Bool.not_eq_true _ ▸ hb)
    · exact (List.pairwise_cons.1 h).1 entry hentry

/-- A value is stored at the end under a key that comes after all others. -/
theorem insert_last {d : Dict κ ν} {k : κ} {v : ν}
    (h : ∀ entry ∈ d, KeyOrder.before entry.1 k = true) : Dict.insert d k v = d ++ [(k, v)] := by
  fun_induction Dict.insert d k v with
  | case1 => rfl
  | case2 v' rest k v =>
    have hself := h _ List.mem_cons_self
    exact absurd (LawfulKeyOrder.asymm _ _ hself) (by rw [hself]; decide)
  | case3 k' v' rest k v hk hb =>
    have hlast := h _ List.mem_cons_self
    exact absurd (LawfulKeyOrder.asymm _ _ hb) (by rw [hlast]; decide)
  | case4 k' v' rest k v hk hb ih =>
    rw [ih fun entry hentry => h entry (List.mem_cons_of_mem _ hentry), List.cons_append]

/-- A sorted dictionary is the dictionary of its entries. -/
theorem Sorted.ofEntries_eq {d : Dict κ ν} (h : Sorted d) : ofEntries d = d := by
  induction d using List.reverseRecOn with
  | nil => rfl
  | append_singleton d last ih =>
    obtain ⟨hd, -, hlast⟩ := List.pairwise_append.1 h
    rw [ofEntries_concat, ih hd]
    exact insert_last fun entry hentry => hlast entry hentry last List.mem_cons_self

omit [DecidableEq κ] in
/-- The keys of a sorted dictionary are all different. -/
theorem Sorted.keys_nodup {d : Dict κ ν} (h : Sorted d) : (keys d).Nodup := by
  refine List.pairwise_map.2 (h.imp fun {x y} hbefore heq => ?_)
  rw [heq] at hbefore
  have hafter := LawfulKeyOrder.asymm _ _ hbefore
  rw [hbefore] at hafter
  cases hafter

/-- **The entries of a sorted dictionary** are what is found in it. -/
theorem Sorted.mem_iff {d : Dict κ ν} (h : Sorted d) {k : κ} {v : ν} :
    (k, v) ∈ d ↔ get? d k = some v := by
  refine ⟨fun hmem => ?_, mem_of_get?⟩
  induction d with
  | nil => cases hmem
  | cons entry d ih =>
    obtain ⟨hfirst, hrest⟩ := List.pairwise_cons.1 h
    rcases List.mem_cons.1 hmem with rfl | hmem
    · rw [get?, if_pos rfl]
    · have hbefore := hfirst _ hmem
      rw [get?, if_neg, ih hrest hmem]
      rintro rfl
      exact absurd (LawfulKeyOrder.asymm _ _ hbefore) (by rw [hbefore]; decide)

/-- **Sorted dictionaries are equal** if the same is found in both. -/
theorem Sorted.ext {d e : Dict κ ν} (hd : Sorted d) (he : Sorted e)
    (h : ∀ k, get? d k = get? e k) : d = e :=
  eq_of_ascending Prod.fst hd he fun entry => by
    obtain ⟨k, v⟩ := entry
    rw [hd.mem_iff, he.mem_iff, h]

/-- A removed entry is missing from the others, and nothing else is. -/
theorem Sorted.erase_perm {d : Dict κ ν} (h : Sorted d) {k : κ} {v : ν}
    (hk : get? d k = some v) : d.Perm ((k, v) :: d.erase k) := by
  -- storing the entry again gives back the dictionary
  have hback : d = (d.erase k).insert k v := by
    refine h.ext ((h.erase k).insert k v) fun k' => ?_
    rw [get?_insert, get?_erase]
    split
    · next heq => rw [heq, hk]
    · rfl
  have habsent : get? (d.erase k) k = none := by rw [get?_erase, if_pos rfl]
  exact (List.Perm.of_eq hback).trans (insert_perm v habsent)

/-- Removing a key before a value is stored under it makes no difference. -/
theorem Sorted.insert_erase {d : Dict κ ν} (h : Sorted d) (k : κ) (v : ν) :
    (d.erase k).insert k v = d.insert k v := by
  refine ((h.erase k).insert k v).ext (h.insert k v) fun k' => ?_
  rw [get?_insert, get?_insert, get?_erase]
  split <;> rfl

end Lawful

end Dict

end AccessPolicy
