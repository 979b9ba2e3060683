/-!
# Dictionaries kept in key order

Objects, variable bindings, imports and tables of documents are all dictionaries that are
listed in ascending key order. A dictionary is the list of its entries, so that it may
occur inside a recursive type and so that two dictionaries built by `insert` with the same
entries are equal as lists. Lookups compare keys only, so the laws of `get?` need no order.
-/

namespace AccessPolicy

/-- Whether one list comes before another in the dictionary order, when the items are ordered
by a number of each. -/
def lexBefore {α : Type} (rank : α → Nat) : List α → List α → Bool
  | _, [] => false
  | [], _ :: _ => true
  | a :: as, b :: bs =>
    if rank a < rank b then true else if rank a = rank b then lexBefore rank as bs else false

/-- Types of keys with a strict order. -/
class KeyOrder (κ : Type) where
  before : κ → κ → Bool

/-- Texts are ordered by the code points of their characters. -/
instance : KeyOrder String := ⟨fun a b => lexBefore Char.toNat a.toList b.toList⟩

universe u

/-- A dictionary, as the list of its entries in ascending key order. -/
abbrev Dict (κ : Type) (ν : Type u) := List (κ × ν)

namespace Dict

variable {κ : Type} {ν : Type u}

/-- The value stored under a key. -/
def get? [DecidableEq κ] : Dict κ ν → κ → Option ν
  | [], _ => none
  | (k', v) :: rest, k => if k = k' then some v else get? rest k

/-- Whether a key is stored. -/
def hasKey [DecidableEq κ] (d : Dict κ ν) (k : κ) : Bool := (get? d k).isSome

/-- Stores a value under a key, in place of any value the key had. -/
def insert [DecidableEq κ] [KeyOrder κ] : Dict κ ν → κ → ν → Dict κ ν
  | [], k, v => [(k, v)]
  | (k', v') :: rest, k, v =>
    if k = k' then (k, v) :: rest
    else if KeyOrder.before k k' then (k, v) :: (k', v') :: rest
    else (k', v') :: insert rest k v

/-- Removes a key. -/
def erase [DecidableEq κ] (d : Dict κ ν) (k : κ) : Dict κ ν :=
  d.filter fun entry => !decide (entry.1 = k)

/-- The dictionary of a list of entries; a later entry replaces an earlier one of its key. -/
def ofEntries [DecidableEq κ] [KeyOrder κ] (entries : List (κ × ν)) : Dict κ ν :=
  entries.foldl (fun d entry => insert d entry.1 entry.2) []

/-- The keys in ascending order. -/
def keys (d : Dict κ ν) : List κ := d.map Prod.fst

/-- The values in the order of their keys. -/
def values (d : Dict κ ν) : List ν := d.map Prod.snd

section Laws

variable [DecidableEq κ]

@[simp] theorem get?_nil (k : κ) : get? ([] : Dict κ ν) k = none := rfl

/-- **The last write wins**, and no other key notices. -/
theorem get?_insert [KeyOrder κ] (d : Dict κ ν) (k k' : κ) (v : ν) :
    get? (insert d k v) k' = if k' = k then some v else get? d k' := by
  fun_induction insert d k v with
  | case1 => simp [get?]
  | case2 => grind [get?]
  | case3 => grind [get?]
  | case4 => grind [get?]

/-- An erased key is absent, and no other key notices. -/
theorem get?_erase (d : Dict κ ν) (k k' : κ) :
    get? (erase d k) k' = if k' = k then none else get? d k' := by
  induction d with
  | nil => simp [erase]
  | cons entry rest ih =>
    unfold erase at ih ⊢
    grind [get?]

end Laws

end Dict

end AccessPolicy
