import AccessPolicy.Json.Numeral
import AccessPolicy.Proofs.Path.Places
import Mathlib.Tactic.Ring

/-!
# Slices

A slice is the arithmetic sequence from its start, in strides, up to its stop. The definition of its
places is silent on two things that can go wrong on a machine. It reckons with unbounded integers,
where a machine has 64 bits, and it picks items by a lookup that passes over a place outside of the
array, where a machine fails.

Here both failures are made visible. The places are computed a second time with sums that fail when
they do not fit 64 bits, and the items are looked up a second time such that one place outside of an
array makes the whole selection fail. Neither ever fails. The only sum that can leave 64 bits is the
one with the stride, by which the loop ends: whatever does not fit lies beyond the stop as well.
-/

namespace AccessPolicy

namespace Position

/-! ## The sequence of a slice -/

/-- A position counted from the front. -/
def fromFront (length : Nat) (i : Int) : Int := if i < 0 then length + i else i

/-- **Where a slice starts**: at its first position, moved to between the ends of the array, or else
at the end from which the stride leads away. -/
def start (length : Nat) (stride : Int) (first : Option Int) : Int :=
  if 0 < stride then first.elim 0 fun i => max 0 (min length (fromFront length i))
  else first.elim (length - 1) fun i => max (-1) (min (length - 1) (fromFront length i))

/-- **Where a slice stops**: at its last position, moved to between the ends of the array, or else
at the end to which the stride leads. -/
def stop (length : Nat) (stride : Int) (last : Option Int) : Int :=
  if 0 < stride then last.elim (length : Int) fun i => max 0 (min length (fromFront length i))
  else last.elim (-1) fun i => max (-1) (min (length - 1) (fromFront length i))

/-- Whether a place comes before another one in the direction of a stride. -/
def Before (stride i j : Int) : Prop := if 0 < stride then i < j else j < i

instance (stride i j : Int) : Decidable (Before stride i j) :=
  inferInstanceAs (Decidable (if 0 < stride then i < j else j < i))

/-- **The places of a slice**: every stride from the start that comes before the stop, and nothing
else. -/
structure IsSlice (length : Nat) (first last : Option Int) (stride : Int) (places : List Nat) :
    Prop where
  place (j : Nat) : (places[j]?).map Int.ofNat =
    if Before stride (start length stride first + j * stride) (stop length stride last) then
      some (start length stride first + j * stride)
    else none
  inside : ∀ i ∈ places, i < length
  ordered : if 0 < stride then places.Pairwise (· < ·) else places.Pairwise (· > ·)
  nodup : places.Nodup

theorem getElem?_ascending {stride : Int} (h : 0 < stride) (limit i : Int) (j : Nat) :
    (ascending stride limit i)[j]?
      = if i + j * stride < limit then some (i + j * stride) else none := by
  fun_induction ascending stride limit i generalizing j with
  | case1 i hgoes ih =>
    cases j with
    | zero => simp [hgoes.2]
    | succ j =>
      have hplace : i + stride + j * stride = i + (j + 1 : Nat) * stride := by
        push_cast
        ring
      rw [List.getElem?_cons_succ, ih, hplace]
  | case2 i hends =>
    have hstrides : 0 ≤ (j : Int) * stride := Int.mul_nonneg (Int.natCast_nonneg j) (Int.le_of_lt h)
    rw [List.getElem?_nil, if_neg (by omega)]

theorem getElem?_descending {stride : Int} (h : stride < 0) (limit i : Int) (j : Nat) :
    (descending stride limit i)[j]?
      = if limit < i + j * stride then some (i + j * stride) else none := by
  fun_induction descending stride limit i generalizing j with
  | case1 i hgoes ih =>
    cases j with
    | zero => simp [hgoes.2]
    | succ j =>
      have hplace : i + stride + j * stride = i + (j + 1 : Nat) * stride := by
        push_cast
        ring
      rw [List.getElem?_cons_succ, ih, hplace]
  | case2 i hends =>
    have hstrides : (j : Int) * stride ≤ 0 :=
      Int.mul_nonpos_of_nonneg_of_nonpos (Int.natCast_nonneg j) (Int.le_of_lt h)
    rw [List.getElem?_nil, if_neg (by omega)]

/-- Numbers that are not negative are kept when they are taken for places. -/
theorem getElem?_map_toNat {numbers : List Int} (h : ∀ x ∈ numbers, 0 ≤ x) (j : Nat) :
    ((numbers.map Int.toNat)[j]?).map Int.ofNat = numbers[j]? := by
  rw [List.getElem?_map, Option.map_map]
  cases hx : numbers[j]? with
  | none => rfl
  | some x => exact congrArg some (Int.toNat_of_nonneg (h x (List.mem_of_getElem? hx)))

theorem sliceEnd_eq (length : Nat) (low high default : Int) (bound : Option Int) :
    sliceEnd length low high default bound
      = bound.elim default fun i => max low (min high (fromFront length i)) := by
  cases bound with
  | none => rfl
  | some i => simp [sliceEnd, clamp, fromFront, Int.add_comm]

/-- The places of a slice are computed as such. -/
theorem isSlice_of_slice? {length : Nat} {first last stride : Option Int} {places : List Nat}
    (h : slice? length first last stride = some places) :
    IsSlice length first last (stride.getD 1) places := by
  obtain ⟨hinside, hup, hdown⟩ := slice?_spec h
  unfold slice? at h
  dsimp only at h
  generalize stride.getD 1 = k at h hup hdown ⊢
  split at h
  · cases h
  next hk =>
  split at h
  · next hpos =>
    obtain rfl := Option.some.inj h
    have hstart : start length k first = sliceEnd length 0 length 0 first := by
      rw [sliceEnd_eq, start, if_pos hpos]
    have hstop : stop length k last = sliceEnd length 0 length length last := by
      rw [sliceEnd_eq, stop, if_pos hpos]
    have hfrom : 0 ≤ start length k first :=
      hstart ▸ (sliceEnd_bounds length first (Int.le_refl 0) (Int.natCast_nonneg length)).1
    refine ⟨fun j => ?_, hinside, by rw [if_pos hpos]; exact hup hpos, (hup hpos).imp Nat.ne_of_lt⟩
    rw [← hstart, ← hstop, getElem?_map_toNat fun x hx => by have := mem_ascending hx; omega,
      getElem?_ascending hpos]
    simp only [Before, if_pos hpos]
  · next hneg =>
    obtain rfl := Option.some.inj h
    have hlt : k < 0 := by omega
    have hstart : start length k first = sliceEnd length (-1) (length - 1) (length - 1) first := by
      rw [sliceEnd_eq, start, if_neg hneg]
    have hstop : stop length k last = sliceEnd length (-1) (length - 1) (-1) last := by
      rw [sliceEnd_eq, stop, if_neg hneg]
    have hto : -1 ≤ stop length k last :=
      hstop ▸ (sliceEnd_bounds length last (Int.le_refl (-1)) (by omega)).1
    refine ⟨fun j => ?_, hinside, by rw [if_neg hneg]; exact hdown hlt,
      (hdown hlt).imp fun hgt => (Nat.ne_of_lt hgt).symm⟩
    rw [← hstart, ← hstop, getElem?_map_toNat fun x hx => by have := mem_descending hx; omega,
      getElem?_descending hlt]
    simp only [Before, if_neg hneg]

/-! ## The arithmetic of 64 bits -/

/-- A sum that must fit 64 signed bits. -/
def sum64? (i j : Int) : Option Int := if fitsInt64 (i + j) then some (i + j) else none

theorem sum64?_of_fits {i j : Int} (h : fitsInt64 (i + j) = true) : sum64? i j = some (i + j) :=
  if_pos h

/-- The numbers from one on upwards below a limit. They end with a sum that does not fit. -/
def ascending64 (stride limit i : Int) : List Int :=
  if 0 < stride ∧ i < limit then
    i :: (match sum64? i stride with
      | some _ => ascending64 stride limit (i + stride)
      | none => [])
  else []
termination_by (limit - i).toNat

/-- The numbers from one on downwards above a limit. They end with a sum that does not fit. -/
def descending64 (stride limit i : Int) : List Int :=
  if stride < 0 ∧ limit < i then
    i :: (match sum64? i stride with
      | some _ => descending64 stride limit (i + stride)
      | none => [])
  else []
termination_by (i - limit).toNat

/-- The end of a slice. A clamp asks for its bounds to be in order. -/
def sliceEnd64? (length : Nat) (low high default : Int) : Option Int → Option Int
  | none => some default
  | some i => do
    let i ← if i < 0 then sum64? i length else some i
    if low ≤ high then some (clamp low high i) else none

/-- The places of a slice, if everything on the way to them fits 64 bits. -/
def slice64? (length : Nat) (first last stride : Option Int) : Option (Option (List Nat)) :=
  let stride := stride.getD 1
  if stride = 0 then some none
  else if 0 < stride then do
    let i ← sliceEnd64? length 0 length 0 first
    let limit ← sliceEnd64? length 0 length length last
    return some ((ascending64 stride limit i).map Int.toNat)
  else do
    let top ← sum64? length (-1)
    let i ← sliceEnd64? length (-1) top top first
    let limit ← sliceEnd64? length (-1) top (-1) last
    return some ((descending64 stride limit i).map Int.toNat)

theorem fitsInt64_iff {i : Int} :
    fitsInt64 i = true ↔ -0x8000000000000000 ≤ i ∧ i < 0x8000000000000000 := by
  simp [fitsInt64]

theorem ascending64_eq {stride limit i : Int} (hlimit : fitsInt64 limit = true)
    (hi : fitsInt64 i = true) : ascending64 stride limit i = ascending stride limit i := by
  rw [fitsInt64_iff] at hlimit hi
  fun_induction ascending stride limit i with
  | case1 i hgoes ih =>
    rw [ascending64, if_pos hgoes]
    congr 1
    unfold sum64?
    split
    · next hsum =>
      split at hsum
      · next hfits => exact ih (fitsInt64_iff.1 hfits)
      · cases hsum
    · next hsum =>
      split at hsum
      · cases hsum
      · next hover =>
        rw [fitsInt64_iff] at hover
        rw [ascending, if_neg (by omega)]
  | case2 i hends => rw [ascending64, if_neg hends]

theorem descending64_eq {stride limit i : Int} (hlimit : fitsInt64 limit = true)
    (hi : fitsInt64 i = true) : descending64 stride limit i = descending stride limit i := by
  rw [fitsInt64_iff] at hlimit hi
  fun_induction descending stride limit i with
  | case1 i hgoes ih =>
    rw [descending64, if_pos hgoes]
    congr 1
    unfold sum64?
    split
    · next hsum =>
      split at hsum
      · next hfits => exact ih (fitsInt64_iff.1 hfits)
      · cases hsum
    · next hsum =>
      split at hsum
      · cases hsum
      · next hover =>
        rw [fitsInt64_iff] at hover
        rw [descending, if_neg (by omega)]
  | case2 i hends => rw [descending64, if_neg hends]

theorem sliceEnd64?_eq {length : Nat} {low high default : Int} {bound : Option Int}
    (hlength : fitsInt64 length = true) (hbound : ∀ i ∈ bound, fitsInt64 i = true)
    (hlow : low ≤ high) :
    sliceEnd64? length low high default bound = some (sliceEnd length low high default bound) := by
  cases bound with
  | none => rfl
  | some i =>
    have hi := fitsInt64_iff.1 (hbound i rfl)
    rw [fitsInt64_iff] at hlength
    by_cases hneg : i < 0
    · have hsum : fitsInt64 (i + length) = true := fitsInt64_iff.2 (by omega)
      simp [sliceEnd64?, sliceEnd, hneg, hlow, sum64?_of_fits hsum]
    · simp [sliceEnd64?, sliceEnd, hneg, hlow]

/-- **Nothing overflows**: reckoned in 64 bits, the places of a slice are the same. -/
theorem slice64?_eq {length : Nat} {first last stride : Option Int}
    (hlength : fitsInt64 length = true) (hfirst : ∀ i ∈ first, fitsInt64 i = true)
    (hlast : ∀ i ∈ last, fitsInt64 i = true) :
    slice64? length first last stride = some (slice? length first last stride) := by
  have hbound := fitsInt64_iff.1 hlength
  have hends {low high default : Int} (bound : Option Int) (hlow : -1 ≤ low) (hhigh : high ≤ length)
      (hbelow : low ≤ default) (habove : default ≤ high) :
      fitsInt64 (sliceEnd length low high default bound) = true := by
    have := sliceEnd_bounds length bound hbelow habove
    exact fitsInt64_iff.2 (by omega)
  unfold slice64? slice?
  dsimp only
  generalize stride.getD 1 = k
  split
  · rfl
  split
  · rw [sliceEnd64?_eq hlength hfirst (by omega), sliceEnd64?_eq hlength hlast (by omega)]
    show some (some _) = _
    rw [ascending64_eq (hends last (by omega) (by omega) (by omega) (by omega))
      (hends first (by omega) (by omega) (by omega) (by omega))]
  · rw [sum64?_of_fits (fitsInt64_iff.2 (by omega))]
    show (do
      let i ← sliceEnd64? length (-1) (length - 1) (length - 1) first
      let limit ← sliceEnd64? length (-1) (length - 1) (-1) last
      return some ((descending64 k limit i).map Int.toNat) : Option (Option (List Nat))) = _
    rw [sliceEnd64?_eq hlength hfirst (by omega), sliceEnd64?_eq hlength hlast (by omega)]
    show some (some _) = _
    rw [descending64_eq (hends last (by omega) (by omega) (by omega) (by omega))
      (hends first (by omega) (by omega) (by omega) (by omega))]

theorem slice?_eq_none_iff (length : Nat) (first last stride : Option Int) :
    slice? length first last stride = none ↔ stride = some 0 := by
  unfold slice?
  cases stride with
  | none => simp
  | some k =>
    by_cases hk : k = 0
    · simp [hk]
    · by_cases hpos : 0 < k <;> simp [hk, hpos]

/-! ## Lookups that fail -/

variable {α : Type}

/-- The items at some places, if there is one at each of them. -/
def pickAll? (items : List α) (places : List Nat) : Option (List α) :=
  places.mapM fun i => items[i]?

theorem pickAll?_eq {items : List α} {places : List Nat} (h : ∀ i ∈ places, i < items.length) :
    pickAll? items places = some (pick items places) := by
  induction places with
  | nil => rfl
  | cons i places ih =>
    obtain ⟨hi, hplaces⟩ := List.forall_mem_cons.1 h
    have hitem : items[i]? = some items[i] := List.getElem?_eq_getElem hi
    rw [pickAll?, List.mapM_cons, hitem]
    show (pickAll? items places).bind _ = _
    rw [ih hplaces, pick, pick, List.filterMap_cons, hitem]
    rfl

/-- The item at a position as a list, empty if the position denotes no place. It fails if the
position denotes a place without an item. -/
def itemAt? (items : List α) (position : Int) : Option (List α) :=
  match resolve? position items.length with
  | none => some []
  | some i => (items[i]?).map fun item => [item]

theorem itemAt?_eq (items : List α) (position : Int) :
    itemAt? items position
      = some ((resolve? position items.length).bind fun i => items[i]?).toList := by
  unfold itemAt?
  cases hplace : resolve? position items.length with
  | none => rfl
  | some i => simp [List.getElem?_eq_getElem (lt_of_resolve? hplace)]

end Position

namespace Json

mutual

/-- The items at some position of the arrays in a document, if there is one at each place that the
position denotes. -/
def itemsAtChecked? (position : Int) : Json → Option (List Json)
  | array items => do
    return (← Position.itemAt? items position) ++ (← itemsAtCheckedInItems? position items)
  | object members => itemsAtCheckedInMembers? position members
  | _ => some []

/-- The same for the items of an array. -/
def itemsAtCheckedInItems? (position : Int) : List Json → Option (List Json)
  | [] => some []
  | item :: items => do
    return (← itemsAtChecked? position item) ++ (← itemsAtCheckedInItems? position items)

/-- The same for the members of an object. -/
def itemsAtCheckedInMembers? (position : Int) : List (String × Json) → Option (List Json)
  | [] => some []
  | (_, value) :: members => do
    return (← itemsAtChecked? position value) ++ (← itemsAtCheckedInMembers? position members)

end

mutual

theorem itemsAtChecked?_eq (position : Int) :
    (d : Json) → itemsAtChecked? position d = some (itemsAt position d)
  | null | bool _ | number _ | string _ => rfl
  | array items => by
    rw [itemsAtChecked?, Position.itemAt?_eq, itemsAtCheckedInItems?_eq position items, itemsAt]
    rfl
  | object members => by
    rw [itemsAtChecked?, itemsAtCheckedInMembers?_eq position members, itemsAt]

theorem itemsAtCheckedInItems?_eq (position : Int) :
    (items : List Json) →
      itemsAtCheckedInItems? position items = some (itemsAtInItems position items)
  | [] => rfl
  | item :: items => by
    rw [itemsAtCheckedInItems?, itemsAtChecked?_eq position item,
      itemsAtCheckedInItems?_eq position items, itemsAtInItems]
    rfl

theorem itemsAtCheckedInMembers?_eq (position : Int) : (members : List (String × Json)) →
    itemsAtCheckedInMembers? position members = some (itemsAtInMembers position members)
  | [] => rfl
  | (_, value) :: members => by
    rw [itemsAtCheckedInMembers?, itemsAtChecked?_eq position value,
      itemsAtCheckedInMembers?_eq position members, itemsAtInMembers]
    rfl

end

end Json

namespace Selector

/-- Applies a selector to a value, if each of its lookups in an array finds an item. -/
def selectChecked? (s : Selector) (v : Value) : Option Value :=
  match s, v.document? with
  | index position, some (.array items) => do
    match ← Position.itemAt? items position with
    | item :: _ => return Value.of item
    | [] => return Value.fault (.indexOutOfBounds position items.length)
  | slice first last stride, some (.array items) =>
    match Position.slice? items.length first last stride with
    | some places => do return Value.of (.array (← Position.pickAll? items places))
    | none => some (Value.fault .zeroStride)
  | recursiveIndex position, some d => do return Value.of (.array (← d.itemsAtChecked? position))
  | indices positions, some (.array items) => do
    let chosen := places positions items.length
    return Value.of (.array
      (← Position.pickAll? items ((List.range items.length).filter chosen.contains)))
  | s, _ => some (s.select v)

theorem outcome_of_document? {outcome : Outcome} {trace : Trace} {d : Json}
    (h : Value.document? ⟨outcome, trace⟩ = some d) : outcome = .defined d := by
  cases outcome with
  | defined document => exact congrArg Outcome.defined (Option.some.inj h)
  | undefined => cases h
  | error message causes => cases h

/-- **No lookup is out of bounds.** -/
theorem selectChecked?_eq (s : Selector) (v : Value) : s.selectChecked? v = some (s.select v) := by
  obtain ⟨outcome, trace⟩ := v
  unfold selectChecked?
  split
  · next position items hdocument =>
    obtain rfl := outcome_of_document? hdocument
    rw [Position.itemAt?_eq]
    show _ = some (selectIndex position ⟨.defined (.array items), trace⟩)
    simp only [selectIndex, Value.items?, Option.bind_eq_bind, Option.bind_some]
    cases (Position.resolve? position items.length).bind fun i => items[i]? <;> rfl
  · next first last stride items hdocument =>
    obtain rfl := outcome_of_document? hdocument
    show _ = some (selectSlice first last stride ⟨.defined (.array items), trace⟩)
    simp only [selectSlice, Value.items?]
    cases hplaces : Position.slice? items.length first last stride with
    | none => rfl
    | some places =>
      dsimp only
      rw [Position.pickAll?_eq (Position.slice?_spec hplaces).1]
      rfl
  · next position d hdocument =>
    obtain rfl := outcome_of_document? hdocument
    rw [Json.itemsAtChecked?_eq]
    rfl
  · next positions items hdocument =>
    obtain rfl := outcome_of_document? hdocument
    dsimp only
    rw [Position.pickAll?_eq (Position.range_filter_inside items.length _).1]
    rfl
  · rfl

end Selector

/-- **A slice is exactly what it says**, in 64 bits as in unbounded arithmetic. -/
theorem Position.slice_exact {length : Nat} {first last stride : Option Int}
    (hlength : fitsInt64 length = true) (hfirst : ∀ i ∈ first, fitsInt64 i = true)
    (hlast : ∀ i ∈ last, fitsInt64 i = true) :
    slice64? length first last stride = some (slice? length first last stride)
      ∧ (slice? length first last stride = none ↔ stride = some 0)
      ∧ (∀ places, slice? length first last stride = some places →
          IsSlice length first last (stride.getD 1) places)
      ∧ ∀ (s : Selector) (v : Value), s.selectChecked? v = some (s.select v) :=
  ⟨slice64?_eq hlength hfirst hlast, slice?_eq_none_iff length first last stride,
    fun _ => isSlice_of_slice?, Selector.selectChecked?_eq⟩

/-- The ends and the stride at the limits of 64 bits. -/
theorem Position.slice_exact_at_limits :
    let least : Int := -0x8000000000000000
    let most : Int := 0x7FFFFFFFFFFFFFFF
    fitsInt64 (3 : Nat) = true
      ∧ (∀ i ∈ some least, fitsInt64 i = true)
      ∧ (∀ i ∈ some most, fitsInt64 i = true)
      ∧ slice64? 3 (some least) (some most) (some most)
          = some (slice? 3 (some least) (some most) (some most))
      ∧ slice? 3 (some least) (some most) (some most) = some [0]
      ∧ IsSlice 3 (some least) (some most) most [0] := by
  intro least most
  have hlength : fitsInt64 (3 : Nat) = true := by decide
  have hleast : ∀ i ∈ some least, fitsInt64 i = true := by
    rintro i ⟨⟩
    decide
  have hmost : ∀ i ∈ some most, fitsInt64 i = true := by
    rintro i ⟨⟩
    decide
  have hslice : slice? 3 (some least) (some most) (some most) = some [0] := by decide +kernel
  obtain ⟨h64, -, hplaces, -⟩ :=
    @slice_exact 3 (some least) (some most) (some most) hlength hleast hmost
  exact ⟨hlength, hleast, hmost, h64, hslice, hplaces [0] hslice⟩

end AccessPolicy
