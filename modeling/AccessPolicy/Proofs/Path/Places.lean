import AccessPolicy.Path.Selector
import Mathlib.Data.List.Induction
import Mathlib.Data.List.Nodup

/-!
# Places in an array

A position, a union of positions and a slice come down to places in an array. The places are within
the array, and they are listed in order, each once: upwards in general, and downwards for a slice
with a negative stride. The items at some of the places of an array, listed upwards, are those that
a filter of the array with its places keeps.
-/

namespace AccessPolicy

namespace Position

/-! ## Bounds and order -/

theorem lt_of_resolve? {position : Int} {length i : Nat} (h : resolve? position length = some i) :
    i < length := by
  unfold resolve? at h
  dsimp only at h
  generalize (if position < 0 then (length : Int) + position else position) = place at h
  split at h
  · obtain rfl := Option.some.inj h
    omega
  · cases h

theorem sliceEnd_bounds (length : Nat) {low high default : Int} (bound : Option Int)
    (hlow : low ≤ default) (hhigh : default ≤ high) :
    low ≤ sliceEnd length low high default bound
      ∧ sliceEnd length low high default bound ≤ high := by
  cases bound with
  | none => exact ⟨hlow, hhigh⟩
  | some i =>
    simp only [sliceEnd, clamp]
    omega

theorem mem_ascending {stride limit i x : Int} (h : x ∈ ascending stride limit i) :
    i ≤ x ∧ x < limit := by
  fun_induction ascending stride limit i with
  | case1 i hgoes ih =>
    rcases List.mem_cons.1 h with rfl | h
    · omega
    · have := ih h
      omega
  | case2 => cases h

theorem ascending_pairwise (stride limit i : Int) :
    (ascending stride limit i).Pairwise (· < ·) := by
  fun_induction ascending stride limit i with
  | case1 i hgoes ih =>
    refine List.pairwise_cons.2 ⟨fun x hx => ?_, ih⟩
    have := mem_ascending hx
    omega
  | case2 => exact .nil

theorem mem_descending {stride limit i x : Int} (h : x ∈ descending stride limit i) :
    x ≤ i ∧ limit < x := by
  fun_induction descending stride limit i with
  | case1 i hgoes ih =>
    rcases List.mem_cons.1 h with rfl | h
    · omega
    · have := ih h
      omega
  | case2 => cases h

theorem descending_pairwise (stride limit i : Int) :
    (descending stride limit i).Pairwise (· > ·) := by
  fun_induction descending stride limit i with
  | case1 i hgoes ih =>
    refine List.pairwise_cons.2 ⟨fun x hx => ?_, ih⟩
    have := mem_descending hx
    omega
  | case2 => exact .nil

/-- **The places of a slice** are within the array, and go the way of the stride. -/
theorem slice?_spec {length : Nat} {first last stride : Option Int} {places : List Nat}
    (h : slice? length first last stride = some places) :
    (∀ i ∈ places, i < length)
      ∧ (0 < stride.getD 1 → places.Pairwise (· < ·))
      ∧ (stride.getD 1 < 0 → places.Pairwise (· > ·)) := by
  unfold slice? at h
  dsimp only at h
  generalize stride.getD 1 = s at h ⊢
  split at h
  · cases h
  · next hzero =>
    split at h
    · next hup =>
      obtain rfl := Option.some.inj h
      have hstart : 0 ≤ (0 : Int) ∧ (0 : Int) ≤ length := by omega
      have hfirst := (sliceEnd_bounds length first hstart.1 hstart.2).1
      have hlast := (sliceEnd_bounds length last hstart.2 (Int.le_refl (length : Int))).2
      refine ⟨fun i hi => ?_, fun _ => ?_, fun hdown => absurd hup (Int.lt_asymm hdown)⟩
      · obtain ⟨x, hx, rfl⟩ := List.mem_map.1 hi
        have := mem_ascending hx
        omega
      · refine List.pairwise_map.2 ((ascending_pairwise _ _ _).imp_of_mem ?_)
        intro x y hx _ hxy
        have := mem_ascending hx
        omega
    · next hdown =>
      obtain rfl := Option.some.inj h
      have hstart : (-1 : Int) ≤ length - 1 := by omega
      have hfirst := (sliceEnd_bounds length first hstart (Int.le_refl (length - 1 : Int))).2
      have hlast := (sliceEnd_bounds length last (Int.le_refl (-1)) hstart).1
      refine ⟨fun i hi => ?_, fun hup => absurd hup hdown, fun _ => ?_⟩
      · obtain ⟨x, hx, rfl⟩ := List.mem_map.1 hi
        have := mem_descending hx
        omega
      · refine List.pairwise_map.2 ((descending_pairwise _ _ _).imp_of_mem ?_)
        intro x y _ hy hxy
        have := mem_descending hy
        omega

/-- The places of an array that meet a condition are within the array and listed upwards. -/
theorem range_filter_inside (length : Nat) (p : Nat → Bool) :
    (∀ i ∈ (List.range length).filter p, i < length)
      ∧ ((List.range length).filter p).Pairwise (· < ·) :=
  ⟨fun _ hi => List.mem_range.1 (List.mem_filter.1 hi).1, List.pairwise_lt_range.filter p⟩

/-! ## The items at some places -/

variable {α : Type}

/-- The places of an array that are not among some places, upwards. -/
def others (length : Nat) (places : List Nat) : List Nat :=
  (List.range length).filter fun i => !places.contains i

theorem others_filter (length : Nat) (p : Nat → Bool) :
    others length ((List.range length).filter p) = (List.range length).filter fun i => !p i := by
  refine List.filter_congr fun i hi => ?_
  have hcontains : ((List.range length).filter p).contains i = p i := by
    rw [Bool.eq_iff_iff, List.contains_iff_mem, List.mem_filter, and_iff_right hi]
  rw [hcontains]

/-- Items that come after the places make no difference. -/
theorem pick_append {items : List α} {places : List Nat} (h : ∀ i ∈ places, i < items.length)
    (more : List α) : pick (items ++ more) places = pick items places :=
  List.filterMap_congr fun i hi => List.getElem?_append_left (h i hi)

/-- **The items at places that are listed upwards** are those that a filter keeps. -/
theorem pick_filter_range (items : List α) (p : Nat → Bool) :
    pick items ((List.range items.length).filter p)
      = (items.zipIdx.filter fun entry => p entry.2).map Prod.fst := by
  induction items using List.reverseRecOn with
  | nil => rfl
  | append_singleton items item ih =>
    have hplaces : ∀ i ∈ (List.range items.length).filter p, i < items.length :=
      fun i hi => List.mem_range.1 (List.mem_filter.1 hi).1
    rw [List.length_append, List.length_singleton, List.range_succ, List.filter_append,
      List.zipIdx_append, List.filter_append, List.map_append, ← ih, ← pick_append hplaces [item]]
    unfold pick
    rw [List.filterMap_append]
    congr 1
    cases hlast : p items.length <;> simp [hlast]

/-- The items that meet a condition are those at the places whose items do. -/
theorem pick_filter_where (items : List α) (p : α → Bool) :
    pick items ((List.range items.length).filter fun i => items[i]?.any p) = items.filter p := by
  have hentries : ∀ entry ∈ items.zipIdx, items[entry.2]?.any p = p entry.1 := by
    intro entry hentry
    rw [List.mem_zipIdx_iff_getElem?.1 hentry, Option.any_some]
  rw [pick_filter_range, List.filter_congr hentries]
  conv_rhs => rw [← List.zipIdx_map_fst 0 items, List.filter_map]
  rfl

/-- The places whose items do not meet a condition are the others. -/
theorem others_filter_where (items : List α) (p : α → Bool) :
    others items.length ((List.range items.length).filter fun i => items[i]?.any p)
      = (List.range items.length).filter fun i => items[i]?.any fun x => !p x := by
  rw [others_filter]
  refine List.filter_congr fun i hi => ?_
  rw [List.getElem?_eq_getElem (List.mem_range.1 hi)]
  rfl

/-- There is an item at each place. -/
theorem range_filter_any (items : List α) :
    ((List.range items.length).filter fun i => items[i]?.any fun _ => true)
      = List.range items.length := by
  refine List.filter_eq_self.2 fun i hi => ?_
  rw [List.getElem?_eq_getElem (List.mem_range.1 hi)]
  rfl

end Position

end AccessPolicy
