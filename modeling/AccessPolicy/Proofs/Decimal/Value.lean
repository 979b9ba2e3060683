import AccessPolicy.Decimal.Basic
import Mathlib.Algebra.Order.Field.Power
import Mathlib.Data.Rat.Cast.Order
import Mathlib.Tactic.FieldSimp
import Mathlib.Tactic.Linarith
import Mathlib.Tactic.Positivity
import Mathlib.Tactic.Ring

/-!
# The value of a decimal

A decimal is a rational number that is written in a certain place. The place is lost in its value:
`⟨150, 2⟩` and `⟨15, 1⟩` are both 1.5. Sums, differences and products are those of the values.

Two decimals are compared without writing out their places, first by their signs and then by the
places of their leading digits. That this is the order of the values rests on one fact: the leading
place is the `k` for which the value lies between `10 ^ (k - 1)` and `10 ^ k`.
-/

namespace AccessPolicy.Decimal

/-- **The value** of a decimal. -/
def value (d : Decimal) : ℚ := d.unscaled * (10 : ℚ) ^ (-d.scale)

/-! ## Powers of ten -/

theorem ten_pos (k : ℤ) : (0 : ℚ) < 10 ^ k := zpow_pos (by norm_num) k

theorem ten_ne_zero (k : ℤ) : (10 : ℚ) ^ k ≠ 0 := (ten_pos k).ne'

theorem ten_add (j k : ℤ) : (10 : ℚ) ^ (j + k) = 10 ^ j * 10 ^ k := zpow_add₀ (by norm_num) j k

theorem ten_toNat {k : ℤ} (h : 0 ≤ k) : ((Nat.pow 10 k.toNat : ℕ) : ℚ) = 10 ^ k := by
  have hpow : ((Nat.pow 10 k.toNat : ℕ) : ℚ) = (10 : ℚ) ^ k.toNat := by
    rw [Nat.pow_eq]
    push_cast
    rfl
  rw [hpow, ← zpow_natCast, Int.toNat_of_nonneg h]

/-! ## Arithmetic -/

@[simp] theorem value_zero : zero.value = 0 := by simp [value, zero]

@[simp] theorem value_one : one.value = 1 := by simp [value, one]

@[simp] theorem value_neg (d : Decimal) : d.neg.value = -d.value := by
  simp [value, neg]

theorem value_eq_zero_iff {d : Decimal} : d.value = 0 ↔ d.unscaled = 0 := by
  rw [value, mul_eq_zero, or_iff_left (ten_ne_zero _), Int.cast_eq_zero]

theorem isZero_iff {d : Decimal} : d.isZero = true ↔ d.value = 0 := by
  rw [value_eq_zero_iff, isZero, beq_iff_eq]

/-- The units in a finer place are a multiple of the value. -/
theorem unitsAt_cast {d : Decimal} {scale : ℤ} (h : d.scale ≤ scale) :
    (d.unitsAt scale : ℚ) = d.value * 10 ^ scale := by
  have hplace : (10 : ℚ) ^ (scale - d.scale) = 10 ^ (-d.scale) * 10 ^ scale := by
    rw [← ten_add]
    congr 1
    ring
  rw [unitsAt, Int.cast_mul, Int.cast_natCast, ten_toNat (by omega), hplace, value, mul_assoc]

theorem value_of_units {units : ℤ} {scale : ℤ} {q : ℚ} (h : (units : ℚ) = q * 10 ^ scale) :
    (⟨units, scale⟩ : Decimal).value = q := by
  rw [value, h, mul_assoc, ← ten_add, add_neg_cancel, zpow_zero, mul_one]

/-- **A sum has the sum of the values.** -/
@[simp] theorem value_add (a b : Decimal) : (a.add b).value = a.value + b.value := by
  refine value_of_units ?_
  rw [Int.cast_add, unitsAt_cast (le_max_left _ _), unitsAt_cast (le_max_right _ _), add_mul]

/-- **A difference has the difference of the values.** -/
@[simp] theorem value_sub (a b : Decimal) : (a.sub b).value = a.value - b.value := by
  refine value_of_units ?_
  rw [Int.cast_sub, unitsAt_cast (le_max_left _ _), unitsAt_cast (le_max_right _ _), sub_mul]

/-- **A product has the product of the values.** -/
@[simp] theorem value_mul (a b : Decimal) : (a.mul b).value = a.value * b.value := by
  rw [value, mul, Int.cast_mul, neg_add, ten_add, value, value]
  ring

/-! ## The leading place -/

theorem digitCount_pos (n : ℕ) : 0 < digitCount n := by
  unfold digitCount Digit.ofNat
  split <;> simp

/-- A number of `k` digits lies between the powers of ten `k - 1` and `k`. -/
theorem digitCount_bounds {n : ℕ} (h : 0 < n) :
    10 ^ (digitCount n - 1) ≤ n ∧ n < 10 ^ digitCount n := by
  unfold digitCount
  fun_induction Digit.ofNat n with
  | case1 n hdigit => simpa using ⟨h, hdigit⟩
  | case2 n hlong ih =>
    have hcount := digitCount_pos (n / 10)
    unfold digitCount at hcount
    obtain ⟨hlow, hhigh⟩ := ih (by omega)
    rw [List.length_append, List.length_singleton]
    generalize (Digit.ofNat (n / 10)).length = k at hcount hlow hhigh ⊢
    obtain ⟨k, rfl⟩ : ∃ j, k = j + 1 := ⟨k - 1, by omega⟩
    simp only [Nat.add_sub_cancel] at hlow ⊢
    have hten (j : ℕ) : 10 ^ (j + 1) = 10 * 10 ^ j := Nat.pow_succ'
    rw [hten k] at hhigh ⊢
    rw [hten (k + 1), hten k]
    omega

theorem abs_value (d : Decimal) : |d.value| = d.unscaled.natAbs * (10 : ℚ) ^ (-d.scale) := by
  rw [value, abs_mul, abs_of_pos (ten_pos _), Nat.cast_natAbs, Int.cast_abs]

/-- **The leading place** of a decimal bounds its absolute value. -/
theorem leadingPlace_bounds {d : Decimal} (h : d.unscaled ≠ 0) :
    (10 : ℚ) ^ (d.leadingPlace - 1) ≤ |d.value| ∧ |d.value| < 10 ^ d.leadingPlace := by
  have hunits : 0 < d.unscaled.natAbs := Int.natAbs_pos.2 h
  obtain ⟨hlow, hhigh⟩ := digitCount_bounds hunits
  have hcount := digitCount_pos d.unscaled.natAbs
  unfold leadingPlace
  generalize digitCount d.unscaled.natAbs = k at hlow hhigh hcount ⊢
  obtain ⟨k, rfl⟩ : ∃ j, k = j + 1 := ⟨k - 1, by omega⟩
  have hfirst : ((k + 1 : ℕ) : ℤ) - d.scale - 1 = (k : ℤ) + -d.scale := by
    push_cast
    ring
  rw [abs_value, hfirst, sub_eq_add_neg, ten_add, ten_add, zpow_natCast, zpow_natCast]
  refine ⟨mul_le_mul_of_nonneg_right ?_ (ten_pos _).le, mul_lt_mul_of_pos_right ?_ (ten_pos _)⟩
  · exact_mod_cast hlow
  · exact_mod_cast hhigh

/-! ## Order -/

theorem order_eq_cmp (i j : ℤ) : order i j = cmp i j := by
  unfold order
  rcases lt_trichotomy i j with h | h | h
  · rw [if_pos h, (cmp_eq_lt_iff i j).2 h]
  · rw [if_neg (by omega), if_pos h, (cmp_eq_eq_iff i j).2 h]
  · rw [if_neg (by omega), if_neg (by omega), (cmp_eq_gt_iff i j).2 h]

theorem value_pos {d : Decimal} (h : 0 < d.unscaled) : 0 < d.value :=
  mul_pos (Int.cast_pos.2 h) (ten_pos _)

theorem value_lt_zero {d : Decimal} (h : d.unscaled < 0) : d.value < 0 :=
  mul_neg_of_neg_of_pos (Int.cast_lt_zero.2 h) (ten_pos _)

/-- The sign of a decimal is that of its value. -/
theorem cmp_sign {a b : Decimal} (h : a.unscaled.sign ≠ b.unscaled.sign ∨ a.unscaled = 0) :
    cmp a.unscaled.sign b.unscaled.sign = cmp a.value b.value := by
  have hsign (d : Decimal) : d.unscaled.sign = -1 ∧ d.value < 0 ∨ d.unscaled.sign = 0 ∧ d.value = 0
      ∨ d.unscaled.sign = 1 ∧ 0 < d.value := by
    rcases lt_trichotomy d.unscaled 0 with hd | hd | hd
    · exact .inl ⟨Int.sign_eq_neg_one_of_neg hd, value_lt_zero hd⟩
    · exact .inr (.inl ⟨Int.sign_eq_zero_iff_zero.2 hd, value_eq_zero_iff.2 hd⟩)
    · exact .inr (.inr ⟨Int.sign_eq_one_of_pos hd, value_pos hd⟩)
  have hzero : a.unscaled = 0 ↔ a.unscaled.sign = 0 := Int.sign_eq_zero_iff_zero.symm
  rw [hzero] at h
  -- the signs decide in all cases but two, which the hypothesis excludes
  rcases hsign a with ⟨hsa, ha⟩ | ⟨hsa, ha⟩ | ⟨hsa, ha⟩ <;>
    rcases hsign b with ⟨hsb, hb⟩ | ⟨hsb, hb⟩ | ⟨hsb, hb⟩ <;> rw [hsa, hsb] at h ⊢
  · exact absurd h (by decide)
  · exact (hb ▸ ha).cmp_eq_lt.symm
  · exact (ha.trans hb).cmp_eq_lt.symm
  · exact (ha ▸ hb).cmp_eq_gt.symm
  · exact (ha.trans hb.symm).cmp_eq_eq.symm
  · exact (ha ▸ hb).cmp_eq_lt.symm
  · exact (hb.trans ha).cmp_eq_gt.symm
  · exact (hb ▸ ha).cmp_eq_gt.symm
  · exact absurd h (by decide)

theorem abs_lt_abs_of_leadingPlace {a b : Decimal} (ha : a.unscaled ≠ 0) (hb : b.unscaled ≠ 0)
    (h : a.leadingPlace < b.leadingPlace) : |a.value| < |b.value| :=
  calc |a.value| < 10 ^ a.leadingPlace := (leadingPlace_bounds ha).2
    _ ≤ 10 ^ (b.leadingPlace - 1) := zpow_le_zpow_right₀ (by norm_num) (by omega)
    _ ≤ |b.value| := (leadingPlace_bounds hb).1

/-- Of two decimals of one sign, the leading places decide if they differ. -/
theorem cmp_leadingPlace {a b : Decimal} (ha : a.unscaled ≠ 0)
    (hsign : a.unscaled.sign = b.unscaled.sign) (h : a.leadingPlace ≠ b.leadingPlace) :
    cmp (a.unscaled.sign * a.leadingPlace) (b.unscaled.sign * b.leadingPlace)
      = cmp a.value b.value := by
  have hb : b.unscaled ≠ 0 := by
    rw [ne_eq, ← Int.sign_eq_zero_iff_zero, ← hsign, Int.sign_eq_zero_iff_zero]
    exact ha
  rcases lt_or_gt_of_ne ha with hneg | hpos
  · have hsa := Int.sign_eq_neg_one_of_neg hneg
    have hbneg := Int.sign_eq_neg_one_iff_neg.1 (hsign ▸ hsa)
    rw [hsa, Int.sign_eq_neg_one_of_neg hbneg]
    rcases lt_or_gt_of_ne h with hlt | hgt
    · have hvalue := abs_lt_abs_of_leadingPlace ha hb hlt
      rw [abs_of_neg (value_lt_zero hneg), abs_of_neg (value_lt_zero hbneg)] at hvalue
      rw [(neg_lt_neg_iff.1 hvalue).cmp_eq_gt]
      exact LT.lt.cmp_eq_gt (by omega)
    · have hvalue := abs_lt_abs_of_leadingPlace hb ha hgt
      rw [abs_of_neg (value_lt_zero hneg), abs_of_neg (value_lt_zero hbneg)] at hvalue
      rw [(neg_lt_neg_iff.1 hvalue).cmp_eq_lt]
      exact LT.lt.cmp_eq_lt (by omega)
  · have hsa := Int.sign_eq_one_of_pos hpos
    have hbpos := Int.sign_eq_one_iff_pos.1 (hsign ▸ hsa)
    rw [hsa, Int.sign_eq_one_of_pos hbpos, one_mul, one_mul]
    rcases lt_or_gt_of_ne h with hlt | hgt
    · have hvalue := abs_lt_abs_of_leadingPlace ha hb hlt
      rw [abs_of_pos (value_pos hpos), abs_of_pos (value_pos hbpos)] at hvalue
      rw [hvalue.cmp_eq_lt, hlt.cmp_eq_lt]
    · have hvalue := abs_lt_abs_of_leadingPlace hb ha hgt
      rw [abs_of_pos (value_pos hpos), abs_of_pos (value_pos hbpos)] at hvalue
      rw [hvalue.cmp_eq_gt, hgt.cmp_eq_gt]

/-- In one place, the units decide. -/
theorem cmp_unitsAt {a b : Decimal} {scale : ℤ} (ha : a.scale ≤ scale) (hb : b.scale ≤ scale) :
    cmp (a.unitsAt scale) (b.unitsAt scale) = cmp a.value b.value := by
  have hcast : StrictMono (Int.cast : ℤ → ℚ) := Int.cast_strictMono
  rw [← hcast.cmp_map_eq, unitsAt_cast ha, unitsAt_cast hb, cmp_mul_pos_right (ten_pos scale)]

/-- **Decimals compare as their values do.** -/
theorem compare_eq_cmp (a b : Decimal) : a.compare b = cmp a.value b.value := by
  unfold compare
  by_cases hsign : a.unscaled.sign ≠ b.unscaled.sign ∨ a.unscaled = 0
  · rw [if_pos hsign, order_eq_cmp, cmp_sign hsign]
  rw [if_neg hsign]
  rw [not_or, not_not] at hsign
  by_cases hplace : a.leadingPlace ≠ b.leadingPlace
  · rw [if_pos hplace, order_eq_cmp, cmp_leadingPlace hsign.2 hsign.1 hplace]
  · rw [if_neg hplace, order_eq_cmp, cmp_unitsAt (le_max_left _ _) (le_max_right _ _)]

theorem compare_eq_iff {a b : Decimal} : a.compare b = .eq ↔ a.value = b.value := by
  rw [compare_eq_cmp, cmp_eq_eq_iff]

end AccessPolicy.Decimal
