import AccessPolicy.Decimal.Quotient
import AccessPolicy.Proofs.Decimal.Value

/-!
# Quotients and remainders

A quotient is exact if it ends within the digits that are computed. The long division keeps one
equation: the quotient found so far and what is left over, divided, make up the whole quotient. It
ends exactly when nothing is left over, and the digits suffice because those found so far are the
first ones of the quotient: if the whole of it has no more than a hundred, there are that many fewer
still to come.

A remainder is always exact. It is what the quotient leaves when it is cut off at the point, towards
zero, and so it has the sign of the dividend.
-/

namespace AccessPolicy.Decimal

/-- **A number has so many significant digits** at most if it is a whole number of so many digits,
moved to some place. -/
def HasDigits (count : ℕ) (q : ℚ) : Prop :=
  ∃ units place : ℤ, |units| < 10 ^ count ∧ q = units * 10 ^ place

theorem HasDigits.abs {count : ℕ} {q : ℚ} (h : HasDigits count q) : HasDigits count |q| := by
  obtain ⟨units, place, hunits, rfl⟩ := h
  refine ⟨|units|, place, by rwa [abs_abs], ?_⟩
  rw [abs_mul, abs_of_pos (ten_pos place), Int.cast_abs]

theorem HasDigits.shift {count : ℕ} {q : ℚ} (h : HasDigits count q) (k : ℤ) :
    HasDigits count (q * 10 ^ k) := by
  obtain ⟨units, place, hunits, rfl⟩ := h
  exact ⟨units, place + k, hunits, by rw [ten_add, mul_assoc]⟩

/-! ## Long division -/

/-- A dividend is raised by a power of ten, to no less than the divisor. -/
theorem raise_spec {dividend : ℕ} (h : 0 < dividend) (divisor : ℕ) (scale : ℤ) :
    ∃ k : ℕ, raise dividend divisor scale = (dividend * 10 ^ k, scale + k)
      ∧ divisor ≤ dividend * 10 ^ k := by
  fun_induction raise dividend divisor scale with
  | case1 dividend scale hlow ih =>
    obtain ⟨k, hraise, hk⟩ := ih (by omega)
    have hpow : 10 * dividend * 10 ^ k = dividend * 10 ^ (k + 1) := by ring
    refine ⟨k + 1, ?_, hpow ▸ hk⟩
    rw [hraise, hpow]
    push_cast
    rw [add_assoc, add_comm 1]
  | case2 dividend scale hhigh => exact ⟨0, by simp, by omega⟩

/-- **A division that ends is exact**: the digits that are appended make up for what is left
over. -/
theorem expand_spec {divisor digits quotient remainder : ℕ} {scale : ℤ} (hdivisor : 0 < divisor)
    (hremainder : remainder < divisor) (hends : ∃ j ≤ digits, divisor ∣ remainder * 10 ^ j) :
    ((expand divisor digits quotient remainder scale).1 : ℚ)
        * 10 ^ (-(expand divisor digits quotient remainder scale).2)
      = (quotient + remainder / divisor) * 10 ^ (-scale) := by
  fun_induction expand divisor digits quotient remainder scale with
  | case1 quotient remainder scale =>
    obtain ⟨j, hj, hdvd⟩ := hends
    obtain rfl : j = 0 := by omega
    obtain rfl : remainder = 0 := Nat.eq_zero_of_dvd_of_lt (by simpa using hdvd) hremainder
    simp
  | case2 digits quotient scale => simp
  | case3 digits quotient remainder scale hleft ih =>
    obtain ⟨j, hj, hdvd⟩ := hends
    -- something is left over, so at least one more digit is needed
    obtain ⟨j, rfl⟩ : ∃ i, j = i + 1 := by
      rcases j with _ | i
      · exact absurd (Nat.eq_zero_of_dvd_of_lt (by simpa using hdvd) hremainder) hleft
      · exact ⟨i, rfl⟩
    have hsplit :
        10 * remainder = divisor * (10 * remainder / divisor) + 10 * remainder % divisor :=
      (Nat.div_add_mod _ _).symm
    have hnext : divisor ∣ 10 * remainder % divisor * 10 ^ j := by
      have hten : remainder * 10 ^ (j + 1)
          = divisor * (10 * remainder / divisor * 10 ^ j) + 10 * remainder % divisor * 10 ^ j := by
        calc remainder * 10 ^ (j + 1) = 10 * remainder * 10 ^ j := by ring
          _ = (divisor * (10 * remainder / divisor) + 10 * remainder % divisor) * 10 ^ j := by
            rw [← hsplit]
          _ = _ := by ring
      rw [hten] at hdvd
      exact (Nat.dvd_add_right (dvd_mul_right _ _)).1 hdvd
    rw [ih (Nat.mod_lt _ hdivisor) ⟨j, by omega, hnext⟩]
    have hpositive : (divisor : ℚ) ≠ 0 := by exact_mod_cast hdivisor.ne'
    have hcast : (10 : ℚ) * remainder
        = divisor * (10 * remainder / divisor : ℕ) + (10 * remainder % divisor : ℕ) := by
      exact_mod_cast hsplit
    have hremains : ((10 * remainder % divisor : ℕ) : ℚ)
        = 10 * remainder - divisor * (10 * remainder / divisor : ℕ) := by rw [hcast]; ring
    rw [hremains, neg_add, ten_add, show (10 : ℚ) ^ (-1 : ℤ) = 1 / 10 by norm_num]
    push_cast
    field_simp
    ring

/-- A quotient of so many digits, with its place written out. -/
theorem exists_units {dividend divisor : ℕ} (hdividend : 0 < dividend) (hdivisor : 0 < divisor)
    {count : ℕ} (h : HasDigits count (dividend / divisor)) :
    ∃ j units : ℕ, dividend * 10 ^ j = divisor * units ∧ (j = 0 ∨ units < 10 ^ count) := by
  obtain ⟨units, place, hunits, hquotient⟩ := h
  have hpositive : (0 : ℚ) < divisor := by exact_mod_cast hdivisor
  have hsign : 0 < units := by
    have hquotientPos : (0 : ℚ) < units * 10 ^ place := by
      rw [← hquotient]
      exact div_pos (by exact_mod_cast hdividend) hpositive
    exact_mod_cast (mul_pos_iff_of_pos_right (ten_pos place)).1 hquotientPos
  obtain ⟨units, rfl⟩ := Int.eq_ofNat_of_zero_le hsign.le
  rw [div_eq_iff hpositive.ne'] at hquotient
  rcases le_or_gt 0 place with hplace | hplace
  · refine ⟨0, units * Nat.pow 10 place.toNat, ?_, .inl rfl⟩
    have hcast : ((dividend * 10 ^ 0 : ℕ) : ℚ)
        = (divisor * (units * Nat.pow 10 place.toNat) : ℕ) := by
      rw [Nat.cast_mul, Nat.cast_mul, Nat.cast_mul, ten_toNat hplace, hquotient]
      push_cast
      ring
    exact_mod_cast hcast
  · refine ⟨(-place).toNat, units, ?_, .inr ?_⟩
    · have hcast : ((dividend * Nat.pow 10 (-place).toNat : ℕ) : ℚ) = (divisor * units : ℕ) := by
        rw [Nat.cast_mul, ten_toNat (by omega), hquotient, zpow_neg]
        have := ten_ne_zero place
        push_cast
        field_simp
      exact_mod_cast hcast
    · rw [abs_of_pos hsign] at hunits
      exact_mod_cast hunits

/-- **The digits suffice**: those of the whole part are the first ones of the quotient. -/
theorem ends_of_hasDigits {dividend divisor : ℕ} (hdivisor : 0 < divisor)
    (hle : divisor ≤ dividend) {count : ℕ} (h : HasDigits count (dividend / divisor)) :
    ∃ j ≤ count - digitCount (dividend / divisor), divisor ∣ dividend % divisor * 10 ^ j := by
  obtain ⟨j, units, hunits, hfew⟩ := exists_units (hdivisor.trans_le hle) hdivisor h
  have hsplit : dividend = divisor * (dividend / divisor) + dividend % divisor :=
    (Nat.div_add_mod _ _).symm
  generalize hwhole : dividend / divisor = whole at hsplit ⊢
  have hdvd : divisor ∣ dividend % divisor * 10 ^ j := by
    have hsum : dividend * 10 ^ j = divisor * (whole * 10 ^ j) + dividend % divisor * 10 ^ j := by
      calc dividend * 10 ^ j = (divisor * whole + dividend % divisor) * 10 ^ j := by rw [← hsplit]
        _ = _ := by ring
    refine (Nat.dvd_add_right (dvd_mul_right divisor (whole * 10 ^ j))).1 ?_
    rw [← hsum, hunits]
    exact dvd_mul_right _ _
  refine ⟨j, ?_, hdvd⟩
  rcases hfew with rfl | hfew
  · exact Nat.zero_le _
  have hpos : 0 < whole := hwhole ▸ Nat.div_pos hle hdivisor
  have hbelow : whole * 10 ^ j ≤ units := by
    refine Nat.le_of_mul_le_mul_left ?_ hdivisor
    rw [← hunits, ← mul_assoc]
    exact Nat.mul_le_mul_right _ (hwhole ▸ Nat.mul_div_le dividend divisor)
  have hpower : 10 ^ (digitCount whole - 1 + j) < 10 ^ count := by
    rw [pow_add]
    calc 10 ^ (digitCount whole - 1) * 10 ^ j ≤ whole * 10 ^ j :=
          Nat.mul_le_mul_right _ (digitCount_bounds hpos).1
      _ ≤ units := hbelow
      _ < 10 ^ count := hfew
  have := (Nat.pow_lt_pow_iff_right (by norm_num)).1 hpower
  have := digitCount_pos whole
  omega

/-- The quotient of two positive numbers of units, if it ends within the digits that are
computed. -/
theorem divide_spec {dividend divisor : ℕ} (hdividend : 0 < dividend) (hdivisor : 0 < divisor)
    (h : HasDigits quotientDigits (dividend / divisor)) (scale : ℤ) :
    ((divide dividend divisor scale).1 : ℚ) * 10 ^ (-(divide dividend divisor scale).2)
      = dividend / divisor * 10 ^ (-scale) := by
  obtain ⟨k, hraise, hle⟩ := raise_spec hdividend divisor scale
  have hpositive : (divisor : ℚ) ≠ 0 := by exact_mod_cast hdivisor.ne'
  have hraised : HasDigits quotientDigits ((dividend * 10 ^ k : ℕ) / divisor) := by
    have hshift := h.shift k
    rw [zpow_natCast, ← mul_div_right_comm] at hshift
    exact_mod_cast hshift
  have hsplit : ((dividend * 10 ^ k : ℕ) : ℚ) = divisor * (dividend * 10 ^ k / divisor : ℕ)
      + (dividend * 10 ^ k % divisor : ℕ) := by
    exact_mod_cast (Nat.div_add_mod _ _).symm
  unfold divide
  rw [hraise]
  dsimp only
  rw [expand_spec hdivisor (Nat.mod_lt _ hdivisor) (ends_of_hasDigits hdivisor hle hraised)]
  have hquotient :
      ((dividend * 10 ^ k / divisor : ℕ) : ℚ) + (dividend * 10 ^ k % divisor : ℕ) / divisor
        = dividend / divisor * 10 ^ k := by
    rw [← mul_div_right_comm, eq_div_iff hpositive, add_mul, div_mul_cancel₀ _ hpositive, mul_comm,
      ← hsplit]
    push_cast
    rfl
  rw [hquotient, neg_add, ten_add, zpow_neg (10 : ℚ) (k : ℤ), zpow_natCast]
  field_simp

/-! ## Quotients -/

theorem value_of_isPlainOne {d : Decimal} (h : d.isPlainOne = true) : d.value = 1 := by
  rw [isPlainOne, Bool.and_eq_true, beq_iff_eq] at h
  rw [compare_eq_iff.1 h.2, value_one]

/-- **A quotient that ends is exact.** -/
theorem value_quotient {a b : Decimal} (hb : b.value ≠ 0)
    (h : HasDigits quotientDigits (a.value / b.value)) :
    (a.quotient b).value = a.value / b.value := by
  have hbunits : b.unscaled ≠ 0 := fun hzero => hb (value_eq_zero_iff.2 hzero)
  unfold quotient
  split
  · next hplain =>
    rcases hplain with hzero | hone
    · rw [value_eq_zero_iff.2 hzero, zero_div]
    · rw [value_of_isPlainOne hone, div_one]
  next hplain =>
  have haunits : a.unscaled ≠ 0 := fun hzero => hplain (.inl hzero)
  have hdigits : HasDigits quotientDigits ((a.unscaled.natAbs : ℚ) / b.unscaled.natAbs) := by
    have hshift := h.abs.shift (a.scale - b.scale)
    rw [abs_div, abs_value, abs_value, sub_eq_add_neg, ten_add] at hshift
    convert hshift using 1
    have := ten_ne_zero a.scale
    have := ten_ne_zero b.scale
    rw [zpow_neg, zpow_neg]
    field_simp
  have hdivide := divide_spec (Int.natAbs_pos.2 haunits) (Int.natAbs_pos.2 hbunits) hdigits
    (a.scale - b.scale)
  have hunits (d : Decimal) : (d.unscaled : ℚ) = d.unscaled.sign * d.unscaled.natAbs := by
    rw [← Int.cast_natCast (R := ℚ), ← Int.cast_mul, Int.sign_mul_natAbs]
  dsimp only
  generalize divide a.unscaled.natAbs b.unscaled.natAbs (a.scale - b.scale) = result at hdivide ⊢
  rw [value, Int.cast_mul, Int.cast_natCast, mul_assoc, hdivide, value, value, hunits a, hunits b]
  have hbabs : (b.unscaled.natAbs : ℚ) ≠ 0 := by exact_mod_cast Int.natAbs_ne_zero.2 hbunits
  have := ten_ne_zero a.scale
  have := ten_ne_zero b.scale
  have hsign : (b.unscaled.sign : ℚ) * b.unscaled.sign = 1 := by
    rcases lt_or_gt_of_ne hbunits with hneg | hpos
    · rw [Int.sign_eq_neg_one_of_neg hneg]
      norm_num
    · rw [Int.sign_eq_one_of_pos hpos]
      norm_num
  have hsignne : (b.unscaled.sign : ℚ) ≠ 0 := left_ne_zero_of_mul (hsign ▸ one_ne_zero)
  rw [neg_sub, sub_eq_add_neg, ten_add, zpow_neg, zpow_neg]
  push_cast
  field_simp
  rw [sq, hsign, mul_one]

/-! ## Remainders -/

/-- **A remainder is exact**: it differs from the dividend by a multiple of the divisor, is smaller
than the divisor, and has the sign of the dividend unless it is zero. -/
theorem remainder_spec {a b : Decimal} (hb : b.value ≠ 0) :
    (∃ k : ℤ, a.value = k * b.value + (a.remainder b).value)
      ∧ |(a.remainder b).value| < |b.value|
      ∧ ((a.remainder b).value = 0 ∨ 0 < (a.remainder b).value * a.value) := by
  have hscale : (10 : ℚ) ^ max a.scale b.scale ≠ 0 := ten_ne_zero _
  have ha := unitsAt_cast (le_max_left a.scale b.scale)
  have hbcast := unitsAt_cast (le_max_right a.scale b.scale)
  have hremainder : (a.remainder b).value * 10 ^ max a.scale b.scale
      = ((a.unitsAt (max a.scale b.scale)).tmod (b.unitsAt (max a.scale b.scale)) : ℤ) := by
    rw [value, remainder, mul_assoc, ← ten_add, neg_add_cancel, zpow_zero, mul_one]
  generalize a.unitsAt (max a.scale b.scale) = A at ha hremainder
  generalize b.unitsAt (max a.scale b.scale) = B at hbcast hremainder
  have hB : B ≠ 0 := by
    rintro rfl
    exact hb (by simpa [hscale] using hbcast.symm)
  have hpos := ten_pos (max a.scale b.scale)
  generalize (10 : ℚ) ^ max a.scale b.scale = P at ha hbcast hremainder hscale hpos
  generalize (a.remainder b).value = r at hremainder ⊢
  refine ⟨⟨A.tdiv B, ?_⟩, ?_, ?_⟩
  · refine mul_right_cancel₀ hscale ?_
    rw [add_mul, mul_assoc, ← ha, ← hbcast, hremainder]
    exact_mod_cast (by rw [mul_comm]; exact (Int.mul_tdiv_add_tmod A B).symm)
  · refine lt_of_mul_lt_mul_right ?_ hpos.le
    rw [← abs_of_pos hpos, ← abs_mul, ← abs_mul, hremainder, ← hbcast,
      ← Int.cast_abs, ← Int.cast_abs, Int.cast_lt, Int.abs_eq_natAbs, Int.abs_eq_natAbs,
      Int.natAbs_tmod]
    exact_mod_cast Nat.mod_lt _ (Int.natAbs_pos.2 hB)
  · by_cases hdvd : B ∣ A
    · rw [Int.tmod_eq_zero_of_dvd hdvd, Int.cast_zero] at hremainder
      exact .inl ((mul_eq_zero_iff_right hscale).1 hremainder)
    · right
      have hA : A ≠ 0 := fun hzero => hdvd (hzero ▸ dvd_zero B)
      have hsign : 0 < A.tmod B * A := by
        rw [← Int.sign_eq_one_iff_pos, Int.sign_mul, Int.sign_tmod, if_neg hdvd, ← Int.sign_mul,
          Int.sign_eq_one_iff_pos]
        exact mul_self_pos.2 hA
      have hproduct : (0 : ℚ) < r * a.value * (P * P) := by
        have hcast : r * a.value * (P * P) = (A.tmod B * A : ℤ) := by
          rw [Int.cast_mul, ← hremainder, ha]
          ring
        rw [hcast]
        exact_mod_cast hsign
      exact (mul_pos_iff_of_pos_right (mul_pos hpos hpos)).1 hproduct

end AccessPolicy.Decimal
