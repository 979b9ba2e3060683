import AccessPolicy.Decimal.Spelling
import AccessPolicy.Proofs.Decimal.Value

/-!
# Decimals are spelled by their values

Among the decimals of one value there is one without trailing zeros, and that is the one which is
spelled. So decimals of the same value are spelled the same, down to the sign and the number of
digits after the point. The spelling denotes the value that is spelled: nothing is rounded. The one
condition is on the place of the last digit, which must fit 64 bits if the spelling is to be read as
a decimal again.
-/

namespace AccessPolicy.Decimal

/-! ## Trailing zeros -/

/-- Taking trailing zeros away keeps the value, coarsens the place, and leaves none. -/
theorem stripZeros_spec {units : ℕ} (h : 0 < units) (scale : ℤ) :
    ((stripZeros units scale).1 : ℚ) * 10 ^ (-(stripZeros units scale).2) = units * 10 ^ (-scale)
      ∧ (stripZeros units scale).2 ≤ scale
      ∧ (stripZeros units scale).1 % 10 ≠ 0 := by
  fun_induction stripZeros units scale with
  | case1 units scale hzero ih =>
    obtain ⟨hvalue, hscale, hlast⟩ := ih (by omega)
    refine ⟨hvalue.trans ?_, by omega, hlast⟩
    have hunits : (units : ℚ) = 10 * (units / 10 : ℕ) := by
      exact_mod_cast (show units = 10 * (units / 10) by omega)
    rw [hunits, show -(scale - 1) = 1 + -scale by ring, ten_add, zpow_one]
    ring
  | case2 units scale hlast => exact ⟨rfl, le_rfl, fun hzero => hlast ⟨h, hzero⟩⟩

/-- **A normal decimal** has no trailing zero, and zero has one spelling. -/
def Normal (d : Decimal) : Prop := d = zero ∨ d.unscaled % 10 ≠ 0

theorem normalize_spec (d : Decimal) :
    d.normalize.value = d.value ∧ d.normalize.Normal ∧ (d.normalize.scale ≤ max 0 d.scale) := by
  unfold normalize
  split
  · next h => exact ⟨by rw [value_zero, value_eq_zero_iff.2 h], .inl rfl, le_max_left _ _⟩
  next h =>
  obtain ⟨hvalue, hscale, hlast⟩ := stripZeros_spec (Int.natAbs_pos.2 h) d.scale
  dsimp only
  refine ⟨?_, .inr ?_, hscale.trans (le_max_right _ _)⟩
  · have hunits : (d.unscaled : ℚ) = d.unscaled.sign * d.unscaled.natAbs := by
      rw [← Int.cast_natCast (R := ℚ), ← Int.cast_mul, Int.sign_mul_natAbs]
    rw [value, Int.cast_mul, Int.cast_natCast, mul_assoc, hvalue, value, hunits, mul_assoc]
  · rcases lt_or_gt_of_ne h with hneg | hpos
    · rw [Int.sign_eq_neg_one_of_neg hneg]
      dsimp only
      omega
    · rw [Int.sign_eq_one_of_pos hpos]
      dsimp only
      omega

@[simp] theorem value_normalize (d : Decimal) : d.normalize.value = d.value := (normalize_spec d).1

/-- A normal decimal has the coarsest place of its value. -/
theorem scale_le_of_normal {x y : Decimal} (hy : y.Normal) (hzero : y ≠ zero)
    (h : x.value = y.value) : y.scale ≤ x.scale := by
  by_contra hlt
  -- the units of the normal decimal would be a multiple of ten
  have hunits : (y.unscaled : ℚ) = x.unitsAt y.scale := by
    rw [unitsAt_cast (by omega), h, value, mul_assoc, ← ten_add, neg_add_cancel, zpow_zero, mul_one]
  obtain ⟨k, hk⟩ : ∃ k, (y.scale - x.scale).toNat = k + 1 :=
    ⟨(y.scale - x.scale).toNat - 1, by omega⟩
  have htens : y.unscaled = x.unscaled * ((10 : ℕ) ^ (k + 1) : ℕ) := by
    have := Int.cast_injective hunits
    rwa [unitsAt, hk, Nat.pow_eq] at this
  rcases hy with rfl | hlast
  · exact hzero rfl
  · refine hlast ?_
    rw [htens, pow_succ, Nat.cast_mul, ← mul_assoc]
    exact Int.mul_emod_left _ _

/-- **Normal decimals are equal if their values are.** -/
theorem eq_of_normal {x y : Decimal} (hx : x.Normal) (hy : y.Normal) (h : x.value = y.value) :
    x = y := by
  by_cases hzero : x.value = 0
  · have heq {d : Decimal} (hd : d.Normal) (hvalue : d.value = 0) : d = zero := by
      rcases hd with rfl | hlast
      · rfl
      · rw [value_eq_zero_iff] at hvalue
        exact absurd (by rw [hvalue]; rfl) hlast
    rw [heq hx hzero, heq hy (h ▸ hzero)]
  have hxzero : x ≠ zero := fun hx => hzero (hx ▸ value_zero)
  have hyzero : y ≠ zero := fun hy => hzero (h.trans (hy ▸ value_zero))
  have hscale : x.scale = y.scale :=
    le_antisymm (scale_le_of_normal hx hxzero h.symm) (scale_le_of_normal hy hyzero h)
  have hunits : x.unscaled = y.unscaled := by
    rw [value, value, hscale] at h
    exact_mod_cast mul_right_cancel₀ (ten_ne_zero _) h
  cases x
  cases y
  simp_all

theorem normalize_eq_iff {x y : Decimal} : x.normalize = y.normalize ↔ x.value = y.value := by
  refine ⟨fun h => ?_, fun h => ?_⟩
  · rw [← value_normalize x, h, value_normalize]
  · refine eq_of_normal (normalize_spec x).2.1 (normalize_spec y).2.1 ?_
    rw [value_normalize, value_normalize, h]

/-! ## Digits -/

theorem lastDigits_length (count n : ℕ) : (lastDigits count n).length = count := by
  induction count generalizing n with
  | zero => rfl
  | succ count ih =>
    show (lastDigits count (n / 10) ++ [Fin.ofNat 10 n]).length = count + 1
    rw [List.length_append, ih, List.length_singleton]

/-- A number is read back from its first digits and its last ones. -/
theorem valueFrom_lastDigits (count n : ℕ) :
    Digit.valueFrom (n / 10 ^ count) (lastDigits count n) = n := by
  induction count generalizing n with
  | zero => exact Nat.div_one n
  | succ count ih =>
    have hfront := ih (n / 10)
    rw [Nat.div_div_eq_div_mul, ← pow_succ'] at hfront
    unfold Digit.valueFrom at hfront ⊢
    show (lastDigits count (n / 10) ++ [Fin.ofNat 10 n]).foldl _ _ = n
    rw [List.foldl_append, hfront]
    show 10 * (n / 10) + n % 10 = n
    omega

/-! ## Spelling -/

theorem scale_lt_of_fits {i : ℤ} (h : fitsInt64 i = true) : i < 0x8000000000000000 := by
  simp only [fitsInt64, Bool.and_eq_true, decide_eq_true_eq] at h
  exact h.2

theorem scale_lt_of_ofNumeral? {n : Numeral} {d : Decimal} (h : ofNumeral? n = some d) :
    d.scale < 0x8000000000000000 := by
  simp only [ofNumeral?, Option.ite_none_right_eq_some] at h
  obtain ⟨hfits, h⟩ := h
  rw [← Option.some.inj h]
  exact scale_lt_of_fits hfits

/-- A numeral without an exponent denotes its digits, in the place of the last one. -/
theorem ofNumeral?_plain {units : ℤ} {whole : ℕ} {fraction : List Digit}
    (hunits : Digit.valueFrom whole fraction = units.natAbs)
    (hplaces : fraction.length < 0x8000000000000000) :
    ofNumeral? ⟨decide (units < 0), whole, fraction, none⟩ = some ⟨units, fraction.length⟩ := by
  have hfits : fitsInt64 ((fraction.length : ℤ) - 0) = true := by
    simp only [fitsInt64, Bool.and_eq_true, decide_eq_true_eq]
    omega
  have hsigned :
      (if decide (units < 0) = true then -(units.natAbs : ℤ) else units.natAbs) = units := by
    simp only [decide_eq_true_eq]
    split <;> omega
  rw [ofNumeral?]
  dsimp only
  rw [if_pos hfits, hunits, hsigned, sub_zero]

/-- An integer is read as it is. -/
theorem ofNumeral?_ofInt (i : ℤ) : ofNumeral? (.ofInt i) = some ⟨i, 0⟩ :=
  ofNumeral?_plain rfl (by decide)

/-- A decimal without digits after the point is spelled as an integer. -/
theorem plain_of_scale_nonpos {d : Decimal} (h : d.scale ≤ 0) : d.plain = .ofInt d.truncate := by
  have hpos : (0 : ℤ) < (Nat.pow 10 (-d.scale).toNat : ℕ) := by
    rw [Nat.pow_eq]
    positivity
  have hsign : d.unscaled < 0 ↔ d.unscaled * (Nat.pow 10 (-d.scale).toNat : ℕ) < 0 := by
    rw [mul_neg_iff]
    omega
  rw [plain, if_pos h, truncate, if_pos h, Numeral.ofInt, decide_eq_decide.2 hsign,
    Int.natAbs_mul, Int.natAbs_natCast]

/-- **Decimals of one value are spelled the same.** -/
theorem toNumeral_eq_of_value {x y : Decimal} (h : x.value = y.value) :
    x.toNumeral = y.toNumeral := by
  unfold toNumeral
  rw [normalize_eq_iff.2 h]

/-- **A spelling denotes what is spelled**, in a place from the point on. -/
theorem ofNumeral?_toNumeral {d : Decimal} (h : d.scale < 0x8000000000000000) :
    ∃ r, ofNumeral? d.toNumeral = some r ∧ r.value = d.value ∧ 0 ≤ r.scale
      ∧ r.scale ≤ max 0 d.scale := by
  obtain ⟨hvalue, -, hscale⟩ := normalize_spec d
  unfold toNumeral
  generalize d.normalize = n at hvalue hscale
  by_cases hwhole : n.scale ≤ 0
  · rw [plain_of_scale_nonpos hwhole]
    refine ⟨_, ofNumeral?_ofInt _, ?_, le_rfl, le_max_left _ _⟩
    rw [← hvalue, value, truncate, if_pos hwhole, Int.cast_mul, Int.cast_natCast,
      ten_toNat (by omega)]
    simp [value]
  · rw [plain, if_neg hwhole]
    have hlength := lastDigits_length n.scale.toNat n.unscaled.natAbs
    have hplace : (n.scale.toNat : ℤ) = n.scale := by omega
    refine ⟨n, ?_, hvalue, by omega, hscale⟩
    have hread := ofNumeral?_plain (valueFrom_lastDigits n.scale.toNat n.unscaled.natAbs)
      (by rw [hlength]; omega)
    rwa [hlength, hplace] at hread

/-- **The spelling tells the value**, and nothing else. -/
theorem toNumeral_eq_iff {x y : Decimal} (hx : x.scale < 0x8000000000000000)
    (hy : y.scale < 0x8000000000000000) : x.toNumeral = y.toNumeral ↔ x.value = y.value := by
  refine ⟨fun h => ?_, toNumeral_eq_of_value⟩
  obtain ⟨r, hr, hrx, -⟩ := ofNumeral?_toNumeral hx
  obtain ⟨r', hr', hry, -⟩ := ofNumeral?_toNumeral hy
  rw [h, hr'] at hr
  rw [← hrx, ← hry, Option.some.inj hr]

/-! ## Whole numbers -/

/-- A normal decimal that is a whole number has no digits after the point. -/
theorem Normal.scale_nonpos {d : Decimal} (h : d.Normal) (hwhole : d.isWhole = true) :
    d.scale ≤ 0 := by
  rcases h with rfl | hlast
  · exact le_rfl
  by_contra hplaces
  obtain ⟨k, hk⟩ : ∃ k, d.scale.toNat = k + 1 := ⟨d.scale.toNat - 1, by omega⟩
  have hzeros : d.unscaled % ((10 : ℕ) ^ (k + 1) : ℕ) = 0 := by
    simpa [isWhole, hplaces, hk] using hwhole
  refine hlast (Int.emod_eq_zero_of_dvd (dvd_trans ?_ (Int.dvd_of_emod_eq_zero hzeros)))
  rw [pow_succ, Nat.cast_mul]
  exact dvd_mul_left _ _

/-- **A number that fits 64 bits is spelled as any other one.** -/
theorem Normal.plain_of_word? {d : Decimal} (h : d.Normal) {n : Numeral} (hn : d.word? = some n) :
    n = d.plain := by
  unfold word? at hn
  split at hn
  · next hwhole =>
    rw [plain_of_scale_nonpos (h.scale_nonpos hwhole)]
    split at hn
    · exact (Option.some.inj hn).symm
    · split at hn
      · next hnat =>
        have hnonneg : 0 ≤ d.truncate := of_decide_eq_true (Bool.and_eq_true_iff.1 hnat).1
        obtain ⟨whole, hwhole⟩ := Int.eq_ofNat_of_zero_le hnonneg
        rw [hwhole] at hn ⊢
        rw [← Option.some.inj hn, Numeral.ofNat, Numeral.ofInt, Int.toNat_natCast,
          Int.natAbs_natCast, decide_eq_false (by omega)]
      · cases hn
  · cases hn

/-- A plain spelling has no exponent. -/
theorem exponent_plain (d : Decimal) : d.plain.exponent = none := by
  unfold plain
  dsimp only
  split <;> rfl

end AccessPolicy.Decimal
