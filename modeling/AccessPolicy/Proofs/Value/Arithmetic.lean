import AccessPolicy.Proofs.Decimal.Quotient
import AccessPolicy.Proofs.Decimal.Spelling
import AccessPolicy.Proofs.Json.Numeral
import AccessPolicy.Value.Operator

/-!
# Arithmetic is exact

The result of an operator is a document, so a number goes through its spelling between any two
operators. Nothing is lost on the way: the spelling is never refused, so that what stands behind it,
the nearest number in binary and the error, is not reached; it denotes the value, and it depends on
nothing but the value, be it a number of 64 bits or any other. The laws of arithmetic follow, and as
laws about documents: what two ways of reckoning come to is not only the same number but the same
text.

A product asks for a condition. Its place is the sum of those of the factors and may leave 64 bits,
and then the result is a number that no further operator takes. A quotient is exact only if it ends
within the digits that are computed; that of a product and one of its factors does when the other
factor has no more digits than that.
-/

namespace AccessPolicy

open BinaryOperator

namespace Value

/-! ## Results are read again -/

theorem decimal?_eq_some {v : Value} {d : Decimal} (h : v.decimal? = some d) :
    ∃ n, v.outcome = .defined (.number n) ∧ Decimal.ofNumeral? n = some d := by
  unfold decimal? at h
  split at h
  · next n hn => exact ⟨n, hn, h⟩
  · cases h

theorem decimal?_congr {v w : Value} (h : v.outcome = w.outcome) : v.decimal? = w.decimal? := by
  unfold decimal?
  rw [h]

theorem scale_lt_of_decimal? {v : Value} {d : Decimal} (h : v.decimal? = some d) :
    d.scale < 0x8000000000000000 := by
  obtain ⟨n, -, hn⟩ := decimal?_eq_some h
  exact Decimal.scale_lt_of_ofNumeral? hn

variable {fallback : Decimal.Fallback}

/-- **A decimal gives the numeral of its value**, whichever way the number takes: one that fits 64
bits is spelled as any other one, and the spelling of any other one is read again. There is no
error, and the fallback makes no difference. -/
theorem ofDecimal_eq (d : Decimal) : ofDecimal fallback d = of (.number d.toNumeral) := by
  have hnormal := (Decimal.normalize_spec d).2.1
  have hspelled : d.normalize.plain.Spelled := by
    intro e he
    rw [Decimal.exponent_plain] at he
    cases he
  unfold ofDecimal Decimal.toNumeral
  dsimp only
  split
  · next n hword => rw [hnormal.plain_of_word? hword]
  · rw [Numeral.parse?_text hspelled]

/-- **A result is read again** as the decimal that it was made of. -/
theorem decimal?_of_outcome {v : Value} {d : Decimal}
    (hv : v.outcome = (ofDecimal fallback d).outcome) (h : d.scale < 0x8000000000000000) :
    ∃ r, v.decimal? = some r ∧ r.value = d.value := by
  obtain ⟨r, hr, hvalue, -⟩ := Decimal.ofNumeral?_toNumeral h
  rw [ofDecimal_eq] at hv
  exact ⟨r, (decimal?_congr hv).trans hr, hvalue⟩

/-- **Equal decimals give identical results.** -/
theorem ofDecimal_eq_of_value {x y : Decimal} (h : x.value = y.value) :
    ofDecimal fallback x = ofDecimal fallback y := by
  rw [ofDecimal_eq, ofDecimal_eq, Decimal.toNumeral_eq_of_value h]

/-! ## Operators on numbers -/

variable {lib : Libraries}

/-- Without errors among its operands, an operator gives what it computes. -/
theorem outcome_apply {a b : Value} (ha : a.isError = false) (hb : b.isError = false)
    (op : BinaryOperator) :
    (op.apply lib a b).outcome = (match op.compute lib a b with
      | .ok v => v
      | .error e => e).outcome := by
  rw [apply, ha, hb]
  rfl

variable {a b c : Value} {x y z : Decimal}

theorem isError_of_decimal? (h : a.decimal? = some x) : a.isError = false := by
  obtain ⟨n, hn, -⟩ := decimal?_eq_some h
  rw [isError, hn]

theorem string?_of_decimal? (h : a.decimal? = some x) : a.string? = none := by
  obtain ⟨n, hn, -⟩ := decimal?_eq_some h
  rw [string?, hn]

theorem require_number (h : a.decimal? = some x) : require .number decimal? a = .ok x := by
  rw [require, isError_of_decimal? h, h]
  rfl

theorem onDecimals_eq (ha : a.decimal? = some x) (hb : b.decimal? = some y)
    (f : Decimal → Decimal → Except Value Value) : onDecimals a b f = f x y := by
  rw [onDecimals, require_number ha, require_number hb]
  rfl

theorem apply_on_numbers (ha : a.decimal? = some x) (hb : b.decimal? = some y)
    (op : BinaryOperator) :
    (op.apply lib a b).outcome = (match op.compute lib a b with
      | .ok v => v
      | .error e => e).outcome :=
  outcome_apply (isError_of_decimal? ha) (isError_of_decimal? hb) op

theorem outcome_add (ha : a.decimal? = some x) (hb : b.decimal? = some y) :
    (add.apply lib a b).outcome = (ofDecimal lib.numbers (x.add y)).outcome := by
  rw [apply_on_numbers ha hb, compute, adding, string?_of_decimal? ha]
  dsimp only
  rw [reckoning, onDecimals_eq ha hb]

theorem outcome_subtract (ha : a.decimal? = some x) (hb : b.decimal? = some y) :
    (subtract.apply lib a b).outcome = (ofDecimal lib.numbers (x.sub y)).outcome := by
  rw [apply_on_numbers ha hb, compute, reckoning, onDecimals_eq ha hb]

theorem outcome_multiply (ha : a.decimal? = some x) (hb : b.decimal? = some y) :
    (multiply.apply lib a b).outcome = (ofDecimal lib.numbers (x.mul y)).outcome := by
  rw [apply_on_numbers ha hb, compute, reckoning, onDecimals_eq ha hb]

theorem outcome_divide (ha : a.decimal? = some x) (hb : b.decimal? = some y) :
    (divide.apply lib a b).outcome
      = if y.value = 0 then (fault .divisionByZero).outcome
        else (ofDecimal lib.numbers (x.quotient y)).outcome := by
  rw [apply_on_numbers ha hb, compute, dividing, onDecimals_eq ha hb]
  by_cases hzero : y.value = 0
  · rw [if_pos hzero, if_pos (Decimal.isZero_iff.2 hzero)]
  · rw [if_neg hzero, if_neg (mt Decimal.isZero_iff.1 hzero)]

theorem outcome_modulo (ha : a.decimal? = some x) (hb : b.decimal? = some y) :
    (modulo.apply lib a b).outcome
      = if y.value = 0 then (fault .divisionByZero).outcome
        else (ofDecimal lib.numbers (x.remainder y)).outcome := by
  rw [apply_on_numbers ha hb, compute, dividing, onDecimals_eq ha hb]
  by_cases hzero : y.value = 0
  · rw [if_pos hzero, if_pos (Decimal.isZero_iff.2 hzero)]
  · rw [if_neg hzero, if_neg (mt Decimal.isZero_iff.1 hzero)]

theorem outcome_negate (hb : b.decimal? = some y) :
    (UnaryOperator.negate.apply lib b).outcome = (ofDecimal lib.numbers y.neg).outcome := by
  rw [UnaryOperator.apply, UnaryOperator.compute, require_number hb]
  rfl

/-! ## What the results denote -/

theorem decimal?_add (ha : a.decimal? = some x) (hb : b.decimal? = some y) :
    ∃ r, (add.apply lib a b).decimal? = some r ∧ r.value = x.value + y.value := by
  have hscale := max_lt (scale_lt_of_decimal? ha) (scale_lt_of_decimal? hb)
  rw [← Decimal.value_add]
  exact decimal?_of_outcome (outcome_add ha hb) hscale

theorem decimal?_subtract (ha : a.decimal? = some x) (hb : b.decimal? = some y) :
    ∃ r, (subtract.apply lib a b).decimal? = some r ∧ r.value = x.value - y.value := by
  have hscale := max_lt (scale_lt_of_decimal? ha) (scale_lt_of_decimal? hb)
  rw [← Decimal.value_sub]
  exact decimal?_of_outcome (outcome_subtract ha hb) hscale

/-- The place of a product may be out of range. -/
theorem decimal?_multiply (ha : a.decimal? = some x) (hb : b.decimal? = some y)
    (hfits : fitsInt64 (x.scale + y.scale) = true) :
    ∃ r, (multiply.apply lib a b).decimal? = some r ∧ r.value = x.value * y.value := by
  rw [← Decimal.value_mul]
  exact decimal?_of_outcome (outcome_multiply ha hb) (Decimal.scale_lt_of_fits hfits)

theorem decimal?_negate (hb : b.decimal? = some y) :
    ∃ r, (UnaryOperator.negate.apply lib b).decimal? = some r ∧ r.value = -y.value := by
  have hscale := scale_lt_of_decimal? hb
  rw [← Decimal.value_neg]
  exact decimal?_of_outcome (outcome_negate hb) hscale

/-- What is left over has the sign of the dividend and is smaller than the divisor. -/
theorem decimal?_modulo (ha : a.decimal? = some x) (hb : b.decimal? = some y)
    (hzero : y.value ≠ 0) :
    ∃ r, (modulo.apply lib a b).decimal? = some r
      ∧ (∃ k : ℤ, x.value = k * y.value + r.value)
      ∧ |r.value| < |y.value|
      ∧ (r.value = 0 ∨ 0 < r.value * x.value) := by
  have houtcome : (modulo.apply lib a b).outcome
      = (ofDecimal lib.numbers (x.remainder y)).outcome := by
    rw [outcome_modulo ha hb, if_neg hzero]
  have hscale := max_lt (scale_lt_of_decimal? ha) (scale_lt_of_decimal? hb)
  obtain ⟨r, hr, hvalue⟩ := decimal?_of_outcome houtcome hscale
  exact ⟨r, hr, hvalue ▸ Decimal.remainder_spec hzero⟩

/-- **A quotient that ends** within the digits that are computed gives the same as any decimal of
its value. -/
theorem outcome_divide_of_hasDigits (ha : a.decimal? = some x) (hb : b.decimal? = some y)
    (hzero : y.value ≠ 0) (hz : x.value / y.value = z.value)
    (hdigits : Decimal.HasDigits 100 z.value) :
    (divide.apply lib a b).outcome = (ofDecimal lib.numbers z).outcome := by
  have hvalue : (x.quotient y).value = z.value := by
    rw [Decimal.value_quotient hzero (hz ▸ hdigits), hz]
  rw [outcome_divide ha hb, if_neg hzero, ofDecimal_eq_of_value hvalue]

/-- Dividing by zero is the only way to fail. -/
theorem fails_iff (divisor : ℚ) (d : Decimal) :
    (if divisor = 0 then (fault .divisionByZero).outcome
        else (ofDecimal lib.numbers d).outcome) = .error "Division by zero" []
      ↔ divisor = 0 := by
  rw [ofDecimal_eq]
  split
  · next hzero => exact ⟨fun _ => hzero, fun _ => rfl⟩
  · next hzero => exact ⟨fun h => (nomatch h), fun h => absurd h hzero⟩

/-! ## Laws -/

/-- **The laws of arithmetic** for three numbers, given their decimals. Two ways of reckoning come
to the same outcome, whatever the records of how it was computed. -/
structure ArithmeticLaws (lib : Libraries) (a b c : Value) (x y z : Decimal) : Prop where
  add_exact : ∃ r, (add.apply lib a b).decimal? = some r ∧ r.value = x.value + y.value
  sub_exact : ∃ r, (subtract.apply lib a b).decimal? = some r ∧ r.value = x.value - y.value
  mul_exact : ∃ r, (multiply.apply lib a b).decimal? = some r ∧ r.value = x.value * y.value
  add_comm : (add.apply lib a b).outcome = (add.apply lib b a).outcome
  add_assoc : (add.apply lib (add.apply lib a b) c).outcome
    = (add.apply lib a (add.apply lib b c)).outcome
  mul_comm : (multiply.apply lib a b).outcome = (multiply.apply lib b a).outcome
  mul_assoc : (multiply.apply lib (multiply.apply lib a b) c).outcome
    = (multiply.apply lib a (multiply.apply lib b c)).outcome
  mul_add : (multiply.apply lib a (add.apply lib b c)).outcome
    = (add.apply lib (multiply.apply lib a b) (multiply.apply lib a c)).outcome
  sub_eq_add_neg : (subtract.apply lib a b).outcome
    = (add.apply lib a (UnaryOperator.negate.apply lib b)).outcome
  mod_spec : y.value ≠ 0 → ∃ r, (modulo.apply lib a b).decimal? = some r
    ∧ (∃ k : ℤ, x.value = k * y.value + r.value)
    ∧ |r.value| < |y.value|
    ∧ (r.value = 0 ∨ 0 < r.value * x.value)
  mul_div_cancel : y.value ≠ 0 → Decimal.HasDigits 100 x.value →
    (divide.apply lib (multiply.apply lib a b) b).outcome
      = (add.apply lib a (of (.number (.ofNat 0)))).outcome
  div_by_zero :
    (divide.apply lib a b).outcome = .error "Division by zero" [] ↔ y.value = 0
  mod_by_zero :
    (modulo.apply lib a b).outcome = .error "Division by zero" [] ↔ y.value = 0

/-- **Arithmetic is exact.** A decimal gives a number and never an error, whatever stands behind
the spelling; if its place fits 64 bits the number denotes it, and equal decimals give the same one.
The laws of arithmetic hold of the results as they stand. -/
theorem arithmetic_exact (lib : Libraries) (ha : a.decimal? = some x) (hb : b.decimal? = some y)
    (hc : c.decimal? = some z) (hxy : fitsInt64 (x.scale + y.scale) = true)
    (hyz : fitsInt64 (y.scale + z.scale) = true) (hxz : fitsInt64 (x.scale + z.scale) = true) :
    (∀ d : Decimal, ofDecimal lib.numbers d = of (.number d.toNumeral))
      ∧ (∀ d : Decimal, fitsInt64 d.scale = true →
          ∃ r, (ofDecimal lib.numbers d).decimal? = some r ∧ r.value = d.value)
      ∧ (∀ d e : Decimal, d.value = e.value →
          ofDecimal lib.numbers d = ofDecimal lib.numbers e)
      ∧ ArithmeticLaws lib a b c x y z := by
  have hsame {d e : Decimal} (h : d.value = e.value) :
      (ofDecimal lib.numbers d).outcome = (ofDecimal lib.numbers e).outcome := by
    rw [ofDecimal_eq_of_value h]
  obtain ⟨sum, hsum, hsumValue⟩ := decimal?_add ha hb
  obtain ⟨sum', hsum', hsumValue'⟩ := decimal?_add hb hc
  obtain ⟨product, hproduct, hproductValue⟩ := decimal?_multiply ha hb hxy
  obtain ⟨product', hproduct', hproductValue'⟩ := decimal?_multiply hb hc hyz
  obtain ⟨product'', hproduct'', hproductValue''⟩ := decimal?_multiply ha hc hxz
  obtain ⟨negative, hnegative, hnegativeValue⟩ := decimal?_negate hb
  refine ⟨ofDecimal_eq,
    fun d hd => decimal?_of_outcome rfl (Decimal.scale_lt_of_fits hd),
    fun d e h => ofDecimal_eq_of_value h, ?_⟩
  constructor
  case add_exact => exact ⟨sum, hsum, hsumValue⟩
  case sub_exact => exact decimal?_subtract ha hb
  case mul_exact => exact ⟨product, hproduct, hproductValue⟩
  case add_comm =>
    rw [outcome_add ha hb, outcome_add hb ha]
    exact hsame (by simp only [Decimal.value_add]; ring)
  case add_assoc =>
    rw [outcome_add hsum hc, outcome_add ha hsum']
    exact hsame (by simp only [Decimal.value_add, hsumValue, hsumValue']; ring)
  case mul_comm =>
    rw [outcome_multiply ha hb, outcome_multiply hb ha]
    exact hsame (by simp only [Decimal.value_mul]; ring)
  case mul_assoc =>
    rw [outcome_multiply hproduct hc, outcome_multiply ha hproduct']
    exact hsame (by simp only [Decimal.value_mul, hproductValue, hproductValue']; ring)
  case mul_add =>
    rw [outcome_multiply ha hsum', outcome_add hproduct hproduct'']
    refine hsame ?_
    simp only [Decimal.value_mul, Decimal.value_add, hsumValue', hproductValue, hproductValue'']
    ring
  case sub_eq_add_neg =>
    rw [outcome_subtract ha hb, outcome_add ha hnegative]
    exact hsame (by simp only [Decimal.value_sub, Decimal.value_add, hnegativeValue]; ring)
  case mod_spec => exact decimal?_modulo ha hb
  case mul_div_cancel =>
    intro hzero hdigits
    have hnought : (of (.number (.ofNat 0))).decimal? = some Decimal.zero := rfl
    have hquotient : product.value / y.value = x.value := by
      rw [hproductValue, mul_div_cancel_right₀ _ hzero]
    rw [outcome_divide_of_hasDigits hproduct hb hzero hquotient hdigits, outcome_add ha hnought]
    exact hsame (by rw [Decimal.value_add, Decimal.value_zero, add_zero])
  case div_by_zero =>
    rw [outcome_divide ha hb]
    exact fails_iff _ _
  case mod_by_zero =>
    rw [outcome_modulo ha hb]
    exact fails_iff _ _

/-- The numbers 1.50, -0.25 and 1e3, in three places. -/
theorem arithmetic_exact_in_three_places :
    let a := of (.number ⟨false, 1, [5, 0], none⟩)
    let b := of (.number ⟨true, 0, [2, 5], none⟩)
    let c := of (.number ⟨false, 1, [], some ⟨false, [3]⟩⟩)
    a.decimal? = some ⟨150, 2⟩ ∧ b.decimal? = some ⟨-25, 2⟩ ∧ c.decimal? = some ⟨1, -3⟩
      ∧ fitsInt64 (2 + 2) = true ∧ fitsInt64 (2 + -3) = true
      ∧ ArithmeticLaws {} a b c ⟨150, 2⟩ ⟨-25, 2⟩ ⟨1, -3⟩ := by
  intro a b c
  have hlaws := arithmetic_exact {} (a := a) (b := b) (c := c) rfl rfl rfl (by decide) (by decide)
    (by decide)
  exact ⟨rfl, rfl, rfl, by decide, by decide, hlaws.2.2.2⟩

end Value

end AccessPolicy
