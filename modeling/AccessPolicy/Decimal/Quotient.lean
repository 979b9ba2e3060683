import AccessPolicy.Decimal.Basic

/-!
# Quotients and remainders

A quotient that ends is exact. Any other is computed to `quotientDigits` significant digits
and rounded half away from zero by the digit after them; when the whole quotient of the
aligned units is longer than that, it is kept whole and rounded the same way. Division by
one gives the dividend back, whatever its length, unless the one is written with more than
`onePlaces` decimal places.

The divisor is not zero in what follows: callers refuse that case.
-/

namespace AccessPolicy.Decimal

/-- How many significant digits an endless quotient is computed to. -/
def quotientDigits : Nat := 100

/-- Appends zeros to a dividend until it reaches the divisor, counting them in the scale. -/
def raise (dividend divisor : Nat) (scale : Int) : Nat × Int :=
  if h : 0 < dividend ∧ dividend < divisor then raise (10 * dividend) divisor (scale + 1)
  else (dividend, scale)
termination_by divisor - dividend

/-- Continues a long division whose whole part has been found. It goes on for a number of
digits at most, and rounds by the digit after the last one. -/
def expand (divisor : Nat) : (digits : Nat) → (quotient remainder : Nat) → Int → Nat × Int
  | 0, quotient, remainder, scale =>
    (if 5 ≤ 10 * remainder / divisor then quotient + 1 else quotient, scale)
  | digits + 1, quotient, remainder, scale =>
    if remainder = 0 then (quotient, scale)
    else
      expand divisor digits (10 * quotient + 10 * remainder / divisor)
        (10 * remainder % divisor) (scale + 1)

/-- The quotient of two positive numbers of units, with its scale. -/
def divide (dividend divisor : Nat) (scale : Int) : Nat × Int :=
  let (dividend, scale) := raise dividend divisor scale
  let quotient := dividend / divisor
  expand divisor (quotientDigits - digitCount quotient) quotient (dividend % divisor) scale

/-- How many decimal places a divisor may have to be taken for one. A power of ten with more
zeros than that does not fit into 128 bits. -/
def onePlaces : Nat := 38

/-- Whether a divisor is taken for one. -/
def isPlainOne (d : Decimal) : Bool := d.scale ≤ onePlaces && d.compare one == .eq

/-- The quotient of two decimals. -/
def quotient (a b : Decimal) : Decimal :=
  if a.unscaled = 0 ∨ b.isPlainOne then a
  else
    let (units, scale) := divide a.unscaled.natAbs b.unscaled.natAbs (a.scale - b.scale)
    ⟨a.unscaled.sign * b.unscaled.sign * units, scale⟩

/-- The remainder of two decimals in the finer of their places; it has the sign of the
dividend. -/
def remainder (a b : Decimal) : Decimal :=
  let scale := max a.scale b.scale
  ⟨(a.unitsAt scale).tmod (b.unitsAt scale), scale⟩

end AccessPolicy.Decimal
