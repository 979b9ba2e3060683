import AccessPolicy.Json.Numeral

/-!
# Decimals of unlimited precision

A decimal is a whole number of units in some decimal place: `⟨150, 2⟩` is 1.50. Sums,
differences, products and comparisons are exact. A comparison never writes out a large
exponent: when the leading digits stand in different places that alone decides, and
otherwise the two scales differ by no more than the lengths of the numbers.
-/

namespace AccessPolicy

/-- The decimal `unscaled · 10 ^ (-scale)`. -/
structure Decimal where
  unscaled : Int
  scale : Int
deriving DecidableEq, Repr

namespace Decimal

/-- Zero. -/
def zero : Decimal := ⟨0, 0⟩

/-- One. -/
def one : Decimal := ⟨1, 0⟩

/-- Whether a decimal denotes zero. -/
def isZero (d : Decimal) : Bool := d.unscaled == 0

/-- The units of a decimal in a finer place. -/
def unitsAt (d : Decimal) (scale : Int) : Int := d.unscaled * Nat.pow 10 (scale - d.scale).toNat

/-- The negative of a decimal. -/
def neg (d : Decimal) : Decimal := ⟨-d.unscaled, d.scale⟩

/-- The sum, in the finer of the two places. -/
def add (a b : Decimal) : Decimal :=
  let scale := max a.scale b.scale
  ⟨a.unitsAt scale + b.unitsAt scale, scale⟩

/-- The difference, in the finer of the two places. -/
def sub (a b : Decimal) : Decimal :=
  let scale := max a.scale b.scale
  ⟨a.unitsAt scale - b.unitsAt scale, scale⟩

/-- The product. -/
def mul (a b : Decimal) : Decimal := ⟨a.unscaled * b.unscaled, a.scale + b.scale⟩

/-- How many digits a natural number has. -/
def digitCount (n : Nat) : Nat := (Digit.ofNat n).length

/-- The place of the leading digit of a nonzero decimal: the least `k` with the absolute
value below `10 ^ k`. -/
def leadingPlace (d : Decimal) : Int := (digitCount d.unscaled.natAbs : Int) - d.scale

/-- How two integers compare. -/
def order (i j : Int) : Ordering := if i < j then .lt else if i = j then .eq else .gt

/-- How the values of two decimals compare. -/
def compare (a b : Decimal) : Ordering :=
  if a.unscaled.sign ≠ b.unscaled.sign ∨ a.unscaled = 0 then
    order a.unscaled.sign b.unscaled.sign
  else if a.leadingPlace ≠ b.leadingPlace then
    order (a.unscaled.sign * a.leadingPlace) (b.unscaled.sign * b.leadingPlace)
  else
    let scale := max a.scale b.scale
    order (a.unitsAt scale) (b.unitsAt scale)

/-- Moves the trailing zeros of a number of units into the scale. -/
def stripZeros (units : Nat) (scale : Int) : Nat × Int :=
  if h : 0 < units ∧ units % 10 = 0 then stripZeros (units / 10) (scale - 1) else (units, scale)
termination_by units

/-- The decimal of the same value whose units have no trailing zero; zero has scale zero. -/
def normalize (d : Decimal) : Decimal :=
  if d.unscaled = 0 then zero
  else
    let (units, scale) := stripZeros d.unscaled.natAbs d.scale
    ⟨d.unscaled.sign * units, scale⟩

end Decimal

end AccessPolicy
