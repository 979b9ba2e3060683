import AccessPolicy.Decimal.Basic

/-!
# Decimals and their spelling

A numeral denotes a decimal: the digits before and after the point are the units, and the
scale is the number of digits after the point less the exponent. A scale must fit 64 signed
bits; a numeral whose scale does not is no number to arithmetic, although it is a perfectly
good JSON number.

A decimal is written without an exponent and without trailing zeros after the point, so that
equal decimals have one spelling. A whole number that fits 64 bits is written as such, and any other
decimal is spelled out; the spelling is read as a numeral again, and should it be refused, the
nearest number in binary takes its place.
-/

namespace AccessPolicy

/-- The number that an exponent denotes. -/
def Exponent.value (e : Exponent) : Int :=
  let magnitude := (Digit.value e.digits : Int)
  if e.negative then -magnitude else magnitude

namespace Decimal

/-- The decimal that a numeral denotes, if its scale can be represented. -/
def ofNumeral? (n : Numeral) : Option Decimal :=
  let units := (Digit.valueFrom n.whole n.fraction : Int)
  let exponent := match n.exponent with
    | none => 0
    | some e => e.value
  let scale := (n.fraction.length : Int) - exponent
  if fitsInt64 scale then some ⟨if n.negative then -units else units, scale⟩ else none

/-- The last digits of a natural number, exactly as many as asked for, most significant
first. -/
def lastDigits : (count : Nat) → Nat → List Digit
  | 0, _ => []
  | count + 1, n => lastDigits count (n / 10) ++ [Fin.ofNat 10 n]

/-- The plain spelling of a decimal: all of its digits, with no exponent. -/
def plain (d : Decimal) : Numeral :=
  let units := d.unscaled.natAbs
  let negative := decide (d.unscaled < 0)
  if d.scale ≤ 0 then ⟨negative, units * Nat.pow 10 (-d.scale).toNat, [], none⟩
  else
    let places := d.scale.toNat
    ⟨negative, units / Nat.pow 10 places, lastDigits places units, none⟩

/-- The spelling of the value of a decimal: plain, and with no zero at the end of the fraction. -/
def toNumeral (d : Decimal) : Numeral := d.normalize.plain

/-! ## Whole numbers -/

/-- Whether a decimal is a whole number. -/
def isWhole (d : Decimal) : Bool :=
  d.scale ≤ 0 || d.unscaled % Nat.pow 10 d.scale.toNat == 0

/-- A decimal without the digits after the point. -/
def truncate (d : Decimal) : Int :=
  if d.scale ≤ 0 then d.unscaled * Nat.pow 10 (-d.scale).toNat
  else d.unscaled.tdiv (Nat.pow 10 d.scale.toNat)

/-- The numeral of a whole number that fits 64 bits, with a sign or without one. -/
def word? (d : Decimal) : Option Numeral :=
  if d.isWhole then
    if fitsInt64 d.truncate then some (.ofInt d.truncate)
    else if 0 ≤ d.truncate && fitsNat64 d.truncate.toNat then some (.ofNat d.truncate.toNat)
    else none
  else none

/-- What becomes of a decimal if its spelling is refused. The nearest number in binary is not known
here, nor is the way in which a decimal is shown in a message. -/
structure Fallback where
  nearest? : Decimal → Option Numeral := fun _ => none
  shown : Decimal → String := fun d => d.plain.text

end Decimal

end AccessPolicy
