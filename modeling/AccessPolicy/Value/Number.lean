import AccessPolicy.Decimal.Spelling
import AccessPolicy.Value.Fault

/-!
# Numbers of documents and decimals

Arithmetic is done on decimals and its results are documents, so each result goes through the
spelling of a number. A whole number of 64 bits, signed or not, is spelled as such; any other one is
written out in full and read as a number. Behind that stands the nearest number in binary, and
behind that an error.
-/

namespace AccessPolicy.Value

/-- The decimal of a value that is a number with one. -/
def decimal? (v : Value) : Option Decimal :=
  match v.outcome with
  | .defined (.number n) => Decimal.ofNumeral? n
  | _ => none

/-- The value of a decimal. -/
def ofDecimal (fallback : Decimal.Fallback) (d : Decimal) : Value :=
  let d := d.normalize
  match d.word? with
  | some n => of (.number n)
  | none =>
    match Numeral.parse? d.plain.text with
    | some n => of (.number n)
    | none =>
      match fallback.nearest? d with
      | some n => of (.number n)
      | none => fault (.numberOutOfRange (fallback.shown d))

end AccessPolicy.Value
