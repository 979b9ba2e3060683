/-!
# Numbers as they are spelled

A JSON number keeps its spelling: `1.50` and `1.5` are different numerals, although they
denote the same decimal. Only the exponent is respelled: the letter is `e` and the sign is
always written, so `1E5` reads as `1e+5`. A numeral is therefore the parts of the spelling
and not a value; the value is the business of `Decimal`.
-/

namespace AccessPolicy

/-- Whether an integer fits 64 signed bits. -/
def fitsInt64 (i : Int) : Bool := -0x8000000000000000 ≤ i && i < 0x8000000000000000

/-- Whether a natural number fits 64 bits. -/
def fitsNat64 (n : Nat) : Bool := n < 0x10000000000000000

/-- A decimal digit. -/
abbrev Digit := Fin 10

namespace Digit

/-- The character that spells a digit. -/
def char (d : Digit) : Char := Char.ofNat ('0'.toNat + d.val)

/-- The digit that a character spells. -/
def ofChar? (c : Char) : Option Digit :=
  if '0' ≤ c ∧ c ≤ '9' then some (Fin.ofNat 10 (c.toNat - '0'.toNat)) else none

/-- The text of a list of digits. -/
def text (ds : List Digit) : String := String.ofList (ds.map char)

/-- Reads the longest run of digits at the front of a text. -/
def run : List Char → List Digit × List Char
  | [] => ([], [])
  | c :: rest =>
    match ofChar? c with
    | some d => (d :: (run rest).1, (run rest).2)
    | none => ([], c :: rest)

/-- The number that a list of digits denotes after the digits already read. -/
def valueFrom (start : Nat) (ds : List Digit) : Nat := ds.foldl (fun n d => 10 * n + d.val) start

/-- The number that a list of digits denotes. -/
def value (ds : List Digit) : Nat := valueFrom 0 ds

/-- The digits of a number, most significant first; zero has the one digit `0`. -/
def ofNat (n : Nat) : List Digit :=
  if h : n < 10 then [⟨n, h⟩] else ofNat (n / 10) ++ [Fin.ofNat 10 n]
termination_by n

end Digit

/-- The exponent of a numeral: its sign and its digits as written. -/
structure Exponent where
  negative : Bool
  digits : List Digit
deriving DecidableEq, Repr

/-- A number as it is spelled. An absent fraction is the empty list of digits, since a point
is always followed by a digit. -/
structure Numeral where
  negative : Bool
  whole : Nat
  fraction : List Digit
  exponent : Option Exponent
deriving DecidableEq, Repr

namespace Numeral

/-- The numeral of a natural number. -/
def ofNat (n : Nat) : Numeral := ⟨false, n, [], none⟩

/-- The numeral of an integer. -/
def ofInt (i : Int) : Numeral := ⟨decide (i < 0), i.natAbs, [], none⟩

/-- The text of a numeral. -/
def text (n : Numeral) : String :=
  let sign := if n.negative then "-" else ""
  let whole := Digit.text (Digit.ofNat n.whole)
  let fraction := if n.fraction.isEmpty then "" else "." ++ Digit.text n.fraction
  let exponent := match n.exponent with
    | none => ""
    | some e => (if e.negative then "e-" else "e+") ++ Digit.text e.digits
  sign ++ whole ++ fraction ++ exponent

/-- Reads the fraction of a numeral, if a point follows. A point without digits is refused. -/
def readFraction? : List Char → Option (List Digit × List Char)
  | '.' :: rest =>
    match Digit.run rest with
    | ([], _) => none
    | (ds, rest) => some (ds, rest)
  | rest => some ([], rest)

/-- Reads the exponent of a numeral, if one follows. -/
def readExponent? : List Char → Option (Option Exponent × List Char)
  | c :: rest =>
    if c = 'e' ∨ c = 'E' then
      let (negative, rest) := match rest with
        | '-' :: rest => (true, rest)
        | '+' :: rest => (false, rest)
        | rest => (false, rest)
      match Digit.run rest with
      | ([], _) => none
      | (ds, rest) => some (some ⟨negative, ds⟩, rest)
    else some (none, c :: rest)
  | [] => some (none, [])

/-- Reads a numeral at the front of a text. A whole part of several digits does not start
with zero. -/
def read? (cs : List Char) : Option (Numeral × List Char) := do
  let (negative, cs) := match cs with
    | '-' :: rest => (true, rest)
    | cs => (false, cs)
  let (whole, cs) ← match Digit.run cs with
    | ([], _) => none
    | (0 :: _ :: _, _) => none
    | (ds, rest) => some (Digit.value ds, rest)
  let (fraction, cs) ← readFraction? cs
  let (exponent, cs) ← readExponent? cs
  return (⟨negative, whole, fraction, exponent⟩, cs)

/-- Reads a whole text as a numeral. -/
def parse? (s : String) : Option Numeral :=
  match read? s.toList with
  | some (n, []) => some n
  | _ => none

/-- The integer that a numeral spells without point and exponent, if it fits 64 signed
bits. Minus zero spells zero. -/
def toInt64? (n : Numeral) : Option Int :=
  if n.fraction.isEmpty && n.exponent.isNone then
    let i : Int := if n.negative then -(n.whole : Int) else n.whole
    if fitsInt64 i then some i else none
  else none

/-- The natural number that a numeral spells without sign, point and exponent, if it fits 64
bits. -/
def toNat64? (n : Numeral) : Option Nat :=
  if !n.negative && n.fraction.isEmpty && n.exponent.isNone && fitsNat64 n.whole then some n.whole
  else none

end Numeral

end AccessPolicy
