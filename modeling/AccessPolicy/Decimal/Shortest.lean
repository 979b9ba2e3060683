import AccessPolicy.Decimal.Spelling

/-!
# The shortest decimal of a binary number

A binary floating-point number stands for all reals that round to it. Its shortest decimal is
the one of fewest digits among these, and of several of the same length the nearest to the
number itself. It is found on the grids of the powers of ten, the coarsest first: a grid has a
point among those reals exactly if one of the two neighbours of the number on the grid is one.
-/

namespace AccessPolicy

/-- The number `m · 2 ^ q`. Below a power of two the numbers lie twice as close together as
above it; `narrow` says that the number is one. -/
structure Binary where
  m : Nat
  q : Int
  narrow : Bool
deriving DecidableEq, Repr

namespace Binary

/-- The absolute value of a finite number of 64 bits. -/
def ofBits (bits : UInt64) : Binary :=
  let exponent := ((bits >>> 52) &&& 0x7FF).toNat
  let fraction := (bits &&& 0xFFFFFFFFFFFFF).toNat
  if exponent = 0 then ⟨fraction, -1074, false⟩
  else ⟨0x10000000000000 + fraction, (exponent : Int) - 1075, fraction = 0 && exponent > 1⟩

/-- A quarter of the unit in the last place, as a multiple of a power of ten: a fraction. -/
def quarter (x : Binary) (grid : Int) : Nat × Nat :=
  (Nat.pow 2 (x.q - 2).toNat * Nat.pow 10 (-grid).toNat,
    Nat.pow 2 (2 - x.q).toNat * Nat.pow 10 grid.toNat)

/-- Whether a point of a grid rounds to a number. The ends of the interval belong to it if the
last bit is zero. -/
def reads (x : Binary) (grid : Int) (point : Nat) : Bool :=
  let (num, den) := x.quarter grid
  let low := (if x.narrow then 4 * x.m - 1 else 4 * x.m - 2) * num
  let high := (4 * x.m + 2) * num
  if x.m % 2 = 0 then low ≤ point * den && point * den ≤ high
  else low < point * den && point * den < high

/-- The point of a grid that rounds to a number and is nearest to it, the upper one of two that
are equally near. -/
def onGrid? (x : Binary) (grid : Int) : Option Decimal :=
  let (num, den) := x.quarter grid
  let below := 4 * x.m * num / den
  let rest := 4 * x.m * num % den
  let nearest := if 2 * rest < den then [below, below + 1] else [below + 1, below]
  (nearest.find? (x.reads grid)).map fun point => ⟨point, -grid⟩

/-- The first grid in some number of grids, each ten times finer, that has a point which rounds
to a number. -/
def search (x : Binary) : (grids : Nat) → Int → Option Decimal
  | 0, _ => none
  | grids + 1, grid =>
    match x.onGrid? grid with
    | some d => some d
    | none => x.search grids (grid - 1)

/-- The exact decimal of a number. -/
def exact (x : Binary) : Decimal :=
  if 0 ≤ x.q then ⟨x.m * Nat.pow 2 x.q.toNat, 0⟩ else ⟨x.m * Nat.pow 5 (-x.q).toNat, -x.q⟩

/-- A grid that is coarser than a number. -/
def coarse (x : Binary) : Int := ((x.m.log2 : Int) + x.q + 1) * 30103 / 100000 + 1

/-- The shortest decimal of a number. -/
def shortest (x : Binary) : Decimal :=
  if x.m = 0 then Decimal.zero else (x.search 20 x.coarse).getD x.exact

/-- The text of a number that is not negative: the shortest decimal, without an exponent. -/
def plainText (x : Float) : String := (ofBits x.toBits).shortest.toNumeral.text

end Binary

end AccessPolicy
