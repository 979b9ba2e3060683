/-!
# Positions in an array

A position counts from the front, or from the end if it is negative. A slice runs from a first
position towards a last one, which it does not reach, in strides that may go either way; its
ends are moved into the array, and by default they are the ends of the array in the direction
of the stride.
-/

namespace AccessPolicy.Position

/-- The place in an array of some length that a position denotes. -/
def resolve? (position : Int) (length : Nat) : Option Nat :=
  let place := if position < 0 then length + position else position
  if 0 ≤ place ∧ place < length then some place.toNat else none

/-- The nearest number between two bounds. -/
def clamp (low high i : Int) : Int := max low (min high i)

/-- The numbers from one on upwards in strides, below a limit. -/
def ascending (stride limit i : Int) : List Int :=
  if 0 < stride ∧ i < limit then i :: ascending stride limit (i + stride) else []
termination_by (limit - i).toNat

/-- The numbers from one on downwards in strides, above a limit. -/
def descending (stride limit i : Int) : List Int :=
  if stride < 0 ∧ limit < i then i :: descending stride limit (i + stride) else []
termination_by (i - limit).toNat

/-- The end of a slice: a position counted from the front, moved between two bounds, or a
default if there is none. -/
def sliceEnd (length : Nat) (low high default : Int) : Option Int → Int
  | none => default
  | some i => clamp low high (if i < 0 then i + length else i)

/-- The places that a slice selects, in the order of its stride. There are none to speak of
if the stride is zero. -/
def slice? (length : Nat) (first last stride : Option Int) : Option (List Nat) :=
  let stride := stride.getD 1
  let n : Int := length
  if stride = 0 then none
  else if 0 < stride then
    some ((ascending stride (sliceEnd length 0 n n last) (sliceEnd length 0 n 0 first)).map
      Int.toNat)
  else
    some ((descending stride (sliceEnd length (-1) (n - 1) (-1) last)
      (sliceEnd length (-1) (n - 1) (n - 1) first)).map Int.toNat)

/-- The items at some places. -/
def pick {α : Type} (items : List α) (places : List Nat) : List α :=
  places.filterMap fun i => items[i]?

end AccessPolicy.Position
