import AccessPolicy.Pattern.Normal

/-!
# The size of the automata of a pattern

A pattern stands for two automata over octets, one that reads a text forward and one that reads it
backward, and it is refused if either of them is too large. Their sizes in memory are told from the
normal form of the pattern, without building them: repetitions count as often as they are written
out, so an automaton can be far larger than its pattern.

Forward, the automaton of a set is the smallest one for the octets of its characters: parts that
end alike are shared. Backward, what is shared is how the octets start.
-/

namespace AccessPolicy.Pattern

/-- The memory of a state. -/
def stateSize : Nat := 32

/-- The memory of each choice that a state has between ranges of octets. -/
def rangeSize : Nat := 8

/-- The memory of each reference from a state that reads no octet to the states after it. -/
def referenceSize : Nat := 4

/-- The greatest memory that an automaton may take. -/
def maxSize : Nat := 10 * 1024 * 1024

/-- The directions in which an automaton may read. -/
inductive Direction where
  | forward
  | backward
deriving DecidableEq, Repr

/-! ## Sets -/

/-- A range of octets. -/
abbrev OctetRange := Nat × Nat

/-- Puts rows together that start with the same range, given that they stand side by side. -/
def groupRows : List (List OctetRange) → List (OctetRange × List (List OctetRange))
  | [] => []
  | [] :: rows => groupRows rows
  | (r :: row) :: rows =>
    match groupRows rows with
    | (s, tails) :: groups =>
      if r = s then (s, row :: tails) :: groups else (r, [row]) :: (s, tails) :: groups
    | [] => [(r, [row])]

/-- A state that reads an octet: for each range of octets the number of the state after it. -/
abbrev OctetState := List (OctetRange × Nat)

/-- The number of a state among those found so far, the last one first, and these with it among
them. The number 0 is left for the end. -/
def stateNumber (found : List OctetState) (state : OctetState) : Nat × List OctetState :=
  match found.idxOf? state with
  | some i => (found.length - i, found)
  | none => (found.length + 1, state :: found)

/-- The number of the state that reads some rows, and the states found with it. The bound is
greater than the lengths of the rows. -/
def rowState : (bound : Nat) → List (List OctetRange) → List OctetState → Nat × List OctetState
  | 0, _, found => (0, found)
  | bound + 1, rows, found =>
    if rows.all List.isEmpty then (0, found)
    else
      let (found, state) := (groupRows rows).foldl (fun (found, state) (r, tails) =>
        let (next, found) := rowState bound tails found
        (found, state ++ [(r, next)])) (found, [])
      stateNumber found state

/-- The number of the different fronts of some rows. -/
def frontCount : (bound : Nat) → List (List OctetRange) → Nat
  | 0, _ => 0
  | bound + 1, rows => total (fun group => 1 + frontCount bound group.2) (groupRows rows)

/-- The rows of the octets of a set. -/
def setRows (s : CharSet) : List (List OctetRange) :=
  s.ranges.flatMap fun r => Text.octetRows r.1 r.2

/-- The memory of the automaton of a set. If one octet is enough for each of its characters, one
state reads it. -/
def setSize (d : Direction) (s : CharSet) : Nat :=
  if s.ranges.all fun r => r.2 < 0x80 then 2 * stateSize + rangeSize * s.ranges.length
  else
    match d with
    | .forward =>
      let (_, states) := rowState 5 (setRows s) []
      stateSize + total (fun state => stateSize + rangeSize * state.length) states
    | .backward =>
      let rows := setRows s
      (2 + frontCount 5 rows) * stateSize + referenceSize * rows.length

/-! ## Literals as alternatives -/

/-- Cuts a list of words at those that have ended. The first ones of these count once. -/
def cutWords : List (List Nat) → List (List (List Nat))
  | [] => [[]]
  | [] :: ws => [] :: cutWords ws
  | w :: ws =>
    match cutWords ws with
    | piece :: pieces => (w :: piece) :: pieces
    | [] => [[w]]

/-- Drops all but one of the words at the front that have ended. -/
def dropRepeatedEnds : List (List Nat) → List (List Nat)
  | [] :: [] :: ws => dropRepeatedEnds ([] :: ws)
  | ws => ws

/-- What is left of the words that start with an octet. -/
def after (octet : Nat) (ws : List (List Nat)) : List (List Nat) :=
  ws.filterMap fun
    | [] => none
    | o :: w => if o = octet then some w else none

/-- The memory of the automaton of some words, which branches only where they differ. The bound is
greater than the lengths of the words. -/
def wordsSize : (bound : Nat) → List (List Nat) → Nat
  | 0, _ => 0
  | bound + 1, ws =>
    if ws.all List.isEmpty then 0
    else
      let pieces := cutWords (dropRepeatedEnds ws)
      let full := pieces.filter fun piece => !piece.isEmpty
      stateSize + referenceSize * (full.length + (pieces.length - 1))
        + total (fun piece =>
            let octets := (piece.filterMap List.head?).eraseDups
            stateSize + (if octets.length = 1 then 0 else rangeSize * octets.length)
              + total (fun octet => wordsSize bound (after octet piece)) octets) full

/-- The octets of a literal in the order in which they are read. -/
def literalOctets (d : Direction) (codes : List Nat) : List Nat :=
  let octets := codes.flatMap Text.octets
  match d with
  | .forward => octets
  | .backward => octets.reverse

/-! ## Patterns -/

namespace Normal

/-- Whether a normal form is a choice. -/
def isChoice : Normal → Bool
  | alt _ _ => true
  | _ => false

/-- The memory of a repetition, given what the repeated part takes. -/
def timesSize (part : Nat) (canBeEmpty : Bool) : (least : Nat) → (most : Option Nat) → Nat
  | 0, none =>
    if canBeEmpty then part + 3 * stateSize + 4 * referenceSize
    else part + stateSize + 2 * referenceSize
  | least, none => least * part + stateSize + 2 * referenceSize
  | 0, some 1 => part + 2 * stateSize + 2 * referenceSize
  | least, some most =>
    let fixed := if least = 0 then stateSize else least * part
    if least = most then fixed
    else fixed + stateSize + (most - least) * (part + stateSize + 2 * referenceSize)

/-- The memory of the automaton of a normal form. Numbered groups are kept track of when reading
forward. -/
def size (d : Direction) : Normal → Nat
  | empty => stateSize
  | literal codes => literalLength codes * stateSize
  | set s => setSize d s
  | check _ => stateSize
  | times p least most _ => timesSize (p.size d) (p.leastLength.all (· = 0)) least most
  | group _ p => p.size d + if d = .forward then 2 * stateSize else 0
  | seq p q => p.size d + q.size d
  | alt p q =>
    p.size d + referenceSize + q.size d
      + if q.isChoice then 0 else referenceSize + 2 * stateSize
  | words ws =>
    let ws := ws.map (literalOctets d)
    stateSize + wordsSize (total List.length ws + 1) ws

/-- Whether every match stands at one end of the text: an assertion holds before anything else is
read in a direction. -/
def isAnchored (d : Direction) (a : Assertion) : Normal → Bool
  | check b => a = b
  | times p least _ _ => 0 < least && p.isAnchored d a
  | group _ p => p.isAnchored d a
  | seq p q =>
    match d with
    | .forward => p.isAnchored d a || (p.mostLength = some 0 && q.isAnchored d a)
    | .backward => q.isAnchored d a || (q.mostLength = some 0 && p.isAnchored d a)
  | alt p q => p.isAnchored d a && q.isAnchored d a
  | _ => false

/-- The memory of what comes before the match: nothing, or any octets. -/
def leadSize (d : Direction) (p : Normal) : Nat :=
  let anchor := match d with
    | .forward => Assertion.textStart
    | .backward => Assertion.textEnd
  if p.isAnchored d anchor then stateSize
  else timesSize (2 * stateSize + rangeSize) false 0 none

/-- The memory of the automaton that finds matches. The match itself is a numbered group. -/
def searchSize (d : Direction) (p : Normal) : Nat :=
  leadSize d p + (group 0 p).size d + stateSize

end Normal

/-- Whether the automata of a pattern are small enough. -/
def isAffordable (p : Pattern) : Bool :=
  let p := p.normal
  p.searchSize .forward ≤ maxSize && p.searchSize .backward ≤ maxSize

end AccessPolicy.Pattern
