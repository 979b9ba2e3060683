import AccessPolicy.Pattern.Automaton
import AccessPolicy.Pattern.Reader

/-!
# Matching

Whether some part of a text matches a pattern is found by following sets of places: `reach`
takes the places at which parts may start to the places at which they may end. A repetition
goes on from the places that are new. After as many times as the text has places, one more time
changes nothing, since by then some time has matched nothing at the same place; that bounds all
repetitions.
-/

namespace AccessPolicy.Pattern

/-- Applies a step a number of times. -/
def iterate (step : List Nat → List Nat) : (count : Nat) → List Nat → List Nat
  | 0, places => places
  | count + 1, places => iterate step count (step places)

/-- Adds to the places seen those that a step leads to from the newest ones, for a number of
rounds or until there is nothing new. -/
def spread (step : List Nat → List Nat) : (rounds : Nat) → (seen newest : List Nat) → List Nat
  | 0, seen, _ => seen
  | rounds + 1, seen, newest =>
    let next := (step newest).filter fun i => !seen.contains i
    if next.isEmpty then seen else spread step rounds (seen ++ next) next

/-- The character before a place. -/
def before? (text : Array Char) (place : Nat) : Option Char :=
  if place = 0 then none else text[place - 1]?

/-- The places at which parts that match a pattern end, if they start at given places. -/
def reach (text : Array Char) : Pattern → List Nat → List Nat
  | empty, places => places
  | char s _, places => places.filterMap fun i =>
    match text[i]? with
    | some c => if s.has c.toNat then some (i + 1) else none
    | none => none
  | check a, places => places.filter fun i => a.holds (before? text i) text[i]?
  | seq p q, places => q.reach text (p.reach text places)
  | alt p q, places =>
    let left := p.reach text places
    left ++ (q.reach text places).filter fun i => !left.contains i
  | times p least most _, places =>
    let limit := text.size + 1
    let start := iterate (p.reach text) (min least limit) places
    let rounds := match most with
      | none => limit
      | some most => min (most - least) limit
    spread (p.reach text) rounds start start
  | group _ p, places => p.reach text places

/-- Whether some part of a text matches a pattern. -/
def occursIn (p : Pattern) (text : String) : Bool :=
  let text := text.toList.toArray
  !(p.reach text (List.range (text.size + 1))).isEmpty

/-! ## Whole texts -/

/-- Why a text is refused as a pattern. -/
inductive Refusal where
  | malformed
  | tooLarge
deriving DecidableEq, Repr

/-- The engine that runs patterns: what it knows of properties of characters, and which patterns it
has the memory for. -/
structure Engine where
  properties : Properties := fun _ => none
  affords : Pattern → Bool := isAffordable

/-- A pattern put between the two ends of a text. It is put there as a text before it is read. -/
def betweenEnds (pattern : String) : String := "^(?:" ++ pattern ++ ")$"

/-- Reads a pattern that is put between the two ends of a text. -/
def read (engine : Engine) (pattern : String) : Except Refusal Pattern :=
  match parse? engine.properties (betweenEnds pattern) with
  | none => .error .malformed
  | some p => if engine.affords p then .ok p else .error .tooLarge

/-- Whether a pattern, put between the two ends of a text, occurs in the text. -/
def accepts (engine : Engine) (pattern text : String) : Except Refusal Bool := do
  return (← read engine pattern).occursIn text

end AccessPolicy.Pattern
