import AccessPolicy.Pattern.Basic
import AccessPolicy.Text.Octets

/-!
# Normal forms of patterns

The automaton of a pattern is that of a simpler form of it. Characters in a row become one literal,
a set of one character is a literal too, and alternatives that are all single characters become one
set. What all alternatives start with is taken out of them. A repetition of something that matches
nothing but the empty text is done at most once, one of no times at all is empty, and one of
exactly once is what it repeats.

The normal form matters only for the size of the automaton; what matches is said on patterns.
-/

namespace AccessPolicy.Pattern

/-- The sum of what some items count. -/
def total {α : Type} (count : α → Nat) (items : List α) : Nat :=
  items.foldl (fun sum item => sum + count item) 0

/-- A normal form. The parts of a sequence and the alternatives stand in rows to the right; literals
are lists of code points, and alternatives that are all literals are `words`. -/
inductive Normal where
  | empty
  | literal (codes : List Nat)
  | set (s : CharSet)
  | check (a : Assertion)
  | times (p : Normal) (least : Nat) (most : Option Nat) (greedy : Bool)
  | group (number : Nat) (p : Normal)
  | seq (p q : Normal)
  | alt (p q : Normal)
  | words (ws : List (List Nat))
deriving DecidableEq, Repr

namespace Normal

/-! ## Lengths in octets -/

/-- The lesser of two lengths. -/
def lesser (a b : Option Nat) : Option Nat := do return min (← a) (← b)

/-- The greater of two lengths. -/
def greater (a b : Option Nat) : Option Nat := do return max (← a) (← b)

/-- How many octets a literal has. -/
def literalLength (codes : List Nat) : Nat := total Text.octetCount codes

/-- The length of the shortest match, if every part can match at all. -/
def leastLength : Normal → Option Nat
  | empty => some 0
  | literal codes => some (literalLength codes)
  | set s => s.ranges.head?.map fun r => Text.octetCount r.1
  | check _ => some 0
  | times p least _ _ => p.leastLength.map (· * least)
  | group _ p => p.leastLength
  | seq p q => do return (← p.leastLength) + (← q.leastLength)
  | alt p q => lesser p.leastLength q.leastLength
  | words ws => (ws.map literalLength).min?

/-- The length of the longest match, if there is a bound and every part can match at all. -/
def mostLength : Normal → Option Nat
  | empty => some 0
  | literal codes => some (literalLength codes)
  | set s => s.ranges.getLast?.map fun r => Text.octetCount r.2
  | check _ => some 0
  | times p _ most _ => do return (← p.mostLength) * (← most)
  | group _ p => p.mostLength
  | seq p q => do return (← p.mostLength) + (← q.mostLength)
  | alt p q => greater p.mostLength q.mostLength
  | words ws => (ws.map literalLength).max?

/-! ## Sequences -/

/-- The parts of a sequence. -/
def parts : Normal → List Normal
  | empty => []
  | seq p q => p :: q.parts
  | p => [p]

/-- A sequence with one more part at its front, which is joined to a literal that it meets. -/
def cons : Normal → Normal → Normal
  | p, empty => p
  | literal codes, literal more => literal (codes ++ more)
  | literal codes, seq (literal more) q => seq (literal (codes ++ more)) q
  | p, q => seq p q

/-- The sequence of some parts. -/
def ofParts (ps : List Normal) : Normal := ps.foldr cons empty

/-- One sequence after another. -/
def append (p q : Normal) : Normal := p.parts.foldr cons q

/-! ## Single parts -/

/-- The normal form of a set. -/
def ofSet (s : CharSet) : Normal :=
  match s.ranges with
  | [(low, high)] => if low = high then literal [low] else set s
  | _ => set s

/-- The set of a part that matches single characters only. -/
def toSet? : Normal → Option CharSet
  | set s => some s
  | literal [code] => some (.range code code)
  | _ => none

/-- The normal form of a repetition. -/
def repeated (p : Normal) (least : Nat) (most : Option Nat) (greedy : Bool) : Normal :=
  let (least, most) :=
    if p.mostLength = some 0 then (min least 1, some ((most.getD 1).min 1)) else (least, most)
  if most = some 0 then empty
  else if least = 1 ∧ most = some 1 then p
  else times p least most greedy

/-! ## Alternatives -/

/-- The alternatives of a normal form. -/
def options : Normal → List Normal
  | alt p q => p :: q.options
  | words ws => ws.map literal
  | p => [p]

/-- The code points of a literal. -/
def codes? : Normal → Option (List Nat)
  | literal codes => some codes
  | _ => none

/-- Some alternatives as they are. -/
def ofOptions : List Normal → Normal
  | [] => set .none
  | [p] => p
  | p :: ps => alt p (ofOptions ps)

/-- What two lists start with. -/
def sharedFront : List Normal → List Normal → List Normal
  | p :: ps, q :: qs => if p = q then p :: sharedFront ps qs else []
  | _, _ => []

/-- The parts that all alternatives start with, if each of them is a sequence of several parts. -/
def sharedParts : List Normal → List Normal
  | [] => []
  | p :: ps =>
    if (p :: ps).all fun q => 1 < q.parts.length then
      ps.foldl (fun shared q => sharedFront shared q.parts) p.parts
    else []

/-- How many parts a normal form has in all. -/
def weight : Normal → Nat
  | times p _ _ _ => p.weight + 1
  | group _ p => p.weight + 1
  | seq p q => p.weight + q.weight + 1
  | alt p q => p.weight + q.weight + 1
  | words ws => ws.length + 1
  | _ => 1

/-- The normal form of some alternatives. The bound is their weight: what they share is taken out
of each of them. -/
def alternatives : (bound : Nat) → List Normal → Normal
  | 0, ps => ofOptions ps
  | bound + 1, ps =>
    let ps := ps.flatMap options
    match ps.mapM toSet? with
    | some sets => ofSet (sets.foldl CharSet.union .none)
    | none =>
      match sharedParts ps with
      | [] => ((ps.mapM codes?).map words).getD (ofOptions ps)
      | shared =>
        (ofParts shared).append
          (alternatives bound (ps.map fun p => ofParts (p.parts.drop shared.length)))

/-- The normal form of one or more alternatives. -/
def anyOf : List Normal → Normal
  | [p] => p
  | ps => alternatives (total weight ps + 1) ps

end Normal

/-- The normal forms of the alternatives of a pattern. -/
def normalOptions : Pattern → List Normal
  | empty => [.empty]
  | char s _ => [.ofSet s]
  | check a => [.check a]
  | seq p q => [(Normal.anyOf p.normalOptions).append (.anyOf q.normalOptions)]
  | alt p q => Normal.anyOf p.normalOptions :: q.normalOptions
  | times p least most greedy => [(Normal.anyOf p.normalOptions).repeated least most greedy]
  | group none p => [.anyOf p.normalOptions]
  | group (some number) p => [.group number (.anyOf p.normalOptions)]

/-- The normal form of a pattern. -/
def normal (p : Pattern) : Normal := .anyOf p.normalOptions

end AccessPolicy.Pattern
