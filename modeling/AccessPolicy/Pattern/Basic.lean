import AccessPolicy.Pattern.CharSet

/-!
# Patterns

A pattern describes parts of a text: a character of a set, a place that an assertion holds of,
parts in a row, one part or another, a part repeated, and a part put into a group. An assertion
about a place looks at the characters right before and right after it and at nothing else.
-/

namespace AccessPolicy

/-- A condition on a place in a text. A condition on words says which characters belong to
them. -/
inductive Assertion where
  | textStart
  | textEnd
  | lineStart
  | lineEnd
  | crlfStart
  | crlfEnd
  | boundary (letters : CharSet)
  | noBoundary (letters : CharSet)
  | wordStart (letters : CharSet)
  | wordEnd (letters : CharSet)
  | noWordBefore (letters : CharSet)
  | noWordAfter (letters : CharSet)
deriving DecidableEq, Repr

namespace Assertion

/-- Whether a character that may be missing is a character of a word. -/
def inWord (letters : CharSet) (c : Option Char) : Bool := c.any fun c => letters.has c.toNat

/-- Whether an assertion holds between two characters, either of which is missing at an end of
the text. -/
def holds (before after : Option Char) : Assertion → Bool
  | textStart => before.isNone
  | textEnd => after.isNone
  | lineStart => before.all (· == '\n')
  | lineEnd => after.all (· == '\n')
  | crlfStart => before.all fun c => c == '\n' || (c == '\r' && after != some '\n')
  | crlfEnd => after.all fun c => c == '\r' || (c == '\n' && before != some '\r')
  | boundary letters => inWord letters before != inWord letters after
  | noBoundary letters => inWord letters before == inWord letters after
  | wordStart letters => !inWord letters before && inWord letters after
  | wordEnd letters => inWord letters before && !inWord letters after
  | noWordBefore letters => !inWord letters before
  | noWordAfter letters => !inWord letters after

end Assertion

/-- A description of parts of a text. A set of characters remembers how deep the brackets nest in
which it was written. A repetition has a least number and perhaps a greatest number of times, and
may be greedy; a group may have a number. -/
inductive Pattern where
  | empty
  | char (s : CharSet) (brackets : Nat)
  | check (a : Assertion)
  | seq (p q : Pattern)
  | alt (p q : Pattern)
  | times (p : Pattern) (least : Nat) (most : Option Nat) (greedy : Bool)
  | group (number : Option Nat) (p : Pattern)
deriving DecidableEq, Repr

namespace Pattern

/-- The rows that parts of a pattern can be in. -/
inductive Row where
  | sequence
  | alternatives
deriving DecidableEq, Repr

/-- How deep a pattern that may continue a row nests. A row counts once, however long it is. -/
def nestingIn (row : Option Row) : Pattern → Nat
  | empty => 0
  | char _ brackets => brackets
  | check _ => 0
  | seq p q =>
    max (p.nestingIn none) (q.nestingIn (some .sequence)) + if row = some .sequence then 0 else 1
  | alt p q =>
    max (p.nestingIn none) (q.nestingIn (some .alternatives))
      + if row = some .alternatives then 0 else 1
  | times p _ _ _ => p.nestingIn none + 1
  | group _ p => p.nestingIn none + 1

/-- How deep a pattern nests. -/
def nesting (p : Pattern) : Nat := p.nestingIn none

end Pattern

end AccessPolicy
