import AccessPolicy.Text.Blank
import AccessPolicy.Text.CaseFold
import AccessPolicy.Text.DecimalDigit
import AccessPolicy.Text.WordChar

/-!
# Sets of characters

A set of characters is the list of its ranges, in ascending order and with gaps between them, so
that a set has one list. Classes of characters in a pattern are built from ranges and the named
classes by the operations of sets, and may be widened to all characters that differ at most in
case.
-/

namespace AccessPolicy

/-- A set of characters. -/
structure CharSet where
  ranges : List (Nat × Nat)
deriving DecidableEq, Repr

namespace CharSet

/-- Whether the character of a code point is in a set. -/
def has (s : CharSet) (n : Nat) : Bool := Text.inRanges s.ranges n

/-! ## Ranges -/

/-- Adds a range to some ranges, and joins it with those that it meets. -/
def insertRange (low high : Nat) : List (Nat × Nat) → List (Nat × Nat)
  | [] => [(low, high)]
  | (a, b) :: rest =>
    if high + 1 < a then (low, high) :: (a, b) :: rest
    else if b + 1 < low then (a, b) :: insertRange low high rest
    else insertRange (min low a) (max high b) rest

/-- The last code point. -/
def lastCode : Nat := 0x10FFFF

/-- The gaps between ascending ranges, from a code point on. -/
def gaps (start : Nat) : List (Nat × Nat) → List (Nat × Nat)
  | [] => if start ≤ lastCode then [(start, lastCode)] else []
  | (low, high) :: rest =>
    if start < low then (start, low - 1) :: gaps (high + 1) rest else gaps (high + 1) rest

/-! ## Operations -/

/-- The set of no character. -/
def none : CharSet := ⟨[]⟩

/-- The characters from one code point to another. -/
def range (low high : Nat) : CharSet := ⟨[(low, high)]⟩

/-- The set of one character. -/
def single (c : Char) : CharSet := range c.toNat c.toNat

/-- A set with some ranges added. -/
def insertAll (s : CharSet) (ranges : List (Nat × Nat)) : CharSet :=
  ⟨ranges.foldr (fun r rest => insertRange r.1 r.2 rest) s.ranges⟩

/-- The characters of two sets. -/
def union (s t : CharSet) : CharSet := t.insertAll s.ranges

/-- The characters that are not in a set. Surrogates are no characters. -/
def complement (s : CharSet) : CharSet := ⟨gaps 0 (insertRange 0xD800 0xDFFF s.ranges)⟩

/-- The characters that two sets share. -/
def inter (s t : CharSet) : CharSet := (s.complement.union t.complement).complement

/-- The characters of a set that are not in another one. -/
def diff (s t : CharSet) : CharSet := (s.complement.union t).complement

/-- The characters that are in one of two sets but not in both. -/
def symmDiff (s t : CharSet) : CharSet := (s.diff t).union (t.diff s)

/-- The characters that differ from those of a set at most in case. -/
def anyCase (s : CharSet) : CharSet :=
  let folded := s.insertAll (Text.foldedRanges s.ranges)
  folded.insertAll (Text.unfoldedRanges folded.ranges)

/-! ## Named sets -/

/-- The decimal digits. -/
def digit : CharSet := ⟨Text.digitRanges⟩

/-- The characters of words. -/
def word : CharSet := ⟨Text.wordRanges⟩

/-- The blanks. -/
def blank : CharSet := ⟨Text.blankRanges⟩

/-- The union of some ranges. -/
def ofRanges (ranges : List (Char × Char)) : CharSet :=
  none.insertAll (ranges.map fun r => (r.1.toNat, r.2.toNat))

/-- The digits of the basic alphabet. -/
def basicDigit : CharSet := ofRanges [('0', '9')]

/-- The letters and digits of the basic alphabet and the underscore. -/
def basicWord : CharSet := ofRanges [('0', '9'), ('A', 'Z'), ('_', '_'), ('a', 'z')]

/-- The blanks of the basic alphabet. -/
def basicBlank : CharSet := ofRanges [('\t', '\r'), (' ', ' ')]

/-- The classes that are named between colons. -/
def named? (name : String) : Option CharSet :=
  match name with
  | "alnum" => some (ofRanges [('0', '9'), ('A', 'Z'), ('a', 'z')])
  | "alpha" => some (ofRanges [('A', 'Z'), ('a', 'z')])
  | "ascii" => some (range 0 0x7F)
  | "blank" => some (ofRanges [('\t', '\t'), (' ', ' ')])
  | "cntrl" => some (union (range 0 0x1F) (range 0x7F 0x7F))
  | "digit" => some basicDigit
  | "graph" => some (ofRanges [('!', '~')])
  | "lower" => some (ofRanges [('a', 'z')])
  | "print" => some (ofRanges [(' ', '~')])
  | "punct" => some (ofRanges [('!', '/'), (':', '@'), ('[', '\x60'), ('\x7b', '~')])
  | "space" => some basicBlank
  | "upper" => some (ofRanges [('A', 'Z')])
  | "word" => some basicWord
  | "xdigit" => some (ofRanges [('0', '9'), ('A', 'F'), ('a', 'f')])
  | _ => Option.none

end CharSet

end AccessPolicy
