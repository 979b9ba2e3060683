import AccessPolicy.Json.Numeral
import AccessPolicy.Pattern.Basic

/-!
# Escapes in patterns

A backslash gives the character after it another meaning: a class, an assertion or a character
that is hard to write. Before a character that has a meaning of its own, or before any other
sign of the basic alphabet, it takes that meaning away. Letters and digits without a meaning
are refused.

A class may be given by a property of its characters. Which characters have the property is told by
tables that are not part of the language: whatever they say for what is written is taken, and what
they do not know is refused.

In verbose mode blanks and comments between the parts of an escape are passed over as well.
-/

namespace AccessPolicy.Pattern

/-- The sets of the characters that have a property, by what is written for the property. -/
abbrev Properties := String → Option CharSet

/-- The modes in which a pattern is read, with the tables of properties. -/
structure Modes where
  properties : Properties := fun _ => none
  ignoreCase : Bool := false
  multiLine : Bool := false
  dotAll : Bool := false
  crlf : Bool := false
  unicode : Bool := true
  verbose : Bool := false
  swapGreed : Bool := false

/-- Drops blanks, and comments up to the ends of their lines. -/
def dropRemarks : (inComment : Bool) → List Char → List Char
  | _, [] => []
  | true, c :: rest => dropRemarks (c != '\n') rest
  | false, c :: rest =>
    if Text.isBlank c then dropRemarks false rest
    else if c = '#' then dropRemarks true rest
    else c :: rest

namespace Modes

/-- Drops what is passed over in a mode. -/
def skip (m : Modes) (cs : List Char) : List Char := if m.verbose then dropRemarks false cs else cs

/-- The set that a class of the wide or of the basic alphabet stands for. -/
def pick (m : Modes) (wide basic : CharSet) : CharSet := if m.unicode then wide else basic

/-- The characters of words. -/
def word (m : Modes) : CharSet := m.pick .word .basicWord

/-- A set with all characters that differ at most in case, if case is ignored. The basic alphabet
is left only where the wide one may be used. -/
def widen (m : Modes) (s : CharSet) : CharSet :=
  if !m.ignoreCase then s
  else if m.unicode then s.anyCase
  else s.anyCase.inter (.range 0 0x7F)

/-- The complement of a set. Without the wide alphabet it would have octets that are no
characters, and is refused. -/
def invert? (m : Modes) (s : CharSet) : Option CharSet :=
  if m.unicode then some s.complement else none

/-- The set of a whole class, given the one that is listed. Case is ignored before the class is
inverted. -/
def close? (m : Modes) (inverted : Bool) (s : CharSet) : Option CharSet :=
  if inverted then m.invert? (m.widen s) else some (m.widen s)

/-- The class of a property. There is one only in the wide alphabet. -/
def property? (m : Modes) (inverted : Bool) (name : String) : Option CharSet :=
  if m.unicode then (m.properties name).bind (m.close? inverted) else none

end Modes

/-- What an escape or a plain character stands for. -/
inductive Atom where
  | char (c : Char)
  | set (s : CharSet)
  | check (a : Assertion)

/-- Whether a character has a meaning of its own in patterns. -/
def isMeta (c : Char) : Bool :=
  ['\\', '.', '+', '*', '?', '(', ')', '|', '[', ']', '\x7b', '\x7d', '^', '$', '#', '&', '-',
    '~'].contains c

/-- Whether a character stands for itself after a backslash. -/
def standsForItself (c : Char) : Bool :=
  isMeta c || (c.toNat < 0x80 && !c.isAlphanum && c != '<' && c != '>')

/-! ## Characters by number -/

/-- The value of a hexadecimal digit. -/
def hexDigit? (c : Char) : Option Nat :=
  if '0' ≤ c ∧ c ≤ '9' then some (c.toNat - '0'.toNat)
  else if 'a' ≤ c ∧ c ≤ 'f' then some (c.toNat - 'a'.toNat + 10)
  else if 'A' ≤ c ∧ c ≤ 'F' then some (c.toNat - 'A'.toNat + 10)
  else none

/-- The character of a code point, if there is one. -/
def charOf? (n : Nat) : Option Char := if n.isValidChar then some (Char.ofNat n) else none

/-- Reads a number of hexadecimal digits. -/
def readFixedHex (m : Modes) : (count value : Nat) → List Char → Option (Nat × List Char)
  | 0, value, cs => some (value, cs)
  | count + 1, value, cs =>
    match cs with
    | [] => none
    | c :: rest => do readFixedHex m count (value * 16 + (← hexDigit? c)) (m.skip rest)

/-- Reads characters up to a closing brace, each of which must be one that is taken. The bound is
at least the length of the text. -/
def readBraced {α : Type} (m : Modes) (take? : Char → Option α) :
    (bound : Nat) → (taken : List α) → List Char → Option (List α × List Char)
  | 0, _, _ => none
  | bound + 1, taken, cs =>
    match cs with
    | [] => none
    | c :: rest =>
      if c = '\x7d' then some (taken, m.skip rest)
      else do readBraced m take? bound (taken ++ [← take? c]) (m.skip rest)

/-- Reads a character given by its number, of so many digits unless it stands in braces. Without
the wide alphabet two digits give an octet, which must be a character by itself. -/
def readHex (m : Modes) (count : Nat) (cs : List Char) : Option (Atom × List Char) :=
  match m.skip cs with
  | '\x7b' :: rest => do
    let rest := m.skip rest
    let (digits, rest) ← readBraced m hexDigit? (rest.length + 1) [] rest
    if digits.isEmpty then none
    else return (.char (← charOf? (digits.foldl (fun n d => n * 16 + d) 0)), rest)
  | cs => do
    let (n, rest) ← readFixedHex m count 0 cs
    if !m.unicode && count = 2 && 0x7F < n then none else return (.char (← charOf? n), rest)

/-! ## Properties -/

/-- Reads what is written for a property: whatever stands in braces, or a single character. -/
def readProperty (m : Modes) (inverted : Bool) (cs : List Char) : Option (Atom × List Char) :=
  match m.skip cs with
  | [] => none
  | '\x7b' :: rest => do
    let rest := m.skip rest
    let (name, rest) ← readBraced m some (rest.length + 1) [] rest
    return (.set (← m.property? inverted (String.ofList name)), rest)
  | c :: rest => do
    if c = '\\' then none
    else return (.set (← m.property? inverted (String.ofList [c])), m.skip rest)

/-! ## Boundaries of words -/

/-- Whether a character may occur in the name of a boundary. -/
def isBoundaryChar (c : Char) : Bool := c.isAlpha || c == '-'

/-- Reads the name of a boundary up to what is not part of it. The bound is at least the length
of the text. -/
def readBoundaryName (m : Modes) : (bound : Nat) → List Char → List Char × List Char
  | 0, cs => ([], cs)
  | bound + 1, cs =>
    match cs with
    | [] => ([], [])
    | c :: rest =>
      if isBoundaryChar c then
        let (name, rest) := readBoundaryName m bound (m.skip rest)
        (c :: name, rest)
      else ([], c :: rest)

/-- The boundary of some name. -/
def boundaryNamed? (m : Modes) (name : String) : Option Assertion :=
  match name with
  | "start" => some (.wordStart m.word)
  | "end" => some (.wordEnd m.word)
  | "start-half" => some (.noWordBefore m.word)
  | "end-half" => some (.noWordAfter m.word)
  | _ => none

/-- Reads what follows the sign of a boundary: its name in braces, if the braces hold one and
not a number of times. -/
def readBoundary (m : Modes) (cs : List Char) : Option (Atom × List Char) :=
  match cs with
  | '\x7b' :: rest =>
    match m.skip rest with
    | [] => none
    | c :: rest =>
      if isBoundaryChar c then
        match readBoundaryName m (rest.length + 2) (c :: rest) with
        | (name, '\x7d' :: rest) => do
          return (.check (← boundaryNamed? m (String.ofList name)), rest)
        | _ => none
      else some (.check (.boundary m.word), cs)
  | cs => some (.check (.boundary m.word), cs)

/-! ## Escapes -/

/-- The class that a letter stands for, and whether it is inverted. -/
def classOf? (m : Modes) (c : Char) : Option (Bool × CharSet) :=
  match c with
  | 'd' => some (false, m.pick .digit .basicDigit)
  | 's' => some (false, m.pick .blank .basicBlank)
  | 'w' => some (false, m.word)
  | 'D' => some (true, m.pick .digit .basicDigit)
  | 'S' => some (true, m.pick .blank .basicBlank)
  | 'W' => some (true, m.word)
  | _ => none

/-- The character or the assertion that a letter or sign stands for. -/
def meaningOf? (m : Modes) (c : Char) : Option Atom :=
  match c with
  | 'a' => some (.char '\x07')
  | 'f' => some (.char '\x0c')
  | 't' => some (.char '\t')
  | 'n' => some (.char '\n')
  | 'r' => some (.char '\r')
  | 'v' => some (.char '\x0b')
  | 'A' => some (.check .textStart)
  | 'z' => some (.check .textEnd)
  | 'B' => some (.check (.noBoundary m.word))
  | '<' => some (.check (.wordStart m.word))
  | '>' => some (.check (.wordEnd m.word))
  | _ => none

/-- Reads an escape whose backslash has been read. -/
def readEscape (m : Modes) : List Char → Option (Atom × List Char)
  | [] => none
  | c :: rest =>
    match c with
    | 'x' => readHex m 2 rest
    | 'u' => readHex m 4 rest
    | 'U' => readHex m 8 rest
    | 'b' => readBoundary m rest
    | 'p' => readProperty m false rest
    | 'P' => readProperty m true rest
    | c =>
      match classOf? m c with
      | some (inverted, s) =>
        (if inverted then m.invert? s else some s).map fun s => (.set s, rest)
      | none =>
        if standsForItself c then some (.char c, rest)
        else (meaningOf? m c).map fun atom => (atom, rest)

end AccessPolicy.Pattern
