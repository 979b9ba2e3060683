import AccessPolicy.Pattern.Class
import AccessPolicy.Text.Name

/-!
# Reading patterns

A pattern is read from left to right. Modes that are set within a group last until its end, also
in the alternatives that follow; the setting itself is an empty item. A repetition takes the item
before it; whether it is greedy or lazy makes no difference to what matches. Groups may be named,
each name once. What looks around or back is not part of the language.
-/

namespace AccessPolicy.Pattern

/-- What has been read so far that matters for the rest. -/
structure Reading where
  modes : Modes := {}
  groups : Nat := 0
  names : List String := []

/-- The pattern of the items of a sequence, the last one first. -/
def ofItems : List Pattern → Pattern
  | [] => .empty
  | last :: before => before.foldl (fun p item => .seq item p) last

/-! ## Single characters -/

/-- The pattern of a character that stands for itself. -/
def literal (m : Modes) (c : Char) : Pattern :=
  .char (if isListable m c then m.widen (.single c) else .single c) 0

/-- The pattern of an atom. -/
def ofAtom (m : Modes) : Atom → Pattern
  | .char c => literal m c
  | .set s => .char s 0
  | .check a => .check a

/-- The pattern of the dot. -/
def dot (m : Modes) : Option Pattern :=
  (m.invert? (if m.dotAll then .none
    else if m.crlf then (CharSet.single '\n').union (.single '\r')
    else .single '\n')).map fun s => .char s 0

/-- The assertion of the caret. -/
def caret (m : Modes) : Assertion :=
  if !m.multiLine then .textStart else if m.crlf then .crlfStart else .lineStart

/-- The assertion of the dollar sign. -/
def dollar (m : Modes) : Assertion :=
  if !m.multiLine then .textEnd else if m.crlf then .crlfEnd else .lineEnd

/-- Reads a single character or an escape. -/
def readAtom (m : Modes) : List Char → Option (Pattern × List Char)
  | [] => none
  | '\\' :: rest => do
    let (atom, rest) ← readEscape m rest
    return (ofAtom m atom, rest)
  | '.' :: rest => (dot m).map (·, rest)
  | '^' :: rest => some (.check (caret m), rest)
  | '$' :: rest => some (.check (dollar m), rest)
  | c :: rest => some (literal m c, rest)

/-! ## Repetitions -/

/-- The greatest number of times that can be asked for. -/
def maxTimes : Nat := 0xFFFFFFFF

/-- Reads the digits of a number of times. The bound is at least the length of the text. -/
def readDigits (m : Modes) : (bound : Nat) → List Char → List Digit × List Char
  | 0, cs => ([], cs)
  | bound + 1, cs =>
    match cs with
    | [] => ([], [])
    | c :: rest =>
      match Digit.ofChar? c with
      | some d =>
        let (ds, rest) := readDigits m bound (m.skip rest)
        (d :: ds, rest)
      | none => ([], c :: rest)

/-- Reads a number of times, blanks around it being passed over. -/
def readCount (m : Modes) (cs : List Char) : Option (Nat × List Char) :=
  let cs := cs.dropWhile Text.isBlank
  match readDigits m (cs.length + 1) cs with
  | ([], _) => none
  | (ds, rest) =>
    if Digit.value ds ≤ maxTimes then some (Digit.value ds, m.skip (rest.dropWhile Text.isBlank))
    else none

/-- Reads the least and the greatest number of times of a repetition whose brace has been
read. -/
def readCounts (m : Modes) (cs : List Char) : Option ((Nat × Option Nat) × List Char) := do
  let (least, rest) ← readCount m (m.skip cs)
  match rest with
  | '\x7d' :: rest => return ((least, some least), rest)
  | ',' :: rest =>
    match m.skip rest with
    | '\x7d' :: rest => return ((least, none), rest)
    | rest =>
      let (most, rest) ← readCount m rest
      match rest with
      | '\x7d' :: rest => if least ≤ most then return ((least, some most), rest) else none
      | _ => none
  | _ => none

/-- Reads the sign of a lazy repetition, if it is there, and says whether the repetition is
greedy. -/
def readGreed (m : Modes) : List Char → Bool × List Char
  | '?' :: rest => (m.swapGreed, rest)
  | cs => (!m.swapGreed, cs)

/-- Repeats the last item of a sequence, which must be there and not be a mere setting of modes. -/
def repeatLast (least : Nat) (most : Option Nat) (greedy : Bool) :
    List Pattern → Option (List Pattern)
  | [] => none
  | .empty :: _ => none
  | p :: items => some (.times p least most greedy :: items)

/-! ## Modes and names of groups -/

/-- Modes with one of them set or cleared. -/
def setMode (m : Modes) (c : Char) (value : Bool) : Option Modes :=
  match c with
  | 'i' => some { m with ignoreCase := value }
  | 'm' => some { m with multiLine := value }
  | 's' => some { m with dotAll := value }
  | 'R' => some { m with crlf := value }
  | 'u' => some { m with unicode := value }
  | 'x' => some { m with verbose := value }
  | 'U' => some { m with swapGreed := value }
  | _ => none

/-- Reads modes up to a colon or a closing bracket. No letter may be repeated, and neither may
the hyphen that clears the modes after it, which must not come last. -/
def readModes (value : Bool) (read : List Char) (m : Modes) :
    List Char → Option (Modes × List Char × List Char)
  | [] => none
  | c :: rest =>
    if c = ':' ∨ c = ')' then
      if read.head? = some '-' then none else some (m, read, c :: rest)
    else if read.contains c then none
    else if c = '-' then readModes false (c :: read) m rest
    else do readModes value (c :: read) (← setMode m c value) rest

/-- Whether a character may occur in a name, at its front or after that. -/
def isNameChar (first : Bool) (c : Char) : Bool :=
  c == '_' || Text.isLetter c.toNat
    || (!first && (Text.isNumber c.toNat || c == '.' || c == '[' || c == ']'))

/-- Reads a name up to its closing bracket. -/
def readName (cs : List Char) : Option (String × List Char) :=
  match cs.span (· != '>') with
  | (c :: name, '>' :: rest) =>
    if isNameChar true c && name.all (isNameChar false) then some (String.ofList (c :: name), rest)
    else none
  | _ => none

/-- How a group starts. -/
inductive GroupStart where
  | setting (m : Modes)
  | plain (m : Modes)
  | numbered (name : Option String)

/-- Reads the start of a group whose bracket has been read. -/
def readGroupStart (r : Reading) (cs : List Char) : Option (GroupStart × List Char) :=
  match cs with
  | '?' :: '=' :: _ => none
  | '?' :: '!' :: _ => none
  | '?' :: '<' :: '=' :: _ => none
  | '?' :: '<' :: '!' :: _ => none
  | '?' :: 'P' :: '<' :: rest => named rest
  | '?' :: '<' :: rest => named rest
  | '?' :: rest => do
    match ← readModes true [] r.modes rest with
    | (m, read, ')' :: rest) => if read.isEmpty then none else return (.setting m, rest)
    | (m, _, _ :: rest) => return (.plain m, rest)
    | _ => none
  | rest => some (.numbered none, rest)
where
  named (rest : List Char) : Option (GroupStart × List Char) := do
    let (name, rest) ← readName rest
    if r.names.contains name then none else return (.numbered (some name), rest)

/-- What has been read before the inside of a group that is not a mere setting: its number, and
the modes that hold in it. -/
def enter (r : Reading) : GroupStart → Option Nat × Reading
  | .setting m => (none, { r with modes := m })
  | .plain m => (none, { r with modes := m })
  | .numbered name =>
    (some (r.groups + 1), { r with groups := r.groups + 1, names := name.toList ++ r.names })

/-! ## Sequences and alternatives -/

mutual

/-- Reads alternatives up to the end of their group. The bound is more than twice the length of
the text. -/
def readAlternatives :
    (bound : Nat) → Reading → List Char → Option (Pattern × Reading × List Char)
  | 0, _, _ => none
  | bound + 1, r, cs => do
    let (p, r, cs) ← readSequence bound r [] cs
    match cs with
    | '|' :: rest =>
      let (q, r, rest) ← readAlternatives bound r rest
      return (.alt p q, r, rest)
    | cs => return (p, r, cs)

/-- Reads the rest of a sequence, given its items so far, the last one first. -/
def readSequence :
    (bound : Nat) → Reading → List Pattern → List Char → Option (Pattern × Reading × List Char)
  | 0, _, _, _ => none
  | bound + 1, r, items, cs =>
    match r.modes.skip cs with
    | [] => some (ofItems items, r, [])
    | '|' :: rest => some (ofItems items, r, '|' :: rest)
    | ')' :: rest => some (ofItems items, r, ')' :: rest)
    | '(' :: rest => do
      match ← readGroupStart r (r.modes.skip rest) with
      | (.setting m, rest) => readSequence bound { r with modes := m } (.empty :: items) rest
      | (start, rest) =>
        let (number, inner) := enter r start
        let (p, inner, rest) ← readAlternatives bound inner rest
        match rest with
        | ')' :: rest =>
          readSequence bound { inner with modes := r.modes } (.group number p :: items) rest
        | _ => none
    | '[' :: rest => do
      let (p, rest) ← readClass r.modes rest
      readSequence bound r (p :: items) rest
    | '?' :: rest => do
      let (greedy, rest) := readGreed r.modes rest
      readSequence bound r (← repeatLast 0 (some 1) greedy items) rest
    | '*' :: rest => do
      let (greedy, rest) := readGreed r.modes rest
      readSequence bound r (← repeatLast 0 none greedy items) rest
    | '+' :: rest => do
      let (greedy, rest) := readGreed r.modes rest
      readSequence bound r (← repeatLast 1 none greedy items) rest
    | '\x7b' :: rest => do
      let ((least, most), rest) ← readCounts r.modes rest
      let (greedy, rest) := readGreed r.modes (r.modes.skip rest)
      readSequence bound r (← repeatLast least most greedy items) rest
    | cs => do
      let (p, rest) ← readAtom r.modes cs
      readSequence bound r (p :: items) rest

end

/-- How deep a pattern may nest. -/
def maxNesting : Nat := 250

/-- What has been read before a pattern: nothing but the tables of properties. -/
def Reading.start (properties : Properties) : Reading := { modes := { properties := properties } }

/-- Reads a whole text as a pattern, which must not nest too deep. -/
def parse? (properties : Properties) (s : String) : Option Pattern :=
  let cs := s.toList
  match readAlternatives (2 * cs.length + 2) (.start properties) cs with
  | some (p, _, []) => if p.nesting ≤ maxNesting then some p else none
  | _ => none

end AccessPolicy.Pattern
