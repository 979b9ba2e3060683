import AccessPolicy.Pattern.Escape

/-!
# Classes in brackets

A class lists characters, ranges, named classes and classes of its own, and may be inverted by
a caret at its front. A bracket or hyphens at the front stand for themselves, and so does a
hyphen before the end. Lists are joined from left to right by `&&` for what they share, by `--`
for what the first one has alone, and by `~~` for what only one of them has.

What stands in brackets is read as a tree, since it matters how deep that nests. The set of the
tree then depends on the modes.
-/

namespace AccessPolicy.Pattern

/-- The ways to join two lists of a class. -/
inductive Join where
  | inter
  | diff
  | symmDiff
deriving DecidableEq, Repr

namespace Join

/-- The set of two joined lists. -/
def apply : Join → CharSet → CharSet → CharSet
  | inter => CharSet.inter
  | diff => CharSet.diff
  | symmDiff => CharSet.symmDiff

end Join

/-- What stands in brackets. The last item of a list stands on the right. -/
inductive Brackets where
  | nothing
  | item (s : CharSet)
  | inner (inverted : Bool) (b : Brackets)
  | list (b c : Brackets)
  | join (how : Join) (b c : Brackets)
deriving DecidableEq, Repr

namespace Brackets

/-- A list with one more item. -/
def add : Brackets → Brackets → Brackets
  | nothing, c => c
  | b, c => list b c

/-- How deep brackets nest that may stand in a list. A list counts once, however long it is, and so
does each joining. -/
def nestingIn (listed : Bool) : Brackets → Nat
  | nothing => 0
  | item _ => 0
  | inner _ b => b.nestingIn false + 1
  | list b c => max (b.nestingIn true) (c.nestingIn false) + if listed then 0 else 1
  | join _ b c => max (b.nestingIn false) (c.nestingIn false) + 1

/-- How deep brackets nest. -/
def nesting (b : Brackets) : Nat := b.nestingIn false

/-- The set that stands in brackets. Case is ignored before lists are joined and before a class is
inverted. -/
def set? (m : Modes) : Brackets → Option CharSet
  | nothing => some .none
  | item s => some s
  | inner inverted b => do m.close? inverted (← b.set? m)
  | list b c => return (← b.set? m).union (← c.set? m)
  | join how b c => return how.apply (m.widen (← b.set? m)) (m.widen (← c.set? m))

end Brackets

/-! ## Items -/

/-- Reads hyphens at the front of a class. -/
def readHyphens (m : Modes) : (bound : Nat) → Brackets → List Char → Brackets × List Char
  | 0, b, cs => (b, cs)
  | bound + 1, b, cs =>
    match cs with
    | '-' :: rest => readHyphens m bound (b.add (.item (.single '-'))) (m.skip rest)
    | cs => (b, cs)

/-- Reads the front of a class whose bracket has been read: whether it is inverted, and the
signs that stand for themselves there. -/
def readClassFront (m : Modes) (cs : List Char) : Bool × Brackets × List Char :=
  let cs := m.skip cs
  let (inverted, cs) := match cs with
    | '^' :: rest => (true, m.skip rest)
    | cs => (false, cs)
  match readHyphens m cs.length .nothing cs with
  | (.nothing, ']' :: rest) => (inverted, .item (.single ']'), m.skip rest)
  | (b, cs) => (inverted, b, cs)

/-- Reads a class named between colons, whose bracket has been read. -/
def readNamed (cs : List Char) : Option ((Bool × CharSet) × List Char) :=
  match cs with
  | ':' :: rest =>
    let (inverted, rest) := match rest with
      | '^' :: rest => (true, rest)
      | rest => (false, rest)
    match rest.span (· != ':') with
    | (name, ':' :: ']' :: rest) =>
      (CharSet.named? (String.ofList name)).map fun s => ((inverted, s), rest)
    | _ => none
  | _ => none

/-- Reads a character or an escape of a class. -/
def readMember (m : Modes) : List Char → Option (Atom × List Char)
  | [] => none
  | '\\' :: rest => readEscape m rest
  | c :: rest => some (.char c, rest)

/-- Whether a character may be listed: without the wide alphabet only a basic one. -/
def isListable (m : Modes) (c : Char) : Bool := m.unicode || c.toNat < 0x80

/-- The set of a member of a class. -/
def memberSet (m : Modes) : Atom → Option CharSet
  | .char c => if isListable m c then some (.single c) else none
  | .set s => some s
  | .check _ => none

/-- Whether a range goes on after its hyphen: neither the end of the class nor another hyphen
follows. -/
def continuesRange (m : Modes) (cs : List Char) : Bool :=
  match m.skip cs with
  | ']' :: _ => false
  | '-' :: _ => false
  | _ => true

/-- Reads a member or a range of a class. -/
def readRange (m : Modes) (cs : List Char) : Option (CharSet × List Char) := do
  let (first, rest) ← readMember m cs
  match m.skip rest with
  | [] => none
  | '-' :: more =>
    if continuesRange m more then
      let (last, rest) ← readMember m (m.skip more)
      match first, last with
      | .char a, .char b =>
        if a.toNat ≤ b.toNat && isListable m b then return (.range a.toNat b.toNat, rest) else none
      | _, _ => none
    else return (← memberSet m first, '-' :: more)
  | rest => return (← memberSet m first, rest)

/-! ## Whole classes -/

/-- What a list of a class is to be joined to. -/
abbrev Pending := Option (Join × Brackets)

/-- A list joined to what is before it. -/
def joined : Pending → Brackets → Brackets
  | none, b => b
  | some (how, before), b => .join how before b

/-- Reads the rest of a class, given whether it is inverted, what its current list is to be
joined to, and what the list has so far. The bound is at least the length of the text. -/
def readClassRest (m : Modes) : (bound : Nat) → (inverted : Bool) → Pending → Brackets →
    List Char → Option (Brackets × List Char)
  | 0, _, _, _, _ => none
  | bound + 1, inverted, pending, b, cs =>
    match m.skip cs with
    | [] => none
    | ']' :: rest => some (.inner inverted (joined pending b), rest)
    | '&' :: '&' :: rest =>
      readClassRest m bound inverted (some (.inter, joined pending b)) .nothing rest
    | '-' :: '-' :: rest =>
      readClassRest m bound inverted (some (.diff, joined pending b)) .nothing rest
    | '~' :: '~' :: rest =>
      readClassRest m bound inverted (some (.symmDiff, joined pending b)) .nothing rest
    | '[' :: rest =>
      match readNamed rest with
      | some ((turned, s), rest) => do
        readClassRest m bound inverted pending (b.add (.item (← m.close? turned s))) rest
      | none => do
        let (innerInverted, front, rest) := readClassFront m rest
        let (c, rest) ← readClassRest m bound innerInverted none front rest
        readClassRest m bound inverted pending (b.add c) rest
    | cs => do
      let (s, rest) ← readRange m cs
      readClassRest m bound inverted pending (b.add (.item s)) rest

/-- Reads a class whose bracket has been read. -/
def readClass (m : Modes) (cs : List Char) : Option (Pattern × List Char) := do
  let (inverted, front, rest) := readClassFront m cs
  let (b, rest) ← readClassRest m (cs.length + 1) inverted none front rest
  return (.char (← b.set? m) b.nesting, rest)

end AccessPolicy.Pattern
