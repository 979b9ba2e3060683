import AccessPolicy.Json.Basic

/-!
# Reading documents

A text is read as the document that it spells, members in the order written and repeated
keys included; `parse?` takes the canonical document of that, if there is one. What is refused
is refused without a reason: callers report only that the text is no document.

Containers may nest at most `maxNesting` deep, which also bounds the recursion.
-/

namespace AccessPolicy.Json

/-- How many containers may enclose a value. -/
def maxNesting : Nat := 127

/-- Drops blanks: space, tab, line feed, carriage return. -/
def skipBlanks : List Char → List Char
  | c :: rest => if c = ' ' ∨ c = '\t' ∨ c = '\n' ∨ c = '\r' then skipBlanks rest else c :: rest
  | [] => []

/-- Removes an expected word from the front of a text. -/
def dropWord? : List Char → List Char → Option (List Char)
  | [], rest => some rest
  | w :: word, c :: rest => if w = c then dropWord? word rest else none
  | _ :: _, [] => none

/-! ## Strings -/

/-- The value of a hexadecimal digit. -/
def hexValue? (c : Char) : Option Nat :=
  if '0' ≤ c ∧ c ≤ '9' then some (c.toNat - '0'.toNat)
  else if 'a' ≤ c ∧ c ≤ 'f' then some (c.toNat - 'a'.toNat + 10)
  else if 'A' ≤ c ∧ c ≤ 'F' then some (c.toNat - 'A'.toNat + 10)
  else none

/-- Reads the four hexadecimal digits of an escaped unit. -/
def readUnit? : List Char → Option (Nat × List Char)
  | a :: b :: c :: d :: rest => do
    let a ← hexValue? a
    let b ← hexValue? b
    let c ← hexValue? c
    let d ← hexValue? d
    return (((a * 16 + b) * 16 + c) * 16 + d, rest)
  | _ => none

/-- Reads the character of an escape whose backslash has been read. A high surrogate must be
followed by an escaped low one. -/
def readEscape? : List Char → Option (Char × List Char)
  | '"' :: rest => some ('"', rest)
  | '\\' :: rest => some ('\\', rest)
  | '/' :: rest => some ('/', rest)
  | 'b' :: rest => some ('\x08', rest)
  | 'f' :: rest => some ('\x0c', rest)
  | 'n' :: rest => some ('\n', rest)
  | 'r' :: rest => some ('\r', rest)
  | 't' :: rest => some ('\t', rest)
  | 'u' :: rest => do
    let (high, rest) ← readUnit? rest
    if high < 0xD800 ∨ 0xE000 ≤ high then
      return (Char.ofNat high, rest)
    else if high < 0xDC00 then
      match rest with
      | '\\' :: 'u' :: rest =>
        let (low, rest) ← readUnit? rest
        if 0xDC00 ≤ low ∧ low < 0xE000 then
          return (Char.ofNat (0x10000 + (high - 0xD800) * 0x400 + (low - 0xDC00)), rest)
        else none
      | _ => none
    else none
  | _ => none

/-- Reads the characters of a string up to its closing quote. The bound is at least the
length of the text. -/
def readChars? : (bound : Nat) → List Char → Option (List Char × List Char)
  | 0, _ => none
  | _ + 1, [] => none
  | bound + 1, c :: rest =>
    if c = '"' then some ([], rest)
    else if c = '\\' then do
      let (c, rest) ← readEscape? rest
      let (cs, rest) ← readChars? bound rest
      return (c :: cs, rest)
    else if c.toNat < 0x20 then none
    else do
      let (cs, rest) ← readChars? bound rest
      return (c :: cs, rest)

/-- Reads a string whose opening quote has been read. -/
def readString? (cs : List Char) : Option (String × List Char) := do
  let (chars, rest) ← readChars? (cs.length + 1) cs
  return (String.ofList chars, rest)

/-! ## Values -/

/-- Reads the rest of a list whose first item has been announced: items parted by commas up
to the closing character. The bound is at least the length of the text. -/
def readList? {α : Type} (item : List Char → Option (α × List Char)) (close : Char) :
    (bound : Nat) → List Char → Option (List α × List Char)
  | 0, _ => none
  | bound + 1, cs => do
    let (first, rest) ← item cs
    match skipBlanks rest with
    | c :: rest =>
      if c = close then return ([first], rest)
      else if c = ',' then
        let (items, rest) ← readList? item close bound rest
        return (first :: items, rest)
      else none
    | [] => none

/-- Reads a list whose opening character has been read; it may be empty. -/
def readItems? {α : Type} (item : List Char → Option (α × List Char)) (close : Char)
    (cs : List Char) : Option (List α × List Char) :=
  match skipBlanks cs with
  | c :: rest => if c = close then some ([], rest) else readList? item close cs.length (c :: rest)
  | [] => none

/-- Reads a member of an object with a given reader for the value under a key. -/
def readMember? {α : Type} (value : String → List Char → Option (α × List Char))
    (cs : List Char) : Option ((String × α) × List Char) :=
  match skipBlanks cs with
  | '"' :: rest => do
    let (key, rest) ← readString? rest
    match skipBlanks rest with
    | ':' :: rest =>
      let (value, rest) ← value key rest
      return ((key, value), rest)
    | _ => none
  | _ => none

/-- Reads a value that is no container. -/
def readScalar? (cs : List Char) : Option (Json × List Char) :=
  match cs with
  | 'n' :: rest => (dropWord? ['u', 'l', 'l'] rest).map (null, ·)
  | 't' :: rest => (dropWord? ['r', 'u', 'e'] rest).map (bool true, ·)
  | 'f' :: rest => (dropWord? ['a', 'l', 's', 'e'] rest).map (bool false, ·)
  | '"' :: rest => (readString? rest).map fun (s, rest) => (string s, rest)
  | cs => (Numeral.read? cs).map fun (n, rest) => (number n, rest)

/-- Reads a value that may nest a given number of containers. -/
def readValue? : (nesting : Nat) → List Char → Option (Json × List Char)
  | 0, cs => readScalar? (skipBlanks cs)
  | nesting + 1, cs =>
    match skipBlanks cs with
    | '[' :: rest => (readItems? (readValue? nesting) ']' rest).map fun (items, rest) =>
        (array items, rest)
    | '\x7b' :: rest =>
      (readItems? (readMember? fun _ => readValue? nesting) '\x7d' rest).map
        fun (members, rest) => (object members, rest)
    | cs => readScalar? cs

/-- Reads a whole text as the document that it spells. -/
def read? (s : String) : Option Json := do
  let (document, rest) ← readValue? maxNesting s.toList
  if (skipBlanks rest).isEmpty then some document else none

/-- Reads a whole text as a canonical document. -/
def parse? (s : String) : Option Json := (read? s).bind canonical?

end AccessPolicy.Json
