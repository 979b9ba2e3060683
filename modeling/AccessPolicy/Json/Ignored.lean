import AccessPolicy.Json.Parser

/-!
# Ignored values

A value that nobody asks for is passed over without being read. It must be well formed, but it
may nest as deep as it likes, its strings may hold surrogates that stand alone, and objects that
are meant to be numbers are not looked into.
-/

namespace AccessPolicy.Json

/-- Passes over an escape whose backslash has been read. -/
def passEscape? : List Char → Option (List Char)
  | 'u' :: rest => (readUnit? rest).map fun (_, rest) => rest
  | c :: rest =>
    if ['"', '\\', '/', 'b', 'f', 'n', 'r', 't'].contains c then some rest else none
  | [] => none

/-- Passes over the characters of a string up to its closing quote. The bound is at least the
length of the text. -/
def passString? : (bound : Nat) → List Char → Option (List Char)
  | 0, _ => none
  | _ + 1, [] => none
  | bound + 1, c :: rest =>
    if c = '"' then some rest
    else if c = '\\' then do passString? bound (← passEscape? rest)
    else if c.toNat < 0x20 then none
    else passString? bound rest

/-- Passes over a member of an object with a given way to pass over its value. -/
def passMember? (value : List Char → Option (Unit × List Char)) (cs : List Char) :
    Option (Unit × List Char) :=
  match skipBlanks cs with
  | '"' :: rest => do
    match skipBlanks (← passString? rest.length rest) with
    | ':' :: rest => value rest
    | _ => none
  | _ => none

/-- Passes over a value. The bound is greater than the number of containers around any part of
it. -/
def passValue? : (bound : Nat) → List Char → Option (Unit × List Char)
  | 0, _ => none
  | bound + 1, cs =>
    match skipBlanks cs with
    | '[' :: rest => (readItems? (passValue? bound) ']' rest).map fun (_, rest) => ((), rest)
    | '\x7b' :: rest =>
      (readItems? (passMember? (passValue? bound)) '\x7d' rest).map fun (_, rest) => ((), rest)
    | '"' :: rest => (passString? rest.length rest).map fun rest => ((), rest)
    | cs => (readScalar? cs).map fun (_, rest) => ((), rest)

end AccessPolicy.Json
