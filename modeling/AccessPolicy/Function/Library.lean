import AccessPolicy.Function.Basic

/-!
# The standard functions

`standard.length` counts characters, items or members. `standard.toString` and
`standard.append` render values, texts without quotes. `filter.blacken` hides the middle of a
text, and `filter.replace` gives its second argument unless the first is an error.
-/

namespace AccessPolicy.Function

/-- The length of a text, an array or an object. -/
def length : Function
  | [v] =>
    match v.outcome with
    | .defined (.string s) => .ok (Value.of (.number (.ofNat s.length)))
    | .defined (.array items) => .ok (Value.of (.number (.ofNat items.length)))
    | .defined (.object members) => .ok (Value.of (.number (.ofNat members.length)))
    | _ => .error (.argument 0 ("expected a string, array or object, got " ++ v.typeName))
  | arguments => .error (.arity "1" arguments.length)

/-- The rendering of an argument: a text as it is, any other document as JSON. -/
def render (position : Nat) (v : Value) : Except CallFailure String :=
  match v.outcome with
  | .defined (.string s) => .ok s
  | .defined document => .ok document.text
  | _ => .error (.argument position ("cannot render " ++ v.typeName))

/-- The rendering of a value as a text. -/
def toText : Function
  | [v] => (render 0 v).map fun s => Value.of (.string s)
  | arguments => .error (.arity "1" arguments.length)

/-- The renderings of some values, which stand at some position and after it. -/
def renderFrom : (position : Nat) → List Value → Except CallFailure String
  | _, [] => .ok ""
  | position, v :: vs => do
    let first ← render position v
    let rest ← renderFrom (position + 1) vs
    return first ++ rest

/-- The renderings of all arguments in a row. -/
def append : Function := fun arguments =>
  (renderFrom 0 arguments).map fun s => Value.of (.string s)

/-- The text that an argument must be. -/
def textArgument (position : Nat) (v : Value) : Except CallFailure String :=
  match v.string? with
  | some s => .ok s
  | none => .error (.argument position ("expected a string, got " ++ v.typeName))

/-- The count that an argument must be, if there is one; a missing count is zero. -/
def countArgument (position : Nat) : Option Value → Except CallFailure Nat
  | none => .ok 0
  | some v =>
    match v.outcome with
    | .defined (.number n) =>
      match n.toNat64? with
      | some count => .ok count
      | none => .error (.argument position "expected a non-negative integer")
    | _ => .error (.argument position "expected a non-negative integer")

/-- Hides the characters of a text but for some on the left and some on the right, each by a
replacement. A text with nothing in between stays as it is. -/
def mask (text : List Char) (left right : Nat) (replacement : List Char) : List Char :=
  if text.length ≤ left + right then text
  else
    text.take left ++ (List.replicate (text.length - left - right) replacement).flatten
      ++ text.drop (text.length - right)

/-- Hides the middle of a text. The arguments are the text and, each of them optional, how
many characters stay on the left and on the right, and what stands for a hidden one. -/
def blacken : Function := fun arguments =>
  match arguments with
  | [] => .error (.arity "1 to 4" 0)
  | text :: options =>
    if 3 < options.length then .error (.arity "1 to 4" (options.length + 1))
    else do
      let text ← textArgument 0 text
      let left ← countArgument 1 options[0]?
      let right ← countArgument 2 options[1]?
      let replacement ← match options[2]? with
        | some v => textArgument 3 v
        | none => .ok "X"
      if !fitsNat64 (left + right) then throw (.crashed "attempt to add with overflow")
      else
        return Value.of (.string (String.ofList (mask text.toList left right replacement.toList)))

/-- The second argument, unless the first one is an error. -/
def replace : Function
  | [v, replacement] => .ok (if v.isError then v else replacement)
  | arguments => .error (.arity "2" arguments.length)

end Function

/-- The functions that every policy can count on. -/
def Functions.standard : Functions :=
  Dict.ofEntries [
    ("standard.length", Function.length),
    ("standard.toString", Function.toText),
    ("standard.append", Function.append),
    ("filter.blacken", Function.blacken),
    ("filter.replace", Function.replace)]

end AccessPolicy
