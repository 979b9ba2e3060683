import AccessPolicy.Path.Search
import AccessPolicy.Value.Fault

/-!
# Selectors

A selector is a step of a path that needs nothing but the value it is applied to. A key is
lenient: where there is no such member the result is undefined, and on an array it collects
the members of the items that have one. Positions and unions insist on the kind of container
that they are for.
-/

namespace AccessPolicy

/-- A step of a path that selects by name, by position or by depth alone. -/
inductive Selector where
  | key (name : String)
  | index (position : Int)
  | slice (first last stride : Option Int)
  | wildcard
  | recursiveKey (name : String)
  | recursiveIndex (position : Int)
  | recursiveWildcard
  | indices (positions : List Int)
  | keys (names : List String)
deriving DecidableEq, Repr

namespace Selector

/-- The member of some name, or those of the items of an array. -/
def selectKey (name : String) (v : Value) : Value :=
  match v.outcome with
  | .defined (.object members) =>
    match Dict.get? members name with
    | some value => Value.of value
    | none => Value.undefined
  | .defined (.array items) => Value.of (.array (items.filterMap fun item => item.member? name))
  | _ => Value.undefined

/-- The item at some position of an array. -/
def selectIndex (position : Int) (v : Value) : Value :=
  match v.items? with
  | none => Value.mismatch .array v
  | some items =>
    match (Position.resolve? position items.length).bind fun i => items[i]? with
    | some item => Value.of item
    | none => Value.fault (.indexOutOfBounds position items.length)

/-- The items of a slice of an array. -/
def selectSlice (first last stride : Option Int) (v : Value) : Value :=
  match v.items? with
  | none => Value.mismatch .array v
  | some items =>
    match Position.slice? items.length first last stride with
    | some places => Value.of (.array (Position.pick items places))
    | none => Value.fault .zeroStride

/-- The places of an array that some positions denote. -/
def places (positions : List Int) (length : Nat) : List Nat :=
  positions.filterMap fun position => Position.resolve? position length

/-- The items at some positions, each once and in the order of the array. -/
def selectIndices (positions : List Int) (v : Value) : Value :=
  match v.items? with
  | none => Value.mismatch .array v
  | some items =>
    let chosen := places positions items.length
    Value.of (.array (Position.pick items ((List.range items.length).filter chosen.contains)))

/-- The members of some names, in the order of the names. -/
def selectKeys (names : List String) (v : Value) : Value :=
  match v.outcome with
  | .defined (.object members) => Value.of (.array (names.filterMap (Dict.get? members)))
  | _ => Value.mismatch .object v

/-- The children of a container. -/
def selectChildren (v : Value) : Value :=
  match v.children? with
  | some items => Value.of (.array items)
  | none => Value.mismatch .container v

/-- What a search in a document finds; there is nothing to search in an undefined value. -/
def selectBySearch (search : Json → List Json) (v : Value) : Value :=
  match v.document? with
  | some document => Value.of (.array (search document))
  | none => Value.undefined

/-- Applies a selector to a value. An error is passed on. -/
def select (s : Selector) (v : Value) : Value :=
  if v.isError then v
  else
    match s with
    | key name => selectKey name v
    | index position => selectIndex position v
    | slice first last stride => selectSlice first last stride v
    | wildcard => selectChildren v
    | recursiveKey name => selectBySearch (Json.membersNamed name) v
    | recursiveIndex position => selectBySearch (Json.itemsAt position) v
    | recursiveWildcard => selectBySearch Json.descendants v
    | indices positions => selectIndices positions v
    | keys names => selectKeys names v

/-- The text of an optional position. -/
def boundText (bound : Option Int) : String := bound.elim "" toString

/-- The text of a selector. -/
def text : Selector → String
  | key name => "." ++ name
  | index position => "[" ++ toString position ++ "]"
  | slice first last stride =>
    "[" ++ boundText first ++ ":" ++ boundText last
      ++ (stride.elim "" fun s => ":" ++ toString s) ++ "]"
  | wildcard => ".*"
  | recursiveKey name => ".." ++ name
  | recursiveIndex position => "..[" ++ toString position ++ "]"
  | recursiveWildcard => "..*"
  | indices positions => "[" ++ ",".intercalate (positions.map toString) ++ "]"
  | keys names => "[" ++ ",".intercalate (names.map fun n => "\"" ++ n ++ "\"") ++ "]"

end Selector

end AccessPolicy
