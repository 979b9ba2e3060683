import AccessPolicy.Evaluation.Context
import AccessPolicy.Path.Selector
import AccessPolicy.Stream.Combine
import AccessPolicy.Stream.Switch

/-!
# Editing a document in place

An edit goes down from a document along its steps and puts the results of its action in the
places that it reaches; what it does not reach stays as it is. A part whose result is undefined
goes away. An error anywhere in a container is the result of the whole container.

A key passes through arrays to their items, and leaves alone what has no such member. A
recursive key does so at every depth, and what it finds is not searched again.
-/

namespace AccessPolicy

/-- A step of an edit: a selector, a condition that each child of a container must meet, or a
step that no edit can follow, with its text. -/
inductive EditStep where
  | select (selector : Selector)
  | condition (test : Json → Machine Value)
  | unsupported (text : String)

namespace EditStep

/-- The stream of an unchanged document. -/
def keep (document : Json) : Machine Value := .just (Value.of document)

/-- The stream of the array of the latest results of its items. -/
def rebuildArray (items : List (Machine Value)) : Machine Value :=
  (Machine.combineLatest items).map Value.arrayOf

/-- The stream of the object of the latest results of its members. -/
def rebuildObject (members : List (String × Machine Value)) : Machine Value :=
  (Machine.combineLatest (members.map Prod.snd)).map (Value.objectOf (members.map Prod.fst))

/-- Edits the items of an array at some places. -/
def editAt (next : Json → Machine Value) (chosen : List Nat) (items : List Json) :
    Machine Value :=
  rebuildArray (items.zipIdx.map fun (item, i) =>
    if chosen.contains i then next item else keep item)

/-- Edits the members of an object that have some names. -/
def editNamed (next : Json → Machine Value) (names : List String)
    (members : List (String × Json)) : Machine Value :=
  rebuildObject (members.map fun (key, value) =>
    (key, if names.contains key then next value else keep value))

mutual

/-- Edits the members of some name of an object, or of the items of an array. -/
def editKey (name : String) (next : Json → Machine Value) : Json → Machine Value
  | .object members =>
    if Dict.hasKey members name then editNamed next [name] members else keep (.object members)
  | .array items => rebuildArray (editKeyOfItems name next items)
  | document => keep document

/-- Edits the members of some name of some items. -/
def editKeyOfItems (name : String) (next : Json → Machine Value) :
    List Json → List (Machine Value)
  | [] => []
  | item :: items => editKey name next item :: editKeyOfItems name next items

end

mutual

/-- Edits the members of some name at every depth. -/
def editEverywhere (name : String) (next : Json → Machine Value) : Json → Machine Value
  | .object members => rebuildObject (editEverywhereInMembers name next members)
  | .array items => rebuildArray (editEverywhereInItems name next items)
  | document => keep document

/-- Edits the members of some name in some items, at every depth. -/
def editEverywhereInItems (name : String) (next : Json → Machine Value) :
    List Json → List (Machine Value)
  | [] => []
  | item :: items => editEverywhere name next item :: editEverywhereInItems name next items

/-- Edits those of some members that have some name, and goes on in the others. -/
def editEverywhereInMembers (name : String) (next : Json → Machine Value) :
    List (String × Json) → List (String × Machine Value)
  | [] => []
  | (key, value) :: members =>
    (key, if key = name then next value else editEverywhere name next value)
      :: editEverywhereInMembers name next members

end

/-- The stream of the mismatch of a document that is not what a step is for. -/
def refuse (expected : Expectation) (document : Json) : Machine Value :=
  .just (Value.mismatch expected (Value.of document))

/-- Edits the children of a container that meet a condition. -/
def editIf (test : Json → Machine Value) (next : Json → Machine Value) (child : Json) :
    Machine Value :=
  (test child).switchMap fun check =>
    match Value.requireBool check with
    | .ok true => next child
    | .ok false => keep child
    | .error e => .just e

/-- Follows a selector into a document. -/
def editSelected (s : Selector) (next : Json → Machine Value) (document : Json) :
    Machine Value :=
  match s, document with
  | .key name, document => editKey name next document
  | .recursiveKey name, document => editEverywhere name next document
  | .index position, .array items =>
    match Position.resolve? position items.length with
    | some i => editAt next [i] items
    | none => .just (Value.fault (.indexOutOfBounds position items.length))
  | .slice first last stride, .array items =>
    match Position.slice? items.length first last stride with
    | some places => editAt next places items
    | none => .just (Value.fault .zeroStride)
  | .indices positions, .array items => editAt next (Selector.places positions items.length) items
  | .wildcard, .array items => rebuildArray (items.map next)
  | .wildcard, .object members =>
    rebuildObject (members.map fun (key, value) => (key, next value))
  | .keys names, .object members => editNamed next names members
  | .index _, document => refuse .array document
  | .slice _ _ _, document => refuse .array document
  | .indices _, document => refuse .array document
  | .wildcard, document => refuse .container document
  | .keys _, document => refuse .object document
  | s, _ => .just (Value.fault (.unsupportedTarget s.text))

/-- Follows a step into a document. -/
def edit (step : EditStep) (next : Json → Machine Value) (document : Json) : Machine Value :=
  match step, document with
  | select s, document => editSelected s next document
  | condition test, .array items => rebuildArray (items.map (editIf test next))
  | condition test, .object members =>
    rebuildObject (members.map fun (key, value) => (key, editIf test next value))
  | condition _, document => refuse .container document
  | unsupported text, _ => .just (Value.fault (.unsupportedTarget text))

/-- Goes down into a document along some steps and applies an action to what they reach. -/
def editAlong (action : Json → Machine Value) : List EditStep → Json → Machine Value
  | [] => action
  | step :: steps => step.edit (editAlong action steps)

/-- Edits a document from its root, or from each of its items. The action is given the root
that it is applied under and the part that it is applied to. -/
def editDocument (each : Bool) (steps : List EditStep)
    (action : (root part : Json) → Machine Value) (document : Json) : Machine Value :=
  if each then
    match document with
    | .array items => rebuildArray (items.map fun item => editAlong (action item) steps item)
    | _ => .just (Value.fault .eachOfNonArray)
  else editAlong (action document) steps document

end EditStep

end AccessPolicy
