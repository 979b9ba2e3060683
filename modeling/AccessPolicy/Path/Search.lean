import AccessPolicy.Json.Basic
import AccessPolicy.Path.Position

/-!
# Searching a document at every depth

A search visits a document before what it contains, and the children of a container in order.
-/

namespace AccessPolicy.Json

mutual

/-- The members of some name in a document, at every depth. -/
def membersNamed (name : String) : Json → List Json
  | object members => (Dict.get? members name).toList ++ membersNamedInMembers name members
  | array items => membersNamedInItems name items
  | _ => []

/-- The members of some name in some documents, at every depth. -/
def membersNamedInItems (name : String) : List Json → List Json
  | [] => []
  | item :: items => membersNamed name item ++ membersNamedInItems name items

/-- The members of some name in the values of some members, at every depth. -/
def membersNamedInMembers (name : String) : List (String × Json) → List Json
  | [] => []
  | (_, value) :: members => membersNamed name value ++ membersNamedInMembers name members

end

mutual

/-- The items at some position of the arrays in a document, at every depth. -/
def itemsAt (position : Int) : Json → List Json
  | array items =>
    ((Position.resolve? position items.length).bind fun i => items[i]?).toList
      ++ itemsAtInItems position items
  | object members => itemsAtInMembers position members
  | _ => []

/-- The items at some position of the arrays in some documents, at every depth. -/
def itemsAtInItems (position : Int) : List Json → List Json
  | [] => []
  | item :: items => itemsAt position item ++ itemsAtInItems position items

/-- The items at some position of the arrays in the values of some members, at every
depth. -/
def itemsAtInMembers (position : Int) : List (String × Json) → List Json
  | [] => []
  | (_, value) :: members => itemsAt position value ++ itemsAtInMembers position members

end

mutual

/-- Everything that a document contains, at every depth. -/
def descendants : Json → List Json
  | array items => descendantsOfItems items
  | object members => descendantsOfMembers members
  | _ => []

/-- Some documents and everything that they contain. -/
def descendantsOfItems : List Json → List Json
  | [] => []
  | item :: items => item :: descendants item ++ descendantsOfItems items

/-- The values of some members and everything that they contain. -/
def descendantsOfMembers : List (String × Json) → List Json
  | [] => []
  | (_, value) :: members => value :: descendants value ++ descendantsOfMembers members

end

end AccessPolicy.Json
