import AccessPolicy.Dict
import AccessPolicy.Json.Numeral

/-!
# JSON documents

Subjects, resources, obligations and all other payloads are JSON. A document is *canonical*
when the members of each of its objects stand in ascending key order without a repeated key;
canonical documents are equal as values exactly when they are equal as trees. A document as it
was written may repeat keys, of which `canonical?` keeps the last one, and may hold numbers in
the form of objects. An object whose first key says that it is a number must be nothing else.
-/

namespace AccessPolicy

/-- A JSON document. -/
inductive Json where
  | null
  | bool (value : Bool)
  | number (numeral : Numeral)
  | string (text : String)
  | array (items : List Json)
  | object (members : List (String × Json))
deriving Inhabited

namespace Json

/-! ## Equality of trees -/

mutual

/-- Whether two documents are the same tree. Numbers are the same when they are spelled the
same. -/
def same : Json → Json → Bool
  | null, null => true
  | bool a, bool b => decide (a = b)
  | number a, number b => decide (a = b)
  | string a, string b => decide (a = b)
  | array as, array bs => sameItems as bs
  | object as, object bs => sameMembers as bs
  | _, _ => false

/-- Whether two lists of documents are the same. -/
def sameItems : List Json → List Json → Bool
  | [], [] => true
  | a :: as, b :: bs => same a b && sameItems as bs
  | _, _ => false

/-- Whether two lists of members are the same. -/
def sameMembers : List (String × Json) → List (String × Json) → Bool
  | [], [] => true
  | (k, a) :: as, (l, b) :: bs => decide (k = l) && same a b && sameMembers as bs
  | _, _ => false

end

mutual

theorem same_self : (a : Json) → same a a = true
  | null => rfl
  | bool _ => by simp [same]
  | number _ => by simp [same]
  | string _ => by simp [same]
  | array as => by simp [same, sameItems_self as]
  | object as => by simp [same, sameMembers_self as]

theorem sameItems_self : (as : List Json) → sameItems as as = true
  | [] => rfl
  | a :: as => by simp [sameItems, same_self a, sameItems_self as]

theorem sameMembers_self : (as : List (String × Json)) → sameMembers as as = true
  | [] => rfl
  | (k, a) :: as => by simp [sameMembers, same_self a, sameMembers_self as]

end

mutual

theorem eq_of_same : (a b : Json) → same a b = true → a = b
  | null, b, h => by cases b <;> simp_all [same]
  | bool _, b, h => by cases b <;> simp_all [same]
  | number _, b, h => by cases b <;> simp_all [same]
  | string _, b, h => by cases b <;> simp_all [same]
  | array as, b, h => by
    cases b with
    | array bs => rw [eq_of_sameItems as bs (by simpa [same] using h)]
    | _ => simp [same] at h
  | object as, b, h => by
    cases b with
    | object bs => rw [eq_of_sameMembers as bs (by simpa [same] using h)]
    | _ => simp [same] at h

theorem eq_of_sameItems : (as bs : List Json) → sameItems as bs = true → as = bs
  | [], bs, h => by cases bs <;> simp_all [sameItems]
  | a :: as, bs, h => by
    cases bs with
    | nil => simp [sameItems] at h
    | cons b bs =>
      simp only [sameItems, Bool.and_eq_true] at h
      rw [eq_of_same a b h.1, eq_of_sameItems as bs h.2]

theorem eq_of_sameMembers :
    (as bs : List (String × Json)) → sameMembers as bs = true → as = bs
  | [], bs, h => by cases bs <;> simp_all [sameMembers]
  | (k, a) :: as, bs, h => by
    cases bs with
    | nil => simp [sameMembers] at h
    | cons b bs =>
      obtain ⟨l, b⟩ := b
      simp only [sameMembers, Bool.and_eq_true, decide_eq_true_eq] at h
      rw [h.1.1, eq_of_same a b h.1.2, eq_of_sameMembers as bs h.2]

end

/-- The test for the same tree decides equality. -/
theorem same_iff (a b : Json) : same a b = true ↔ a = b :=
  ⟨eq_of_same a b, fun h => h ▸ same_self a⟩

instance : DecidableEq Json := fun a b => decidable_of_iff _ (same_iff a b)

/-! ## Canonical documents -/

/-- The key of a number that is written as an object. -/
def numberKey : String := "$serde_json::private::Number"

/-- Whether the members of an object are meant to be a number: the first of them has the key for
that. -/
def isNumberForm : List (String × Json) → Bool
  | (key, _) :: _ => key == numberKey
  | [] => false

/-- The number that is written as an object: its one member is a string that spells it. -/
def numberForm? : List (String × Json) → Option Json
  | [(_, string text)] => (Numeral.parse? text).map number
  | _ => none

mutual

/-- The canonical document of a document as it was written, if there is one: members in
ascending key order, the last member of each key, and a number for each object that is meant to
be one. -/
def canonical? : Json → Option Json
  | null => some null
  | bool b => some (bool b)
  | number n => some (number n)
  | string s => some (string s)
  | array items => (canonicalItems? items).map array
  | object members =>
    if isNumberForm members then numberForm? members
    else (canonicalMembers? members []).map object

/-- The canonical documents of a list of documents. -/
def canonicalItems? : List Json → Option (List Json)
  | [] => some []
  | item :: items => do return (← canonical? item) :: (← canonicalItems? items)

/-- Adds members in the order they were written to those already kept. -/
def canonicalMembers? : List (String × Json) → Dict String Json → Option (Dict String Json)
  | [], kept => some kept
  | (key, value) :: members, kept => do
    canonicalMembers? members (Dict.insert kept key (← canonical? value))

end

/-! ## Views -/

/-- The member of an object under a key. -/
def member? : Json → String → Option Json
  | object members, key => Dict.get? members key
  | _, _ => none

/-- The children of a container, in order. -/
def children? : Json → Option (List Json)
  | array items => some items
  | object members => some (Dict.values members)
  | _ => none

/-- The word for the kind of a document. -/
def kindName : Json → String
  | null => "null"
  | bool _ => "boolean"
  | number _ => "number"
  | string _ => "string"
  | array _ => "array"
  | object _ => "object"

end Json

end AccessPolicy
