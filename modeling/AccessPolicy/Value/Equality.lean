import AccessPolicy.Decimal.Spelling
import AccessPolicy.Value.Basic

/-!
# Equality in the language

The language compares documents by what they denote: numbers by their decimal value, arrays
item by item, objects key by key. A number without a decimal value equals only numbers that
are spelled like it.
-/

namespace AccessPolicy

/-- Whether two numerals denote the same number. -/
def Numeral.agrees (a b : Numeral) : Bool :=
  match Decimal.ofNumeral? a, Decimal.ofNumeral? b with
  | some x, some y => x.compare y == .eq
  | _, _ => a == b

namespace Json

mutual

/-- Whether two documents are equal in the language. -/
def agrees : Json → Json → Bool
  | null, null => true
  | bool a, bool b => a == b
  | number a, number b => a.agrees b
  | string a, string b => a == b
  | array as, array bs => itemsAgree as bs
  | object as, object bs => as.length == bs.length && membersAgree as bs
  | _, _ => false

/-- Whether two lists of items are equal, one by one. -/
def itemsAgree : List Json → List Json → Bool
  | [], [] => true
  | a :: as, b :: bs => agrees a b && itemsAgree as bs
  | _, _ => false

/-- Whether each of some members has an equal one under its key in an object. -/
def membersAgree : List (String × Json) → Dict String Json → Bool
  | [], _ => true
  | (key, a) :: as, bs =>
    (match Dict.get? bs key with
    | some b => agrees a b
    | none => false) && membersAgree as bs

end

end Json

namespace Value

/-- Whether two values are equal in the language: two equal documents, or two undefined
values. An error equals nothing. -/
def agrees (a b : Value) : Bool :=
  match a.outcome, b.outcome with
  | .defined x, .defined y => x.agrees y
  | .undefined, .undefined => true
  | _, _ => false

end Value

end AccessPolicy
