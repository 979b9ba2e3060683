import AccessPolicy.Json.Printer

/-!
# Decisions

The answer to a request is a verdict with what goes along with it: obligations that must be
met, advice that may be followed, and a document that takes the place of the requested
resource.
-/

namespace AccessPolicy

/-- What a decision says. -/
inductive Verdict where
  | permit
  | deny
  | notApplicable
  | indeterminate
deriving DecidableEq, Repr

namespace Verdict

/-- The word for a verdict. -/
def word : Verdict → String
  | permit => "PERMIT"
  | deny => "DENY"
  | notApplicable => "NOT_APPLICABLE"
  | indeterminate => "INDETERMINATE"

/-- All verdicts. -/
def all : List Verdict := [permit, deny, notApplicable, indeterminate]

end Verdict

/-- A verdict with what goes along with it. -/
structure Decision where
  verdict : Verdict
  resource : Option Json := none
  obligations : List Json := []
  advice : List Json := []
deriving DecidableEq

namespace Decision

/-- The decision that a document does not apply. -/
def notApplicable : Decision := ⟨.notApplicable, none, [], []⟩

/-- The decision that none can be made. -/
def indeterminate : Decision := ⟨.indeterminate, none, [], []⟩

/-- A list of documents under a key, which is left out if it is empty. -/
def listMember (key : String) (items : List Json) : List (String × Json) :=
  if items.isEmpty then [] else [(key, .array items)]

/-- The members of the document of a decision, in the order in which they are read. -/
def members (d : Decision) : List (String × Json) :=
  ("decision", .string d.verdict.word)
    :: ((d.resource.map fun r => ("resource", r)).toList
      ++ listMember "obligations" d.obligations ++ listMember "advice" d.advice)

/-- The document of a decision. -/
def toJson (d : Decision) : Json := .object (Dict.ofEntries d.members)

/-- The text of a decision. -/
def text (d : Decision) : String := (Json.object d.members).text

end Decision

/-- A combining algorithm makes one decision of several. -/
abbrev Algorithm := List Decision → Decision

/-- The combining algorithms that can be named. -/
abbrev Algorithms := Dict String Algorithm

end AccessPolicy
