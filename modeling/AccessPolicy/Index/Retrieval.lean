import AccessPolicy.Policy.Decide

/-!
# What an index retrieves

Retrieving gives the documents whose targets hold, in the order of their names, whether all
answers that were needed could be had, and an account of the work: how many answers were
computed and how many of them were errors. Nothing that is retrieved can be relied on if an
answer was missing.
-/

namespace AccessPolicy

/-- The documents that were found, and whether nothing was missed. -/
structure Matches where
  documents : List Document := []
  valid : Bool := true

namespace Matches

/-- The result of a retrieval that was not made. -/
def invalid : Matches := ⟨[], false⟩

/-- The names of the documents that were found. -/
def names (r : Matches) : List String := r.documents.map Document.name

/-- The streams of the decisions of the documents that were found. -/
def evaluate (r : Matches) (ctx : Context) : List (Machine Decision) :=
  r.documents.map fun d => d.evaluate ctx

/-- The stream of what an algorithm makes of the decisions of the documents that were found.
Where something was missed no decision can be made. -/
def combined (r : Matches) (ctx : Context) (algorithm : Algorithm) : Machine Decision :=
  if r.valid then combineDecisions (r.evaluate ctx) algorithm
  else .just Decision.indeterminate

end Matches

/-- What was found, at what cost. -/
structure Retrieval where
  found : Matches := {}
  evaluations : Nat := 0
  errors : Nat := 0
  log : List Event := []

namespace Retrieval

/-- The retrieval that was not made. -/
def invalid : Retrieval := { found := Matches.invalid }

end Retrieval

end AccessPolicy
