import AccessPolicy.Index.Retrieval

/-!
# An index without an index

All targets are evaluated for each retrieval, in the order of the names of the documents.
-/

namespace AccessPolicy

/-- The documents by name. -/
structure NaiveIndex where
  table : Dict String Document := []

namespace NaiveIndex

/-- Stores a document, in place of any other of its name. -/
def insert (index : NaiveIndex) (d : Document) : NaiveIndex :=
  ⟨Dict.insert index.table d.name d⟩

/-- Removes the document of some name. -/
def erase (index : NaiveIndex) (name : String) : NaiveIndex := ⟨Dict.erase index.table name⟩

/-- The account after one more document has been considered. -/
def consider (ctx : Context) (r : Retrieval) (d : Document) : Retrieval :=
  let (v, log) := d.answer ctx
  let r := { r with evaluations := r.evaluations + 1, log := r.log ++ log }
  match v.bool? with
  | some true => { r with found := { r.found with documents := r.found.documents ++ [d] } }
  | some false => r
  | none => { r with found := { r.found with valid := false }, errors := r.errors + 1 }

/-- Finds the documents whose targets hold. -/
def retrieve (index : NaiveIndex) (ctx : Context) : Retrieval :=
  (Dict.values index.table).foldl (consider ctx) {}

end NaiveIndex

end AccessPolicy
