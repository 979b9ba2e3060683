import AccessPolicy.Index.Canonical
import AccessPolicy.Index.Naive

/-!
# Indexes

An index stores documents by name and finds those whose targets hold. The two kinds of index
find the same documents wherever all targets can be evaluated, at different costs.
-/

namespace AccessPolicy

/-- The kinds of index. -/
inductive IndexKind where
  | canonical
  | naive
deriving DecidableEq, Repr

/-- An index of either kind. -/
inductive Index where
  | canonical (index : CanonicalIndex)
  | naive (index : NaiveIndex)

namespace Index

/-- The index of some kind without documents. -/
def empty (kind : IndexKind) (maxClauses : Nat) : Index :=
  match kind with
  | .canonical => canonical (CanonicalIndex.empty maxClauses)
  | .naive => naive {}

/-- Stores a document, in place of any other of its name. -/
def insert (index : Index) (d : Document) : Index :=
  match index with
  | canonical c => canonical (c.insert d)
  | naive n => naive (n.insert d)

/-- Removes the document of some name. -/
def erase (index : Index) (name : String) : Index :=
  match index with
  | canonical c => canonical (c.erase name)
  | naive n => naive (n.erase name)

/-- The document of some name. -/
def get? (index : Index) (name : String) : Option Document :=
  match index with
  | canonical c => (Dict.get? c.documents name).map Entry.document
  | naive n => Dict.get? n.table name

/-- The documents, in the order of their names. -/
def documents (index : Index) : List Document :=
  match index with
  | canonical c => (Dict.values c.documents).map Entry.document
  | naive n => Dict.values n.table

/-- How many documents there are. -/
def size (index : Index) : Nat := index.documents.length

/-- Finds the documents whose targets hold. -/
def retrieve (index : Index) (ctx : Context) : Retrieval :=
  match index with
  | canonical c => c.retrieve ctx
  | naive n => n.retrieve ctx

end Index

end AccessPolicy
