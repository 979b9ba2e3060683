import AccessPolicy.Index.Formula
import AccessPolicy.Index.Retrieval

/-!
# An index over shared predicates

The targets of all documents are kept in disjunctive form over one *arena* of predicates, so
that a predicate which occurs in many targets is evaluated at most once for each retrieval.
The arena gives each predicate a slot and counts how often the slot is used, and a table tells the
slot of each predicate. A slot that is no longer used is free for another predicate, the one freed
last being taken first. A clause is the sorted list of its terms, slots with a sign, and documents
with the same clause share it.

A retrieval goes through the clauses in order and evaluates the predicates of a clause one by
one until it fails. It skips a clause whose documents have all been found, and one that is
known to fail.
-/

namespace AccessPolicy

/-- A slot of the arena with a sign. -/
structure Term where
  slot : Nat
  negated : Bool
deriving DecidableEq, Repr

/-- The terms of a clause in ascending order. -/
abbrev ClauseKey := List Term

/-- Terms are ordered by slot, the plain one first. -/
def Term.rank (t : Term) : Nat := 2 * t.slot + t.negated.toNat

/-- Clauses are ordered like words, by the order of their terms. -/
instance : KeyOrder ClauseKey := ⟨lexBefore Term.rank⟩

/-- A predicate of the arena and how often it is used. -/
structure Occupant where
  predicate : Predicate
  uses : Nat
deriving DecidableEq

/-- The predicates in use, each in a slot of its own, the free slots, the next one to be taken
first, and the slot of each predicate, in no particular order. -/
structure Arena where
  slots : List (Option Occupant) := []
  free : List Nat := []
  ids : List (Predicate × Nat) := []
deriving DecidableEq

namespace Arena

/-- The occupant of a slot. -/
def occupant? (a : Arena) (slot : Nat) : Option Occupant := a.slots[slot]?.join

/-- The slot of a predicate that is in use. -/
def slotOf? (a : Arena) (p : Predicate) : Option Nat := Dict.get? a.ids p

/-- How many predicates are in use. -/
def size (a : Arena) : Nat := a.ids.length

/-- Puts an occupant into a slot, or clears it. -/
def put (a : Arena) (slot : Nat) (o : Option Occupant) : Arena :=
  { a with slots := a.slots.set slot o }

/-- Counts one more use of a predicate, which is given a slot if it has none. -/
def intern (a : Arena) (p : Predicate) : Arena × Nat :=
  match a.slotOf? p with
  | some slot => (a.put slot ((a.occupant? slot).map fun o => { o with uses := o.uses + 1 }), slot)
  | none =>
    match a.free with
    | slot :: free =>
      (({ a with free := free, ids := (p, slot) :: a.ids }).put slot (some ⟨p, 1⟩), slot)
    | [] =>
      let slot := a.slots.length
      ({ a with slots := a.slots ++ [some ⟨p, 1⟩], ids := (p, slot) :: a.ids }, slot)

/-- Counts one use of a slot less. A slot without a use left is freed. -/
def release (a : Arena) (slot : Nat) : Arena :=
  match a.occupant? slot with
  | none => a
  | some o =>
    if o.uses ≤ 1 then
      { a.put slot none with free := slot :: a.free, ids := Dict.erase a.ids o.predicate }
    else a.put slot (some { o with uses := o.uses - 1 })

/-- Interns the predicates of some literals, in order. -/
def internAll (a : Arena) : List Literal → Arena × List Term
  | [] => (a, [])
  | l :: ls =>
    let (a, slot) := a.intern l.predicate
    let (a, terms) := a.internAll ls
    (a, ⟨slot, l.negated⟩ :: terms)

end Arena

/-- A document and the clauses of its target. -/
structure Entry where
  document : Document
  keys : List ClauseKey

/-- The documents by name, the arena of their predicates, and for each clause the names of the
documents that have it. -/
structure CanonicalIndex where
  maxClauses : Nat
  arena : Arena := {}
  clauses : Dict ClauseKey (Dict String Unit) := []
  documents : Dict String Entry := []

namespace CanonicalIndex

/-- The index without documents. A limit of clauses below one counts as one. -/
def empty (maxClauses : Nat) : CanonicalIndex := { maxClauses := max maxClauses 1 }

/-- The slot of a predicate that is in use. -/
def slotOf? (index : CanonicalIndex) (p : Predicate) : Option Nat := index.arena.slotOf? p

/-- How many predicates are in use. -/
def predicateCount (index : CanonicalIndex) : Nat := index.arena.size

/-- How many different clauses are in use. -/
def clauseCount (index : CanonicalIndex) : Nat := index.clauses.length

/-! ## Storing documents -/

/-- The terms of a clause in ascending order. -/
def sortTerms (terms : List Term) : ClauseKey := terms.mergeSort fun s t => s.rank ≤ t.rank

/-- Adds a name to those that have a clause. -/
def link (clauses : Dict ClauseKey (Dict String Unit)) (key : ClauseKey) (name : String) :
    Dict ClauseKey (Dict String Unit) :=
  Dict.insert clauses key (Dict.insert ((Dict.get? clauses key).getD []) name ())

/-- Removes a name from those that have a clause, and the clause if no name is left. -/
def unlink (clauses : Dict ClauseKey (Dict String Unit)) (key : ClauseKey) (name : String) :
    Dict ClauseKey (Dict String Unit) :=
  match Dict.get? clauses key with
  | none => clauses
  | some names =>
    let names := Dict.erase names name
    if names.isEmpty then Dict.erase clauses key else Dict.insert clauses key names

/-- Interns some clauses of a document, in order. -/
def addClauses (index : CanonicalIndex) (name : String) :
    List Clause → CanonicalIndex × List ClauseKey
  | [] => (index, [])
  | c :: cs =>
    let (arena, terms) := index.arena.internAll c.literals
    let key := sortTerms terms
    let index := { index with arena := arena, clauses := link index.clauses key name }
    let (index, keys) := index.addClauses name cs
    (index, key :: keys)

/-- Gives up one clause of a document. -/
def dropClause (name : String) (index : CanonicalIndex) (key : ClauseKey) : CanonicalIndex :=
  { index with
    clauses := unlink index.clauses key name
    arena := key.foldl (fun arena term => arena.release term.slot) index.arena }

/-- Removes the document of some name. -/
def erase (index : CanonicalIndex) (name : String) : CanonicalIndex :=
  match Dict.get? index.documents name with
  | none => index
  | some entry =>
    entry.keys.foldl (dropClause name)
      { index with documents := Dict.erase index.documents name }

/-- Stores a document, in place of any other of its name. -/
def insert (index : CanonicalIndex) (d : Document) : CanonicalIndex :=
  let index := index.erase d.name
  let (index, keys) := index.addClauses d.name (d.formula index.maxClauses).clauses
  { index with documents := Dict.insert index.documents d.name ⟨d, keys⟩ }

/-! ## Retrieving documents -/

/-- What is known in the course of a retrieval: the answers of the predicates evaluated so
far, missing ones included, the names found, and the account. -/
structure Search where
  known : List (Nat × Option Bool) := []
  matched : Dict String Unit := []
  valid : Bool := true
  evaluations : Nat := 0
  errors : Nat := 0
  log : List Event := []

/-- The answer of the predicate in a slot, evaluated unless it is known. There is none for a
free slot. -/
def answer (index : CanonicalIndex) (ctx : Context) (s : Search) (slot : Nat) :
    Search × Option (Option Bool) :=
  match Dict.get? s.known slot with
  | some truth => (s, some truth)
  | none =>
    match index.arena.occupant? slot with
    | none => (s, none)
    | some o =>
      let (v, log) := o.predicate.evaluate ctx
      let truth := v.bool?
      ({ s with
        known := (slot, truth) :: s.known
        evaluations := s.evaluations + 1
        errors := if truth.isNone then s.errors + 1 else s.errors
        log := s.log ++ log }, some truth)

/-- Whether the terms of a clause hold. The first one that does not decides, and a missing
answer makes the search invalid. -/
def check (index : CanonicalIndex) (ctx : Context) : Search → List Term → Search × Bool
  | s, [] => (s, true)
  | s, t :: ts =>
    match index.answer ctx s t.slot with
    | (s, some (some value)) => if value != t.negated then index.check ctx s ts else (s, false)
    | (s, some none) => ({ s with valid := false }, false)
    | (s, none) => (s, false)

/-- Whether all names that have a clause have been found. -/
def Search.covers (s : Search) (names : Dict String Unit) : Bool :=
  (Dict.keys names).all (Dict.hasKey s.matched)

/-- Whether a term of a clause is known to fail. -/
def Search.refutes (s : Search) (key : ClauseKey) : Bool :=
  key.any fun t => Dict.get? s.known t.slot == some (some t.negated)

/-- The search after one more clause. -/
def visit (index : CanonicalIndex) (ctx : Context) (s : Search)
    (clause : ClauseKey × Dict String Unit) : Search :=
  let (key, names) := clause
  if s.covers names || s.refutes key then s
  else
    let (s, holds) := index.check ctx s key
    if holds then
      { s with matched := (Dict.keys names).foldl (fun d name => Dict.insert d name ()) s.matched }
    else s

/-- The search through all clauses. -/
def search (index : CanonicalIndex) (ctx : Context) : Search :=
  index.clauses.foldl (index.visit ctx) {}

/-- Finds the documents whose targets hold. -/
def retrieve (index : CanonicalIndex) (ctx : Context) : Retrieval :=
  let s := index.search ctx
  { found := {
      documents := (Dict.keys s.matched).filterMap fun name =>
        (Dict.get? index.documents name).map Entry.document
      valid := s.valid }
    evaluations := s.evaluations
    errors := s.errors
    log := s.log }

end CanonicalIndex

end AccessPolicy
