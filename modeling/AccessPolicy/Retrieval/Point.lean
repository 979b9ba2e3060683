import AccessPolicy.Retrieval.Config
import AccessPolicy.Retrieval.Statistics

/-!
# The retrieval point

A retrieval point follows the updates of a store of documents. A document that is valid goes
into the index; one that is not is remembered with the reason, and while there is such a
document, or the store has said that it is inconsistent, nothing can be retrieved. Each update
of a document supersedes all earlier ones of its name.
-/

namespace AccessPolicy

/-- A document as the store gives it: read, or refused by its reader with a reason. -/
inductive ParsedDocument where
  | valid (d : Document)
  | invalid (name reason : String)

/-- A change of the store. -/
inductive Update where
  | publish (d : ParsedDocument)
  | unpublish (name : String)
  | markInconsistent

/-- How a retrieval point stands. -/
inductive Standing where
  | empty
  | consistent
  | inconsistent
deriving DecidableEq, Repr

namespace Standing

/-- The word for a standing. -/
def word : Standing → String
  | empty => "empty"
  | consistent => "consistent"
  | inconsistent => "inconsistent"

end Standing

/-- What a retrieval point knows of the store. -/
structure Holdings where
  index : Index
  invalid : Dict String String := []
  marked : Bool := false

namespace Holdings

/-- The holdings before any update. -/
def empty (c : Config) : Holdings := { index := Index.empty c.index c.maxClauses }

/-- How the holdings stand. -/
def standing (h : Holdings) : Standing :=
  if h.marked || !h.invalid.isEmpty then .inconsistent
  else if h.index.size = 0 then .empty
  else .consistent

/-- Remembers why a document was refused, in place of the document. -/
def reject (h : Holdings) (name reason : String) : Holdings :=
  { h with index := h.index.erase name, invalid := Dict.insert h.invalid name reason }

/-- The holdings after an update. -/
def update (h : Holdings) : Update → Holdings
  | .publish (.valid d) =>
    match d.validate with
    | .ok () => { h with index := h.index.insert d, invalid := Dict.erase h.invalid d.name }
    | .error refusal => h.reject d.name refusal.message
  | .publish (.invalid name reason) => h.reject name reason
  | .unpublish name =>
    { h with index := h.index.erase name, invalid := Dict.erase h.invalid name }
  | .markInconsistent => { h with marked := true }

end Holdings

/-- A retrieval point. -/
structure RetrievalPoint where
  config : Config
  holdings : Holdings
  statistics : Statistics := {}

namespace RetrievalPoint

/-- The retrieval point of a configuration, before any update. -/
def new (c : Config) : RetrievalPoint := { config := c, holdings := Holdings.empty c }

/-- How a retrieval point stands. -/
def standing (p : RetrievalPoint) : Standing := p.holdings.standing

/-- The documents that can be retrieved, in the order of their names. -/
def documents (p : RetrievalPoint) : List Document := p.holdings.index.documents

/-- Applies a batch of updates, and returns how the retrieval point stands then. -/
def apply (p : RetrievalPoint) (batch : List Update) : Standing × RetrievalPoint :=
  let holdings := batch.foldl Holdings.update p.holdings
  (holdings.standing, { p with
    holdings := holdings
    statistics := p.statistics.recordUpdates
      (batch.countP (· matches .publish _)) (batch.countP (· matches .unpublish _)) })

/-- The retrieval point after a series of batches. -/
def feed (p : RetrievalPoint) (batches : List (List Update)) : RetrievalPoint :=
  batches.foldl (fun p batch => (p.apply batch).2) p

/-- The retrieval point after all documents of a store were published at once. -/
def follow (p : RetrievalPoint) (documents : List ParsedDocument) : RetrievalPoint :=
  p.feed [documents.map Update.publish]

/-- The retrieval point that has forgotten all updates. Its statistics go on. -/
def reset (p : RetrievalPoint) : RetrievalPoint :=
  { p with holdings := Holdings.empty p.config }

/-- What is retrieved in a context. -/
def find (p : RetrievalPoint) (ctx : Context) : Retrieval :=
  match p.standing with
  | .inconsistent => Retrieval.invalid
  | _ => p.holdings.index.retrieve ctx

/-- Retrieves documents and counts the retrieval, which took a number of nanoseconds. -/
def retrieve (p : RetrievalPoint) (ctx : Context) (elapsed : Nat) : Retrieval × RetrievalPoint :=
  let r := p.find ctx
  (r, { p with
    statistics := p.statistics.recordRetrieval r.found.valid r.found.documents.length
      r.evaluations r.errors elapsed })

/-- The context of a request, in which no attributes can be looked up. -/
def requestContext (libraries : Libraries) (functions : Functions) (bindings : Bindings)
    (r : Request) : Context :=
  (Context.bindAll { functions := functions, libraries := libraries } bindings).bindRequest r

end RetrievalPoint

end AccessPolicy
