import AccessPolicy.Decision.Basic
import AccessPolicy.Evaluation.Context
import AccessPolicy.Json.Parser
import AccessPolicy.Json.Record

/-!
# Decisions and requests as texts

A decision is read from the record of its verdict, resource, obligations and advice, of which
only the verdict must be there; a resource that is `null` is no resource. A request is read
from the record of its subject, action, resource and environment; the last one may be missing.
-/

namespace AccessPolicy

namespace Decision

/-- The words for verdicts. -/
def verdicts : List (String × Verdict) := Verdict.all.map fun v => (v.word, v)

/-- The resource of a decision, if there is one. -/
def resource? : Json → Option (Option Json)
  | .null => some none
  | document => document.canonical?.map some

/-- A list of documents. -/
def documents? (j : Json) : Option (List Json) := j.items?.bind Json.canonicalItems?

/-- The names of the fields of a decision. -/
def fieldNames : List String := ["decision", "resource", "obligations", "advice"]

/-- Reads a decision from a text. -/
def parse? (s : String) : Option Decision := do
  match ← Json.readFields? fieldNames s with
  | [some verdict, resource, obligations, advice] =>
    return {
      verdict := ← verdict.choice? verdicts
      resource := ← Json.withDefault resource? none resource
      obligations := ← Json.withDefault documents? [] obligations
      advice := ← Json.withDefault documents? [] advice }
  | _ => none

end Decision

namespace Request

/-- The document of a request, its members in the order in which they are read. -/
def toJson (r : Request) : Json :=
  .object [("subject", r.subject), ("action", r.action), ("resource", r.resource),
    ("environment", r.environment)]

/-- The text of a request. -/
def text (r : Request) : String := r.toJson.text

/-- The names of the fields of a request. -/
def fieldNames : List String := ["subject", "action", "resource", "environment"]

/-- Reads a request from a text. -/
def parse? (s : String) : Option Request := do
  match ← Json.readFields? fieldNames s with
  | [some subject, some action, some resource, environment] =>
    return {
      subject := ← subject.canonical?
      action := ← action.canonical?
      resource := ← resource.canonical?
      environment := ← Json.withDefault Json.canonical? .null environment }
  | _ => none

end Request

end AccessPolicy
