import AccessPolicy.Evaluation.Expr
import AccessPolicy.Policy.Document
import AccessPolicy.Stream.Session

/-!
# Deciding

A document is decided in two stages. Its target is evaluated first and once: it says whether
the document is meant for the request at all. If it is, the body runs, and from then on the
decision follows the attributes that the body looks up. A definition puts its value in the
scope of the statements after it; a condition that is false makes the policy not applicable;
whatever cannot be evaluated makes it indeterminate. When the body holds, obligations, advice
and transformation are evaluated side by side in its scope, and a decision is made only if all
of them have a value.
-/

namespace AccessPolicy

open Machine

/-! ## Targets -/

/-- The value of a target as an answer: a truth value or an error. -/
def Value.asTarget (v : Value) : Value :=
  if v.isError || v.bool?.isSome then v else fault (.targetNotBoolean v.typeName)

/-- The stream of the one answer of a target. A missing target is true. -/
def targetStream (target : Option Expr) (ctx : Context) : Machine Value :=
  match target with
  | none => just (Value.bool true)
  | some t =>
    (((t.evaluate (ctx.inMode .target)).followedBy
      (Value.fault .targetWithoutValue)).once).map Value.asTarget

/-- The answer of a target, and the functions that were called for it. -/
def evaluateTarget (target : Option Expr) (ctx : Context) : Value × List Event :=
  let d := (targetStream target ctx).run []
  (d.values.head?.getD (Value.fault .targetWithoutValue), d.log)

/-- Whether a document is meant for what a context binds. -/
def Document.answer (d : Document) (ctx : Context) : Value × List Event :=
  evaluateTarget d.target (ctx.importing d.imports)

/-! ## Bodies -/

/-- What the body of a policy comes to; if it holds, the variables that are in scope by then. -/
inductive BodyResult where
  | holds (scope : Bindings)
  | notApplicable
  | indeterminate

/-- The stream of what the statements of a body come to. -/
def runBody : List Statement → Context → Machine BodyResult
  | [], ctx => just (.holds ctx.bindings)
  | .condition test :: body, ctx =>
    (test.evaluate ctx).switchMap fun v =>
      match v.bool? with
      | some true => runBody body ctx
      | some false => just .notApplicable
      | none => just .indeterminate
  | .define name value :: body, ctx =>
    (value.evaluate ctx).switchMap fun v =>
      if v.isDefined then runBody body (ctx.bind name v) else just .indeterminate

namespace Policy

/-- The verdict of a policy that applies. -/
def verdict (p : Policy) : Verdict :=
  match p.entitlement with
  | .permit => .permit
  | .deny => .deny

/-- The expressions whose values go along with the decision of a policy. -/
def attachments (p : Policy) : List Expr :=
  p.obligations ++ p.advice ++ p.transformation.toList

/-- The decision of a policy that applies, given the documents of its attachments. -/
def decisionWith (p : Policy) (documents : List Json) : Decision where
  verdict := p.verdict
  resource := documents[p.obligations.length + p.advice.length]?
  obligations := documents.take p.obligations.length
  advice := (documents.drop p.obligations.length).take p.advice.length

/-- The decision of a policy that applies, given the values of its attachments. -/
def conclude (p : Policy) (values : List Value) : Decision :=
  if values.all Value.isDefined then p.decisionWith (Value.documents values)
  else Decision.indeterminate

/-- The stream of the decisions of a policy whose target has been answered. -/
def evaluate (p : Policy) (ctx : Context) : Machine Decision :=
  ((runBody p.body (ctx.inMode .body)).switchMap fun result =>
    match result with
    | .holds scope =>
      (combineLatest (Expr.evaluateAll p.attachments ((ctx.inMode .body).within scope))).map
        p.conclude
    | .notApplicable => just Decision.notApplicable
    | .indeterminate => just Decision.indeterminate).distinct (· == ·)

/-- The stream of the decisions of a policy. -/
def decide (p : Policy) (ctx : Context) : Machine Decision :=
  (targetStream p.target ctx).switchMap fun answer =>
    match answer.bool? with
    | some true => p.evaluate ctx
    | some false => just Decision.notApplicable
    | none => just Decision.indeterminate

end Policy

/-! ## Sets -/

/-- The stream of the variables that are in scope after some definitions, or nothing if one of
them has no value. -/
def runDefinitions : List (String × Expr) → Context → Machine (Option Bindings)
  | [], ctx => just (some ctx.bindings)
  | (name, value) :: definitions, ctx =>
    (value.evaluate ctx).switchMap fun v =>
      if v.isDefined then runDefinitions definitions (ctx.bind name v) else just none

/-- The stream of what an algorithm makes of the latest decisions of some streams. -/
def combineDecisions (streams : List (Machine Decision)) (algorithm : Algorithm) :
    Machine Decision :=
  ((combineLatest streams).map algorithm).distinct (· == ·)

/-- The stream of the decisions of a policy set whose target has been answered. A set with an
unknown algorithm cannot decide. -/
def PolicySet.evaluate (s : PolicySet) (ctx : Context) : Machine Decision :=
  match Dict.get? ctx.algorithms s.algorithm with
  | none => just Decision.indeterminate
  | some algorithm =>
    ((runDefinitions s.definitions (ctx.inMode .body)).switchMap fun scope =>
      match scope with
      | some scope =>
        combineDecisions (s.policies.map fun p => p.decide ((ctx.inMode .body).within scope))
          algorithm
      | none => just Decision.indeterminate).distinct (· == ·)

/-! ## Documents -/

namespace Document

/-- The stream of the decisions of a document whose target has been answered. -/
def evaluate (d : Document) (ctx : Context) : Machine Decision :=
  match d.element with
  | .policy p => p.evaluate (ctx.importing d.imports)
  | .set s => s.evaluate (ctx.importing d.imports)

/-- The stream of the decisions of a document. -/
def decide (d : Document) (ctx : Context) : Machine Decision :=
  ((targetStream d.target (ctx.importing d.imports)).switchMap fun answer =>
    match answer.bool? with
    | some true => d.evaluate ctx
    | some false => just Decision.notApplicable
    | none => just Decision.indeterminate).distinct (· == ·)

end Document

end AccessPolicy
