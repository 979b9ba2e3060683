import AccessPolicy.Proofs.Policy.Attachments
import AccessPolicy.Proofs.Stream.Reading

/-!
# No decision out of thin air

A policy that applies says so because of values: each condition of its body has been true, each
definition has been defined, and what goes along with the decision are the documents of the
obligations, of the advice and of the transformation. Sources may do what they like. They may
give errors, crash, stay silent or end early, and earlier statements may change their values
while streams of later ones are open. A decision that carries the entitlement of the policy is
**justified** all the same: there is one value for each expression, given by the stream of that
expression in the scope that the values chosen before it make up, and not before these were
given.
-/

namespace AccessPolicy

open Machine Reading

variable {history : List Feeds}

/-- **A body holds** in a scope, and leads to another scope, by values that its statements have
given in the course of a history, one after another. -/
inductive BodyHolds : List Feeds → List Statement → Context → Context → Prop where
  | done (history : List Feeds) (scope : Context) : BodyHolds history [] scope scope
  /-- The value of a condition is true. -/
  | condition {history older newer : List Feeds} {test : Expr} {body : List Statement}
      {scope final : Context} {v : Value} :
      Since older newer history → (test.evaluate scope).Emitted older v → v.bool? = some true →
        BodyHolds newer body scope final →
          BodyHolds history (.condition test :: body) scope final
  /-- The value of a definition is defined, and in scope from then on. -/
  | define {history older newer : List Feeds} {name : String} {value : Expr}
      {body : List Statement} {scope final : Context} {v : Value} :
      Since older newer history → (value.evaluate scope).Emitted older v → v.isDefined = true →
        BodyHolds newer body (scope.bind name v) final →
          BodyHolds history (.define name value :: body) scope final

/-- An expression has given a document in a scope. -/
def Expr.Gave (history : List Feeds) (scope : Context) (e : Expr) (document : Json) : Prop :=
  ∃ v, (e.evaluate scope).Emitted history v ∧ v.document? = some document

/-- **A justified decision** of a policy: the values that it rests on, and what it carries. -/
structure Policy.Justified (p : Policy) (history : List Feeds) (ctx : Context) (d : Decision) :
    Prop where
  verdict : d.verdict = p.verdict
  /-- The body has held, and since then the expressions that go along gave their documents in its
  scope. -/
  values : ∃ scope older newer, Since older newer history ∧ BodyHolds older p.body ctx scope
    ∧ List.Forall₂ (Expr.Gave newer scope) p.obligations d.obligations
    ∧ List.Forall₂ (Expr.Gave newer scope) p.advice d.advice
    ∧ List.Forall₂ (Expr.Gave newer scope) p.transformation.toList d.resource.toList

/-! ## Bodies -/

/-- If the statements of a body have come to a scope, the body holds and leads there. -/
theorem bodyHolds_of_emitted {body : List Statement} {ctx : Context} {scope : Bindings}
    (h : (runBody body ctx).Emitted history (.holds scope)) :
    BodyHolds history body ctx (ctx.within scope) := by
  induction body generalizing ctx history with
  | nil =>
    cases emitted_just h
    exact .done _ _
  | cons statement body ih =>
    cases statement with
    | condition test =>
      obtain ⟨v, older, newer, hsince, hv, hb⟩ := emitted_switchMap h
      split at hb
      · next ht => exact .condition hsince hv ht (ih hb)
      · cases emitted_just hb
      · cases emitted_just hb
    | define name value =>
      obtain ⟨v, older, newer, hsince, hv, hb⟩ := emitted_switchMap h
      split at hb
      · next hd => exact .define hsince hv hd (ih hb)
      · cases emitted_just hb

/-! ## Decisions -/

/-- **No decision out of thin air.** Whatever the sources do, each decision that a policy gives
is that it does not apply, or that it cannot tell, or a justified one. -/
theorem Policy.justified_of_emitted {p : Policy} {ctx : Context} {d : Decision}
    (h : (p.evaluate ctx).Emitted history d) :
    d = Decision.notApplicable ∨ d = Decision.indeterminate
      ∨ p.Justified history (ctx.inMode .body) d := by
  obtain ⟨result, older, newer, hsince, hbody, hd⟩ := emitted_switchMap (emitted_distinct h)
  cases result with
  | notApplicable => exact .inl (emitted_just hd)
  | indeterminate => exact .inr (.inl (emitted_just hd))
  | holds scope =>
    obtain ⟨vs, hvs, rfl⟩ := emitted_mapReporting hd
    have hall := emitted_combineLatest hvs
    rw [Expr.evaluateAll_eq_map, List.forall₂_map_left_iff] at hall
    show p.conclude vs = _ ∨ p.conclude vs = _ ∨ p.Justified _ _ (p.conclude vs)
    unfold conclude
    split
    · next hdef =>
      have hgave : List.Forall₂ (Expr.Gave newer ((ctx.inMode .body).within scope))
          p.attachments (Value.documents vs) :=
        forall₂_through hall.flip (Value.forall₂_documents hdef)
          fun v e document hv hdoc => ⟨v, hv, hdoc⟩
      obtain ⟨ho, ha, ht⟩ := forall₂_decisionWith hgave
      exact .inr (.inr ⟨rfl, _, older, newer, hsince, bodyHolds_of_emitted hbody, ho, ha, ht⟩)
    · exact .inr (.inl rfl)

/-- A policy that permits on the strength of an attribute, with an obligation. -/
theorem Policy.justified_of_emitted_permit :
    let p : Policy := { name := "p", entitlement := .permit,
                        body := [.condition (.finder "clear" [] false)],
                        obligations := [.literal (.string "log")] }
    let ctx : Context := { sources := [("clear", .script [.value (Value.bool true)])] }
    let d : Decision := ⟨.permit, none, [.string "log"], []⟩
    (p.evaluate ctx).Emitted [[]] d ∧ p.Justified [[]] (ctx.inMode .body) d := by
  intro p ctx d
  have hsource : ∀ q, (ctx.sources.subscribe "clear" q).Gives (Value.bool true) :=
    Sources.gives_subscribe rfl
  have hcondition : ((Expr.finder "clear" [] false).evaluate (ctx.inMode .body)).Gives
      (Value.bool true) :=
    (gives_combineLatest .nil).switchMap (hsource _)
  have hbody : (runBody p.body (ctx.inMode .body)).Gives (.holds (ctx.inMode .body).bindings) :=
    hcondition.switchMap (gives_just _)
  have hobligations := gives_combineLatest (.cons (gives_just (Value.of (.string "log"))) .nil)
  have hgives : (p.evaluate ctx).Gives d :=
    (hbody.switchMap (hobligations.mapReporting fun vs => (p.conclude vs, []))).distinct _
  have hemitted : (p.evaluate ctx).Emitted [[]] d := hgives.emits [] []
  rcases justified_of_emitted hemitted with h | h | h
  · cases congrArg Decision.verdict h
  · cases congrArg Decision.verdict h
  · exact ⟨hemitted, h⟩

end AccessPolicy
