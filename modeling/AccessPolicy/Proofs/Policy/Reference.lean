import AccessPolicy.Proofs.Evaluation.Convergence
import AccessPolicy.Proofs.Policy.Attachments
import AccessPolicy.Proofs.Policy.Target

/-!
# What a document decides

The stream of the decisions of a document follows the attributes through its body, its
definitions and its members. The *reference decision* is computed outright from the current
attributes: the statements of a body are taken in order, each expression is evaluated afresh
with the watches frozen, and the first statement that is not met settles the matter. Wherever
the stream is at rest, the decision that it gave last is the reference decision.

Scopes are compared up to the records of their values, since a definition that gives the same
value again leaves the earlier one, with its record, in scope.
-/

namespace AccessPolicy

open Machine Reading

/-! ## Reference decisions -/

/-- The value of an expression with the watches frozen at their current values. -/
def Expr.valueAt (e : Expr) (scope : Context) (feeds : Feeds) : Value :=
  ((e.evaluate (scope.frozen feeds)).run feeds).values.headD Value.undefined

/-- The documents of some expressions, if all of them are defined. -/
def Expr.documentsAt (es : List Expr) (scope : Context) (feeds : Feeds) : Option (List Json) :=
  es.mapM fun e => (e.valueAt scope feeds).document?

/-- What a target lets through: a missing or a true one goes on, a false one does not apply, and
anything else cannot be decided. -/
def targetAt (target : Option Expr) (ctx : Context) (feeds : Feeds) (decision : Decision) :
    Decision :=
  match target with
  | none => decision
  | some t =>
    match (t.valueAt (ctx.inMode .target) feeds).bool? with
    | some true => decision
    | some false => Decision.notApplicable
    | none => Decision.indeterminate

/-- What the statements of a body come to, in order. -/
def bodyAt (feeds : Feeds) : List Statement → Context → BodyResult
  | [], scope => .holds scope.bindings
  | .condition test :: body, scope =>
    match (test.valueAt scope feeds).bool? with
    | some true => bodyAt feeds body scope
    | some false => .notApplicable
    | none => .indeterminate
  | .define name value :: body, scope =>
    if (value.valueAt scope feeds).isDefined then
      bodyAt feeds body (scope.bind name (value.valueAt scope feeds))
    else .indeterminate

/-- The variables in scope after some definitions, if all of them are defined. -/
def definitionsAt (feeds : Feeds) : List (String × Expr) → Context → Option Bindings
  | [], scope => some scope.bindings
  | (name, value) :: definitions, scope =>
    if (value.valueAt scope feeds).isDefined then
      definitionsAt feeds definitions (scope.bind name (value.valueAt scope feeds))
    else none

/-- The expression of a statement. -/
def Statement.expr : Statement → Expr
  | .condition test => test
  | .define _ value => value

namespace Policy

/-- The decision of a policy whose body holds: its entitlement, if everything that goes along
is defined. -/
def conclusionAt (p : Policy) (scope : Context) (feeds : Feeds) : Decision :=
  match Expr.documentsAt p.obligations scope feeds, Expr.documentsAt p.advice scope feeds,
    Expr.documentsAt p.transformation.toList scope feeds with
  | some obligations, some advice, some resource =>
    ⟨p.verdict, resource.head?, obligations, advice⟩
  | _, _, _ => Decision.indeterminate

/-- The decision of a policy from what its body comes to in a context. -/
def resultAt (p : Policy) (ctx : Context) (feeds : Feeds) : BodyResult → Decision
  | .holds scope => p.conclusionAt (ctx.within scope) feeds
  | .notApplicable => Decision.notApplicable
  | .indeterminate => Decision.indeterminate

/-- The reference decision of a policy whose target has been answered. -/
def outcomeAt (p : Policy) (ctx : Context) (feeds : Feeds) : Decision :=
  p.resultAt (ctx.inMode .body) feeds (bodyAt feeds p.body (ctx.inMode .body))

/-- The reference decision of a policy. -/
def decisionAt (p : Policy) (ctx : Context) (feeds : Feeds) : Decision :=
  targetAt p.target ctx feeds (p.outcomeAt ctx feeds)

/-- The expressions of the body of a policy and of what goes along with its decision. -/
def exprs (p : Policy) : List Expr := p.body.map Statement.expr ++ p.attachments

end Policy

namespace PolicySet

/-- The reference decision of a policy set whose target has been answered. -/
def outcomeAt (s : PolicySet) (ctx : Context) (feeds : Feeds) : Decision :=
  match Dict.get? ctx.algorithms s.algorithm with
  | none => Decision.indeterminate
  | some algorithm =>
    match definitionsAt feeds s.definitions (ctx.inMode .body) with
    | some scope =>
      algorithm (s.policies.map fun p => p.decisionAt ((ctx.inMode .body).within scope) feeds)
    | none => Decision.indeterminate

/-- The expressions of a policy set and of its policies, apart from targets. -/
def exprs (s : PolicySet) : List Expr :=
  s.definitions.map Prod.snd ++ s.policies.flatMap Policy.exprs

end PolicySet

namespace Document

/-- The reference decision of a document. -/
def decisionAt (d : Document) (ctx : Context) (feeds : Feeds) : Decision :=
  targetAt d.target (ctx.importing d.imports) feeds
    (match d.element with
    | .policy p => p.outcomeAt (ctx.importing d.imports) feeds
    | .set s => s.outcomeAt (ctx.importing d.imports) feeds)

/-- The expressions of a document, apart from targets. -/
def exprs (d : Document) : List Expr :=
  match d.element with
  | .policy p => p.exprs
  | .set s => s.exprs

end Document

/-! ## Scopes up to records -/

/-- Two contexts that differ in what they bind only. -/
structure Context.Shares (ctx ctx' : Context) : Prop where
  functions : ctx.functions = ctx'.functions
  sources : ctx.sources = ctx'.sources
  algorithms : ctx.algorithms = ctx'.algorithms
  imports : ctx.imports = ctx'.imports

/-- Two contexts that differ in the records of their values only. -/
structure Context.Same (ctx ctx' : Context) : Prop where
  bare : ctx.bare = ctx'.bare
  sources : ctx.sources = ctx'.sources

namespace Context

variable {ctx ctx' ctx'' : Context}

theorem Shares.trans (h : ctx.Shares ctx') (h' : ctx'.Shares ctx'') : ctx.Shares ctx'' :=
  ⟨h.functions.trans h'.functions, h.sources.trans h'.sources, h.algorithms.trans h'.algorithms,
    h.imports.trans h'.imports⟩

theorem shares_inMode (ctx : Context) (mode : Mode) : ctx.Shares (ctx.inMode mode) :=
  ⟨rfl, rfl, rfl, rfl⟩

theorem shares_within (ctx : Context) (scope : Bindings) : ctx.Shares (ctx.within scope) :=
  ⟨rfl, rfl, rfl, rfl⟩

theorem Same.refl (ctx : Context) : ctx.Same ctx := ⟨rfl, rfl⟩

theorem Same.shares (h : ctx.Same ctx') : ctx.Shares ctx' where
  functions := congrArg (·.functions) h.bare
  sources := h.sources
  algorithms := congrArg (·.algorithms) h.bare
  imports := congrArg (·.imports) h.bare

theorem Same.inMode (h : ctx.Same ctx') (mode : Mode) :
    (ctx.inMode mode).Same (ctx'.inMode mode) :=
  ⟨congrArg (Context.inMode · mode) h.bare, h.sources⟩

theorem Same.bindings (h : ctx.Same ctx') : ctx.bindings.bare = ctx'.bindings.bare :=
  congrArg Context.bindings h.bare

theorem Same.within (h : ctx.Same ctx') {scope scope' : Bindings}
    (hscope : scope.bare = scope'.bare) : (ctx.within scope).Same (ctx'.within scope') where
  bare := by
    show ctx.bare.within scope.bare = ctx'.bare.within scope'.bare
    rw [h.bare, hscope]
  sources := h.sources

theorem bare_bind (ctx : Context) (name : String) (v : Value) :
    (ctx.bind name v).bare = ctx.bare.bind name v.bare := by
  unfold bind bare Bindings.bare
  rw [Dict.map_insert]

theorem Same.bind (h : ctx.Same ctx') (name : String) {v v' : Value} (hv : v.bare = v'.bare) :
    (ctx.bind name v).Same (ctx'.bind name v') where
  bare := by rw [bare_bind, bare_bind, h.bare, hv]
  sources := h.sources

end Context

/-! ## Values of expressions -/

namespace Expr

variable {e : Expr} {ctx ctx' : Context} {first feeds : Feeds}

/-- An expression that follows watches which hold a value, without head finders. -/
structure Tracks (e : Expr) (ctx : Context) (feeds : Feeds) : Prop where
  headless : e.Headless
  follows : e.Follows ctx feeds

theorem Tracks.shares (h : e.Tracks ctx feeds) (hs : ctx.Shares ctx') : e.Tracks ctx' feeds where
  headless := h.headless
  follows f hf := by
    have := h.follows f hf
    unfold Context.resolve at this ⊢
    rwa [hs.imports, hs.sources] at this

theorem Tracks.bind (h : e.Tracks ctx feeds) (name : String) (v : Value) :
    e.Tracks (ctx.bind name v) feeds := ⟨h.headless, h.follows⟩

theorem bare_valueAt (hp : ctx.functions.Pure) (ht : e.Tracks ctx feeds) :
    (e.valueAt ctx feeds).bare = e.meaningAt ctx feeds := by
  obtain ⟨v, hv, hmeans⟩ := gives_frozen hp ht.headless ht.follows
  unfold valueAt
  rw [(hv.run feeds).1]
  exact hmeans

theorem meaningAt_same (hs : ctx.Same ctx') : e.meaningAt ctx feeds = e.meaningAt ctx' feeds := by
  unfold meaningAt
  rw [hs.bare, hs.sources]

/-- **The value of an expression at rest** is the current one, in every scope that differs in
records only. -/
theorem settles_valueAt (hp : ctx.functions.Pure) (ht : e.Tracks ctx first) :
    (settling first.Watched).Shows (e.evaluate ctx) fun history v =>
      ∀ ctx', ctx.Same ctx' → v.bare = (e.valueAt ctx' (history.headD [])).bare := by
  intro history last hw hr
  obtain ⟨v, hlast, hv⟩ := settles_evaluate hp ht.headless ht.follows history last hw hr
  refine ⟨v, hlast, fun ctx' hs => ?_⟩
  have hm : first.MoveOn (history.headD []) := hw.moveOn_newest hr
  have ht' : e.Tracks ctx' (history.headD []) :=
    Tracks.shares ⟨ht.headless, ht.follows.moveOn hm⟩ hs.shares
  calc v.bare = e.meaningAt ctx (history.headD []) := hv
    _ = e.meaningAt ctx' (history.headD []) := meaningAt_same hs
    _ = (e.valueAt ctx' (history.headD [])).bare :=
      (bare_valueAt (hs.shares.functions ▸ hp) ht').symm

end Expr

/-! ## Targets -/

section

variable {ctx ctx' : Context} {first feeds : Feeds}

/-- The value of a target does not depend on the attributes. -/
theorem Expr.bare_valueAt_target (hp : ctx.functions.Pure) (t : Expr) :
    (t.valueAt (ctx.inMode .target) feeds).bare
      = t.meaning (fun _ _ => Value.undefined) (ctx.inMode .target).bare := by
  obtain ⟨v, hv, hmeans⟩ := Expr.gives_target ((ctx.inMode .target).frozen feeds) hp rfl
    (fun _ _ => Value.undefined) t
  unfold valueAt
  rw [(hv.run feeds).1]
  exact hmeans

/-- A stream behind a target settles at what the target lets through. -/
theorem settles_targetStream (ctx : Context) (hp : ctx.functions.Pure) (target : Option Expr)
    {m : Machine Decision} {D : Context → Feeds → Decision}
    (hm : (settling first.Watched).Shows m fun history d =>
      ∀ ctx', ctx.Same ctx' → d = D ctx' (history.headD [])) :
    (settling first.Watched).Shows
      ((targetStream target ctx).switchMap fun answer =>
        match answer.bool? with
        | some true => m
        | some false => just Decision.notApplicable
        | none => just Decision.indeterminate)
      fun history d => ∀ ctx', ctx.Same ctx' →
        d = targetAt target ctx' (history.headD []) (D ctx' (history.headD [])) := by
  obtain ⟨answer, hgives, hmeans⟩ := gives_targetStream ctx hp target
  refine (settling first.Watched).mono ((settling first.Watched).switch
    (G := fun _ a => a = answer)
    (K := fun a history d => ∀ ctx', ctx.Same ctx' → d = match a.bool? with
      | some true => D ctx' (history.headD [])
      | some false => Decision.notApplicable
      | none => Decision.indeterminate)
    ((settling first.Watched).gives hgives fun _ => rfl) fun _ a _ => ?_) ?_
  · cases a.bool? with
    | none => exact (settling first.Watched).shows_just fun _ _ _ => rfl
    | some b =>
      cases b with
      | false => exact (settling first.Watched).shows_just fun _ _ _ => rfl
      | true => exact hm
  · rintro history d ⟨a, rfl, hd⟩ ctx' hs
    rw [hd ctx' hs]
    cases target with
    | none =>
      rw [show a.bool? = some true from Value.bool?_of_bare hmeans]
      rfl
    | some t =>
      have hvalue : a.bool? = (t.valueAt (ctx'.inMode .target) (history.headD [])).bool? := by
        have ht : (t.valueAt (ctx'.inMode .target) (history.headD [])).bare
            = t.meaning (fun _ _ => Value.undefined) (ctx.inMode .target).bare := by
          rw [Expr.bare_valueAt_target (hs.shares.functions ▸ hp), (hs.inMode .target).bare]
        calc a.bool? = (targetMeaning (some t) ctx).bool? := Value.bool?_of_bare hmeans
          _ = (t.meaning (fun _ _ => Value.undefined) (ctx.inMode .target).bare).bool? :=
            Value.bool?_asTarget _
          _ = _ := (Value.bool?_of_bare ht).symm
      rw [targetAt, hvalue]

end

/-! ## Bodies and definitions -/

/-- Two results of a body that are the same up to records. -/
inductive BodyResult.Agrees : BodyResult → BodyResult → Prop where
  | holds {scope scope' : Bindings} :
      scope.bare = scope'.bare → Agrees (.holds scope) (.holds scope')
  | notApplicable : Agrees .notApplicable .notApplicable
  | indeterminate : Agrees .indeterminate .indeterminate

section

variable {first : Feeds}

/-- **A body settles** at what its statements come to in order. -/
theorem settles_runBody (body : List Statement) (ctx : Context) (hp : ctx.functions.Pure)
    (ht : ∀ statement ∈ body, statement.expr.Tracks ctx first) :
    (settling first.Watched).Shows (runBody body ctx) fun history r =>
      ∀ ctx', ctx.Same ctx' → r.Agrees (bodyAt (history.headD []) body ctx') := by
  induction body generalizing ctx with
  | nil => exact (settling first.Watched).shows_just fun _ _ hs => .holds hs.bindings
  | cons statement body ih =>
    have hhead := ht statement (List.mem_cons_self ..)
    have htail := fun st hst => ht st (List.mem_cons_of_mem _ hst)
    cases statement with
    | condition test =>
      refine (settling first.Watched).mono ((settling first.Watched).switch
        (K := fun v history r => ∀ ctx', ctx.Same ctx' → r.Agrees (match v.bool? with
          | some true => bodyAt (history.headD []) body ctx'
          | some false => .notApplicable
          | none => .indeterminate))
        (Expr.settles_valueAt hp hhead) fun _ v _ => ?_) ?_
      · cases v.bool? with
        | none => exact (settling first.Watched).shows_just fun _ _ _ => .indeterminate
        | some b =>
          cases b with
          | false => exact (settling first.Watched).shows_just fun _ _ _ => .notApplicable
          | true => exact ih ctx hp htail
      · rintro history r ⟨v, hv, hr⟩ ctx' hs
        have hb := Value.bool?_of_bare (hv ctx' hs)
        rw [Value.bool?_bare] at hb
        rw [bodyAt, ← hb]
        exact hr ctx' hs
    | define name value =>
      refine (settling first.Watched).mono ((settling first.Watched).switch
        (K := fun v history r => ∀ ctx', ctx.Same ctx' → ∀ v', v.bare = v'.bare → r.Agrees
          (if v.isDefined then bodyAt (history.headD []) body (ctx'.bind name v')
          else .indeterminate))
        (Expr.settles_valueAt hp hhead) fun _ v _ => ?_) ?_
      · cases v.isDefined with
        | false => exact (settling first.Watched).shows_just fun _ _ _ _ _ => .indeterminate
        | true =>
          exact (settling first.Watched).mono (ih (ctx.bind name v) hp
              fun st hst => (htail st hst).bind name v)
            fun history r hr ctx' hs v' hv => hr _ (hs.bind name hv)
      · rintro history r ⟨v, hv, hr⟩ ctx' hs
        have hd := Value.isDefined_of_bare (hv ctx' hs)
        rw [Value.isDefined_bare] at hd
        rw [bodyAt, ← hd]
        exact hr ctx' hs _ (hv ctx' hs)

/-- **Definitions settle** at the scope that they give in order. -/
theorem settles_runDefinitions (definitions : List (String × Expr)) (ctx : Context)
    (hp : ctx.functions.Pure) (ht : ∀ definition ∈ definitions, definition.2.Tracks ctx first) :
    (settling first.Watched).Shows (runDefinitions definitions ctx) fun history scope =>
      ∀ ctx', ctx.Same ctx' → scope.map Bindings.bare
        = (definitionsAt (history.headD []) definitions ctx').map Bindings.bare := by
  induction definitions generalizing ctx with
  | nil => exact (settling first.Watched).shows_just fun _ _ hs => congrArg some hs.bindings
  | cons definition definitions ih =>
    obtain ⟨name, value⟩ := definition
    have htail := fun d hd => ht d (List.mem_cons_of_mem _ hd)
    refine (settling first.Watched).mono ((settling first.Watched).switch
      (K := fun v history scope => ∀ ctx', ctx.Same ctx' → ∀ v', v.bare = v'.bare →
        scope.map Bindings.bare = Option.map Bindings.bare
          (if v.isDefined then definitionsAt (history.headD []) definitions (ctx'.bind name v')
          else none))
      (Expr.settles_valueAt hp (ht _ (List.mem_cons_self ..))) fun _ v _ => ?_) ?_
    · cases v.isDefined with
      | false => exact (settling first.Watched).shows_just fun _ _ _ _ _ => rfl
      | true =>
        exact (settling first.Watched).mono
          (ih (ctx.bind name v) hp fun d hd => (htail d hd).bind name v)
          fun history scope hscope ctx' hs v' hv => hscope _ (hs.bind name hv)
    · rintro history scope ⟨v, hv, hscope⟩ ctx' hs
      have hd := Value.isDefined_of_bare (hv ctx' hs)
      rw [Value.isDefined_bare] at hd
      rw [definitionsAt, ← hd]
      exact hscope ctx' hs _ (hv ctx' hs)

/-! ## Policies -/

namespace Policy

/-- What a policy makes of the values of its attachments is what it makes of them outright, if
they are the same up to records. -/
theorem conclude_eq_conclusionAt {p : Policy} {scope : Context} {feeds : Feeds} {vs : List Value}
    (h : List.Forall₂ (fun e v => v.bare = (Expr.valueAt e scope feeds).bare) p.attachments vs) :
    p.conclude vs = p.conclusionAt scope feeds := by
  unfold conclude conclusionAt Expr.documentsAt
  split
  · next hdef =>
    have hdocs : List.Forall₂ (fun e document => (Expr.valueAt e scope feeds).document?
        = some document) p.attachments (Value.documents vs) :=
      forall₂_through h.flip (Value.forall₂_documents hdef) fun v e document hv hd => by
        rw [← Value.document?_bare, ← show v.bare = _ from hv, Value.document?_bare, hd]
    obtain ⟨ho, ha, ht⟩ := forall₂_decisionWith hdocs
    rw [mapM_eq_some_iff.2 ho, mapM_eq_some_iff.2 ha, mapM_eq_some_iff.2 ht]
    cases hr : (p.decisionWith (Value.documents vs)).resource with
    | none => exact congrArg (Decision.mk _ · _ _) hr
    | some r => exact congrArg (Decision.mk _ · _ _) hr
  · next hundef =>
    split
    · next o a t ho ha ht =>
      -- if all three lists were there, so would be each value
      refine absurd ?_ hundef
      have hdocs := List.rel_append (List.rel_append (mapM_eq_some_iff.1 ho)
        (mapM_eq_some_iff.1 ha)) (mapM_eq_some_iff.1 ht)
      have hvs : List.Forall₂ (fun v document => v.document? = some document) vs (o ++ a ++ t) :=
        forall₂_through h hdocs fun e v document hv hd => by
          rw [← Value.document?_bare, hv, Value.document?_bare, hd]
      refine List.all_eq_true.2 fun v hv => ?_
      obtain ⟨document, -, hd⟩ := forall₂_mem_left hvs hv
      rw [Value.isDefined_eq_isSome, hd]
      rfl
    · rfl

/-- **The conclusion of a policy settles** at the reference conclusion. -/
theorem settles_conclude {p : Policy} {scope : Context} (hp : scope.functions.Pure)
    (ht : ∀ e ∈ p.attachments, e.Tracks scope first) :
    (settling first.Watched).Shows
      ((combineLatest (Expr.evaluateAll p.attachments scope)).map p.conclude)
      fun history d => ∀ ctx', scope.Same ctx' → d = p.conclusionAt ctx' (history.headD []) := by
  have hparts : List.Forall₂ (fun m G => (settling first.Watched).Shows m G)
      (Expr.evaluateAll p.attachments scope)
      (p.attachments.map fun e history v => ∀ ctx', scope.Same ctx' →
        v.bare = (e.valueAt ctx' (history.headD [])).bare) := by
    rw [Expr.evaluateAll_eq_map, List.forall₂_map_left_iff, List.forall₂_map_right_iff]
    exact List.forall₂_same.2 fun e he => Expr.settles_valueAt hp (ht e he)
  refine (settling first.Watched).mono ((settling first.Watched).shows_map p.conclude
    ((settling first.Watched).combine hparts)) ?_
  rintro history d ⟨vs, hvs, rfl⟩ ctx' hs
  rw [List.forall₂_map_left_iff] at hvs
  exact conclude_eq_conclusionAt (hvs.imp fun e v hv => hv ctx' hs)

/-- **A policy settles** at its reference decision, once its target has been answered. -/
theorem settles_evaluate {p : Policy} {ctx : Context} (hp : ctx.functions.Pure)
    (ht : ∀ e ∈ p.exprs, e.Tracks ctx first) :
    (settling first.Watched).Shows (p.evaluate ctx) fun history d =>
      ∀ ctx', ctx.Same ctx' → d = p.outcomeAt ctx' (history.headD []) := by
  have hbody := settles_runBody p.body (ctx.inMode .body) hp
    fun st hst => (ht _ (List.mem_append_left _ (List.mem_map_of_mem hst))).shares
      (ctx.shares_inMode .body)
  refine (settling first.Watched).shows_distinct ((settling first.Watched).mono
    ((settling first.Watched).switch (K := fun r history d => ∀ ctx', ctx.Same ctx' →
      ∀ r', r.Agrees r' → d = p.resultAt (ctx'.inMode .body) (history.headD []) r') hbody
      fun history r _ => ?_) ?_)
  · cases r with
    | notApplicable =>
      refine (settling first.Watched).shows_just fun _ _ _ r' hagrees => ?_
      cases hagrees
      rfl
    | indeterminate =>
      refine (settling first.Watched).shows_just fun _ _ _ r' hagrees => ?_
      cases hagrees
      rfl
    | holds scope =>
      have hshares := (ctx.shares_inMode .body).trans ((ctx.inMode .body).shares_within scope)
      refine (settling first.Watched).mono (settles_conclude (hshares.functions ▸ hp)
        fun e he => (ht e (List.mem_append_right _ he)).shares hshares)
          fun _ d hd ctx' hs r' hagrees => ?_
      cases hagrees with
      | holds hscope => exact hd _ ((hs.inMode .body).within hscope)
  · rintro history d ⟨r, hr, hd⟩ ctx' hs
    exact hd _ hs _ (hr _ (hs.inMode .body))

/-- **A policy settles** at its reference decision. -/
theorem settles_decide {p : Policy} {ctx : Context} (hp : ctx.functions.Pure)
    (ht : ∀ e ∈ p.exprs, e.Tracks ctx first) :
    (settling first.Watched).Shows (p.decide ctx) fun history d =>
      ∀ ctx', ctx.Same ctx' → d = p.decisionAt ctx' (history.headD []) :=
  settles_targetStream ctx hp p.target (settles_evaluate hp ht)

end Policy

/-! ## Sets -/

theorem shows_combineDecisions {streams : List (Machine Decision)} {algorithm : Algorithm}
    {Gs : List (List Feeds → Decision → Prop)}
    (h : List.Forall₂ (fun m G => (settling first.Watched).Shows m G) streams Gs) :
    (settling first.Watched).Shows (combineDecisions streams algorithm) fun history d =>
      ∃ ds, List.Forall₂ (fun G d => G history d) Gs ds ∧ d = algorithm ds :=
  (settling first.Watched).shows_distinct
    ((settling first.Watched).shows_map algorithm ((settling first.Watched).combine h))

namespace PolicySet

/-- **The members of a set settle** at what the algorithm makes of their reference decisions. -/
theorem settles_combineDecisions {s : PolicySet} {scope : Context} (hp : scope.functions.Pure)
    (ht : ∀ p ∈ s.policies, ∀ e ∈ p.exprs, e.Tracks scope first) (algorithm : Algorithm) :
    (settling first.Watched).Shows
      (combineDecisions (s.policies.map fun p => p.decide scope) algorithm)
      fun history d => ∀ ctx', scope.Same ctx' →
        d = algorithm (s.policies.map fun p => p.decisionAt ctx' (history.headD [])) := by
  have hparts : List.Forall₂ (fun m G => (settling first.Watched).Shows m G)
      (s.policies.map fun p => p.decide scope)
      (s.policies.map fun p history d => ∀ ctx', scope.Same ctx' →
        d = p.decisionAt ctx' (history.headD [])) := by
    rw [List.forall₂_map_left_iff, List.forall₂_map_right_iff]
    exact List.forall₂_same.2 fun p hmem => Policy.settles_decide hp (ht p hmem)
  refine (settling first.Watched).mono (shows_combineDecisions hparts) ?_
  rintro history d ⟨ds, hds, rfl⟩ ctx' hs
  rw [List.forall₂_map_left_iff] at hds
  have heq : s.policies.map (fun p => p.decisionAt ctx' (history.headD [])) = ds := by
    rw [← List.forall₂_eq_eq_eq, List.forall₂_map_left_iff]
    exact hds.imp fun p d hd => (hd ctx' hs).symm
  rw [heq]

/-- **A policy set settles** at its reference decision, once its target has been answered. -/
theorem settles_evaluate {s : PolicySet} {ctx : Context} (hp : ctx.functions.Pure)
    (ht : ∀ e ∈ s.exprs, e.Tracks ctx first) :
    (settling first.Watched).Shows (s.evaluate ctx) fun history d =>
      ∀ ctx', ctx.Same ctx' → d = s.outcomeAt ctx' (history.headD []) := by
  unfold PolicySet.evaluate
  cases halg : Dict.get? ctx.algorithms s.algorithm with
  | none =>
    refine (settling first.Watched).shows_just fun history ctx' hs => ?_
    rw [outcomeAt, ← hs.shares.algorithms, halg]
  | some algorithm =>
    have hdefinitions := settles_runDefinitions s.definitions
      (ctx.inMode .body) hp fun definition hmem =>
        (ht _ (List.mem_append_left _ (List.mem_map_of_mem hmem))).shares (ctx.shares_inMode .body)
    refine (settling first.Watched).shows_distinct ((settling first.Watched).mono
      ((settling first.Watched).switch (K := fun scope history d => ∀ ctx', ctx.Same ctx' →
        ∀ scope', scope.map Bindings.bare = Option.map Bindings.bare scope' → d = match scope' with
          | some scope' => algorithm (s.policies.map fun p =>
              p.decisionAt ((ctx'.inMode .body).within scope') (history.headD []))
          | none => Decision.indeterminate) hdefinitions fun history scope _ => ?_) ?_)
    · cases scope with
      | none =>
        refine (settling first.Watched).shows_just fun _ _ _ scope' hscope => ?_
        rw [Option.map_eq_none_iff.1 hscope.symm]
      | some scope =>
        have hshares := (ctx.shares_inMode .body).trans ((ctx.inMode .body).shares_within scope)
        refine (settling first.Watched).mono (settles_combineDecisions
          (hshares.functions ▸ hp) (fun p hmem e he => (ht e (List.mem_append_right _
            (List.mem_flatMap.2 ⟨p, hmem, he⟩))).shares hshares) algorithm)
          fun _ d hd ctx' hs scope' hscope => ?_
        obtain ⟨scope', rfl, hbare⟩ := Option.map_eq_some_iff.1 hscope.symm
        exact hd _ ((hs.inMode .body).within hbare.symm)
    · rintro history d ⟨scope, hscope, hd⟩ ctx' hs
      rw [outcomeAt, ← hs.shares.algorithms, halg]
      exact hd _ hs _ (hscope _ (hs.inMode .body))

end PolicySet

/-! ## Documents -/

namespace Document

/-- **A document settles** at its reference decision. -/
theorem settles_decide {d : Document} {ctx : Context} (hp : ctx.functions.Pure)
    (ht : ∀ e ∈ d.exprs, e.Tracks (ctx.importing d.imports) first) :
    (settling first.Watched).Shows (d.decide ctx) fun history decision =>
      decision = d.decisionAt ctx (history.headD []) := by
  have helement : (settling first.Watched).Shows (d.evaluate ctx) fun history decision =>
      ∀ ctx', (ctx.importing d.imports).Same ctx' → decision = match d.element with
        | .policy p => p.outcomeAt ctx' (history.headD [])
        | .set s => s.outcomeAt ctx' (history.headD []) := by
    obtain ⟨imports, element⟩ := d
    cases element with
    | policy p => exact Policy.settles_evaluate hp ht
    | set s => exact PolicySet.settles_evaluate hp ht
  refine (settling first.Watched).shows_distinct ((settling first.Watched).mono
    (settles_targetStream (ctx.importing d.imports) (D := fun ctx' feeds =>
      match d.element with
      | .policy p => p.outcomeAt ctx' feeds
      | .set s => s.outcomeAt ctx' feeds) hp d.target helement) ?_)
  intro history decision hdecision
  exact hdecision _ (.refl _)

/-- **The decision at rest is the reference decision.** Where a run of the decisions of a document
is at rest, it has given a decision, and the last one is the reference decision under the
current attributes. -/
theorem decide_converges {d : Document} {ctx : Context} {feeds : Feeds}
    {state : (d.decide ctx).State} {given : List Decision} (hp : ctx.functions.Pure)
    (ht : ∀ e ∈ d.exprs, e.Tracks (ctx.importing d.imports) first)
    (hrun : (d.decide ctx).Runs first feeds state given true) :
    given.getLast? = some (d.decisionAt ctx feeds) := by
  obtain ⟨past, hw, -, hrest⟩ := hrun.course
  obtain ⟨decision, hlast, hdecision⟩ := settles_decide hp ht (feeds :: past) _ hw (hrest rfl)
  rw [hlast, hdecision]
  rfl

/-- A policy with a condition on the text of an attribute, which is updated between two drains. -/
theorem decide_converges_after_update :
    let test : Expr := .binary .equals (.call "standard.toString" [.finder "level" [] false])
      (.literal (.string "high"))
    let p : Policy := { name := "p", entitlement := .permit, body := [.condition test] }
    let d : Document := { element := .policy p }
    let ctx : Context := { functions := Functions.standard,
                           sources := [("level", .watch fun _ => "level")] }
    let first : Feeds := Feeds.set [] "level" (Value.of (.string "high"))
    let feeds := first.set "level" (Value.of (.string "low"))
    ∃ state given, (d.decide ctx).Runs first feeds state given true
      ∧ given.getLast? = some (d.decisionAt ctx feeds) := by
  intro test p d ctx first feeds
  have hfinders : test.finders = [("level", false)] := rfl
  have htracks : ∀ e ∈ d.exprs, e.Tracks (ctx.importing d.imports) first := by
    intro e he
    obtain rfl : e = test := List.mem_singleton.1 he
    refine ⟨by rw [Expr.Headless, hfinders]; decide, fun f hf source hs => ?_⟩
    rw [hfinders] at hf
    obtain rfl := List.mem_singleton.1 hf
    obtain rfl : Source.watch (fun _ => "level") = source := Option.some.inj hs
    exact ⟨_, _, rfl, fun q => ⟨⟨rfl, Nat.one_pos⟩, rfl, fun v => rfl⟩⟩
  have hstart : (d.decide ctx).Runs first first _ [] false := .start
  have hrun := (hstart.drain.set "level" (Value.of (.string "low")) rfl).drain
  exact ⟨_, _, hrun, decide_converges Functions.pure_standard htracks hrun⟩

end Document

end

end AccessPolicy
