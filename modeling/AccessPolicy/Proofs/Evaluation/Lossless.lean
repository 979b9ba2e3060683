import AccessPolicy.Proofs.Evaluation.Failing
import AccessPolicy.Proofs.Evaluation.Propagation

/-!
# Edits are lossless and fail closed

Whoever redacts or rewrites a document relies on two things. What an edit does not mean to change it
must not lose, however far it takes the document apart. And if anything goes wrong at any of the
places that the edit reaches, the outcome must not be a document that has been edited at the other
ones.

Both are laws of the functions that the edits call, as it were: a function that gives back what it
is given makes for an edit that gives back the document, and a function that fails makes for an edit
that fails, unless there is no place to call it at. They hold for all paths, whether an edit can
follow them or not, and for any number of edits one after another. What the edits evaluate must not
ask for attributes, since the value of an attribute changes and may not be there.
-/

namespace AccessPolicy

open Machine

/-! ## One edit -/

namespace Edit

/-- The arguments of the function of an edit, apart from the part that it is applied to. -/
def arguments : Edit → List Expr
  | remove _ _ => []
  | apply _ _ _ arguments => arguments

/-- What an edit does with a part of a document, `@` standing for the root in the arguments. -/
def action : Edit → Context → (root part : Json) → Machine Value
  | remove _ _, _, _, _ => just Value.undefined
  | apply _ _ name arguments, ctx, root, part =>
    (combineLatest (Expr.evaluateAll arguments (ctx.about (Value.of root)))).mapReporting
      (ctx.callOn name part)

theorem follow_eq (e : Edit) (ctx : Context) (d : Json) :
    e.follow ctx d = EditStep.editDocument e.each (Step.toEdits e.target ctx) (e.action ctx) d := by
  cases e <;> rfl

/-- **An edit free of attributes**: its conditions and arguments ask for none. -/
structure AttributeFree (e : Edit) : Prop where
  conditions : ∀ test, .condition test ∈ e.target → test.finders = []
  arguments : ∀ a ∈ e.arguments, a.finders = []

/-- **An edit spares documents** if its function does: each call of it gives back the first argument
or an error. A function that gives back its first argument does, and one that always fails. -/
def Spares (ctx : Context) : Edit → Prop
  | remove _ _ => False
  | apply _ _ name _ => ∀ part arguments,
    (ctx.call name (Value.of part :: arguments)).1.Spares part

/-- **An edit fails on a document** if it fails along its steps from one of the roots. -/
def Fails (e : Edit) (ctx : Context) (d : Json) : Prop :=
  ∃ root ∈ EditStep.roots e.each d,
    EditStep.FailsAlong (e.action ctx root) (Step.toEdits e.target ctx) root

variable {e : Edit} {ctx : Context}

theorem tested_toEdits {steps : List Step}
    (h : ∀ test, .condition test ∈ steps → test.finders = []) (ctx : Context) :
    Compositional.Tested Single (Step.toEdits steps ctx) := by
  induction steps with
  | nil => rintro _ ⟨⟩
  | cons s steps ih =>
    refine Compositional.tested_cons.2 ⟨fun test htest x => ?_, ih fun t ht => h t (.tail _ ht)⟩
    cases s with
    | condition check =>
      cases List.mem_singleton.1 htest
      exact Expr.single_of_finderless (h check List.mem_cons_self) _
    | _ => cases List.mem_singleton.1 htest

theorem AttributeFree.single_evaluateAll {arguments : List Expr}
    (h : ∀ a ∈ arguments, a.finders = []) (ctx : Context) :
    ∀ m ∈ Expr.evaluateAll arguments ctx, m.Single := by
  induction arguments with
  | nil => rintro _ ⟨⟩
  | cons a arguments ih =>
    obtain ⟨ha, harguments⟩ := List.forall_mem_cons.1 h
    exact List.forall_mem_cons.2 ⟨Expr.single_of_finderless ha ctx, ih harguments⟩

theorem AttributeFree.single_action (h : e.AttributeFree) (ctx : Context) (root part : Json) :
    (e.action ctx root part).Single := by
  cases e with
  | remove each target => exact ⟨_, gives_just _⟩
  | apply each target name arguments =>
    exact compositional_single.mapReporting _ (ctx.isCall_callOn name part)
      (compositional_single.combine (single_evaluateAll h.arguments _))

theorem AttributeFree.single_follow (h : e.AttributeFree) (ctx : Context) (d : Json) :
    (e.follow ctx d).Single := by
  rw [follow_eq]
  exact compositional_single.editDocument (h.single_action ctx) (tested_toEdits h.conditions ctx)
    e.each d

/-- A call with an argument that is an error is one as well. -/
theorem spares_callOn {name : String} {part : Json} {arguments : List Value}
    (h : (ctx.call name (Value.of part :: arguments)).1.Spares part) :
    (ctx.callOn name part arguments).1.Spares part := by
  unfold Context.callOn
  split
  · next e he => exact .inl (List.find?_some he)
  · exact h

theorem AttributeFree.spares_action (h : e.AttributeFree) (hspares : e.Spares ctx)
    (root part : Json) : (e.action ctx root part).Spares part := by
  cases e with
  | remove each target => exact hspares.elim
  | apply each target name arguments =>
    obtain ⟨vs, hvs⟩ := compositional_single.combine
      (single_evaluateAll h.arguments (ctx.about (Value.of root)))
    exact ⟨_, hvs.mapReporting (ctx.callOn name part), spares_callOn (hspares part vs)⟩

theorem AttributeFree.spares_follow (h : e.AttributeFree) (hspares : e.Spares ctx) {d : Json}
    (hd : d.Canonical) : (e.follow ctx d).Spares d := by
  rw [follow_eq]
  exact EditStep.spares_editDocument (h.spares_action hspares) (tested_toEdits h.conditions ctx)
    e.each hd

theorem AttributeFree.errs_follow (h : e.AttributeFree) {d : Json} (hfails : e.Fails ctx d) :
    (e.follow ctx d).Errs := by
  obtain ⟨root, hroot, halong⟩ := hfails
  rw [follow_eq]
  exact EditStep.errs_editDocument (h.single_action ctx) (tested_toEdits h.conditions ctx) hroot
    halong

/-! ## One edit after another -/

variable {edits : List Edit} {m : Machine Value}

/-- What the next edit makes of the value that the edits before it have come to. -/
def next (e : Edit) (ctx : Context) (v : Value) : Machine Value :=
  match v.document? with
  | some d => e.follow ctx d
  | none => just v

theorem gives_next_of_isError {v : Value} (h : v.isError = true) : (e.next ctx v).Gives v := by
  obtain ⟨message, causes, ho⟩ := Value.outcome_of_isError h
  rw [next, Value.document?, ho]
  exact gives_just v

theorem next_of_defined {v : Value} {d : Json} (h : v.outcome = .defined d) :
    e.next ctx v = e.follow ctx d := by
  rw [next, Value.document?, h]

theorem followAll_cons (e : Edit) (edits : List Edit) (ctx : Context) (m : Machine Value) :
    followAll (e :: edits) ctx m = followAll edits ctx (m.switchMap (e.next ctx)) := rfl

theorem followAll_append (before after : List Edit) (ctx : Context) (m : Machine Value) :
    followAll (before ++ after) ctx m = followAll after ctx (followAll before ctx m) := by
  induction before generalizing m with
  | nil => rfl
  | cons e before ih =>
    rw [List.cons_append, followAll_cons, followAll_cons]
    exact ih _

theorem single_followAll (h : ∀ e ∈ edits, e.AttributeFree) (hm : m.Single) :
    (followAll edits ctx m).Single := by
  induction edits generalizing m with
  | nil => exact hm
  | cons e edits ih =>
    obtain ⟨he, hedits⟩ := List.forall_mem_cons.1 h
    rw [followAll_cons]
    refine ih hedits (compositional_single.switch hm fun v => ?_)
    unfold next
    split
    · exact he.single_follow ctx _
    · exact ⟨v, gives_just v⟩

/-- An error is what all further edits come to. -/
theorem errs_followAll (hm : m.Errs) : (followAll edits ctx m).Errs := by
  induction edits generalizing m with
  | nil => exact hm
  | cons e edits ih =>
    obtain ⟨v, hv, herror⟩ := hm
    rw [followAll_cons]
    exact ih ⟨v, hv.switchMap (gives_next_of_isError herror), herror⟩

theorem spares_followAll (h : ∀ e ∈ edits, e.AttributeFree) (hspares : ∀ e ∈ edits, e.Spares ctx)
    {d : Json} (hd : d.Canonical) (hm : m.Spares d) : (followAll edits ctx m).Spares d := by
  induction edits generalizing m with
  | nil => exact hm
  | cons e edits ih =>
    obtain ⟨he, hedits⟩ := List.forall_mem_cons.1 h
    obtain ⟨hse, hsedits⟩ := List.forall_mem_cons.1 hspares
    obtain ⟨v, hv, herror | hdefined⟩ := hm <;> rw [followAll_cons]
    · exact ih hedits hsedits ⟨v, hv.switchMap (gives_next_of_isError herror), .inl herror⟩
    · obtain ⟨w, hw, hwspares⟩ := he.spares_follow hse hd
      refine ih hedits hsedits ⟨w, hv.switchMap ?_, hwspares⟩
      rwa [next_of_defined hdefined]

theorem applyAll_of_defined {v : Value} {d : Json} (hv : v.outcome = .defined d)
    (edits : List Edit) (ctx : Context) : applyAll edits ctx v = followAll edits ctx (just v) := by
  rw [applyAll, Value.editedBy, hv]

/-- **Edits are lossless and fail closed.** However many edits free of attributes are applied to a
document, and along whatever paths, they come to a value. If the function of each edit gives back
its first argument or an error, the value is the document or an error. And whatever the functions
do, if one of the edits fails on the document that the edits before it have come to, the value is an
error. -/
theorem lossless_and_closed (edits : List Edit) (ctx : Context) {v : Value} {d : Json}
    (hv : v.outcome = .defined d) (hd : d.Canonical) (hfree : ∀ e ∈ edits, e.AttributeFree) :
    ∃ r, (applyAll edits ctx v).Gives r
      ∧ ((∀ e ∈ edits, e.Spares ctx) → r.isError = true ∨ r.outcome = v.outcome)
      ∧ (∀ before e after w reached, edits = before ++ e :: after →
          (applyAll before ctx v).Gives w → w.outcome = .defined reached → e.Fails ctx reached →
            r.isError = true) := by
  obtain ⟨r, hr⟩ : (followAll edits ctx (just v)).Single := single_followAll hfree ⟨v, gives_just v⟩
  rw [applyAll_of_defined hv]
  refine ⟨r, hr, fun hspares => ?_, ?_⟩
  · obtain ⟨w, hw, h⟩ := spares_followAll hfree hspares hd ⟨v, gives_just v, .inr hv⟩
    rw [hr.unique hw, hv]
    exact h
  · rintro before e after w reached rfl hw hreached hfails
    have he : e.AttributeFree := hfree e (List.mem_append_right _ List.mem_cons_self)
    rw [applyAll_of_defined hv] at hw
    obtain ⟨f, hf, herror⟩ := he.errs_follow hfails
    have hfailed : ((followAll before ctx (just v)).switchMap (e.next ctx)).Errs := by
      refine ⟨f, hw.switchMap ?_, herror⟩
      rwa [next_of_defined hreached]
    rw [followAll_append, followAll_cons] at hr
    obtain ⟨u, hu, herror⟩ : (followAll after ctx _).Errs := errs_followAll hfailed
    rwa [hr.unique hu]

/-- A member that is given back as it is, and one for which the function is missing. -/
theorem lossless_and_closed_calls :
    let document : Json := .object [("a", .bool true), ("b", .null)]
    let ctx : Context := { functions := [("same", fun vs => .ok (vs.headD Value.undefined))] }
    let keeping : Edit := .apply false [.select (.key "a")] "same" []
    let failing : Edit := .apply false [.select (.key "a")] "missing" []
    (Value.of document).outcome = .defined document ∧ document.Canonical
      ∧ (∀ e ∈ [failing, keeping], e.AttributeFree)
      ∧ keeping.Spares ctx ∧ failing.Fails ctx document
      ∧ (∃ r, (applyAll [keeping] ctx (Value.of document)).Gives r
        ∧ (r.isError = true ∨ r.outcome = .defined document))
      ∧ ∃ r, (applyAll [failing, keeping] ctx (Value.of document)).Gives r
        ∧ r.isError = true := by
  intro document ctx keeping failing
  have hcanonical : document.Canonical := Json.canonical_of_canonical? document rfl
  have hfree : ∀ e ∈ [failing, keeping], e.AttributeFree := by
    intro e he
    rcases List.mem_pair.1 he with rfl | rfl
    all_goals exact ⟨by simp [failing, keeping, target], by rintro _ ⟨⟩⟩
  have hspares : keeping.Spares ctx := fun _ _ => .inr rfl
  have hfails : failing.Fails ctx document :=
    ⟨document, List.mem_singleton_self _, .selected (.key List.mem_cons_self)
      (.action ⟨_, (gives_combineLatest .nil).mapReporting _, rfl⟩)⟩
  obtain ⟨kept, hkept, hlossless, -⟩ := lossless_and_closed [keeping] ctx
    (v := Value.of document) rfl hcanonical fun e he => hfree e (.tail _ he)
  obtain ⟨failed, hfailed, -, hclosed⟩ := lossless_and_closed [failing, keeping] ctx
    (v := Value.of document) rfl hcanonical hfree
  refine ⟨rfl, hcanonical, hfree, hspares, hfails, ⟨kept, hkept, ?_⟩, failed, hfailed, ?_⟩
  · exact hlossless fun e he => List.mem_singleton.1 he ▸ hspares
  · exact hclosed [] failing [keeping] _ document rfl (gives_just _) rfl hfails

end Edit

end AccessPolicy
