import AccessPolicy.Proofs.Evaluation.Compositional
import AccessPolicy.Proofs.Expr.Occurrence
import AccessPolicy.Proofs.Policy.Attachments

/-!
# How errors go through an expression

An operator that always needs its operand is *strict* in it, and so are objects in their members,
arrays in their items, calls in their arguments, and paths, filters and templates in what they start
from. Errors are values, and an error in a strict position is what the whole comes to, provided that
no error stands in a strict position before it. What stands after it is of no account, whatever it
is: other parts are evaluated as well or not, but their values are not looked at.

The error is passed on as it is, with its message and its causes. Only the record of the value
changes on the way, because operators record what they were applied to.
-/

namespace AccessPolicy

open Machine

/-! ## Operations on errors -/

namespace Value

/-- The first error counts, and what comes after it does not. -/
theorem firstError?_append_cons {before after : List Value} {v : Value}
    (hbefore : ∀ w ∈ before, w.isError = false) (hv : v.isError = true) :
    firstError? (before ++ v :: after) = some v := by
  have hnone : before.find? isError = none :=
    List.find?_eq_none.2 fun w hw => by rw [hbefore w hw]; exact Bool.false_ne_true
  rw [firstError?, List.find?_append, hnone, Option.none_or, List.find?_cons_of_pos hv]

/-- An error is no document. -/
theorem outcome_of_isError {v : Value} (h : v.isError = true) :
    ∃ message causes, v.outcome = .error message causes := by
  unfold isError at h
  cases ho : v.outcome with
  | error message causes => exact ⟨message, causes, rfl⟩
  | _ => rw [ho] at h; cases h

end Value

variable {lib : Libraries}

theorem UnaryOperator.outcome_apply_of_isError (op : UnaryOperator) {v : Value}
    (h : v.isError = true) : (op.apply lib v).outcome = v.outcome := by
  have hcompute : op.compute lib v = .error v := by
    cases op <;> simp only [compute, Value.requireBool, Value.require_of_isError h] <;> rfl
  unfold apply
  rw [hcompute]
  rfl

namespace BinaryOperator

theorem outcome_apply_of_left (op : BinaryOperator) {left : Value} (right : Value)
    (h : left.isError = true) : (op.apply lib left right).outcome = left.outcome := by
  unfold apply
  rw [if_pos h]
  rfl

theorem outcome_apply_of_right (op : BinaryOperator) {left right : Value}
    (hl : left.isError = false) (hr : right.isError = true) :
    (op.apply lib left right).outcome = right.outcome := by
  unfold apply
  rw [if_neg (Bool.eq_false_iff.1 hl), if_pos hr]
  rfl

/-- A left operand that is an error decides an operator, also one that may skip the right one. -/
theorem applyLazily_of_isError (op : BinaryOperator) {left : Value} (right : Machine Value)
    (h : left.isError = true) :
    op.applyLazily left right = just (left.recordedAs op.symbol [left]) := by
  unfold applyLazily
  rw [Value.requireBool, Value.require_of_isError h]

end BinaryOperator

/-! ## Steps, edits and templates of errors -/

/-- A step passes an error on. -/
theorem Step.follow_of_isError (s : Step) (ctx : Context) {v : Value} (h : v.isError = true) :
    s.follow ctx v = just v := by
  cases s with
  | select selector =>
    unfold follow Selector.select
    rw [if_pos h]
  | computed | condition | finder =>
    unfold follow
    rw [if_pos h]

/-- So do any number of steps. -/
theorem Step.gives_followAll_of_isError (ss : List Step) (ctx : Context) {m : Machine Value}
    {v : Value} (hm : m.Gives v) (h : v.isError = true) : (Step.followAll ss ctx m).Gives v := by
  induction ss generalizing m with
  | nil => exact hm
  | cons s ss ih =>
    refine ih (hm.switchMap ?_)
    rw [s.follow_of_isError ctx h]
    exact gives_just v

/-- An error is not edited. -/
theorem Value.editedBy_of_isError {v : Value} (edits : Machine Value → Machine Value)
    (h : v.isError = true) : v.editedBy edits = just v := by
  obtain ⟨message, causes, ho⟩ := outcome_of_isError h
  unfold editedBy
  rw [ho]

namespace Expr

variable {ctx : Context}

/-! ## Strict positions -/

/-- **A strict position**: `e.Strict before x` says that `x` stands in `e` where its value is needed
in any case, and that `before` are the parts of `e` that stand so before it, in their order. -/
inductive Strict : Expr → List Expr → Expr → Prop where
  | operand (op : UnaryOperator) (x : Expr) : Strict (.unary op x) [] x
  /-- The left operand is needed by every operator. -/
  | left (op : BinaryOperator) (x right : Expr) : Strict (.binary op x right) [] x
  | right {op : BinaryOperator} (left x : Expr) :
      op.isLazy = false → Strict (.binary op left x) [left] x
  | member (before : List (String × Expr)) (key : String) (x : Expr)
      (after : List (String × Expr)) :
      Strict (.object (before ++ (key, x) :: after)) (before.map Prod.snd) x
  | item (before : List Expr) (x : Expr) (after : List Expr) :
      Strict (.array (before ++ x :: after)) before x
  | argument (name : String) (before : List Expr) (x : Expr) (after : List Expr) :
      Strict (.call name (before ++ x :: after)) before x
  | pathBase (x : Expr) (steps : List Step) : Strict (.path x steps) [] x
  | filterBase (x : Expr) (edits : List Edit) : Strict (.filter x edits) [] x
  | templateBase (x body : Expr) : Strict (.template x body) [] x

/-- An expression gives a single value that is no error. -/
def Succeeds (e : Expr) (ctx : Context) : Prop :=
  ∃ v, (e.evaluate ctx).Gives v ∧ v.isError = false

/-- **An expression exposes another one** that is reached from it through strict positions only, if
on each level of the way all that stands before the position succeeds. -/
inductive Exposes (ctx : Context) : Expr → Expr → Prop where
  | here (e : Expr) : Exposes ctx e e
  | inside {e x inner : Expr} {before : List Expr} :
      e.Strict before x → (∀ y ∈ before, y.Succeeds ctx) → Exposes ctx x inner →
        Exposes ctx e inner

/-! ## Expressions without finders -/

theorem finders_of_part {e x : Expr} (hpart : x.Part e) (h : e.finders = []) :
    x.finders = [] :=
  List.flatMap_eq_nil_iff.2 fun n hn => List.flatMap_eq_nil_iff.1 h n (hpart.mem_nodes hn)

theorem single_of_finderless {e : Expr} (h : e.finders = []) (ctx : Context) :
    (e.evaluate ctx).Single :=
  compositional_single.evaluate e ctx fun _ f hf => by rw [h] at hf; cases hf

theorem Strict.part {e x : Expr} {before : List Expr} (h : e.Strict before x) : x.Part e := by
  cases h with
  | operand => exact .operand _ _
  | left => exact .left _ _ _
  | right => exact .right _ _ _
  | member => exact .member (List.mem_append_right _ List.mem_cons_self)
  | item => exact .item (List.mem_append_right _ List.mem_cons_self)
  | argument => exact .argument (List.mem_append_right _ List.mem_cons_self)
  | pathBase => exact .pathBase _ _
  | filterBase => exact .filterBase _ _
  | templateBase => exact .templateBase _ _

/-! ## Side by side -/

theorem evaluateMembers_eq (members : List (String × Expr)) (ctx : Context) :
    evaluateMembers members ctx = evaluateAll (members.map Prod.snd) ctx := by
  induction members with
  | nil => rfl
  | cons entry members ih => rw [evaluateMembers, ih, List.map_cons, evaluateAll]

/-- An expression that is evaluated beside others gives its value in its place, after values that
are no errors if those before it succeed. -/
theorem gives_beside {before after : List Expr} {x : Expr} {v : Value}
    (hbefore : ∀ y ∈ before, y.Succeeds ctx) (hx : (x.evaluate ctx).Gives v)
    (hafter : ∀ y ∈ after, (y.evaluate ctx).Single) :
    ∃ vs ws, (∀ w ∈ vs, w.isError = false)
      ∧ (combineLatest (evaluateAll (before ++ x :: after) ctx)).Gives (vs ++ v :: ws) := by
  obtain ⟨vs, hvs⟩ := exists_forall₂ hbefore
  obtain ⟨ws, hws⟩ := exists_forall₂ hafter
  refine ⟨vs, ws, fun w hw => ?_, gives_combineLatest ?_⟩
  · obtain ⟨y, -, -, hfine⟩ := forall₂_mem_left hvs.flip hw
    exact hfine
  · rw [evaluateAll_eq_map, List.forall₂_map_left_iff]
    exact List.rel_append (hvs.imp fun _ _ h => h.1) (.cons hx hws)

/-- What is made of values side by side comes to the error in a place if it comes to the first
error, and those before the place succeed. -/
theorem gives_error_beside {before after : List Expr} {x : Expr} {v : Value}
    {f : List Value → Value × List Event} (hbefore : ∀ y ∈ before, y.Succeeds ctx)
    (hx : (x.evaluate ctx).Gives v) (hv : v.isError = true)
    (hafter : ∀ y ∈ after, (y.evaluate ctx).Single)
    (hf : ∀ vs, Value.firstError? vs = some v → (f vs).1 = v) :
    ((combineLatest (evaluateAll (before ++ x :: after) ctx)).mapReporting f).Gives v := by
  obtain ⟨vs, ws, hfine, hgives⟩ := gives_beside hbefore hx hafter
  have hm := hgives.mapReporting f
  rwa [hf _ (Value.firstError?_append_cons hfine hv)] at hm

/-! ## One level, and all the way -/

/-- **An error in a strict position is passed on**, if all that stands before it succeeds. -/
theorem Strict.passes_on {e x : Expr} {before : List Expr} {v : Value} (h : e.Strict before x)
    (hmode : ctx.mode = .body) (hfree : e.finders = []) (hbefore : ∀ y ∈ before, y.Succeeds ctx)
    (hx : (x.evaluate ctx).Gives v) (hv : v.isError = true) :
    ∃ w, (e.evaluate ctx).Gives w ∧ w.outcome = v.outcome := by
  have hsingle : ∀ y : Expr, y.Part e → (y.evaluate ctx).Single :=
    fun y hy => single_of_finderless (finders_of_part hy hfree) ctx
  cases h with
  | operand op =>
    have hop : (op.apply ctx.libraries v).outcome = v.outcome := op.outcome_apply_of_isError hv
    exact ⟨_, (hx.mapReporting fun v => (op.apply ctx.libraries v, [])).distinct _, hop⟩
  | left op _ right =>
    unfold evaluate
    cases hlazy : op.isLazy with
    | true =>
      rw [if_pos rfl, hmode]
      refine ⟨v.recordedAs op.symbol [v], (hx.switchMap ?_).distinct _, rfl⟩
      rw [op.applyLazily_of_isError _ hv]
      exact gives_just _
    | false =>
      obtain ⟨r, hr⟩ := hsingle right (.right op x right)
      have hboth := gives_combineLatest (.cons hx (.cons hr .nil))
      rw [if_neg Bool.false_ne_true]
      exact ⟨_, (hboth.mapReporting fun vs => (op.applyAll ctx.libraries vs, [])).distinct _,
        op.outcome_apply_of_left r hv⟩
  | @right op left _ hlazy =>
    obtain ⟨l, hl, hfine⟩ := hbefore left (List.mem_singleton_self _)
    have hboth := gives_combineLatest (.cons hl (.cons hx .nil))
    unfold evaluate
    rw [if_neg (Bool.eq_false_iff.1 hlazy)]
    exact ⟨_, (hboth.mapReporting fun vs => (op.applyAll ctx.libraries vs, [])).distinct _,
      op.outcome_apply_of_right hfine hv⟩
  | member before key _ after =>
    refine ⟨v, ?_, rfl⟩
    unfold evaluate
    rw [evaluateMembers_eq, List.map_append (f := Prod.snd), List.map_cons (f := Prod.snd)]
    refine (gives_error_beside hbefore hx hv (fun y hy => ?_) fun vs hvs => ?_).distinct _
    · obtain ⟨entry, hentry, rfl⟩ := List.mem_map.1 hy
      exact hsingle _ (.member (List.mem_append_right _ (List.mem_cons_of_mem _ hentry)))
    · show Value.objectOf _ vs = v
      rw [Value.objectOf, hvs]
  | item before _ after =>
    refine ⟨v, (gives_error_beside hbefore hx hv (fun y hy => ?_) fun vs hvs => ?_).distinct _, rfl⟩
    · exact hsingle y (.item (List.mem_append_right _ (List.mem_cons_of_mem _ hy)))
    · show Value.strictArrayOf vs = v
      rw [Value.strictArrayOf, hvs]
  | argument name before _ after =>
    refine ⟨v, (gives_error_beside hbefore hx hv (fun y hy => ?_) fun vs hvs => ?_).distinct _, rfl⟩
    · exact hsingle y (.argument (List.mem_append_right _ (List.mem_cons_of_mem _ hy)))
    · rw [Context.callWith, hvs]
  | pathBase _ steps =>
    exact ⟨v, (Step.gives_followAll_of_isError steps ctx hx hv).distinct _, rfl⟩
  | filterBase _ edits =>
    refine ⟨v, (hx.switchMap ?_).distinct _, rfl⟩
    rw [Value.editedBy_of_isError _ hv]
    exact gives_just v
  | templateBase _ body =>
    obtain ⟨message, causes, ho⟩ := Value.outcome_of_isError hv
    refine ⟨v, (hx.switchMap ?_).distinct _, rfl⟩
    rw [ho]
    exact gives_just v

/-- **Errors propagate.** If an expression without finders exposes another one, and this comes to an
error, then the expression comes to exactly that error, with the same message and the same
causes. -/
theorem error_propagates {e inner : Expr} {v : Value} {message : String} {causes : List String}
    (hmode : ctx.mode = .body) (hfree : e.finders = []) (h : e.Exposes ctx inner)
    (hinner : (inner.evaluate ctx).Gives v) (herror : v.outcome = .error message causes) :
    ∃ w, (e.evaluate ctx).Gives w ∧ w.outcome = .error message causes := by
  induction h with
  | here => exact ⟨v, hinner, herror⟩
  | inside hstrict hbefore _ ih =>
    obtain ⟨u, hu, ho⟩ := ih (finders_of_part hstrict.part hfree) hinner
    have hu' : u.isError = true := by
      unfold Value.isError
      rw [ho]
    obtain ⟨w, hw, hsame⟩ := hstrict.passes_on hmode hfree hbefore hu hu'
    exact ⟨w, hw, hsame.trans ho⟩

/-- In `[null, !x && y, z]`, where nothing is bound: the error about `x` counts. -/
theorem error_propagates_unbound :
    let negation : Expr := .unary .not (.var "x")
    let both : Expr := .binary .lazyAnd negation (.var "y")
    let e : Expr := .array [.literal .null, both, .var "z"]
    let ctx : Context := {}
    let fault := Value.fault (.unbound "x")
    ctx.mode = .body ∧ e.finders = [] ∧ e.Exposes ctx (.var "x")
      ∧ ((Expr.var "x").evaluate ctx).Gives fault
      ∧ fault.outcome = .error "Unbound variable x" []
      ∧ ∃ w, (e.evaluate ctx).Gives w ∧ w.outcome = .error "Unbound variable x" [] := by
  intro negation both e ctx fault
  have hfree : e.finders = [] := rfl
  have hx : ((Expr.var "x").evaluate ctx).Gives fault := gives_just fault
  have hin : Exposes ctx both (.var "x") :=
    .inside (.left _ _ _) (by rintro _ ⟨⟩) (.inside (.operand _ _) (by rintro _ ⟨⟩) (.here _))
  have hexposed : e.Exposes ctx (.var "x") := by
    refine .inside (.item [.literal .null] both [.var "z"]) (fun y hy => ?_) hin
    obtain rfl := List.mem_singleton.1 hy
    exact ⟨_, gives_just _, rfl⟩
  exact ⟨rfl, hfree, hexposed, hx, rfl, error_propagates rfl hfree hexposed hx rfl⟩

end Expr

end AccessPolicy
