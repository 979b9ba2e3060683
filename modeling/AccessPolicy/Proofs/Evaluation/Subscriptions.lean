import AccessPolicy.Evaluation.Expr
import AccessPolicy.Proofs.Expr.Finders
import AccessPolicy.Proofs.Expr.Occurrence
import AccessPolicy.Proofs.Stream.Holdings

/-!
# No subscription is left behind

Each attribute finder of an expression has at most one subscription open, however often its
arguments, the value that it is asked about or the left operand of a lazy operator have changed:
whatever it had opened before goes with the stream that is replaced. So an expression holds at most
as many subscriptions of a source as it has finders of that source.

This is so where each part of an expression is evaluated once at a time. A condition is evaluated
for every child of a container, a template for every item of an array, and the arguments of an edit
for every place that the edit reaches: each finder in them counts as often as there are values to
go through, and an expression without these is called **simple**.
-/

namespace AccessPolicy

open Machine

/-! ## Simple expressions -/

/-- A step that evaluates an expression for each child of a container. -/
def Step.isCondition : Step → Bool
  | .condition _ => true
  | _ => false

namespace Expr

/-- An expression that may evaluate a part of it for several values side by side. -/
def multiplies : Expr → Bool
  | .path _ steps => steps.any Step.isCondition
  | .filter _ _ => true
  | .template _ _ => true
  | _ => false

/-- **A simple expression**: there is no condition step, no filter and no template in it, at any
depth. -/
def Simple (e : Expr) : Prop := ∀ n : Expr, n.OccursIn e → n.multiplies = false

theorem Simple.part {e x : Expr} (h : e.Simple) (hpart : x.Part e) : x.Simple :=
  fun n hn => h n (hn.tail hpart)

/-- Whether an expression is simple can be read off its nodes. -/
theorem simple_iff {e : Expr} : e.Simple ↔ ∀ n ∈ e.nodes, n.multiplies = false := by
  simp only [Simple, mem_nodes_iff]

end Expr

/-- A step of a simple expression. -/
structure Step.Simple (s : Step) : Prop where
  unconditional : s.isCondition = false
  holds : ∀ x, s.Holds x → x.Simple

theorem Expr.Simple.steps {base : Expr} {steps : List Step} (h : (Expr.path base steps).Simple) :
    ∀ s ∈ steps, s.Simple := by
  intro s hs
  refine ⟨?_, fun x hx => h.part (.step hs hx)⟩
  have hself : steps.any Step.isCondition = false := h _ .refl
  exact Bool.eq_false_iff.2 (List.any_eq_false.1 hself s hs)

/-! ## Finders of a source -/

/-- How many of some finders look up a source in a context. -/
def Context.usesOf (ctx : Context) (source : String) (finders : List FinderUse) : Nat :=
  finders.countP fun f => decide (ctx.resolve f.1 = source)

/-- **How many attribute finders** of an expression have a name that stands for a source. -/
def Expr.findersOf (e : Expr) (ctx : Context) (source : String) : Nat :=
  ctx.usesOf source e.finders

section Counting

variable (ctx : Context) (source : String)

theorem usesOf_flatMap_append (xs ys : List Expr) :
    ctx.usesOf source ((xs ++ ys).flatMap Expr.ownFinders)
      = ctx.usesOf source (xs.flatMap Expr.ownFinders)
        + ctx.usesOf source (ys.flatMap Expr.ownFinders) := by
  rw [List.flatMap_append]
  exact List.countP_append

theorem usesOf_single (f : FinderUse) :
    ctx.usesOf source [f] = if ctx.resolve f.1 = source then 1 else 0 := by
  unfold Context.usesOf
  rw [List.countP_singleton]
  simp only [decide_eq_true_eq]

theorem usesOf_binary (op : BinaryOperator) (left right : Expr) :
    ctx.usesOf source (Expr.binary op left right).finders
      = ctx.usesOf source left.finders + ctx.usesOf source right.finders :=
  usesOf_flatMap_append ctx source left.nodes right.nodes

theorem usesOf_finder (name : String) (arguments : List Expr) (head : Bool) :
    ctx.usesOf source (Expr.finder name arguments head).finders
      = ctx.usesOf source (Expr.findersOfAll arguments)
        + if ctx.resolve name = source then 1 else 0 := by
  show ctx.usesOf source ([(name, head)] ++ Expr.findersOfAll arguments) = _
  rw [← usesOf_single ctx source (name, head), Nat.add_comm]
  exact List.countP_append

theorem usesOf_path (base : Expr) (steps : List Step) :
    ctx.usesOf source (Expr.path base steps).finders
      = ctx.usesOf source base.finders + ctx.usesOf source (Step.findersOfAll steps) := by
  have hnodes := usesOf_flatMap_append ctx source base.nodes (Step.nodesOfAll steps)
  have hpath : ctx.usesOf source (Expr.path base steps).finders
      = ctx.usesOf source (steps.filterMap Step.finder?)
        + ctx.usesOf source ((base.nodes ++ Step.nodesOfAll steps).flatMap Expr.ownFinders) :=
    List.countP_append
  have hsteps : ctx.usesOf source (Step.findersOfAll steps)
      = ctx.usesOf source (steps.filterMap Step.finder?)
        + ctx.usesOf source ((Step.nodesOfAll steps).flatMap Expr.ownFinders) :=
    List.countP_append
  rw [hpath, hnodes, hsteps, Nat.add_left_comm]
  rfl

theorem usesOf_all_cons (e : Expr) (es : List Expr) :
    ctx.usesOf source (Expr.findersOfAll (e :: es))
      = ctx.usesOf source e.finders + ctx.usesOf source (Expr.findersOfAll es) :=
  usesOf_flatMap_append ctx source e.nodes (Expr.nodesOfAll es)

theorem usesOf_members_cons (key : String) (e : Expr) (members : List (String × Expr)) :
    ctx.usesOf source (Expr.findersOfMembers ((key, e) :: members))
      = ctx.usesOf source e.finders + ctx.usesOf source (Expr.findersOfMembers members) :=
  usesOf_flatMap_append ctx source e.nodes (Expr.nodesOfMembers members)

theorem usesOf_step_finder (name : String) (arguments : List Expr) (head : Bool) :
    ctx.usesOf source (Step.finder name arguments head).finders
      = ctx.usesOf source (Expr.findersOfAll arguments)
        + if ctx.resolve name = source then 1 else 0 :=
  usesOf_finder ctx source name arguments head

theorem usesOf_steps_cons (s : Step) (ss : List Step) :
    ctx.usesOf source (Step.findersOfAll (s :: ss))
      = ctx.usesOf source s.finders + ctx.usesOf source (Step.findersOfAll ss) := by
  have hown : ctx.usesOf source ((s :: ss).filterMap Step.finder?)
      = ctx.usesOf source s.finder?.toList + ctx.usesOf source (ss.filterMap Step.finder?) := by
    have hsplit : (s :: ss).filterMap Step.finder?
        = s.finder?.toList ++ ss.filterMap Step.finder? := by
      cases h : s.finder? <;> simp [h]
    rw [hsplit]
    exact List.countP_append
  have hnodes := usesOf_flatMap_append ctx source s.nodes (Step.nodesOfAll ss)
  have hwhole : ctx.usesOf source (Step.findersOfAll (s :: ss))
      = ctx.usesOf source ((s :: ss).filterMap Step.finder?)
        + ctx.usesOf source ((s.nodes ++ Step.nodesOfAll ss).flatMap Expr.ownFinders) :=
    List.countP_append
  have hfirst : ctx.usesOf source s.finders = ctx.usesOf source s.finder?.toList
      + ctx.usesOf source (s.nodes.flatMap Expr.ownFinders) := List.countP_append
  have hothers : ctx.usesOf source (Step.findersOfAll ss)
      = ctx.usesOf source (ss.filterMap Step.finder?)
        + ctx.usesOf source ((Step.nodesOfAll ss).flatMap Expr.ownFinders) := List.countP_append
  omega

end Counting

/-! ## What an expression holds -/

section Holdings

variable (source : String)

/-- A finder holds what its arguments do and one subscription of its own. -/
theorem holdsAtMost_find {ctx : Context} {arguments : List (Machine Value)} {n : Nat}
    (h : RowHoldsAtMost arguments source n) (subject : Value) (name : String) (head : Bool) :
    (ctx.find subject name arguments head).HoldsAtMost source
      (n + if ctx.resolve name = source then 1 else 0) := by
  unfold Context.find
  split
  · exact holdsAtMost_just _ _ _
  · refine (h.combine.switchMap fun arguments => ?_).headed head
    split
    · exact holdsAtMost_just _ _ _
    · exact ctx.sources.holdsAtMost_subscribe _ _ _

theorem holdsAtMost_applyLazily {right : Machine Value} {n : Nat}
    (h : right.HoldsAtMost source n) (op : BinaryOperator) (left : Value) :
    (op.applyLazily left right).HoldsAtMost source n := by
  unfold BinaryOperator.applyLazily
  split
  · exact holdsAtMost_just _ _ _
  · split
    · exact holdsAtMost_just _ _ _
    · exact h.map _

mutual

theorem holdsAtMost_evaluate : (e : Expr) → (ctx : Context) → e.Simple →
    (e.evaluate ctx).HoldsAtMost source (ctx.usesOf source e.finders)
  | .literal _, _, _ => holdsAtMost_just _ _ _
  | .undefined, _, _ => holdsAtMost_just _ _ _
  | .var _, _, _ => holdsAtMost_just _ _ _
  | .relative, _, _ => holdsAtMost_just _ _ _
  | .object members, ctx, hsimple =>
    ((rowHoldsAtMost_evaluateMembers members ctx
      fun _ hx => hsimple.part (.member hx)).combine.map _).distinct _
  | .array items, ctx, hsimple =>
    ((rowHoldsAtMost_evaluateAll items ctx fun _ hx => hsimple.part (.item hx)).combine.map
      _).distinct _
  | .unary op operand, ctx, hsimple =>
    ((holdsAtMost_evaluate operand ctx (hsimple.part (.operand op operand))).map _).distinct _
  | .binary op left right, ctx, hsimple => by
    have hl := holdsAtMost_evaluate left ctx (hsimple.part (.left op left right))
    have hr := holdsAtMost_evaluate right ctx (hsimple.part (.right op left right))
    rw [usesOf_binary]
    unfold Expr.evaluate
    split
    · split
      · exact holdsAtMost_just _ _ _
      · exact (hl.switchMap fun l => holdsAtMost_applyLazily source hr op l).distinct _
    · have hboth := RowHoldsAtMost.cons hl (RowHoldsAtMost.cons hr rowHoldsAtMost_nil)
      exact (hboth.combine.map _).distinct _
  | .call name arguments, ctx, hsimple =>
    ((rowHoldsAtMost_evaluateAll arguments ctx
      fun _ hx => hsimple.part (.argument hx)).combine.mapReporting _).distinct _
  | .finder name arguments head, ctx, hsimple => by
    rw [usesOf_finder]
    exact holdsAtMost_find source (rowHoldsAtMost_evaluateAll arguments ctx
      fun _ hx => hsimple.part (.asked hx)) Value.undefined name head
  | .path base steps, ctx, hsimple => by
    rw [usesOf_path]
    exact (holdsAtMost_followAll steps ctx hsimple.steps (holdsAtMost_evaluate base ctx
      (hsimple.part (.pathBase base steps)))).distinct _
  | .filter base edits, _, hsimple => by cases hsimple _ .refl
  | .template base body, _, hsimple => by cases hsimple _ .refl

theorem rowHoldsAtMost_evaluateAll : (es : List Expr) → (ctx : Context) →
    (∀ e ∈ es, e.Simple) →
      RowHoldsAtMost (Expr.evaluateAll es ctx) source (ctx.usesOf source (Expr.findersOfAll es))
  | [], _, _ => rowHoldsAtMost_nil
  | e :: es, ctx, hsimple => by
    obtain ⟨he, hes⟩ := List.forall_mem_cons.1 hsimple
    rw [usesOf_all_cons]
    exact .cons (holdsAtMost_evaluate e ctx he) (rowHoldsAtMost_evaluateAll es ctx hes)

theorem rowHoldsAtMost_evaluateMembers : (members : List (String × Expr)) → (ctx : Context) →
    (∀ {key : String} (e : Expr), (key, e) ∈ members → e.Simple) →
      RowHoldsAtMost (Expr.evaluateMembers members ctx) source
        (ctx.usesOf source (Expr.findersOfMembers members))
  | [], _, _ => rowHoldsAtMost_nil
  | (key, e) :: members, ctx, hsimple => by
    rw [usesOf_members_cons]
    exact .cons (holdsAtMost_evaluate e ctx (hsimple e List.mem_cons_self))
      (rowHoldsAtMost_evaluateMembers members ctx
        fun x hx => hsimple x (List.mem_cons_of_mem _ hx))

theorem holdsAtMost_follow : (s : Step) → (ctx : Context) → s.Simple → (v : Value) →
    (s.follow ctx v).HoldsAtMost source (ctx.usesOf source s.finders)
  | .select _, _, _, _ => holdsAtMost_just _ _ _
  | .computed selector, ctx, hsimple, v => by
    have hm := holdsAtMost_evaluate selector (ctx.about v) (hsimple.holds _ (.computed selector))
    unfold Step.follow
    split
    · exact holdsAtMost_just _ _ _
    · exact hm.map _
  | .condition test, _, hsimple, _ => by cases hsimple.unconditional
  | .finder name arguments head, ctx, hsimple, v => by
    have hm := rowHoldsAtMost_evaluateAll arguments ctx
      fun x hx => hsimple.holds x (.argument hx)
    rw [usesOf_step_finder]
    unfold Step.follow
    split
    · exact holdsAtMost_just _ _ _
    · exact holdsAtMost_find source hm v name head

theorem holdsAtMost_followAll : (ss : List Step) → (ctx : Context) → (∀ s ∈ ss, s.Simple) →
    {m : Machine Value} → {n : Nat} → m.HoldsAtMost source n →
      (Step.followAll ss ctx m).HoldsAtMost source (n + ctx.usesOf source (Step.findersOfAll ss))
  | [], _, _, _, _, hm => hm
  | s :: ss, ctx, hsimple, _, _, hm => by
    obtain ⟨hs, hss⟩ := List.forall_mem_cons.1 hsimple
    rw [usesOf_steps_cons, ← Nat.add_assoc]
    exact holdsAtMost_followAll ss ctx hss (hm.switchMap fun v => holdsAtMost_follow s ctx hs v)

end

end Holdings

/-! ## What an expression starts with -/

theorem startsEmpty_find {ctx : Context} {arguments : List (Machine Value)}
    (h : ∀ m ∈ arguments, m.StartsEmpty) (subject : Value) (name : String) (head : Bool) :
    (ctx.find subject name arguments head).StartsEmpty := by
  unfold Context.find
  split
  · exact startsEmpty_just _
  · exact ((startsEmpty_combineLatest h).switchMap _).headed head

theorem startsEmpty_followAll (ctx : Context) {ss : List Step} {m : Machine Value}
    (h : m.StartsEmpty) : (Step.followAll ss ctx m).StartsEmpty := by
  induction ss generalizing m with
  | nil => exact h
  | cons s ss ih => exact ih (h.switchMap _)

mutual

/-- **Evaluating an expression** opens nothing until the stream is polled. -/
theorem startsEmpty_evaluate : (e : Expr) → (ctx : Context) → (e.evaluate ctx).StartsEmpty
  | .literal _, _ => startsEmpty_just _
  | .undefined, _ => startsEmpty_just _
  | .var _, _ => startsEmpty_just _
  | .relative, _ => startsEmpty_just _
  | .object members, ctx =>
    ((startsEmpty_combineLatest (startsEmpty_evaluateMembers members ctx)).map _).distinct _
  | .array items, ctx =>
    ((startsEmpty_combineLatest (startsEmpty_evaluateAll items ctx)).map _).distinct _
  | .unary op operand, ctx => ((startsEmpty_evaluate operand ctx).map _).distinct _
  | .binary op left right, ctx => by
    have hl := startsEmpty_evaluate left ctx
    have hr := startsEmpty_evaluate right ctx
    unfold Expr.evaluate
    split
    · split
      · exact startsEmpty_just _
      · exact (hl.switchMap _).distinct _
    · have hboth := List.forall_mem_cons.2 ⟨hl, List.forall_mem_singleton.2 hr⟩
      exact ((startsEmpty_combineLatest hboth).map _).distinct _
  | .call name arguments, ctx =>
    ((startsEmpty_combineLatest (startsEmpty_evaluateAll arguments ctx)).mapReporting _).distinct _
  | .finder name arguments head, ctx =>
    startsEmpty_find (startsEmpty_evaluateAll arguments ctx) Value.undefined name head
  | .path base steps, ctx =>
    (startsEmpty_followAll ctx (startsEmpty_evaluate base ctx)).distinct _
  | .filter base edits, ctx => ((startsEmpty_evaluate base ctx).switchMap _).distinct _
  | .template base body, ctx => ((startsEmpty_evaluate base ctx).switchMap _).distinct _

theorem startsEmpty_evaluateAll : (es : List Expr) → (ctx : Context) →
    ∀ m ∈ Expr.evaluateAll es ctx, m.StartsEmpty
  | [], _ => by rintro _ ⟨⟩
  | e :: es, ctx =>
    List.forall_mem_cons.2 ⟨startsEmpty_evaluate e ctx, startsEmpty_evaluateAll es ctx⟩

theorem startsEmpty_evaluateMembers : (members : List (String × Expr)) → (ctx : Context) →
    ∀ m ∈ Expr.evaluateMembers members ctx, m.StartsEmpty
  | [], _ => by rintro _ ⟨⟩
  | (_, e) :: members, ctx =>
    List.forall_mem_cons.2 ⟨startsEmpty_evaluate e ctx, startsEmpty_evaluateMembers members ctx⟩

end

/-! ## Sessions -/

/-- **No subscription is left behind**: the stream of a simple expression starts with nothing open,
holds after any polls and changes at most as many subscriptions of a source as the expression has
finders of it, and holds none any more once it has been dropped. -/
theorem Expr.openCount_le_findersOf {e : Expr} (h : e.Simple) (ctx : Context) (feeds : Feeds)
    (source : String) :
    (Session.start (e.evaluate ctx) feeds).openCount source = 0
      ∧ ∀ moves : List Session.Move,
        let s := (Session.start (e.evaluate ctx) feeds).after moves
        s.openCount source ≤ e.findersOf ctx source
          ∧ ∀ later, ((s.change .drop).after later).openCount source = 0 := by
  refine ⟨Session.openCount_start (startsEmpty_evaluate e ctx) feeds source, fun moves => ?_⟩
  have hholds := holdsAtMost_evaluate source e ctx h
  exact ⟨Session.openCount_le hholds _, fun later => Session.openCount_after_drop _ later source⟩

/-- A finder that is asked about what another one says, both under names for the same source, and
an argument that is looked up there too. Three subscriptions may be open at once, and never more. -/
theorem Expr.openCount_le_findersOf_nested :
    let e : Expr := .path (.finder "owner" [] false)
      [.finder "files.owner" [.finder "owner" [] true] false, .select (.key "name")]
    let ctx : Context := { sources := [("files.owner", .watch fun _ => "owner")],
                           imports := [("owner", "files.owner")] }
    e.Simple ∧ e.findersOf ctx "files.owner" = 3
      ∧ ∀ moves, ((Session.start (e.evaluate ctx) []).after moves).openCount "files.owner" ≤ 3 := by
  intro e ctx
  have hsimple : e.Simple := Expr.simple_iff.2 (by decide)
  have hcount : e.findersOf ctx "files.owner" = 3 := by decide
  refine ⟨hsimple, hcount, fun moves => ?_⟩
  rw [← hcount]
  exact ((Expr.openCount_le_findersOf hsimple ctx [] "files.owner").2 moves).1

end AccessPolicy
