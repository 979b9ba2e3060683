import AccessPolicy.Evaluation.Expr
import AccessPolicy.Expr.Traversal

/-!
# What an evaluation takes from its surroundings

A context says what an expression is evaluated in: the values in scope, and besides the mode and
the sources. Only two kinds of expression ever look at the latter: an operator that may skip its
right operand looks at the mode, and a finder looks at both. Where there is none of them, or where
they make no difference, the mode and the sources make none.
-/

namespace AccessPolicy

open Machine

/-- The context in another mode and with other sources. -/
def Context.elsewhere (ctx : Context) (mode : Mode) (sources : Sources) : Context :=
  { ctx with mode := mode, sources := sources }

namespace Expr

/-- The expression is an operator that may skip its right operand. -/
def skips : Expr → Bool
  | binary op _ _ => op.isLazy
  | _ => false

/-- The expression looks up an attribute, be it as a step. What an edit addresses is never looked
up. -/
def seeks : Expr → Bool
  | finder _ _ _ => true
  | path _ steps => steps.any Step.isFinder
  | _ => false

/-- The expression by itself makes no difference between two contexts. -/
structure Unmoved (ctx ctx' : Context) (e : Expr) : Prop where
  mode : e.skips = true → ctx'.mode = ctx.mode
  find : e.seeks = true → ctx'.find = ctx.find

/-- What `@` stands for is of no account. -/
theorem Unmoved.about {ctx ctx' : Context} {e : Expr} (h : e.Unmoved ctx ctx') (v : Value) :
    e.Unmoved (ctx.about v) (ctx'.about v) := ⟨h.mode, h.find⟩

end Expr

section

variable {mode : Mode} {sources : Sources}

mutual

/-- **The mode and the sources make no difference** to an expression if they make none to the
expressions inside it, each by itself. -/
theorem Expr.evaluate_elsewhere : (e : Expr) → (ctx : Context) →
    (∀ n ∈ e.nodes, n.Unmoved ctx (ctx.elsewhere mode sources)) →
      e.evaluate (ctx.elsewhere mode sources) = e.evaluate ctx
  | .literal _, _, _ => rfl
  | .undefined, _, _ => rfl
  | .var _, _, _ => rfl
  | .relative, _, _ => rfl
  | .object members, ctx, h => by
    have hm := Expr.evaluateMembers_elsewhere members ctx
      fun n hn => h n (List.mem_cons_of_mem _ hn)
    simp only [Expr.evaluate, hm]
  | .array items, ctx, h => by
    have hm := Expr.evaluateAll_elsewhere items ctx fun n hn => h n (List.mem_cons_of_mem _ hn)
    simp only [Expr.evaluate, hm]
  | .unary op operand, ctx, h => by
    have hm := Expr.evaluate_elsewhere operand ctx fun n hn => h n (List.mem_cons_of_mem _ hn)
    simp only [Expr.evaluate, hm]
    rfl
  | .binary op left right, ctx, h => by
    obtain ⟨hop, hparts⟩ := List.forall_mem_cons.1 h
    obtain ⟨hleft, hright⟩ := List.forall_mem_append.1 hparts
    have hl := Expr.evaluate_elsewhere left ctx hleft
    have hr := Expr.evaluate_elsewhere right ctx hright
    simp only [Expr.evaluate, hl, hr]
    split
    · next hlazy => rw [hop.mode hlazy]
    · rfl
  | .call name arguments, ctx, h => by
    have hm := Expr.evaluateAll_elsewhere arguments ctx fun n hn => h n (List.mem_cons_of_mem _ hn)
    simp only [Expr.evaluate, hm]
    rfl
  | .finder name arguments head, ctx, h => by
    obtain ⟨hfinder, harguments⟩ := List.forall_mem_cons.1 h
    have hm := Expr.evaluateAll_elsewhere arguments ctx harguments
    simp only [Expr.evaluate, hm, hfinder.find rfl]
  | .path base steps, ctx, h => by
    obtain ⟨hpath, hparts⟩ := List.forall_mem_cons.1 h
    obtain ⟨hbase, hsteps⟩ := List.forall_mem_append.1 hparts
    have hm := Expr.evaluate_elsewhere base ctx hbase
    have hs := Step.followAll_elsewhere steps ctx
      (fun s hs hfinder => hpath.find (List.any_eq_true.2 ⟨s, hs, hfinder⟩)) hsteps
    simp only [Expr.evaluate, hm, hs]
  | .filter base edits, ctx, h => by
    obtain ⟨-, hparts⟩ := List.forall_mem_cons.1 h
    obtain ⟨hbase, hedits⟩ := List.forall_mem_append.1 hparts
    have hm := Expr.evaluate_elsewhere base ctx hbase
    have hs := Edit.followAll_elsewhere edits ctx hedits
    simp only [Expr.evaluate, hm, hs]
  | .template base body, ctx, h => by
    obtain ⟨-, hparts⟩ := List.forall_mem_cons.1 h
    obtain ⟨hbase, hbody⟩ := List.forall_mem_append.1 hparts
    have hm := Expr.evaluate_elsewhere base ctx hbase
    have hb : ∀ v, body.evaluate ((ctx.elsewhere mode sources).about v)
        = body.evaluate (ctx.about v) :=
      fun v => Expr.evaluate_elsewhere body (ctx.about v) fun n hn => (hbody n hn).about v
    simp only [Expr.evaluate, hm, hb]

theorem Expr.evaluateAll_elsewhere : (es : List Expr) → (ctx : Context) →
    (∀ n ∈ Expr.nodesOfAll es, n.Unmoved ctx (ctx.elsewhere mode sources)) →
      Expr.evaluateAll es (ctx.elsewhere mode sources) = Expr.evaluateAll es ctx
  | [], _, _ => rfl
  | e :: es, ctx, h => by
    obtain ⟨he, hes⟩ := List.forall_mem_append.1 h
    simp only [Expr.evaluateAll, Expr.evaluate_elsewhere e ctx he,
      Expr.evaluateAll_elsewhere es ctx hes]

theorem Expr.evaluateMembers_elsewhere : (members : List (String × Expr)) → (ctx : Context) →
    (∀ n ∈ Expr.nodesOfMembers members, n.Unmoved ctx (ctx.elsewhere mode sources)) →
      Expr.evaluateMembers members (ctx.elsewhere mode sources) = Expr.evaluateMembers members ctx
  | [], _, _ => rfl
  | (_, e) :: members, ctx, h => by
    obtain ⟨he, hmembers⟩ := List.forall_mem_append.1 h
    simp only [Expr.evaluateMembers, Expr.evaluate_elsewhere e ctx he,
      Expr.evaluateMembers_elsewhere members ctx hmembers]

theorem Step.follow_elsewhere : (s : Step) → (ctx : Context) →
    (s.isFinder = true → (ctx.elsewhere mode sources).find = ctx.find) →
      (∀ n ∈ s.nodes, n.Unmoved ctx (ctx.elsewhere mode sources)) →
        s.follow (ctx.elsewhere mode sources) = s.follow ctx
  | .select _, _, _, _ => by
    funext v
    simp only [Step.follow]
  | .computed selector, ctx, _, h => by
    have hm : ∀ v, selector.evaluate ((ctx.elsewhere mode sources).about v)
        = selector.evaluate (ctx.about v) :=
      fun v => Expr.evaluate_elsewhere selector (ctx.about v) fun n hn => (h n hn).about v
    funext v
    simp only [Step.follow, hm]
  | .condition test, ctx, _, h => by
    have hm : ∀ v, test.evaluate ((ctx.elsewhere mode sources).about v)
        = test.evaluate (ctx.about v) :=
      fun v => Expr.evaluate_elsewhere test (ctx.about v) fun n hn => (h n hn).about v
    funext v
    simp only [Step.follow, hm]
  | .finder name arguments head, ctx, hfinder, h => by
    have hm := Expr.evaluateAll_elsewhere arguments ctx h
    funext v
    simp only [Step.follow, hm, hfinder rfl]

theorem Step.followAll_elsewhere : (ss : List Step) → (ctx : Context) →
    (∀ s ∈ ss, s.isFinder = true → (ctx.elsewhere mode sources).find = ctx.find) →
      (∀ n ∈ Step.nodesOfAll ss, n.Unmoved ctx (ctx.elsewhere mode sources)) →
        Step.followAll ss (ctx.elsewhere mode sources) = Step.followAll ss ctx
  | [], _, _, _ => by
    funext m
    simp only [Step.followAll]
  | s :: ss, ctx, hfinder, h => by
    obtain ⟨hs, hss⟩ := List.forall_mem_append.1 h
    obtain ⟨hf, hfs⟩ := List.forall_mem_cons.1 hfinder
    funext m
    simp only [Step.followAll, Step.follow_elsewhere s ctx hf hs,
      Step.followAll_elsewhere ss ctx hfs hss]

theorem Step.toEdit_elsewhere : (s : Step) → (ctx : Context) →
    (∀ n ∈ s.nodes, n.Unmoved ctx (ctx.elsewhere mode sources)) →
      s.toEdit (ctx.elsewhere mode sources) = s.toEdit ctx
  | .select _, _, _ => rfl
  | .computed _, _, _ => rfl
  | .condition test, ctx, h => by
    have hm : ∀ v, test.evaluate ((ctx.elsewhere mode sources).about v)
        = test.evaluate (ctx.about v) :=
      fun v => Expr.evaluate_elsewhere test (ctx.about v) fun n hn => (h n hn).about v
    simp only [Step.toEdit, hm]
  | .finder _ _ _, _, _ => rfl

theorem Step.toEdits_elsewhere : (ss : List Step) → (ctx : Context) →
    (∀ n ∈ Step.nodesOfAll ss, n.Unmoved ctx (ctx.elsewhere mode sources)) →
      Step.toEdits ss (ctx.elsewhere mode sources) = Step.toEdits ss ctx
  | [], _, _ => rfl
  | s :: ss, ctx, h => by
    obtain ⟨hs, hss⟩ := List.forall_mem_append.1 h
    simp only [Step.toEdits, Step.toEdit_elsewhere s ctx hs, Step.toEdits_elsewhere ss ctx hss]

theorem Edit.follow_elsewhere : (e : Edit) → (ctx : Context) →
    (∀ n ∈ e.nodes, n.Unmoved ctx (ctx.elsewhere mode sources)) →
      e.follow (ctx.elsewhere mode sources) = e.follow ctx
  | .remove each target, ctx, h => by
    funext document
    simp only [Edit.follow, Step.toEdits_elsewhere target ctx h]
  | .apply each target name arguments, ctx, h => by
    obtain ⟨htarget, harguments⟩ := List.forall_mem_append.1 h
    have hm : ∀ v, Expr.evaluateAll arguments ((ctx.elsewhere mode sources).about v)
        = Expr.evaluateAll arguments (ctx.about v) :=
      fun v => Expr.evaluateAll_elsewhere arguments (ctx.about v)
        fun n hn => (harguments n hn).about v
    funext document
    simp only [Edit.follow, Step.toEdits_elsewhere target ctx htarget, hm]
    rfl

theorem Edit.followAll_elsewhere : (es : List Edit) → (ctx : Context) →
    (∀ n ∈ Edit.nodesOfAll es, n.Unmoved ctx (ctx.elsewhere mode sources)) →
      Edit.followAll es (ctx.elsewhere mode sources) = Edit.followAll es ctx
  | [], _, _ => by
    funext m
    simp only [Edit.followAll]
  | e :: es, ctx, h => by
    obtain ⟨he, hes⟩ := List.forall_mem_append.1 h
    funext m
    simp only [Edit.followAll, Edit.follow_elsewhere e ctx he, Edit.followAll_elsewhere es ctx hes]

end

end

end AccessPolicy
