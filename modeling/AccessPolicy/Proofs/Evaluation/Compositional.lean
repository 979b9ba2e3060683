import AccessPolicy.Proofs.Evaluation.Adequacy
import AccessPolicy.Proofs.Stream.Compositional

/-!
# Properties of everything that is evaluated

The stream of the values of an expression is put together by combinators, from the streams of
single values and from what the sources answer. So a compositional property holds of it as soon as
it holds of the answers to its finders, and in target mode without any condition, because nothing
is asked of the sources there.
-/

namespace AccessPolicy

open Machine

variable {P : {α : Type} → Machine α → Prop}

namespace Context

/-- A call of a function reports nothing else. -/
theorem isCall_call (ctx : Context) (name : String) (arguments : List Value) :
    ∀ event ∈ (ctx.call name arguments).2, event.IsCall := by
  intro event hevent
  obtain ⟨function, -, rfl⟩ := List.mem_map.1 hevent
  exact ⟨function, rfl⟩

theorem isCall_callWith (ctx : Context) (name : String) (arguments : List Value) :
    ∀ event ∈ (ctx.callWith name arguments).2, event.IsCall := by
  unfold callWith
  split
  · rintro _ ⟨⟩
  · exact ctx.isCall_call name arguments

theorem isCall_callOn (ctx : Context) (name : String) (document : Json) (arguments : List Value) :
    ∀ event ∈ (ctx.callOn name document arguments).2, event.IsCall := by
  unfold callOn
  split
  · rintro _ ⟨⟩
  · exact ctx.isCall_call name _

end Context

namespace Compositional

/-! ## Edits -/

theorem editAt (h : Compositional P) {next : Json → Machine Value} (hnext : ∀ x, P (next x))
    (chosen : List Nat) (items : List Json) : P (EditStep.editAt next chosen items) := by
  refine h.map _ (h.combine fun m hm => ?_)
  obtain ⟨⟨item, i⟩, -, rfl⟩ := List.mem_map.1 hm
  dsimp only
  split
  · exact hnext item
  · exact h.just _

theorem rebuildObject (h : Compositional P) {members : List (String × Machine Value)}
    (hm : ∀ m ∈ members, P m.2) : P (EditStep.rebuildObject members) := by
  refine h.map _ (h.combine fun m hmem => ?_)
  obtain ⟨entry, hentry, rfl⟩ := List.mem_map.1 hmem
  exact hm entry hentry

theorem editNamed (h : Compositional P) {next : Json → Machine Value} (hnext : ∀ x, P (next x))
    (names : List String) (members : List (String × Json)) :
    P (EditStep.editNamed next names members) := by
  refine h.rebuildObject fun m hm => ?_
  obtain ⟨⟨key, value⟩, -, rfl⟩ := List.mem_map.1 hm
  dsimp only
  split
  · exact hnext value
  · exact h.just _

/-- An edit of all items of an array. -/
theorem editItems (h : Compositional P) {next : Json → Machine Value} (hnext : ∀ x, P (next x))
    (items : List Json) : P (EditStep.rebuildArray (items.map next)) := by
  refine h.map _ (h.combine fun m hm => ?_)
  obtain ⟨item, -, rfl⟩ := List.mem_map.1 hm
  exact hnext item

/-- An edit of all members of an object. -/
theorem editMembers (h : Compositional P) {next : Json → Machine Value} (hnext : ∀ x, P (next x))
    (members : List (String × Json)) :
    P (EditStep.rebuildObject (members.map fun (key, value) => (key, next value))) := by
  refine h.rebuildObject fun m hm => ?_
  obtain ⟨entry, -, rfl⟩ := List.mem_map.1 hm
  exact hnext entry.2

mutual

theorem editKey (h : Compositional P) {next : Json → Machine Value} (hnext : ∀ x, P (next x))
    (name : String) : (document : Json) → P (EditStep.editKey name next document)
  | .object members => by
    unfold EditStep.editKey
    split
    · exact h.editNamed hnext [name] members
    · exact h.just _
  | .array items => by
    unfold EditStep.editKey
    exact h.map _ (h.combine (h.editKeyOfItems hnext name items))
  | .null => h.just _
  | .bool _ => h.just _
  | .number _ => h.just _
  | .string _ => h.just _

theorem editKeyOfItems (h : Compositional P) {next : Json → Machine Value}
    (hnext : ∀ x, P (next x)) (name : String) :
    (items : List Json) → ∀ m ∈ EditStep.editKeyOfItems name next items, P m
  | [] => by rintro _ ⟨⟩
  | item :: items =>
    List.forall_mem_cons.2 ⟨h.editKey hnext name item, h.editKeyOfItems hnext name items⟩

end

mutual

theorem editEverywhere (h : Compositional P) {next : Json → Machine Value}
    (hnext : ∀ x, P (next x)) (name : String) :
    (document : Json) → P (EditStep.editEverywhere name next document)
  | .object members => by
    unfold EditStep.editEverywhere
    exact h.rebuildObject (h.editEverywhereInMembers hnext name members)
  | .array items => by
    unfold EditStep.editEverywhere
    exact h.map _ (h.combine (h.editEverywhereInItems hnext name items))
  | .null => h.just _
  | .bool _ => h.just _
  | .number _ => h.just _
  | .string _ => h.just _

theorem editEverywhereInItems (h : Compositional P) {next : Json → Machine Value}
    (hnext : ∀ x, P (next x)) (name : String) :
    (items : List Json) → ∀ m ∈ EditStep.editEverywhereInItems name next items, P m
  | [] => by rintro _ ⟨⟩
  | item :: items =>
    List.forall_mem_cons.2
      ⟨h.editEverywhere hnext name item, h.editEverywhereInItems hnext name items⟩

theorem editEverywhereInMembers (h : Compositional P) {next : Json → Machine Value}
    (hnext : ∀ x, P (next x)) (name : String) : (members : List (String × Json)) →
      ∀ m ∈ EditStep.editEverywhereInMembers name next members, P m.2
  | [] => by rintro _ ⟨⟩
  | (key, value) :: members => by
    have hvalue := h.editEverywhere hnext name value
    refine List.forall_mem_cons.2 ⟨?_, h.editEverywhereInMembers hnext name members⟩
    dsimp only
    split
    · exact hnext value
    · exact hvalue

end

theorem editIf (h : Compositional P) {test next : Json → Machine Value} (htest : ∀ x, P (test x))
    (hnext : ∀ x, P (next x)) (child : Json) : P (EditStep.editIf test next child) := by
  refine h.switch (htest child) fun check => ?_
  split
  · exact hnext child
  · exact h.just _
  · exact h.just _

theorem editSelected (h : Compositional P) {next : Json → Machine Value} (hnext : ∀ x, P (next x))
    (s : Selector) (document : Json) : P (EditStep.editSelected s next document) := by
  fun_cases EditStep.editSelected s next document with
  | case1 name document => exact h.editKey hnext name document
  | case2 name document => exact h.editEverywhere hnext name document
  | case3 position items i => exact h.editAt hnext [i] items
  | case5 first last stride items places => exact h.editAt hnext places items
  | case7 positions items => exact h.editAt hnext _ items
  | case8 items => exact h.editItems hnext items
  | case9 members => exact h.editMembers hnext members
  | case10 names members => exact h.editNamed hnext names members
  | _ => exact h.just _

/-- The conditions in some steps of an edit have a property. -/
def Tested (P : {α : Type} → Machine α → Prop) (steps : List EditStep) : Prop :=
  ∀ test, .condition test ∈ steps → ∀ x, P (test x)

theorem tested_cons {step : EditStep} {steps : List EditStep} :
    Tested P (step :: steps) ↔ Tested P [step] ∧ Tested P steps := by
  refine ⟨fun h => ⟨fun test htest => ?_, fun test htest => h test (.tail _ htest)⟩,
    fun ⟨hstep, hsteps⟩ test htest => ?_⟩
  · exact h test (List.mem_singleton.1 htest ▸ List.mem_cons_self)
  · rcases List.mem_cons.1 htest with rfl | htest
    · exact hstep test List.mem_cons_self
    · exact hsteps test htest

theorem edit (h : Compositional P) {next : Json → Machine Value} (hnext : ∀ x, P (next x))
    {step : EditStep} (hstep : Tested P [step]) (document : Json) :
    P (step.edit next document) := by
  fun_cases EditStep.edit step next document with
  | case1 s document => exact h.editSelected hnext s document
  | case2 test items =>
    exact h.editItems (h.editIf (hstep test List.mem_cons_self) hnext) items
  | case3 test members =>
    exact h.editMembers (h.editIf (hstep test List.mem_cons_self) hnext) members
  | case4 => exact h.just _
  | case5 => exact h.just _

theorem editAlong (h : Compositional P) {action : Json → Machine Value}
    (haction : ∀ x, P (action x)) {steps : List EditStep} (hsteps : Tested P steps)
    (document : Json) : P (EditStep.editAlong action steps document) := by
  induction steps generalizing document with
  | nil => exact haction document
  | cons step steps ih =>
    obtain ⟨hstep, hsteps⟩ := tested_cons.1 hsteps
    exact h.edit (ih hsteps) hstep document

theorem editDocument (h : Compositional P) {action : (root part : Json) → Machine Value}
    (haction : ∀ root part, P (action root part)) {steps : List EditStep}
    (hsteps : Tested P steps) (each : Bool) (document : Json) :
    P (EditStep.editDocument each steps action document) := by
  fun_cases EditStep.editDocument each steps action document with
  | case1 _ items =>
    refine h.map _ (h.combine fun m hm => ?_)
    obtain ⟨item, -, rfl⟩ := List.mem_map.1 hm
    exact h.editAlong (haction item) hsteps item
  | case2 => exact h.just _
  | case3 => exact h.editAlong (haction document) hsteps document

/-! ## Finders -/

/-- What the sources of a context answer to some finders has a property. In target mode nothing is
asked of them. -/
def Answers (P : {α : Type} → Machine α → Prop) (ctx : Context) (finders : List FinderUse) :
    Prop :=
  ctx.mode = .body → ∀ f ∈ finders, ∀ q, P (ctx.sources.subscribe (ctx.resolve f.1) q)

theorem Answers.mono {ctx : Context} {finders fewer : List FinderUse}
    (h : Answers P ctx finders) (hsub : ∀ f ∈ fewer, f ∈ finders) : Answers P ctx fewer :=
  fun hmode f hf => h hmode f (hsub f hf)

theorem answers_target {ctx : Context} (hm : ctx.mode = .target) (finders : List FinderUse) :
    Answers P ctx finders := fun hbody => by rw [hm] at hbody; cases hbody

theorem headed (h : Compositional P) {m : Machine Value} (hm : P m) (head : Bool) :
    P (if head then m.once else m) := by
  split
  · exact h.once hm
  · exact hm

theorem find (h : Compositional P) {ctx : Context} {arguments : List (Machine Value)}
    (harguments : ∀ m ∈ arguments, P m) {name : String} {head : Bool}
    (hanswers : Answers P ctx [(name, head)]) (subject : Value) :
    P (ctx.find subject name arguments head) := by
  unfold Context.find
  split
  · exact h.just _
  · next hmode =>
    refine h.headed (h.switch (h.combine harguments) fun vs => ?_) head
    split
    · exact h.just _
    · exact hanswers hmode _ (List.mem_singleton_self _) _

/-! ## Expressions -/

theorem applyLazily (h : Compositional P) (op : BinaryOperator) (left : Value)
    {right : Machine Value} (hright : P right) : P (op.applyLazily left right) := by
  unfold BinaryOperator.applyLazily
  split
  · exact h.just _
  · split
    · exact h.just _
    · exact h.map _ hright

mutual

/-- **A compositional property** holds of the stream of an expression if it holds of what the
sources answer to the finders of the expression. -/
theorem evaluate (h : Compositional P) : (e : Expr) → (ctx : Context) →
    Answers P ctx e.finders → P (e.evaluate ctx)
  | .literal _, _, _ => h.just _
  | .undefined, _, _ => h.just _
  | .var _, _, _ => h.just _
  | .relative, _, _ => h.just _
  | .object members, ctx, ha =>
    h.distinct _ (h.map _ (h.combine (h.evaluateMembers members ctx
      (ha.mono fun _ hf => Expr.mem_finders_object.2 hf))))
  | .array items, ctx, ha =>
    h.distinct _ (h.map _ (h.combine (h.evaluateAll items ctx
      (ha.mono fun _ hf => Expr.mem_finders_array.2 hf))))
  | .unary op operand, ctx, ha =>
    h.distinct _ (h.map _ (h.evaluate operand ctx
      (ha.mono fun _ hf => Expr.mem_finders_unary.2 hf)))
  | .binary op left right, ctx, ha => by
    have hl := h.evaluate left ctx (ha.mono fun f hf => Expr.mem_finders_binary.2 (.inl hf))
    have hr := h.evaluate right ctx (ha.mono fun f hf => Expr.mem_finders_binary.2 (.inr hf))
    unfold Expr.evaluate
    split
    · split
      · exact h.just _
      · exact h.distinct _ (h.switch hl fun l => h.applyLazily op l hr)
    · refine h.distinct _ (h.map _ (h.combine ?_))
      exact List.forall_mem_cons.2 ⟨hl, List.forall_mem_singleton.2 hr⟩
  | .call name arguments, ctx, ha =>
    h.distinct _ (h.mapReporting _ (ctx.isCall_callWith name) (h.combine
      (h.evaluateAll arguments ctx (ha.mono fun _ hf => Expr.mem_finders_call.2 hf))))
  | .finder name arguments head, ctx, ha => by
    have hm := h.evaluateAll arguments ctx
      (ha.mono fun f hf => Expr.mem_finders_finder.2 (.inr hf))
    refine h.find hm (ha.mono fun f hf => ?_) Value.undefined
    exact Expr.mem_finders_finder.2 (.inl (List.mem_singleton.1 hf))
  | .path base steps, ctx, ha =>
    h.distinct _ (h.followAll steps ctx
      (ha.mono fun _ hf => Expr.mem_finders_path.2 (.inr hf))
      (h.evaluate base ctx (ha.mono fun _ hf => Expr.mem_finders_path.2 (.inl hf))))
  | .filter base edits, ctx, ha => by
    have hm := h.evaluate base ctx (ha.mono fun f hf => Expr.mem_finders_filter.2 (.inl hf))
    refine h.distinct _ (h.switch hm fun v => ?_)
    unfold Value.editedBy
    split
    · exact h.just _
    · exact h.just _
    · exact h.followEdits edits ctx
        (ha.mono fun f hf => Expr.mem_finders_filter.2 (.inr hf)) (h.just v)
  | .template base body, ctx, ha => by
    have hm := h.evaluate base ctx (ha.mono fun f hf => Expr.mem_finders_template.2 (.inl hf))
    have hbody : ∀ v, P (body.evaluate (ctx.about v)) := fun v =>
      h.evaluate body (ctx.about v) (ha.mono fun f hf => Expr.mem_finders_template.2 (.inr hf))
    refine h.distinct _ (h.switch hm fun v => ?_)
    split
    · refine h.map _ (h.combine fun m hmem => ?_)
      obtain ⟨item, -, rfl⟩ := List.mem_map.1 hmem
      exact hbody _
    · exact hbody v
    · exact h.just v

theorem evaluateAll (h : Compositional P) : (es : List Expr) → (ctx : Context) →
    Answers P ctx (Expr.findersOfAll es) → ∀ m ∈ Expr.evaluateAll es ctx, P m
  | [], _, _ => by rintro _ ⟨⟩
  | e :: es, ctx, ha =>
    List.forall_mem_cons.2
      ⟨h.evaluate e ctx (ha.mono fun _ hf => Expr.mem_findersOfAll_cons.2 (.inl hf)),
        h.evaluateAll es ctx (ha.mono fun _ hf => Expr.mem_findersOfAll_cons.2 (.inr hf))⟩

theorem evaluateMembers (h : Compositional P) : (members : List (String × Expr)) →
    (ctx : Context) → Answers P ctx (Expr.findersOfMembers members) →
      ∀ m ∈ Expr.evaluateMembers members ctx, P m
  | [], _, _ => by rintro _ ⟨⟩
  | (_, e) :: members, ctx, ha =>
    List.forall_mem_cons.2
      ⟨h.evaluate e ctx (ha.mono fun _ hf => Expr.mem_findersOfMembers_cons.2 (.inl hf)),
        h.evaluateMembers members ctx
          (ha.mono fun _ hf => Expr.mem_findersOfMembers_cons.2 (.inr hf))⟩

theorem follow (h : Compositional P) : (s : Step) → (ctx : Context) → Answers P ctx s.finders →
    (v : Value) → P (s.follow ctx v)
  | .select _, _, _, _ => h.just _
  | .computed selector, ctx, ha, v => by
    have hm := h.evaluate selector (ctx.about v)
      (ha.mono fun f hf => Step.mem_finders_computed.2 hf)
    unfold Step.follow
    split
    · exact h.just v
    · exact h.map _ hm
  | .condition test, ctx, ha, v => by
    have hm : ∀ x, P (test.evaluate (ctx.about (Value.of x))) := fun x =>
      h.evaluate test (ctx.about (Value.of x)) (ha.mono fun f hf => Step.mem_finders_condition.2 hf)
    unfold Step.follow
    split
    · exact h.just v
    · split
      · exact h.just _
      · refine h.map _ (h.combine fun m hmem => ?_)
        obtain ⟨x, -, rfl⟩ := List.mem_map.1 hmem
        exact hm x
  | .finder name arguments head, ctx, ha, v => by
    have hm := h.evaluateAll arguments ctx
      (ha.mono fun f hf => Step.mem_finders_finder.2 (.inr hf))
    unfold Step.follow
    split
    · exact h.just v
    · refine h.find hm (ha.mono fun f hf => ?_) v
      exact Step.mem_finders_finder.2 (.inl (List.mem_singleton.1 hf))

theorem followAll (h : Compositional P) : (ss : List Step) → (ctx : Context) →
    Answers P ctx (Step.findersOfAll ss) → {m : Machine Value} → P m → P (Step.followAll ss ctx m)
  | [], _, _, _, hm => hm
  | s :: ss, ctx, ha, _, hm =>
    h.followAll ss ctx (ha.mono fun _ hf => Step.mem_findersOfAll_cons.2 (.inr hf))
      (h.switch hm fun v =>
        h.follow s ctx (ha.mono fun _ hf => Step.mem_findersOfAll_cons.2 (.inl hf)) v)

theorem toEdits (h : Compositional P) : (ss : List Step) → (ctx : Context) →
    Answers P ctx (Step.findersOfAll ss) → Tested P (Step.toEdits ss ctx)
  | [], _, _ => by rintro _ ⟨⟩
  | s :: ss, ctx, ha => by
    have hss := h.toEdits ss ctx (ha.mono fun f hf => Step.mem_findersOfAll_cons.2 (.inr hf))
    have hs := ha.mono fun f (hf : f ∈ s.finders) => Step.mem_findersOfAll_cons.2 (.inl hf)
    intro test htest x
    rcases List.mem_cons.1 htest with heq | htest
    · cases s with
      | condition test' =>
        cases heq
        exact h.evaluate test' (ctx.about (Value.of x))
          (hs.mono fun f hf => Step.mem_finders_condition.2 hf)
      | _ => cases heq
    · exact hss test htest x

theorem followEdit (h : Compositional P) : (e : Edit) → (ctx : Context) →
    Answers P ctx e.finders → (document : Json) → P (e.follow ctx document)
  | .remove each target, ctx, ha, document =>
    h.editDocument (fun _ _ => h.just _)
      (h.toEdits target ctx (ha.mono fun _ hf => Edit.mem_finders_remove.2 hf)) each document
  | .apply each target name arguments, ctx, ha, document =>
    h.editDocument
      (fun root part => h.mapReporting _ (ctx.isCall_callOn name part)
        (h.combine (h.evaluateAll arguments (ctx.about (Value.of root))
          (ha.mono fun _ hf => Edit.mem_finders_apply.2 (.inr hf)))))
      (h.toEdits target ctx (ha.mono fun _ hf => Edit.mem_finders_apply.2 (.inl hf))) each document

theorem followEdits (h : Compositional P) : (es : List Edit) → (ctx : Context) →
    Answers P ctx (Edit.findersOfAll es) → {m : Machine Value} → P m →
      P (Edit.followAll es ctx m)
  | [], _, _, _, hm => hm
  | e :: es, ctx, ha, _, hm => by
    refine h.followEdits es ctx (ha.mono fun f hf => Edit.mem_findersOfAll_cons.2 (.inr hf)) ?_
    refine h.switch hm fun v => ?_
    split
    · next document _ =>
      exact h.followEdit e ctx (ha.mono fun f hf => Edit.mem_findersOfAll_cons.2 (.inl hf)) document
    · exact h.just v

end

end Compositional

end AccessPolicy
