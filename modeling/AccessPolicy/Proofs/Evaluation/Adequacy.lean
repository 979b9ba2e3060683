import AccessPolicy.Proofs.Dict
import AccessPolicy.Proofs.Evaluation.Meaning
import AccessPolicy.Proofs.Expr.Finders
import AccessPolicy.Proofs.Stream.Reading

/-!
# Streams of values tell what expressions mean

However a stream is read, the stream of the values of an expression gives the meaning of the
expression, up to records, provided that the streams of its finders give the attributes. The
proof goes through the expression and through everything that evaluates parts of it: the
combinators are covered by the laws of a reading, so what is left to show at each kind of
expression is that the meaning is put together from the meanings of the parts in the same way.
-/

namespace AccessPolicy

open Machine

namespace Reading

variable {W : Type} {R : Reading W}

/-- The stream **tells** a value of each world: what it gives is that value, up to its
record. -/
def Tells (R : Reading W) (m : Machine Value) (F : W → Value) : Prop :=
  R.Shows m fun w v => v.bare = F w

/-- Some streams tell some values of each world. -/
inductive TellsAll (R : Reading W) : List (Machine Value) → (W → List Value) → Prop where
  | nil : TellsAll R [] fun _ => []
  | cons {m : Machine Value} {ms : List (Machine Value)} {F : W → Value} {Fs : W → List Value} :
      R.Tells m F → TellsAll R ms Fs → TellsAll R (m :: ms) fun w => F w :: Fs w

/-! ## How telling goes through combinators -/

theorem Tells.congr {m : Machine Value} {F G : W → Value} (h : R.Tells m F)
    (hFG : ∀ w, F w = G w) : R.Tells m G :=
  R.mono h fun w _ hv => hv.trans (hFG w)

theorem tells_just (v : Value) : R.Tells (just v) fun _ => v.bare :=
  R.shows_just fun _ => rfl

theorem tells_ite (c : Bool) {m m' : Machine Value} {F G : W → Value} (h : R.Tells m F)
    (h' : R.Tells m' G) :
    R.Tells (if c then m else m') fun w => if c then F w else G w := by
  cases c
  · exact h'
  · exact h

theorem Tells.settled {m : Machine Value} {F : W → Value} (h : R.Tells m F) :
    R.Tells m.settled F := by
  refine R.mono (R.distinct Value.same h) ?_
  rintro w b ⟨a, ha, rfl | hs⟩
  · exact ha
  · exact (Value.same_iff_bare.1 hs).trans ha

theorem Tells.map {m : Machine Value} {F : W → Value} {f g : Value → Value} (h : R.Tells m F)
    (hf : ∀ v, (f v).bare = g v.bare) : R.Tells (m.map f) fun w => g (F w) := by
  refine R.mono (R.shows_map f h) ?_
  rintro w b ⟨a, ha, rfl⟩
  rw [hf, ha]

/-- A stream that is opened by a value may depend on that value as far as it is bare. -/
theorem Tells.switch {m : Machine Value} {F : W → Value} {f : Value → Machine Value}
    {K : Value → W → Value} (h : R.Tells m F) (hf : ∀ v, R.Tells (f v) (K v.bare)) :
    R.Tells (m.switchMap f) fun w => K (F w) w := by
  refine R.mono (R.switch h fun _ v _ => hf v) ?_
  rintro w b ⟨a, ha, hb⟩
  rw [hb, ha]

theorem TellsAll.combine {ms : List (Machine Value)} {Fs : W → List Value}
    (h : R.TellsAll ms Fs) :
    R.Shows (combineLatest ms) fun w vs => vs.map Value.bare = Fs w := by
  have hgoals : ∃ Gs : List (W → Value → Prop), List.Forall₂ (fun m G => R.Shows m G) ms Gs
      ∧ ∀ w vs, List.Forall₂ (fun G v => G w v) Gs vs → vs.map Value.bare = Fs w := by
    induction h with
    | nil =>
      refine ⟨[], .nil, fun w vs hvs => ?_⟩
      cases hvs
      rfl
    | @cons m ms F Fs hm _ ih =>
      obtain ⟨Gs, hGs, hFs⟩ := ih
      refine ⟨(fun w v => v.bare = F w) :: Gs, .cons hm hGs, fun w vs hvs => ?_⟩
      cases hvs with
      | cons hv hvs => rw [List.map_cons, hv, hFs w _ hvs]
  obtain ⟨Gs, hGs, hFs⟩ := hgoals
  exact R.mono (R.combine hGs) hFs

theorem TellsAll.mapReporting {ms : List (Machine Value)} {Fs : W → List Value}
    {f : List Value → Value × List Event} {g : List Value → Value} (h : R.TellsAll ms Fs)
    (hf : ∀ vs, (f vs).1.bare = g (vs.map Value.bare)) :
    R.Tells ((combineLatest ms).mapReporting f) fun w => g (Fs w) := by
  refine R.mono (R.mapReporting f h.combine) ?_
  rintro w b ⟨vs, hvs, rfl⟩
  rw [hf, hvs]

theorem TellsAll.map {ms : List (Machine Value)} {Fs : W → List Value}
    {f g : List Value → Value} (h : R.TellsAll ms Fs)
    (hf : ∀ vs, (f vs).bare = g (vs.map Value.bare)) :
    R.Tells ((combineLatest ms).map f) fun w => g (Fs w) :=
  h.mapReporting hf

theorem TellsAll.switch {ms : List (Machine Value)} {Fs : W → List Value}
    {f : List Value → Machine Value} {K : List Value → W → Value} (h : R.TellsAll ms Fs)
    (hf : ∀ vs, R.Tells (f vs) (K (vs.map Value.bare))) :
    R.Tells ((combineLatest ms).switchMap f) fun w => K (Fs w) w := by
  refine R.mono (R.switch h.combine fun _ vs _ => hf vs) ?_
  rintro w b ⟨vs, hvs, hb⟩
  rw [hb, hvs]

/-- Streams of the same kind, one for each item of a list. -/
theorem tellsAll_map {α : Type} {f : α → Machine Value} {F : α → W → Value} (xs : List α)
    (h : ∀ x ∈ xs, R.Tells (f x) (F x)) : R.TellsAll (xs.map f) fun w => xs.map (F · w) := by
  induction xs with
  | nil => exact .nil
  | cons x xs ih =>
    exact .cons (h x (List.mem_cons_self ..)) (ih fun y hy => h y (List.mem_cons_of_mem _ hy))

end Reading

/-! ## Edits -/

namespace EditStep

open Reading RevisionStep

variable {W : Type} {R : Reading W}

/-- A step of an edit goes along with a step that is computed outright. -/
inductive Told (R : Reading W) : EditStep → (W → RevisionStep) → Prop where
  | select (s : Selector) : Told R (.select s) fun _ => .select s
  | condition {test : Json → Machine Value} {check : W → Json → Value} :
      (∀ x, R.Tells (test x) (check · x)) →
        Told R (.condition test) fun w => .condition (check w)
  | unsupported (text : String) : Told R (.unsupported text) fun _ => .unsupported text

/-- The steps of an edit go along with steps that are computed outright. -/
inductive AllTold (R : Reading W) : List EditStep → (W → List RevisionStep) → Prop where
  | nil : AllTold R [] fun _ => []
  | cons {step : EditStep} {steps : List EditStep} {r : W → RevisionStep}
      {rs : W → List RevisionStep} :
      Told R step r → AllTold R steps rs → AllTold R (step :: steps) fun w => r w :: rs w

/-- The members of an object go along with values under the same keys. -/
inductive TellsMembers (R : Reading W) :
    List (String × Machine Value) → (W → List (String × Value)) → Prop where
  | nil : TellsMembers R [] fun _ => []
  | cons {key : String} {m : Machine Value} {F : W → Value} {ms : List (String × Machine Value)}
      {Fs : W → List (String × Value)} :
      R.Tells m F → TellsMembers R ms Fs →
        TellsMembers R ((key, m) :: ms) fun w => (key, F w) :: Fs w

section

variable {next : Json → Machine Value} {result : W → Json → Value}

theorem tells_keep (document : Json) : R.Tells (keep document) fun _ => Value.of document :=
  tells_just _

theorem tells_rebuildArray {items : List (Machine Value)} {Fs : W → List Value}
    (h : R.TellsAll items Fs) : R.Tells (rebuildArray items) fun w => Value.arrayOf (Fs w) :=
  h.map Value.bare_arrayOf

theorem TellsMembers.keys {ms : List (String × Machine Value)} {Fs : W → List (String × Value)}
    (h : TellsMembers R ms Fs) (w : W) : (Fs w).map Prod.fst = ms.map Prod.fst := by
  induction h with
  | nil => rfl
  | cons _ _ ih => rw [List.map_cons, List.map_cons, ih]

theorem TellsMembers.values {ms : List (String × Machine Value)}
    {Fs : W → List (String × Value)} (h : TellsMembers R ms Fs) :
    R.TellsAll (ms.map Prod.snd) fun w => (Fs w).map Prod.snd := by
  induction h with
  | nil => exact .nil
  | cons hm _ ih => exact .cons hm ih

theorem tellsMembers_map {f : Json → Machine Value} {F : Json → W → Value}
    (members : List (String × Json)) (h : ∀ x, R.Tells (f x) (F x)) :
    TellsMembers R (members.map fun (key, value) => (key, f value))
      fun w => members.map fun (key, value) => (key, F value w) := by
  induction members with
  | nil => exact .nil
  | cons entry members ih => exact .cons (h entry.2) ih

theorem tells_rebuildObject {ms : List (String × Machine Value)}
    {Fs : W → List (String × Value)} (h : TellsMembers R ms Fs) :
    R.Tells (rebuildObject ms) fun w => objectOf (Fs w) := by
  refine (h.values.map (Value.bare_objectOf _)).congr fun w => ?_
  unfold objectOf
  rw [h.keys w]

theorem tells_editAt (h : ∀ x, R.Tells (next x) (result · x)) (chosen : List Nat)
    (items : List Json) :
    R.Tells (editAt next chosen items) fun w => reviseAt (result w) chosen items := by
  refine tells_rebuildArray (tellsAll_map items.zipIdx ?_)
  rintro ⟨item, i⟩ _
  exact tells_ite _ (h item) (tells_keep item)

theorem tellsMembers_editNamed (h : ∀ x, R.Tells (next x) (result · x)) (names : List String)
    (members : List (String × Json)) :
    TellsMembers R
      (members.map fun (key, value) =>
        (key, if names.contains key then next value else keep value))
      fun w => members.map fun (key, value) =>
        (key, if names.contains key then result w value else Value.of value) := by
  induction members with
  | nil => exact .nil
  | cons entry members ih => exact .cons (tells_ite _ (h entry.2) (tells_keep entry.2)) ih

theorem tells_editNamed (h : ∀ x, R.Tells (next x) (result · x)) (names : List String)
    (members : List (String × Json)) :
    R.Tells (editNamed next names members) fun w => reviseNamed (result w) names members :=
  tells_rebuildObject (tellsMembers_editNamed h names members)

mutual

theorem tells_editKey (h : ∀ x, R.Tells (next x) (result · x)) (name : String) :
    (document : Json) →
      R.Tells (editKey name next document) fun w => reviseKey name (result w) document
  | .object members => by
    unfold editKey reviseKey
    cases hc : Dict.hasKey members name with
    | true => exact tells_editNamed h [name] members
    | false => exact tells_keep (.object members)
  | .array items => by
    unfold editKey reviseKey
    exact tells_rebuildArray (tellsAll_editKeyOfItems h name items)
  | .null => tells_keep .null
  | .bool b => tells_keep (.bool b)
  | .number n => tells_keep (.number n)
  | .string s => tells_keep (.string s)

theorem tellsAll_editKeyOfItems (h : ∀ x, R.Tells (next x) (result · x)) (name : String) :
    (items : List Json) →
      R.TellsAll (editKeyOfItems name next items) fun w => reviseKeyOfItems name (result w) items
  | [] => .nil
  | item :: items => .cons (tells_editKey h name item) (tellsAll_editKeyOfItems h name items)

end

mutual

theorem tells_editEverywhere (h : ∀ x, R.Tells (next x) (result · x)) (name : String) :
    (document : Json) → R.Tells (editEverywhere name next document)
      fun w => reviseEverywhere name (result w) document
  | .object members => by
    unfold editEverywhere reviseEverywhere
    exact tells_rebuildObject (tellsMembers_editEverywhere h name members)
  | .array items => by
    unfold editEverywhere reviseEverywhere
    exact tells_rebuildArray (tellsAll_editEverywhere h name items)
  | .null => tells_keep .null
  | .bool b => tells_keep (.bool b)
  | .number n => tells_keep (.number n)
  | .string s => tells_keep (.string s)

theorem tellsAll_editEverywhere (h : ∀ x, R.Tells (next x) (result · x)) (name : String) :
    (items : List Json) → R.TellsAll (editEverywhereInItems name next items)
      fun w => reviseEverywhereInItems name (result w) items
  | [] => .nil
  | item :: items =>
    .cons (tells_editEverywhere h name item) (tellsAll_editEverywhere h name items)

theorem tellsMembers_editEverywhere (h : ∀ x, R.Tells (next x) (result · x)) (name : String) :
    (members : List (String × Json)) → TellsMembers R (editEverywhereInMembers name next members)
      fun w => reviseEverywhereInMembers name (result w) members
  | [] => .nil
  | (key, value) :: members => by
    have hvalue := tells_editEverywhere h name value
    have hrest := tellsMembers_editEverywhere h name members
    unfold editEverywhereInMembers reviseEverywhereInMembers
    by_cases hk : key = name
    · simp only [if_pos hk]
      exact .cons (h value) hrest
    · simp only [if_neg hk]
      exact .cons hvalue hrest

end

theorem tells_editIf {test : Json → Machine Value} {check : W → Json → Value}
    (htest : ∀ x, R.Tells (test x) (check · x)) (h : ∀ x, R.Tells (next x) (result · x))
    (child : Json) :
    R.Tells (editIf test next child) fun w => reviseIf (check w) (result w) child := by
  refine (htest child).switch (K := fun v w => reviseIf (fun _ => v) (result w) child) fun v => ?_
  unfold reviseIf
  -- the check takes the same turn with and without its record
  rw [Value.requireBool_bare]
  cases Value.requireBool v with
  | error e => exact tells_just e
  | ok b =>
    cases b with
    | true => exact h child
    | false => exact tells_keep child

theorem tells_editSelected (h : ∀ x, R.Tells (next x) (result · x)) (s : Selector)
    (document : Json) :
    R.Tells (editSelected s next document) fun w => reviseSelected s (result w) document := by
  fun_cases editSelected s next document with
  | case1 name document => exact tells_editKey h name document
  | case2 name document => exact tells_editEverywhere h name document
  | case3 position items i hi =>
    simp only [reviseSelected, hi]
    exact tells_editAt h [i] items
  | case4 position items hi =>
    simp only [reviseSelected, hi]
    exact tells_just _
  | case5 first last stride items places hp =>
    simp only [reviseSelected, hp]
    exact tells_editAt h places items
  | case6 first last stride items hp =>
    simp only [reviseSelected, hp]
    exact tells_just _
  | case7 positions items => exact tells_editAt h _ items
  | case8 items => exact tells_rebuildArray (tellsAll_map items fun x _ => h x)
  | case9 members => exact tells_rebuildObject (tellsMembers_map members h)
  | case10 names members => exact tells_editNamed h names members
  | case11 position document hne =>
    refine (tells_just _).congr fun w => ?_
    cases document with
    | array items => exact (hne items rfl).elim
    | _ => rfl
  | case12 first last stride document hne =>
    refine (tells_just _).congr fun w => ?_
    cases document with
    | array items => exact (hne items rfl).elim
    | _ => rfl
  | case13 positions document hne =>
    refine (tells_just _).congr fun w => ?_
    cases document with
    | array items => exact (hne items rfl).elim
    | _ => rfl
  | case14 document hne hne' =>
    refine (tells_just _).congr fun w => ?_
    cases document with
    | array items => exact (hne items rfl).elim
    | object members => exact (hne' members rfl).elim
    | _ => rfl
  | case15 names document hne =>
    refine (tells_just _).congr fun w => ?_
    cases document with
    | object members => exact (hne members rfl).elim
    | _ => rfl
  | case16 =>
    refine (tells_just _).congr fun w => ?_
    cases s with
    | recursiveIndex position => rfl
    | recursiveWildcard => rfl
    | _ => simp_all

theorem tells_edit {step : EditStep} {r : W → RevisionStep} (hs : Told R step r)
    (h : ∀ x, R.Tells (next x) (result · x)) (document : Json) :
    R.Tells (step.edit next document) fun w => (r w).revise (result w) document := by
  cases hs with
  | select s => exact tells_editSelected h s document
  | unsupported text => exact tells_just _
  | condition htest =>
    cases document with
    | array items => exact tells_rebuildArray (tellsAll_map items fun x _ => tells_editIf htest h x)
    | object members => exact tells_rebuildObject (tellsMembers_map members (tells_editIf htest h))
    | _ => exact tells_just _

theorem tells_editAlong {steps : List EditStep} {rs : W → List RevisionStep}
    (hs : AllTold R steps rs) {action : Json → Machine Value} {outcome : W → Json → Value}
    (h : ∀ x, R.Tells (action x) (outcome · x)) (document : Json) :
    R.Tells (editAlong action steps document) fun w => reviseAlong (outcome w) (rs w) document := by
  induction hs generalizing document with
  | nil => exact h document
  | cons hstep _ ih => exact tells_edit hstep ih document

theorem tells_editDocument {each : Bool} {steps : List EditStep} {rs : W → List RevisionStep}
    (hs : AllTold R steps rs) {action : (root part : Json) → Machine Value}
    {outcome : W → (root part : Json) → Value}
    (h : ∀ root part, R.Tells (action root part) (outcome · root part)) (document : Json) :
    R.Tells (editDocument each steps action document)
      fun w => reviseDocument each (rs w) (outcome w) document := by
  cases each with
  | false => exact tells_editAlong hs (h document) document
  | true =>
    cases document with
    | array items =>
      exact tells_rebuildArray (tellsAll_map items fun x _ => tells_editAlong hs (h x) x)
    | _ => exact tells_just _

end

end EditStep

/-! ## Contexts -/

namespace Context

theorem bare_lookup (ctx : Context) (name : String) :
    (ctx.lookup name).bare = ctx.bare.lookup name := by
  unfold lookup
  rw [show ctx.bare.bindings = ctx.bindings.map fun entry => (entry.1, entry.2.bare) from rfl,
    Dict.get?_map fun _ v => Value.bare v]
  cases Dict.get? ctx.bindings name <;> rfl

theorem bare_subject (ctx : Context) : ctx.subject.bare = ctx.bare.subject := by
  unfold subject
  rw [show ctx.bare.relative = ctx.relative.map Value.bare from rfl]
  cases ctx.relative <;> rfl

theorem bare_callWith {ctx : Context} (h : ctx.functions.Pure) (name : String) (vs : List Value) :
    (ctx.callWith name vs).1.bare = (ctx.bare.callWith name (vs.map Value.bare)).1.bare := by
  unfold callWith
  rw [Value.firstError?_map_bare]
  cases Value.firstError? vs with
  | some e => rfl
  | none => exact h.bare_call _ vs

theorem bare_callOn {ctx : Context} (h : ctx.functions.Pure) (name : String) (document : Json)
    (vs : List Value) :
    (ctx.callOn name document vs).1.bare
      = (ctx.bare.callOn name document (vs.map Value.bare)).1.bare := by
  unfold callOn
  rw [Value.firstError?_map_bare]
  cases Value.firstError? vs with
  | some e => rfl
  | none => exact h.bare_call _ (Value.of document :: vs)

end Context

theorem BinaryOperator.tells_applyLazily {W : Type} {R : Reading W} (op : BinaryOperator)
    (left : Value) {right : Machine Value} {F : W → Value} (h : R.Tells right F) :
    R.Tells (op.applyLazily left right) fun w => op.computeLazily left.bare (F w) := by
  have hbare := Value.requireBool_bare left
  unfold applyLazily
  cases hl : Value.requireBool left with
  | error e =>
    rw [hl] at hbare
    have hleft : ∀ v, op.computeLazily left.bare v = e.bare := fun v => by
      rw [computeLazily, hbare]
      rfl
    simp only [hleft]
    exact Reading.tells_just _
  | ok b =>
    rw [hl] at hbare
    dsimp only
    by_cases hb : b = op.decisive
    · have hleft : ∀ v, op.computeLazily left.bare v = Value.bool b := fun v => by
        rw [computeLazily, hbare]
        exact if_pos hb
      simp only [hleft]
      rw [if_pos hb]
      exact Reading.tells_just _
    · rw [if_neg hb]
      refine h.map (g := op.computeLazily left.bare) fun r => ?_
      rw [Value.bare_recordedAs, computeLazily, hbare]
      refine Eq.trans ?_ (if_neg hb).symm
      rw [Value.requireBool_bare]
      cases Value.requireBool r <;> rfl

/-! ## Expressions -/

namespace Reading

variable {W : Type} {R : Reading W} {attributes : W → String → Query → Value}
  {ctx : Context}

/-- The sources of a context give the attributes to some finders, none of which is a head
finder. In target mode nothing is asked of them. -/
def Serves (R : Reading W) (attributes : W → String → Query → Value) (ctx : Context)
    (finders : List FinderUse) : Prop :=
  ctx.mode = .body → ∀ f ∈ finders, f.2 = false ∧ ∀ q,
    R.Tells (ctx.sources.subscribe (ctx.resolve f.1) q)
      fun w => attributes w (ctx.resolve f.1) q.bare

theorem Serves.mono {finders fewer : List FinderUse} (h : R.Serves attributes ctx finders)
    (hs : ∀ f ∈ fewer, f ∈ finders) : R.Serves attributes ctx fewer :=
  fun hmode f hf => h hmode f (hs f hf)

theorem tells_find {arguments : List (Machine Value)} {Fs : W → List Value} {name : String}
    {head : Bool} (h : R.TellsAll arguments Fs) (hs : R.Serves attributes ctx [(name, head)])
    (subject : Value) :
    R.Tells (ctx.find subject name arguments head)
      fun w => ctx.bare.found (attributes w) subject.bare name (Fs w) := by
  unfold Context.find
  cases hmode : ctx.mode with
  | target =>
    unfold Context.found
    rw [show ctx.bare.mode = .target from hmode]
    exact tells_just _
  | body =>
    obtain ⟨rfl, hsub⟩ := hs hmode (name, head) (List.mem_singleton_self _)
    refine h.switch (K := fun vs w => ctx.bare.found (attributes w) subject.bare name vs)
      fun vs => ?_
    unfold Context.found
    rw [show ctx.bare.mode = .body from hmode, Value.firstError?_map_bare]
    cases Value.firstError? vs with
    | some e => exact tells_just e
    | none => exact hsub _

variable (R) (attributes)

mutual

/-- **The stream of an expression tells its meaning**, however it is read, if the functions are
pure and the sources give the attributes. -/
theorem tells_evaluate : (e : Expr) → (ctx : Context) → ctx.functions.Pure →
    R.Serves attributes ctx e.finders →
      R.Tells (e.evaluate ctx) fun w => e.meaning (attributes w) ctx.bare
  | .literal document, _, _, _ => tells_just (Value.of document)
  | .undefined, _, _, _ => tells_just Value.undefined
  | .var name, ctx, _, _ => (tells_just _).congr fun _ => ctx.bare_lookup name
  | .relative, ctx, _, _ => (tells_just _).congr fun _ => ctx.bare_subject
  | .object members, ctx, hp, hs => by
    have hm := tellsAll_evaluateMembers members ctx hp
      (hs.mono fun f hf => Expr.mem_finders_object.2 hf)
    exact (hm.map (Value.bare_objectOf _)).settled
  | .array items, ctx, hp, hs => by
    have hm := tellsAll_evaluateAll items ctx hp
      (hs.mono fun f hf => Expr.mem_finders_array.2 hf)
    exact (hm.map Value.bare_strictArrayOf).settled
  | .unary op operand, ctx, hp, hs => by
    have hm := tells_evaluate operand ctx hp (hs.mono fun f hf => Expr.mem_finders_unary.2 hf)
    exact (hm.map (g := fun v => (op.apply ctx.libraries v).bare)
      (op.bare_apply ctx.libraries)).settled
  | .binary op left right, ctx, hp, hs => by
    have hl := tells_evaluate left ctx hp
      (hs.mono fun f hf => Expr.mem_finders_binary.2 (.inl hf))
    have hr := tells_evaluate right ctx hp
      (hs.mono fun f hf => Expr.mem_finders_binary.2 (.inr hf))
    unfold Expr.evaluate Expr.meaning
    rw [show ctx.bare.mode = ctx.mode from rfl]
    cases op.isLazy with
    | true =>
      cases ctx.mode with
      | target => exact tells_just _
      | body =>
        exact (hl.switch
          (K := fun v w => op.computeLazily v (right.meaning (attributes w) ctx.bare))
          fun v => op.tells_applyLazily v hr).settled
    | false =>
      have hpair := TellsAll.cons hl (.cons hr .nil)
      exact (hpair.map (g := fun vs => (op.applyAll ctx.libraries vs).bare)
        (op.bare_applyAll ctx.libraries)).settled
  | .call name arguments, ctx, hp, hs => by
    have hm := tellsAll_evaluateAll arguments ctx hp
      (hs.mono fun f hf => Expr.mem_finders_call.2 hf)
    exact (hm.mapReporting (g := fun vs => (ctx.bare.callWith name vs).1.bare)
      (Context.bare_callWith hp name)).settled
  | .finder name arguments head, ctx, hp, hs => by
    have hm := tellsAll_evaluateAll arguments ctx hp
      (hs.mono fun f hf => Expr.mem_finders_finder.2 (.inr hf))
    refine tells_find hm (hs.mono fun f hf => ?_) Value.undefined
    exact Expr.mem_finders_finder.2 (.inl (List.mem_singleton.1 hf))
  | .path base steps, ctx, hp, hs => by
    have hm := tells_evaluate base ctx hp
      (hs.mono fun f hf => Expr.mem_finders_path.2 (.inl hf))
    exact (tells_followAll steps ctx hp
      (hs.mono fun f hf => Expr.mem_finders_path.2 (.inr hf)) hm).settled
  | .filter base edits, ctx, hp, hs => by
    have hm := tells_evaluate base ctx hp
      (hs.mono fun f hf => Expr.mem_finders_filter.2 (.inl hf))
    refine (hm.switch (K := fun v w => v.revisedBy fun v =>
      Edit.meaningOfAll (attributes w) edits ctx.bare v) fun v => ?_).settled
    unfold Value.editedBy Value.revisedBy
    rw [Value.outcome_bare]
    cases v.outcome with
    | error message causes => exact tells_just v
    | undefined => exact tells_just _
    | defined document =>
      exact tells_followEdits edits ctx hp
        (hs.mono fun f hf => Expr.mem_finders_filter.2 (.inr hf)) (tells_just v)
  | .template base body, ctx, hp, hs => by
    have hm := tells_evaluate base ctx hp
      (hs.mono fun f hf => Expr.mem_finders_template.2 (.inl hf))
    have hbody : ∀ v, R.Tells (body.evaluate (ctx.about v))
        fun w => body.meaning (attributes w) (ctx.bare.about v.bare) := fun v =>
      tells_evaluate body (ctx.about v) hp
        (hs.mono fun f hf => Expr.mem_finders_template.2 (.inr hf))
    refine (hm.switch (K := fun v w => match v.outcome with
      | .defined (.array items) => Value.arrayOf (items.map fun item =>
          body.meaning (attributes w) (ctx.bare.about (Value.of item)))
      | .defined _ => body.meaning (attributes w) (ctx.bare.about v)
      | _ => v) fun v => ?_).settled
    rw [Value.outcome_bare]
    cases v.outcome with
    | error message causes => exact tells_just v
    | undefined => exact tells_just v
    | defined document =>
      cases document with
      | array items =>
        exact (tellsAll_map items fun item _ => hbody (Value.of item)).map Value.bare_arrayOf
      | _ => exact hbody v

theorem tellsAll_evaluateAll : (es : List Expr) → (ctx : Context) → ctx.functions.Pure →
    R.Serves attributes ctx (Expr.findersOfAll es) →
      R.TellsAll (Expr.evaluateAll es ctx) fun w => Expr.meaningOfAll (attributes w) es ctx.bare
  | [], _, _, _ => .nil
  | e :: es, ctx, hp, hs =>
    .cons
      (tells_evaluate e ctx hp (hs.mono fun _ hf => Expr.mem_findersOfAll_cons.2 (.inl hf)))
      (tellsAll_evaluateAll es ctx hp
        (hs.mono fun _ hf => Expr.mem_findersOfAll_cons.2 (.inr hf)))

theorem tellsAll_evaluateMembers : (members : List (String × Expr)) → (ctx : Context) →
    ctx.functions.Pure → R.Serves attributes ctx (Expr.findersOfMembers members) →
      R.TellsAll (Expr.evaluateMembers members ctx)
        fun w => Expr.meaningOfMembers (attributes w) members ctx.bare
  | [], _, _, _ => .nil
  | (_, e) :: members, ctx, hp, hs =>
    .cons
      (tells_evaluate e ctx hp (hs.mono fun _ hf => Expr.mem_findersOfMembers_cons.2 (.inl hf)))
      (tellsAll_evaluateMembers members ctx hp
        (hs.mono fun _ hf => Expr.mem_findersOfMembers_cons.2 (.inr hf)))

theorem tells_follow : (s : Step) → (ctx : Context) → ctx.functions.Pure →
    R.Serves attributes ctx s.finders → (v : Value) →
      R.Tells (s.follow ctx v) fun w => s.meaning (attributes w) ctx.bare v.bare
  | .select selector, _, _, _, v => (tells_just _).congr fun _ => selector.bare_select v
  | .computed selector, ctx, hp, hs, v => by
    have hm := tells_evaluate selector (ctx.about v) hp
      (hs.mono fun f hf => Step.mem_finders_computed.2 hf)
    exact tells_ite _ (tells_just v) (hm.map fun r => Value.bare_selectBy v r)
  | .condition test, ctx, hp, hs, v => by
    have hm : ∀ x, R.Tells (test.evaluate (ctx.about (Value.of x)))
        fun w => test.meaning (attributes w) (ctx.bare.about (Value.of x)) := fun x =>
      tells_evaluate test (ctx.about (Value.of x)) hp
        (hs.mono fun f hf => Step.mem_finders_condition.2 hf)
    refine tells_ite _ (tells_just v) ?_
    rw [Value.children?_bare]
    cases v.children? with
    | none => exact tells_just _
    | some elements =>
      exact (tellsAll_map elements fun x _ => hm x).map (Value.bare_arrayWhere elements)
  | .finder name arguments head, ctx, hp, hs, v => by
    have hm := tellsAll_evaluateAll arguments ctx hp
      (hs.mono fun f hf => Step.mem_finders_finder.2 (.inr hf))
    refine tells_ite _ (tells_just v) (tells_find hm (hs.mono fun f hf => ?_) v)
    exact Step.mem_finders_finder.2 (.inl (List.mem_singleton.1 hf))

theorem tells_followAll : (ss : List Step) → (ctx : Context) → ctx.functions.Pure →
    R.Serves attributes ctx (Step.findersOfAll ss) → {m : Machine Value} → {F : W → Value} →
      R.Tells m F →
        R.Tells (Step.followAll ss ctx m)
          fun w => Step.meaningOfAll (attributes w) ss ctx.bare (F w)
  | [], _, _, _, _, _, hm => hm
  | s :: ss, ctx, hp, hs, _, _, hm =>
    tells_followAll ss ctx hp (hs.mono fun _ hf => Step.mem_findersOfAll_cons.2 (.inr hf))
      (hm.switch (K := fun v w => s.meaning (attributes w) ctx.bare v) fun v =>
        tells_follow s ctx hp (hs.mono fun _ hf => Step.mem_findersOfAll_cons.2 (.inl hf)) v)

theorem told_toEdit : (s : Step) → (ctx : Context) → ctx.functions.Pure →
    R.Serves attributes ctx s.finders →
      EditStep.Told R (s.toEdit ctx) fun w => s.toRevision (attributes w) ctx.bare
  | .select selector, _, _, _ => .select selector
  | .condition test, ctx, hp, hs =>
    .condition fun x => tells_evaluate test (ctx.about (Value.of x)) hp
      (hs.mono fun _ hf => Step.mem_finders_condition.2 hf)
  | .computed _, _, _, _ => .unsupported _
  | .finder _ _ _, _, _, _ => .unsupported _

theorem allTold_toEdits : (ss : List Step) → (ctx : Context) → ctx.functions.Pure →
    R.Serves attributes ctx (Step.findersOfAll ss) →
      EditStep.AllTold R (Step.toEdits ss ctx)
        fun w => Step.toRevisions (attributes w) ss ctx.bare
  | [], _, _, _ => .nil
  | s :: ss, ctx, hp, hs =>
    .cons
      (told_toEdit s ctx hp (hs.mono fun _ hf => Step.mem_findersOfAll_cons.2 (.inl hf)))
      (allTold_toEdits ss ctx hp (hs.mono fun _ hf => Step.mem_findersOfAll_cons.2 (.inr hf)))

theorem tells_followEdit : (e : Edit) → (ctx : Context) → ctx.functions.Pure →
    R.Serves attributes ctx e.finders → (document : Json) →
      R.Tells (e.follow ctx document) fun w => e.meaning (attributes w) ctx.bare document
  | .remove _ target, ctx, hp, hs, document => by
    have ht := allTold_toEdits target ctx hp
      (hs.mono fun f hf => Edit.mem_finders_remove.2 hf)
    exact EditStep.tells_editDocument ht (fun _ _ => tells_just _) document
  | .apply _ target name arguments, ctx, hp, hs, document => by
    have ht := allTold_toEdits target ctx hp
      (hs.mono fun f hf => Edit.mem_finders_apply.2 (.inl hf))
    refine EditStep.tells_editDocument ht (fun root part => ?_) document
    have hm := tellsAll_evaluateAll arguments (ctx.about (Value.of root)) hp
      (hs.mono fun f hf => Edit.mem_finders_apply.2 (.inr hf))
    exact hm.mapReporting (g := fun vs => (ctx.bare.callOn name part vs).1.bare)
      (Context.bare_callOn hp name part)

theorem tells_followEdits : (es : List Edit) → (ctx : Context) → ctx.functions.Pure →
    R.Serves attributes ctx (Edit.findersOfAll es) → {m : Machine Value} → {F : W → Value} →
      R.Tells m F →
        R.Tells (Edit.followAll es ctx m)
          fun w => Edit.meaningOfAll (attributes w) es ctx.bare (F w)
  | [], _, _, _, _, _, hm => hm
  | e :: es, ctx, hp, hs, _, _, hm => by
    refine tells_followEdits es ctx hp
      (hs.mono fun f hf => Edit.mem_findersOfAll_cons.2 (.inr hf)) ?_
    refine hm.switch (K := fun v w => match v.document? with
      | some document => e.meaning (attributes w) ctx.bare document
      | none => v) fun v => ?_
    rw [Value.document?_bare]
    cases v.document? with
    | some document =>
      exact tells_followEdit e ctx hp
        (hs.mono fun f hf => Edit.mem_findersOfAll_cons.2 (.inl hf)) document
    | none => exact tells_just v

end

end Reading

end AccessPolicy
