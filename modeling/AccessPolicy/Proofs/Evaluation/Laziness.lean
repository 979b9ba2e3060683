import AccessPolicy.Proofs.Stream.Lookalike
import AccessPolicy.Proofs.Value.Bare

/-!
# Operators that do not look to the right

The lazy operators evaluate their right operand for those values of the left one that leave the
result open, and only for as long as such a value is the latest. An error, something that is no
truth value and the truth value that decides the operator each **settle** it: the result is a
constant then, and the stream of the right operand is not kept.

Of a run, therefore, two things can be said. If everything that the left operand has given settles
the operator, the right operand might be any other expression and nobody could tell, neither from
the values nor from what sources and functions hear of it. And in every run, however often the left
operand has changed its mind, nothing that the right one has opened outlives the value it was opened
for.
-/

namespace AccessPolicy

open Machine

namespace BinaryOperator

/-- **A value of the left operand settles a lazy operator**: it is an error or no truth value, or it
decides the operator. -/
def Settles (op : BinaryOperator) (v : Value) : Prop :=
  v.bool? = none ∨ v.bool? = some op.decisive

/-- The result for a value that settles the operator is a constant. -/
theorem Settles.exists_eq_just {op : BinaryOperator} {v : Value} (h : op.Settles v) :
    ∃ w, ∀ right, op.applyLazily v right = just w := by
  unfold applyLazily
  obtain ⟨b, hb, hv⟩ | ⟨hnone, e, -, hv⟩ := v.requireBool_cases
  · have hdecisive : b = op.decisive := by
      rcases h with hnone | hsome
      · cases hb.symm.trans hnone
      · exact Option.some.inj (hb.symm.trans hsome)
    rw [hv]
    exact ⟨_, fun right => if_pos hdecisive⟩
  · rw [hv]
    exact ⟨_, fun right => rfl⟩

section Streams

variable (op : BinaryOperator) (left right right' : Machine Value)

/-- The stream of a lazy operator, of the streams of its operands. -/
def lazily : Machine Value := (left.switchMap fun v => op.applyLazily v right).settled

/-- How a lazy operator conducts its left operand. -/
def conductLeft : Conduct (op.lazily left right) left :=
  (conductSwitch left fun v => op.applyLazily v right).distinct Value.same

/-- While the left operand settles the operator, the right one might be any other. -/
theorem lookSame_lazily :
    LookSame (op.conductLeft left right) (op.conductLeft left right')
      (fun s t => SameInner left (op.applyLazily · right) (op.applyLazily · right') op.Settles
        s.1 t.1 ∧ s.2 = t.2) op.Settles := by
  refine (lookSame_switchMap (fun v hv => ?_) fun v hv => ?_).distinct Value.same
  · obtain ⟨w, hw⟩ := hv.exists_eq_just
    rw [hw, hw]
  · obtain ⟨w, hw⟩ := hv.exists_eq_just
    rw [hw]
    exact silent_just w

variable (schedule : List Feeds)

/-- The schedule of the left operand under a schedule of the whole. -/
def leftSchedule : List Feeds :=
  (op.conductLeft left right).schedule (op.lazily left right).start schedule

/-- What is seen of the left operand under a schedule of the whole. -/
def leftShown : List (Polled Unit Value) :=
  left.replayPart (some left.start) (op.leftSchedule left right schedule)

/-- If all values of the left operand settle the operator, another right one makes no difference. -/
theorem shown_lazily (h : ∀ v ∈ valuesOf (op.leftShown left right schedule), op.Settles v) :
    op.leftSchedule left right schedule = op.leftSchedule left right' schedule
      ∧ (op.lazily left right).shown schedule = (op.lazily left right').shown schedule
      ∧ reportOf ((op.lazily left right).shown schedule)
          = reportOf (op.leftShown left right schedule) := by
  have hstart : SameInner left (op.applyLazily · right) (op.applyLazily · right') op.Settles
      (some left.start, none) (some left.start, none) := .neither _
  exact (op.lookSame_lazily left right right').replay_eq ⟨hstart, rfl⟩ schedule h

/-- If the latest value of the left operand settles the operator, what is open belongs to the left
operand. -/
theorem held_lazily
    (h : ∀ v, (valuesOf (op.leftShown left right schedule)).getLast? = some v → op.Settles v) :
    (op.lazily left right).heldAfter schedule
      = (left.partAfter (some left.start) (op.leftSchedule left right schedule)).elim []
          left.live := by
  let c := op.conductLeft left right
  let s := (op.lazily left right).stateAfter (op.lazily left right).start schedule
  have hpart : s.1.1 = _ := c.part_stateAfter (op.lazily left right).start schedule
  have hinner : (s.1.2.elim [] fun i => (op.applyLazily i.1 right).live i.2) = [] := by
    cases hi : s.1.2 with
    | none => rfl
    | some i =>
      have hnewest : c.newest s = some i.1 := congrArg (Option.map Sigma.fst) hi
      have hlast := c.newest_stateAfter _ schedule hnewest
      obtain ⟨w, hw⟩ := (h i.1 ((Option.or_none).symm.trans hlast)).exists_eq_just
      exact live_of_eq_just (hw right) i.2
  show s.1.1.elim [] left.live ++ (s.1.2.elim [] fun i => (op.applyLazily i.1 right).live i.2) = _
  rw [hpart, hinner, List.append_nil]
  rfl

end Streams

end BinaryOperator

/-! ## Expressions -/

/-- In a body, a lazy operator is evaluated to the stream of the streams of its operands. -/
theorem Expr.evaluate_lazy {op : BinaryOperator} (hlazy : op.isLazy = true) {ctx : Context}
    (hbody : ctx.mode = .body) (left right : Expr) :
    (Expr.binary op left right).evaluate ctx
      = op.lazily (left.evaluate ctx) (right.evaluate ctx) := by
  rw [Expr.evaluate, if_pos hlazy, hbody]
  rfl

/-- **Lazy operators do not look to the right.** Under any schedule, let `said` be what is seen of
the left operand. If all of its values settle the operator, then every other right operand makes for
the same answers, in the same polls, and nothing is opened or called but by the left operand. If
its latest value settles the operator, whatever came before, nothing is open that the left operand
does not hold. -/
theorem Expr.right_is_not_looked_at {op : BinaryOperator} (hlazy : op.isLazy = true)
    {ctx : Context} (hbody : ctx.mode = .body) (left right : Expr) (schedule : List Feeds) :
    let whole := (Expr.binary op left right).evaluate ctx
    let m := left.evaluate ctx
    let leftSchedule := op.leftSchedule m (right.evaluate ctx) schedule
    let said := m.replayPart (some m.start) leftSchedule
    ((∀ v ∈ valuesOf said, op.Settles v) →
      (∀ right', ((Expr.binary op left right').evaluate ctx).shown schedule = whole.shown schedule
        ∧ op.leftSchedule m (right'.evaluate ctx) schedule = leftSchedule)
      ∧ reportOf (whole.shown schedule) = reportOf said)
    ∧ ((∀ v, (valuesOf said).getLast? = some v → op.Settles v) →
      whole.heldAfter schedule = (m.partAfter (some m.start) leftSchedule).elim [] m.live) := by
  intro whole m leftSchedule said
  have hwhole : whole = op.lazily m (right.evaluate ctx) := evaluate_lazy hlazy hbody left right
  refine ⟨fun hsettles => ⟨fun right' => ?_, ?_⟩, fun hlast => ?_⟩
  · obtain ⟨hschedule, hshown, -⟩ :=
      op.shown_lazily m (right.evaluate ctx) (right'.evaluate ctx) schedule hsettles
    rw [evaluate_lazy hlazy hbody, hwhole]
    exact ⟨hshown.symm, hschedule.symm⟩
  · rw [hwhole]
    exact (op.shown_lazily m (right.evaluate ctx) (right.evaluate ctx) schedule hsettles).2.2
  · rw [hwhole]
    exact op.held_lazily m (right.evaluate ctx) schedule hlast

/-- A constant that decides `||`: whatever stands to the right, nobody is asked, and nothing is
open, also after the source that it names has spoken. -/
theorem Expr.right_is_not_looked_at_decided :
    let left : Expr := .literal (.bool true)
    let right : Expr := .finder "user.role" [] false
    let ctx : Context := { sources := [("user.role", .watch fun _ => "user.role")] }
    let schedule : List Feeds := [[], Feeds.set [] "user.role" (Value.bool false)]
    let whole := (Expr.binary .lazyOr left right).evaluate ctx
    (∀ right', ((Expr.binary .lazyOr left right').evaluate ctx).shown schedule
        = whole.shown schedule)
      ∧ reportOf (whole.shown schedule) = [] ∧ whole.heldAfter schedule = [] := by
  intro left right ctx schedule whole
  have hlazy : BinaryOperator.lazyOr.isLazy = true := rfl
  have hbody : ctx.mode = .body := rfl
  obtain ⟨hsame, hheld⟩ := Expr.right_is_not_looked_at hlazy hbody left right schedule
  -- the left operand gives no other value
  have hvalues : ∀ v ∈ valuesOf (BinaryOperator.lazyOr.leftShown (left.evaluate ctx)
      (right.evaluate ctx) schedule), BinaryOperator.lazyOr.Settles v := by
    intro v hv
    obtain rfl : v = Value.of (.bool true) := eq_of_mem_replayPart_just hv
    exact .inr rfl
  obtain ⟨hright, hreport⟩ := hsame hvalues
  refine ⟨fun right' => (hright right').1, ?_, ?_⟩
  · exact hreport.trans ((silent_just (Value.of (.bool true))).reportOf_replayPart _ _)
  · refine (hheld fun v hv => hvalues v (List.mem_of_getLast? hv)).trans ?_
    generalize (left.evaluate ctx).partAfter _ _ = part
    cases part <;> rfl

end AccessPolicy
