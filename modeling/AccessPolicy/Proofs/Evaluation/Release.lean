import AccessPolicy.Evaluation.Expr
import AccessPolicy.Proofs.Stream.Release

/-!
# What an expression holds at its end

Nearly every expression is evaluated to a combination or to a switching stream, and releases
everything when it ends, whatever its parts are. An environment attribute that is asked for its
first value only is the exception: nothing around it drops the subscription. A unary operator and a
path without steps do not, either, since they only look at the values of what is below them; any
other expression around such a finder does.
-/

namespace AccessPolicy

open Machine

/-- **A bare head finder**: a finder that stays with its first value, be it below unary operators
and paths without steps. -/
def Expr.bareHead : Expr → Bool
  | .finder _ _ head => head
  | .unary _ operand => operand.bareHead
  | .path base [] => base.bareHead
  | _ => false

/-- The first step makes a switching stream, and so does each one after it. -/
theorem releases_followAll (s : Step) (ss : List Step) (ctx : Context) (m : Machine Value) :
    (Step.followAll (s :: ss) ctx m).Releases := by
  induction ss generalizing s m with
  | nil => exact releases_switchMap _ _
  | cons s' ss ih => exact ih s' _

theorem releases_find_all (ctx : Context) (subject : Value) (name : String)
    (arguments : List (Machine Value)) : (ctx.find subject name arguments false).Releases := by
  unfold Context.find
  split
  · exact releases_just _
  · exact releases_switchMap _ _

/-- What a head finder is evaluated to. -/
theorem lingers_find_head {ctx : Context} (hbody : ctx.mode = .body) (subject : Value)
    (name : String) (arguments : List (Machine Value)) :
    ∃ fresh, (ctx.find subject name arguments true).Lingers fresh := by
  unfold Context.find
  rw [hbody]
  exact ⟨_, (releases_switchMap _ _).once⟩

namespace Expr

theorem releases_binary (op : BinaryOperator) (left right : Expr) (ctx : Context) :
    ((binary op left right).evaluate ctx).Releases := by
  unfold evaluate
  split
  · split
    · exact releases_just _
    · exact (releases_switchMap _ _).distinct _
  · exact ((releases_combineLatest _).map _).distinct _

/-- **An expression releases everything at its end**, or it is a bare head finder in a body and
lingers. -/
theorem releases_or_lingers : (e : Expr) → (ctx : Context) →
    (e.evaluate ctx).Releases
      ∨ (e.bareHead = true ∧ ctx.mode = .body ∧ ∃ fresh, (e.evaluate ctx).Lingers fresh)
  | .literal _, _ => .inl (releases_just _)
  | .undefined, _ => .inl (releases_just _)
  | .var _, _ => .inl (releases_just _)
  | .relative, _ => .inl (releases_just _)
  | .object _, _ => .inl (((releases_combineLatest _).map _).distinct _)
  | .array _, _ => .inl (((releases_combineLatest _).map _).distinct _)
  | .unary op operand, ctx => by
    refine (releases_or_lingers operand ctx).imp
      (fun h => (h.map (op.apply ctx.libraries)).distinct _) ?_
    rintro ⟨hbare, hbody, fresh, h⟩
    exact ⟨hbare, hbody, _, (h.map (op.apply ctx.libraries)).distinct _⟩
  | .binary op left right, ctx => .inl (releases_binary op left right ctx)
  | .call _ _, _ => .inl (((releases_combineLatest _).mapReporting _).distinct _)
  | .finder name arguments false, ctx => .inl (releases_find_all ctx _ name _)
  | .finder name arguments true, ctx => by
    cases hmode : ctx.mode with
    | target =>
      refine .inl ?_
      unfold evaluate Context.find
      rw [hmode]
      exact releases_just _
    | body => exact .inr ⟨rfl, rfl, lingers_find_head hmode _ name _⟩
  | .path base [], ctx => by
    refine (releases_or_lingers base ctx).imp (fun h => h.distinct _) ?_
    rintro ⟨hbare, hbody, fresh, h⟩
    exact ⟨hbare, hbody, _, h.distinct _⟩
  | .path base (s :: ss), ctx => .inl ((releases_followAll s ss ctx _).distinct _)
  | .filter _ _, _ => .inl ((releases_switchMap _ _).distinct _)
  | .template _ _, _ => .inl ((releases_switchMap _ _).distinct _)

/-- **Ended expressions hold no subscription**, except for bare head finders. Under any schedule in
which the stream of an expression has reported its end, nothing is held after it, whatever the
sources do; or the expression is a bare head finder in a body, and what is held is what was held
when its value came. -/
theorem held_after_end (e : Expr) (ctx : Context) (schedule : List Feeds)
    (hend : (e.evaluate ctx).HasEnded schedule) :
    (e.evaluate ctx).heldAfter schedule = []
      ∨ (e.bareHead = true ∧ ctx.mode = .body ∧ (e.evaluate ctx).HoldsSinceValue schedule) := by
  rcases e.releases_or_lingers ctx with h | ⟨hbare, hbody, fresh, h⟩
  · exact .inl (h.heldAfter hend)
  · exact (h.heldAfter hend).imp id fun hsince => ⟨hbare, hbody, hsince⟩

/-- A head finder as a step: its source stays silent after the first value and does not end, and
the path has let go of it. -/
theorem held_after_end_step :
    let e : Expr := .path (.literal (.string "device-1")) [.finder "device.status" [] true]
    let ctx : Context :=
      { sources := [("device.status", .script [.value (Value.bool true), .hang])] }
    (e.evaluate ctx).HasEnded [[], []] ∧ (e.evaluate ctx).heldAfter [[], []] = [] := by
  intro e ctx
  have hsource : ∀ q feeds, ((ctx.sources.subscribe "device.status" q).poll feeds
      (ctx.sources.subscribe "device.status" q).start).answer = .value (Value.bool true) :=
    fun _ _ => rfl
  have hfinder : (ctx.find (Value.of (.string "device-1")) "device.status" [] true).Gives
      (Value.bool true) :=
    gives_once fun feeds => (pollSwitch_first ((gives_combineLatest .nil).first feeds)
      (hsource _ feeds)).1
  have hgives : (e.evaluate ctx).Gives (Value.bool true) :=
    ((gives_just (Value.of (.string "device-1"))).switchMap hfinder).distinct _
  have hend : (e.evaluate ctx).HasEnded [[], []] :=
    ⟨_, List.mem_cons_of_mem _ List.mem_cons_self, hgives.second [] []⟩
  refine ⟨hend, (held_after_end e ctx [[], []] hend).resolve_right ?_⟩
  rintro ⟨hbare, -⟩
  cases hbare

/-- The same finder at the root: the stream has reported its end, and the subscription of a source
that is still watched is open. -/
theorem held_after_end_of_head :
    let e : Expr := .finder "user.role" [] true
    let ctx : Context := { sources := [("user.role", .watch fun _ => "user.role")] }
    let feeds : Feeds := [("user.role", ⟨1, some (Value.bool true), false⟩)]
    (e.evaluate ctx).HasEnded [feeds, feeds]
      ∧ (e.evaluate ctx).heldAfter [feeds, feeds]
          = [⟨"user.role", .watch "user.role" fun v => v, some (1 : Nat)⟩] := by
  intro e ctx feeds
  have hnone : ((combineLatest ([] : List (Machine Value))).poll feeds
      (combineLatest []).start).answer = .value [] := (gives_combineLatest .nil).first feeds
  refine (heldAfter_once (a := Value.bool true) ?_).imp id fun hheld => hheld.trans ?_
  · exact (pollSwitch_first hnone rfl).1
  · refine (congrArg _ (pollSwitch_first (b := Value.bool true) hnone rfl).2).trans ?_
    rfl

end Expr

end AccessPolicy
