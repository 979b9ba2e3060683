import AccessPolicy.Proofs.Stream.Release

/-!
# A combination loses no update

The inputs of a combination are polled along with it, once in each poll, and each only until it has
ended. So an input is where its own schedule leads it, and this schedule is that of the whole: it
does not depend on the other inputs when it was polled, what it gave, or whether it has ended. All
that a combination does can be told from what each input does on its own.

A poll gives a list exactly if some input gives a value in it and every input has given one by
then, and the list has the latest value of each. Two kinds of values could still get lost. One that
is taken before another input has given its first is not announced again, so the poller has to be
woken, or it would wait for an input that has already spoken. And one that is taken in the poll in
which the combination ends is never listed; but then some input has ended without a value, and
there would be no list with it either. If all inputs have ended and none of them without a value,
the last list is the one of their last values.

An input may be any stream. Nothing is assumed about the order in which values, ends and pending
answers come.
-/

namespace AccessPolicy

open Polled

variable {α : Type} {feeds : Feeds} {schedule : List Feeds}

namespace Machine

variable {m : Machine α} {ms : List (Machine α)}

/-! ## A schedule with one more poll -/

/-- The poll of a stream that follows a schedule. -/
def pollAfter (m : Machine α) (schedule : List Feeds) (feeds : Feeds) : Polled m.State α :=
  m.poll feeds (m.stateAfter m.start schedule)

theorem replay_append (s : m.State) (earlier later : List Feeds) :
    m.replay s (earlier ++ later)
      = m.replay s earlier ++ m.replay (m.stateAfter s earlier) later := by
  induction earlier generalizing s with
  | nil => rfl
  | cons feeds earlier ih => exact congrArg ((m.poll feeds s).seen :: ·) (ih _)

theorem stateAfter_snoc (m : Machine α) (schedule : List Feeds) (feeds : Feeds) :
    m.stateAfter m.start (schedule ++ [feeds]) = (m.pollAfter schedule feeds).next :=
  stateAfter_append m.start schedule [feeds]

theorem shown_snoc (m : Machine α) (schedule : List Feeds) (feeds : Feeds) :
    m.shown (schedule ++ [feeds]) = m.shown schedule ++ [(m.pollAfter schedule feeds).seen] :=
  replay_append m.start schedule [feeds]

theorem hasEnded_snoc (m : Machine α) (schedule : List Feeds) (feeds : Feeds) :
    m.HasEnded (schedule ++ [feeds])
      ↔ m.HasEnded schedule ∨ (m.pollAfter schedule feeds).answer = .ended := by
  unfold HasEnded
  rw [shown_snoc]
  simp only [List.mem_append, List.mem_singleton, or_and_right, exists_or, exists_eq_left]
  rfl

theorem valuesOf_shown_snoc (m : Machine α) (schedule : List Feeds) (feeds : Feeds) :
    valuesOf (m.shown (schedule ++ [feeds]))
      = valuesOf (m.shown schedule) ++ (m.pollAfter schedule feeds).answer.value?.toList := by
  rw [shown_snoc, valuesOf_append, valuesOf_seen]

theorem getLast?_shown_snoc (m : Machine α) (schedule : List Feeds) (feeds : Feeds) :
    (valuesOf (m.shown (schedule ++ [feeds]))).getLast?
      = (m.pollAfter schedule feeds).answer.value?.or (valuesOf (m.shown schedule)).getLast? := by
  rw [valuesOf_shown_snoc, List.getLast?_append]
  cases (m.pollAfter schedule feeds).answer.value? <;> rfl

/-! ## One input -/

/-- **The values that a stream has given** under a schedule, until it ended. -/
def given (m : Machine α) (schedule : List Feeds) : List α :=
  valuesOf (m.replayPart (some m.start) schedule)

/-- A stream has ended under a schedule. -/
def Done (m : Machine α) (schedule : List Feeds) : Prop :=
  m.partAfter (some m.start) schedule = none

/-- A stream has ended without a value. -/
def Starved (m : Machine α) (schedule : List Feeds) : Prop :=
  m.Done schedule ∧ m.given schedule = []

/-- **A stream gives a value in the poll that follows a schedule**: it has not ended before, and its
answer is a value. -/
def GivesAt (m : Machine α) (schedule : List Feeds) (feeds : Feeds) : Prop :=
  ∃ s a, m.partAfter (some m.start) schedule = some s ∧ (m.poll feeds s).answer = .value a

theorem partAfter_snoc (m : Machine α) (schedule : List Feeds) (feeds : Feeds) :
    m.partAfter (some m.start) (schedule ++ [feeds])
      = m.remainder feeds (m.partAfter (some m.start) schedule) :=
  partAfter_append (some m.start) schedule [feeds]

theorem given_snoc (m : Machine α) (schedule : List Feeds) (feeds : Feeds) :
    m.given (schedule ++ [feeds])
      = m.given schedule
        ++ valuesOf (m.replayPart (m.partAfter (some m.start) schedule) [feeds]) := by
  unfold given
  rw [replayPart_append, valuesOf_append]

theorem done_snoc :
    m.Done (schedule ++ [feeds]) ↔ m.Done schedule
      ∨ ∃ s, m.partAfter (some m.start) schedule = some s ∧ (m.poll feeds s).answer = .ended := by
  unfold Done
  rw [partAfter_snoc]
  cases m.partAfter (some m.start) schedule with
  | none => simp [remainder]
  | some s => cases hp : (m.poll feeds s).answer <;> simp [remainder, hp]

/-- Nothing is added where no value is given. -/
theorem given_snoc_of_not_givesAt (h : ¬ m.GivesAt schedule feeds) :
    m.given (schedule ++ [feeds]) = m.given schedule := by
  rw [given_snoc]
  cases hs : m.partAfter (some m.start) schedule with
  | none => rw [replayPart_none]; exact List.append_nil _
  | some s =>
    rw [valuesOf_replayPart_one]
    cases hp : (m.poll feeds s).answer with
    | value a => exact absurd ⟨s, a, hs, hp⟩ h
    | ended => exact List.append_nil _
    | pending => exact List.append_nil _

theorem not_givesAt_of_ended
    (h : ∃ s, m.partAfter (some m.start) schedule = some s ∧ (m.poll feeds s).answer = .ended) :
    ¬ m.GivesAt schedule feeds := by
  rintro ⟨s, a, hs, ha⟩
  obtain ⟨s', hs', hend⟩ := h
  obtain rfl := Option.some.inj (hs.symm.trans hs')
  cases ha.symm.trans hend

theorem Done.not_givesAt (h : m.Done schedule) : ¬ m.GivesAt schedule feeds := by
  rintro ⟨s, a, hs, -⟩
  cases hs.symm.trans h

theorem GivesAt.not_done (h : m.GivesAt schedule feeds) : ¬ m.Done (schedule ++ [feeds]) := by
  intro hdone
  rcases done_snoc.1 hdone with hbefore | hended
  · exact hbefore.not_givesAt h
  · exact not_givesAt_of_ended hended h

theorem Done.given_snoc (h : m.Done schedule) (feeds : Feeds) :
    m.given (schedule ++ [feeds]) = m.given schedule :=
  given_snoc_of_not_givesAt h.not_givesAt

theorem Done.snoc (h : m.Done schedule) (feeds : Feeds) : m.Done (schedule ++ [feeds]) :=
  done_snoc.2 (.inl h)

theorem Starved.snoc (h : m.Starved schedule) (feeds : Feeds) : m.Starved (schedule ++ [feeds]) :=
  ⟨h.1.snoc feeds, (h.1.given_snoc feeds).trans h.2⟩

/-! ## One sweep -/

section Slot

variable {slot : Option m.State × Option α}

/-- The latest value is the one that was given, if one was. -/
theorem latest_pollSlot :
    (m.pollSlot feeds slot).next.2
      = (valuesOf (m.replayPart slot.1 [feeds])).getLast?.or slot.2 := by
  obtain ⟨_ | s, latest⟩ := slot
  · rw [replayPart_none]
    rfl
  · rw [valuesOf_replayPart_one]
    cases hp : (m.poll feeds s).answer <;> cases latest <;> simp [pollSlot, hp, Answer.value?]

theorem pollSlot_eq_value :
    (m.pollSlot feeds slot).answer = .value ()
      ↔ ∃ s a, slot.1 = some s ∧ (m.poll feeds s).answer = .value a := by
  obtain ⟨_ | s, latest⟩ := slot
  · simp [pollSlot]
  · cases hp : (m.poll feeds s).answer <;> cases latest <;> simp [pollSlot, hp]

theorem pollSlot_eq_ended :
    (m.pollSlot feeds slot).answer = .ended
      ↔ slot.2 = none ∧ ∃ s, slot.1 = some s ∧ (m.poll feeds s).answer = .ended := by
  obtain ⟨_ | s, latest⟩ := slot
  · simp [pollSlot]
  · cases hp : (m.poll feeds s).answer <;> cases latest <;> simp [pollSlot, hp]

end Slot

/-- What a combination keeps of an input: where it is, and the latest value that it has given. -/
def slotAfter (m : Machine α) (schedule : List Feeds) : Option m.State × Option α :=
  (m.partAfter (some m.start) schedule, (m.given schedule).getLast?)

/-- **The poll of one input** of a sweep is the next poll of its own schedule. -/
theorem next_pollSlot_slotAfter (m : Machine α) (schedule : List Feeds) (feeds : Feeds) :
    (m.pollSlot feeds (m.slotAfter schedule)).next = m.slotAfter (schedule ++ [feeds]) := by
  refine Prod.ext ?_ ?_
  · rw [next_pollSlot]
    exact (partAfter_snoc m schedule feeds).symm
  · rw [latest_pollSlot]
    show _ = (m.given (schedule ++ [feeds])).getLast?
    rw [given_snoc, List.getLast?_append]
    rfl

/-- An input cuts a sweep short if it has just ended without a value. -/
theorem pollSlot_slotAfter_ended (h : ¬ m.Starved schedule) :
    (m.pollSlot feeds (m.slotAfter schedule)).answer = .ended
      ↔ m.Starved (schedule ++ [feeds]) := by
  rw [pollSlot_eq_ended]
  refine ⟨?_, fun hstarved => ?_⟩
  · rintro ⟨hlatest, hended⟩
    have hsame := given_snoc_of_not_givesAt (not_givesAt_of_ended hended)
    exact ⟨done_snoc.2 (.inr hended), hsame.trans (List.getLast?_eq_none_iff.1 hlatest)⟩
  · obtain ⟨hdone, hempty⟩ := hstarved
    rw [given_snoc, List.append_eq_nil_iff] at hempty
    refine ⟨List.getLast?_eq_none_iff.2 hempty.1, ?_⟩
    exact (done_snoc.1 hdone).resolve_left fun hbefore => h ⟨hbefore, hempty.1⟩

namespace Slots

/-- What a combination keeps of its inputs after a schedule. -/
def after (schedule : List Feeds) : (ms : List (Machine α)) → Slots ms
  | [] => ()
  | m :: ms => (m.slotAfter schedule, after schedule ms)

theorem after_nil (ms : List (Machine α)) : after [] ms = start ms := by
  induction ms with
  | nil => rfl
  | cons m ms ih => exact congrArg (Prod.mk (m.slotAfter [])) ih

theorem ended_after : ended ms (after schedule ms) = true ↔ ∀ m ∈ ms, m.Done schedule := by
  induction ms with
  | nil => exact ⟨fun _ _ hm => absurd hm List.not_mem_nil, fun _ => rfl⟩
  | cons m ms ih =>
    rw [List.forall_mem_cons, ← ih, Done, ← Option.isNone_iff_eq_none]
    exact Bool.and_eq_true_iff

/-- The list of the latest values, if every input has given one. -/
theorem latest?_after {values : List α} :
    latest? ms (after schedule ms) = some values
      ↔ List.Forall₂ (fun m a => (m.given schedule).getLast? = some a) ms values := by
  induction ms generalizing values with
  | nil =>
    refine ⟨?_, ?_⟩
    · rintro ⟨⟩
      exact .nil
    · rintro ⟨⟩
      rfl
  | cons m ms ih =>
    rw [List.forall₂_cons_left_iff, after, slotAfter, latest?_cons, Option.bind_eq_some_iff]
    refine exists_congr fun a => ?_
    rw [Option.map_eq_some_iff]
    refine ⟨?_, ?_⟩
    · rintro ⟨ha, as, has, rfl⟩
      exact ⟨as, ha, ih.1 has, rfl⟩
    · rintro ⟨as, ha, has, rfl⟩
      exact ⟨ha, as, ih.2 has, rfl⟩

/-- The list is complete once every input has given a value. -/
theorem isSome_latest?_after :
    (latest? ms (after schedule ms)).isSome = true ↔ ∀ m ∈ ms, m.given schedule ≠ [] := by
  induction ms with
  | nil => exact ⟨fun _ _ hm => absurd hm List.not_mem_nil, fun _ => rfl⟩
  | cons m ms ih =>
    rw [List.forall_mem_cons, ← ih, after, slotAfter, latest?_cons, Option.isSome_bind,
      Option.any_eq_true, ← List.getLast?_isSome]
    simp only [Option.isSome_map, Option.isSome_iff_exists, exists_and_right]

/-- A list that is complete stays complete. -/
theorem latest?_after_of_snoc (h : latest? ms (after (schedule ++ [feeds]) ms) = none) :
    latest? ms (after schedule ms) = none := by
  rw [← Option.not_isSome_iff_eq_none, isSome_latest?_after] at h ⊢
  refine fun hgiven => h fun m hm => ?_
  rw [given_snoc]
  exact List.append_ne_nil_of_left_ne_nil (hgiven m hm) _

/-- Inputs that give nothing leave the latest values as they are. -/
theorem latest?_after_snoc (h : ∀ m ∈ ms, ¬ m.GivesAt schedule feeds) :
    latest? ms (after (schedule ++ [feeds]) ms) = latest? ms (after schedule ms) := by
  induction ms with
  | nil => rfl
  | cons m ms ih =>
    obtain ⟨hm, hms⟩ := List.forall_mem_cons.1 h
    rw [after, after, slotAfter, slotAfter, latest?_cons, latest?_cons,
      given_snoc_of_not_givesAt hm, ih hms]

end Slots

/-- **What a sweep finds** when some inputs are polled that have not starved before. -/
inductive Finds (schedule : List Feeds) (feeds : Feeds) (ms : List (Machine α))
    (w : Polled (Slots ms) Unit) : Prop where
  /-- An input that has ended without a value. -/
  | starved : w.answer = .ended → (∃ m ∈ ms, m.Starved (schedule ++ [feeds])) →
      Finds schedule feeds ms w
  /-- A new value. -/
  | news : w.answer = .value () → w.next = Slots.after (schedule ++ [feeds]) ms →
      (∀ m ∈ ms, ¬ m.Starved (schedule ++ [feeds])) → (∃ m ∈ ms, m.GivesAt schedule feeds) →
        Finds schedule feeds ms w
  | nothing : w.answer = .pending → w.next = Slots.after (schedule ++ [feeds]) ms →
      (∀ m ∈ ms, ¬ m.Starved (schedule ++ [feeds])) → (∀ m ∈ ms, ¬ m.GivesAt schedule feeds) →
        Finds schedule feeds ms w

/-- **One sweep** polls every input, unless one of them starves the combination. -/
theorem finds_sweep (h : ∀ m ∈ ms, ¬ m.Starved schedule) :
    Finds schedule feeds ms (sweep feeds ms (Slots.after schedule ms)) := by
  induction ms with
  | nil =>
    exact .nothing rfl rfl (fun _ hm => absurd hm List.not_mem_nil)
      fun _ hm => absurd hm List.not_mem_nil
  | cons m ms ih =>
    obtain ⟨hm, hms⟩ := List.forall_mem_cons.1 h
    have hnext := next_pollSlot_slotAfter m schedule feeds
    by_cases hp : (m.pollSlot feeds (m.slotAfter schedule)).answer = .ended
    · refine .starved ?_ ⟨m, .head _, (pollSlot_slotAfter_ended hm).1 hp⟩
      rw [Slots.after, sweep, hp]
    have hall (hothers : ∀ m ∈ ms, ¬ m.Starved (schedule ++ [feeds])) :
        ∀ n ∈ m :: ms, ¬ n.Starved (schedule ++ [feeds]) :=
      List.forall_mem_cons.2 ⟨fun hm' => hp ((pollSlot_slotAfter_ended hm).2 hm'), hothers⟩
    rw [Slots.after, sweep_of_present _ hp]
    cases ih hms with
    | starved hw hstarved =>
      exact .starved (ended_besides _ hw) (hstarved.imp fun _ h => h.imp_left (.tail _))
    | news hw hrest hothers hgives =>
      refine .news ?_ (Prod.ext hnext hrest) (hall hothers)
        (hgives.imp fun _ h => h.imp_left (.tail _))
      simp [besides, hw]
    | nothing hw hrest hothers hquiet =>
      cases hv : (m.pollSlot feeds (m.slotAfter schedule)).answer with
      | value =>
        refine .news ?_ (Prod.ext hnext hrest) (hall hothers)
          ⟨m, .head _, pollSlot_eq_value.1 hv⟩
        simp [besides, hv, hw]
      | ended => exact absurd hv hp
      | pending =>
        refine .nothing ?_ (Prod.ext hnext hrest) (hall hothers)
          (List.forall_mem_cons.2 ⟨fun hgives => ?_, hquiet⟩)
        · simp [besides, hv, hw]
        · cases hv.symm.trans (pollSlot_eq_value.2 hgives)

/-! ## One poll -/

/-- **What a poll makes of inputs** none of which has starved the combination before. -/
inductive Combines (schedule : List Feeds) (feeds : Feeds) (ms : List (Machine α))
    (p : Polled (Option (Slots ms)) (List α)) : Prop where
  | starved : p.answer = .ended → p.next = none → (∃ m ∈ ms, m.Starved (schedule ++ [feeds])) →
      Combines schedule feeds ms p
  | complete : p.answer = .ended → p.next = none → (∀ m ∈ ms, m.Done (schedule ++ [feeds])) →
      (∀ m ∈ ms, ¬ m.GivesAt schedule feeds) → Combines schedule feeds ms p
  | listed {values : List α} :
      p.answer = .value values → p.next = some (Slots.after (schedule ++ [feeds]) ms) →
        (∀ m ∈ ms, ¬ m.Starved (schedule ++ [feeds])) → (∃ m ∈ ms, m.GivesAt schedule feeds) →
          Slots.latest? ms (Slots.after (schedule ++ [feeds]) ms) = some values →
            Combines schedule feeds ms p
  /-- A value has been taken that is not listed yet. -/
  | taken : p.answer = .pending → p.next = some (Slots.after (schedule ++ [feeds]) ms) →
      (∀ m ∈ ms, ¬ m.Starved (schedule ++ [feeds])) → (∃ m ∈ ms, m.GivesAt schedule feeds) →
        Slots.latest? ms (Slots.after (schedule ++ [feeds]) ms) = none → p.woken = true →
          Combines schedule feeds ms p
  | quiet : p.answer = .pending → p.next = some (Slots.after (schedule ++ [feeds]) ms) →
      (∀ m ∈ ms, ¬ m.Starved (schedule ++ [feeds])) → (∀ m ∈ ms, ¬ m.GivesAt schedule feeds) →
        ¬ (∀ m ∈ ms, m.Done (schedule ++ [feeds])) → Combines schedule feeds ms p

theorem combines_pollCombined (hms : ms.isEmpty = false) (h : ∀ m ∈ ms, ¬ m.Starved schedule) :
    Combines schedule feeds ms (pollCombined ms feeds (some (Slots.after schedule ms))) := by
  have hfinds : Finds schedule feeds ms _ := finds_sweep h
  rw [pollCombined, if_neg (Bool.eq_false_iff.1 hms)]
  cases hfinds with
  | starved ha hstarved =>
    simp only [ha]
    exact .starved rfl rfl hstarved
  | news ha hrest hfed hgives =>
    simp only [ha]
    unfold report
    split
    · next values hl => exact .listed rfl (congrArg some hrest) hfed hgives (hrest ▸ hl)
    · next hl => exact .taken rfl (congrArg some hrest) hfed hgives (hrest ▸ hl) rfl
  | nothing ha hrest hfed hquiet =>
    simp only [ha, hrest]
    split
    · next hover => exact .complete rfl rfl (Slots.ended_after.1 hover) hquiet
    · next hgoes => exact .quiet rfl rfl hfed hquiet fun hdone => hgoes (Slots.ended_after.2 hdone)

/-! ## A whole schedule -/

/-- The list that a combination gave last. -/
def lastListed (ms : List (Machine α)) (schedule : List Feeds) : Option (List α) :=
  (valuesOf ((combineLatest ms).shown schedule)).getLast?

/-- **Where a combination is** after a schedule. -/
inductive Combined (schedule : List Feeds) (ms : List (Machine α)) : Prop where
  | running :
      ¬ (combineLatest ms).HasEnded schedule →
        (combineLatest ms).stateAfter (combineLatest ms).start schedule
          = some (Slots.after schedule ms) →
          (∀ m ∈ ms, ¬ m.Starved schedule) →
            lastListed ms schedule = Slots.latest? ms (Slots.after schedule ms) →
              Combined schedule ms
  | starved :
      (combineLatest ms).HasEnded schedule →
        (combineLatest ms).stateAfter (combineLatest ms).start schedule = none →
          (∃ m ∈ ms, m.Starved schedule) → Combined schedule ms
  | complete :
      (combineLatest ms).HasEnded schedule →
        (combineLatest ms).stateAfter (combineLatest ms).start schedule = none →
          (∀ m ∈ ms, m.Done schedule) →
            lastListed ms schedule = Slots.latest? ms (Slots.after schedule ms) →
              Combined schedule ms

theorem lastListed_snoc (ms : List (Machine α)) (schedule : List Feeds) (feeds : Feeds) :
    lastListed ms (schedule ++ [feeds])
      = ((combineLatest ms).pollAfter schedule feeds).answer.value?.or (lastListed ms schedule) :=
  getLast?_shown_snoc _ _ _

/-- A combination without a state has nobody to ask. -/
theorem pollAfter_of_over
    (h : (combineLatest ms).stateAfter (combineLatest ms).start schedule = none) :
    (combineLatest ms).pollAfter schedule feeds = ⟨.ended, none, false, []⟩ := by
  unfold pollAfter
  rw [h]
  rfl

theorem Combined.step (hms : ms.isEmpty = false) (h : Combined schedule ms) :
    Combined (schedule ++ [feeds]) ms := by
  cases h with
  | running hnot hstate hfed hlast =>
    have hpoll : Combines schedule feeds ms ((combineLatest ms).pollAfter schedule feeds) := by
      unfold pollAfter
      rw [hstate]
      exact combines_pollCombined hms hfed
    have hsnoc := stateAfter_snoc (combineLatest ms) schedule feeds
    have hnext := lastListed_snoc ms schedule feeds
    have hends := hasEnded_snoc (combineLatest ms) schedule feeds
    generalize (combineLatest ms).pollAfter schedule feeds = p at *
    have hgoes (ha : p.answer ≠ .ended) : ¬ (combineLatest ms).HasEnded (schedule ++ [feeds]) :=
      fun hover => ha ((hends.1 hover).resolve_left hnot)
    cases hpoll with
    | starved ha hgone hstarved =>
      exact .starved (hends.2 (.inr ha)) (hsnoc.trans hgone) hstarved
    | complete ha hgone hdone hquiet =>
      refine .complete (hends.2 (.inr ha)) (hsnoc.trans hgone) hdone ?_
      rw [hnext, ha, Slots.latest?_after_snoc hquiet]
      exact hlast
    | listed ha hsome hfeds _ hl =>
      refine .running (hgoes (by rw [ha]; rintro ⟨⟩)) (hsnoc.trans hsome) hfeds ?_
      rw [hnext, ha, hl]
      rfl
    | taken ha hsome hfeds _ hl =>
      refine .running (hgoes (by rw [ha]; rintro ⟨⟩)) (hsnoc.trans hsome) hfeds ?_
      -- the list was not complete before either, so nothing has been given yet
      rw [hnext, ha, hl, hlast, Slots.latest?_after_of_snoc hl]
      rfl
    | quiet ha hsome hfeds hquiet _ =>
      refine .running (hgoes (by rw [ha]; rintro ⟨⟩)) (hsnoc.trans hsome) hfeds ?_
      rw [hnext, ha, Slots.latest?_after_snoc hquiet]
      exact hlast
  | starved hover hstate hstarved =>
    refine .starved ((hasEnded_snoc _ _ _).2 (.inl hover)) ?_
      (hstarved.imp fun _ h => h.imp id (·.snoc feeds))
    rw [stateAfter_snoc, pollAfter_of_over hstate]
  | complete hover hstate hdone hlast =>
    refine .complete ((hasEnded_snoc _ _ _).2 (.inl hover)) ?_
      (fun m hm => (hdone m hm).snoc feeds) ?_
    · rw [stateAfter_snoc, pollAfter_of_over hstate]
    · rw [lastListed_snoc, pollAfter_of_over hstate,
        Slots.latest?_after_snoc fun m hm => (hdone m hm).not_givesAt]
      exact hlast

/-- **Every schedule** leaves a combination in one of these ways. -/
theorem combined (hms : ms.isEmpty = false) (schedule : List Feeds) : Combined schedule ms := by
  induction schedule using List.reverseRecOn with
  | nil =>
    refine .running ?_ ?_ ?_ ?_
    · rintro ⟨p, ⟨⟩, -⟩
    · exact congrArg some (Slots.after_nil ms).symm
    · rintro m - ⟨⟨⟩, -⟩
    · rw [Slots.after_nil, Slots.latest?_start hms]
      rfl
  | append_singleton schedule feeds ih => exact ih.step hms

/-! ## Inputs that are told what to show -/

/-- The stream that shows some polls one after the other, and then waits for ever. -/
def recital (polls : List (Polled Unit α)) : Machine α where
  State := List (Polled Unit α)
  start := polls
  poll _ left :=
    match left with
    | [] => ⟨.pending, [], false, []⟩
    | p :: left => ⟨p.answer, left, p.woken, p.log⟩
  live _ := []
  descent _ := .ofRank List.length
  respects _ left :=
    match left with
    | [] => .pending_at _
    | _ :: left => .of_below (Nat.lt_succ_self left.length)

/-! ## All of it -/

/-- **A combination of some inputs loses no update**, whatever each of them does. What an input does
in a poll is what it does if it is polled then. The inputs behind one that starves the combination
are not polled any more, and it makes no difference what they would have done. -/
structure LosesNoUpdate (inputs : List (Machine α)) : Prop where
  /-- Up to the end, every input has been polled under the schedule of the combination. -/
  along {schedule : List Feeds} : ¬ (combineLatest inputs).HasEnded schedule →
    (combineLatest inputs).stateAfter (combineLatest inputs).start schedule
      = some (Slots.after schedule inputs)
  /-- A list is given if some input gives a value in that poll and every input has given one by
  then, and not otherwise. It has the latest value of each. -/
  lists {schedule : List Feeds} (feeds : Feeds) (values : List α) :
    ¬ (combineLatest inputs).HasEnded schedule →
      (((combineLatest inputs).pollAfter schedule feeds).answer = .value values
        ↔ (∃ m ∈ inputs, m.GivesAt schedule feeds)
          ∧ List.Forall₂ (fun m a => (m.given (schedule ++ [feeds])).getLast? = some a)
              inputs values)
  /-- The end comes if all inputs have ended, or one of them without a value, and not before. -/
  ends {schedule : List Feeds} (feeds : Feeds) : ¬ (combineLatest inputs).HasEnded schedule →
    (((combineLatest inputs).pollAfter schedule feeds).answer = .ended
      ↔ (∀ m ∈ inputs, m.Done (schedule ++ [feeds]))
        ∨ ∃ m ∈ inputs, m.Done (schedule ++ [feeds]) ∧ m.given (schedule ++ [feeds]) = [])
  /-- After the end no input is left that could be polled, and the answer stays the same. -/
  stays {schedule : List Feeds} (feeds : Feeds) : (combineLatest inputs).HasEnded schedule →
    (combineLatest inputs).stateAfter (combineLatest inputs).start schedule = none
      ∧ (combineLatest inputs).pollAfter schedule feeds = ⟨.ended, none, false, []⟩
  /-- Who is left waiting although a value has been taken is woken. -/
  wakes {schedule : List Feeds} {feeds : Feeds} :
    ((combineLatest inputs).pollAfter schedule feeds).answer = .pending →
      (∃ m ∈ inputs, m.GivesAt schedule feeds) →
        ((combineLatest inputs).pollAfter schedule feeds).woken = true
  /-- If all inputs have ended and each has given a value, the combination has ended as well, and
  the last list has the last value of each. -/
  last {schedule : List Feeds} :
    (∀ m ∈ inputs, m.Done schedule ∧ m.given schedule ≠ []) →
      (combineLatest inputs).HasEnded schedule
        ∧ ∃ values, (valuesOf ((combineLatest inputs).shown schedule)).getLast? = some values
          ∧ List.Forall₂ (fun m a => (m.given schedule).getLast? = some a) inputs values

section Whole

variable (hms : ms.isEmpty = false)
include hms

theorem stateAfter_of_hasEnded (hover : (combineLatest ms).HasEnded schedule) :
    (combineLatest ms).stateAfter (combineLatest ms).start schedule = none := by
  cases combined hms schedule with
  | running hnot => exact absurd hover hnot
  | starved _ hstate => exact hstate
  | complete _ hstate => exact hstate

/-- Up to the end, each poll starts from where the inputs are. -/
theorem combines_pollAfter (feeds : Feeds) (hnot : ¬ (combineLatest ms).HasEnded schedule) :
    Combines schedule feeds ms ((combineLatest ms).pollAfter schedule feeds) := by
  cases combined hms schedule with
  | running _ hstate hfed =>
    unfold pollAfter
    rw [hstate]
    exact combines_pollCombined hms hfed
  | starved hover => exact absurd hover hnot
  | complete hover => exact absurd hover hnot

theorem pollAfter_eq_value (hnot : ¬ (combineLatest ms).HasEnded schedule) (values : List α) :
    ((combineLatest ms).pollAfter schedule feeds).answer = .value values
      ↔ (∃ m ∈ ms, m.GivesAt schedule feeds)
        ∧ Slots.latest? ms (Slots.after (schedule ++ [feeds]) ms) = some values := by
  cases combines_pollAfter hms feeds hnot with
  | starved ha _ hstarved =>
    refine iff_of_false (by rw [ha]; rintro ⟨⟩) ?_
    rintro ⟨-, hl⟩
    obtain ⟨m, hm, -, hempty⟩ := hstarved
    exact absurd hempty (Slots.isSome_latest?_after.1 (Option.isSome_of_eq_some hl) m hm)
  | complete ha _ _ hquiet =>
    refine iff_of_false (by rw [ha]; rintro ⟨⟩) ?_
    rintro ⟨⟨m, hm, hgives⟩, -⟩
    exact absurd hgives (hquiet m hm)
  | listed ha _ _ hgives hl =>
    rw [ha, hl, Answer.value.injEq, Option.some.injEq]
    exact (and_iff_right hgives).symm
  | taken ha _ _ _ hl =>
    refine iff_of_false (by rw [ha]; rintro ⟨⟩) ?_
    rintro ⟨-, hl'⟩
    cases hl.symm.trans hl'
  | quiet ha _ _ hquiet _ =>
    refine iff_of_false (by rw [ha]; rintro ⟨⟩) ?_
    rintro ⟨⟨m, hm, hgives⟩, -⟩
    exact absurd hgives (hquiet m hm)

theorem pollAfter_eq_ended (hnot : ¬ (combineLatest ms).HasEnded schedule) :
    ((combineLatest ms).pollAfter schedule feeds).answer = .ended
      ↔ (∀ m ∈ ms, m.Done (schedule ++ [feeds])) ∨ ∃ m ∈ ms, m.Starved (schedule ++ [feeds]) := by
  -- an input that gives a value has not ended, and a poll that goes on has not been starved
  have hgoes {p : Polled (Option (Slots ms)) (List α)} (ha : p.answer ≠ .ended)
      (hfed : ∀ m ∈ ms, ¬ m.Starved (schedule ++ [feeds]))
      (hdone : ¬ ∀ m ∈ ms, m.Done (schedule ++ [feeds])) :
      p.answer = .ended ↔ (∀ m ∈ ms, m.Done (schedule ++ [feeds]))
        ∨ ∃ m ∈ ms, m.Starved (schedule ++ [feeds]) := by
    refine iff_of_false ha ?_
    rintro (hall | ⟨m, hm, hstarved⟩)
    · exact hdone hall
    · exact hfed m hm hstarved
  have hgiver (hgives : ∃ m ∈ ms, m.GivesAt schedule feeds) :
      ¬ ∀ m ∈ ms, m.Done (schedule ++ [feeds]) := by
    obtain ⟨m, hm, hg⟩ := hgives
    exact fun hall => hg.not_done (hall m hm)
  cases combines_pollAfter hms feeds hnot with
  | starved ha _ hstarved => exact iff_of_true ha (.inr hstarved)
  | complete ha _ hdone => exact iff_of_true ha (.inl hdone)
  | listed ha _ hfed hgives => exact hgoes (by rw [ha]; rintro ⟨⟩) hfed (hgiver hgives)
  | taken ha _ hfed hgives => exact hgoes (by rw [ha]; rintro ⟨⟩) hfed (hgiver hgives)
  | quiet ha _ hfed _ hdone => exact hgoes (by rw [ha]; rintro ⟨⟩) hfed hdone

theorem woken_of_givesAt
    (ha : ((combineLatest ms).pollAfter schedule feeds).answer = .pending)
    (hgives : ∃ m ∈ ms, m.GivesAt schedule feeds) :
    ((combineLatest ms).pollAfter schedule feeds).woken = true := by
  have hnot : ¬ (combineLatest ms).HasEnded schedule := fun hover => by
    rw [pollAfter_of_over (stateAfter_of_hasEnded hms hover)] at ha
    cases ha
  cases combines_pollAfter hms feeds hnot with
  | starved ha' => cases ha.symm.trans ha'
  | complete ha' => cases ha.symm.trans ha'
  | listed ha' => cases ha.symm.trans ha'
  | taken _ _ _ _ _ hw => exact hw
  | quiet _ _ _ hquiet =>
    obtain ⟨m, hm, hg⟩ := hgives
    exact absurd hg (hquiet m hm)

/-- A combination does not outlast its inputs. -/
theorem hasEnded_of_done (hdone : ∀ m ∈ ms, m.Done schedule) :
    (combineLatest ms).HasEnded schedule := by
  induction schedule using List.reverseRecOn with
  | nil =>
    cases ms with
    | nil => cases hms
    | cons m ms => cases hdone m List.mem_cons_self
  | append_singleton schedule feeds =>
    by_cases hover : (combineLatest ms).HasEnded schedule
    · exact (hasEnded_snoc _ _ _).2 (.inl hover)
    · exact (hasEnded_snoc _ _ _).2 (.inr ((pollAfter_eq_ended hms hover).2 (.inl hdone)))

end Whole

/-- **A combination of one input or more loses no update.** -/
theorem combineLatest_loses_no_update (m : Machine α) (ms : List (Machine α)) :
    LosesNoUpdate (m :: ms) where
  along {schedule} hnot := by
    cases combined (rfl : (m :: ms).isEmpty = false) schedule with
    | running _ hstate => exact hstate
    | starved hover => exact absurd hover hnot
    | complete hover => exact absurd hover hnot
  lists feeds values hnot := by
    rw [pollAfter_eq_value rfl hnot, Slots.latest?_after]
  ends feeds hnot := pollAfter_eq_ended rfl hnot
  stays feeds hover := by
    have hstate := stateAfter_of_hasEnded rfl hover
    exact ⟨hstate, pollAfter_of_over hstate⟩
  wakes := woken_of_givesAt rfl
  last {schedule} h := by
    have hover := hasEnded_of_done rfl fun n hn => (h n hn).1
    refine ⟨hover, ?_⟩
    cases combined (rfl : (m :: ms).isEmpty = false) schedule with
    | running hnot => exact absurd hover hnot
    | starved _ _ hstarved =>
      obtain ⟨n, hn, -, hempty⟩ := hstarved
      exact absurd hempty (h n hn).2
    | complete _ _ _ hlast =>
      have hall := Slots.isSome_latest?_after.2 fun n hn => (h n hn).2
      obtain ⟨values, hvalues⟩ := Option.isSome_iff_exists.1 hall
      exact ⟨values, hlast.trans hvalues, Slots.latest?_after.1 hvalues⟩

/-- Two values are taken before the other input has one: the poller is woken each time, and the
first list has the later of them. -/
example (feeds : Feeds) :
    (combineLatest [recital [⟨.value 1, (), false, []⟩, ⟨.value 2, (), false, []⟩],
        recital [⟨.pending, (), false, []⟩, ⟨.pending, (), false, []⟩,
          ⟨.value 7, (), false, []⟩]]).shown [feeds, feeds, feeds]
      = [⟨.pending, (), true, []⟩, ⟨.pending, (), true, []⟩, ⟨.value [2, 7], (), false, []⟩] := rfl

end Machine

end AccessPolicy
