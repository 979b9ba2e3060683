import AccessPolicy.Proofs.Stream.Turns

/-!
# Streams under a schedule

A schedule lists the feeds under which a stream is polled, once for each poll; whatever becomes of
the watched sources in between is told by how the feeds change from one poll to the next.

A part of a stream has a schedule of its own, since one poll of the whole may take several polls of
the part. A poll of a switching stream goes in rounds, each of which polls the outer stream once
until that has ended, and a stream without repetitions polls the one below it until it gets
something new. So the schedule of the outer stream is the schedule of the whole, with the feeds of
each poll repeated once for each of its rounds, and everything else about the outer stream follows
from that: where it stands, what it has given, and which of its values has opened the inner stream
that is kept.
-/

namespace AccessPolicy

variable {α β : Type}

/-- What can be told of a poll from outside. -/
def Polled.seen {σ : Type} (p : Polled σ α) : Polled Unit α := ⟨p.answer, (), p.woken, p.log⟩

/-- The values that some polls gave. -/
def valuesOf (polls : List (Polled Unit α)) : List α := polls.filterMap fun p => p.answer.value?

/-- What some polls reported. -/
def reportOf (polls : List (Polled Unit α)) : List Event := polls.flatMap Polled.log

/-- The values of a single poll. -/
theorem valuesOf_seen {σ : Type} (p : Polled σ α) : valuesOf [p.seen] = p.answer.value?.toList := by
  show [p.seen].filterMap _ = _
  cases hp : p.answer <;> simp [Polled.seen, hp, Answer.value?]

theorem valuesOf_append (polls polls' : List (Polled Unit α)) :
    valuesOf (polls ++ polls') = valuesOf polls ++ valuesOf polls' := List.filterMap_append

theorem reportOf_append (polls polls' : List (Polled Unit α)) :
    reportOf (polls ++ polls') = reportOf polls ++ reportOf polls' := List.flatMap_append

/-- The last of some values, or else of those before them. -/
theorem getLast?_append_or (as as' : List α) (before : Option α) :
    (as ++ as').getLast?.or before = as'.getLast?.or (as.getLast?.or before) := by
  rw [List.getLast?_append, Option.or_assoc]

theorem or_eq_some_of_imp {newer older older' : Option α} {a : α}
    (h : newer.or older = some a) (himp : older = some a → older' = some a) :
    newer.or older' = some a := by
  cases newer with
  | none => exact himp h
  | some b => exact h

namespace Machine

variable {m : Machine α} {feeds : Feeds}

/-! ## Schedules -/

/-- What is seen of a stream under a schedule. -/
def replay (m : Machine α) : m.State → List Feeds → List (Polled Unit α)
  | _, [] => []
  | s, feeds :: schedule => (m.poll feeds s).seen :: replay m (m.poll feeds s).next schedule

/-- The state of a stream after a schedule. -/
def stateAfter (m : Machine α) (s : m.State) (schedule : List Feeds) : m.State :=
  schedule.foldl (fun s feeds => (m.poll feeds s).next) s

/-- **What a stream shows under a schedule**, from its start on. -/
def shown (m : Machine α) (schedule : List Feeds) : List (Polled Unit α) :=
  m.replay m.start schedule

/-- The subscriptions that a stream holds open after a schedule. -/
def heldAfter (m : Machine α) (schedule : List Feeds) : List Subscription :=
  m.live (m.stateAfter m.start schedule)

/-- What is seen of a part of a stream under a schedule, until it has ended. -/
def replayPart (m : Machine α) : Option m.State → List Feeds → List (Polled Unit α)
  | _, [] => []
  | none, _ :: _ => []
  | some s, feeds :: schedule =>
    (m.poll feeds s).seen :: replayPart m (m.remainder feeds (some s)) schedule

/-- What is left of a part of a stream after a schedule. -/
def partAfter (m : Machine α) (part : Option m.State) (schedule : List Feeds) : Option m.State :=
  schedule.foldl (fun part feeds => m.remainder feeds part) part

theorem replayPart_none (schedule : List Feeds) : m.replayPart none schedule = [] := by
  cases schedule <;> rfl

theorem valuesOf_replayPart_one (s : m.State) :
    valuesOf (m.replayPart (some s) [feeds]) = (m.poll feeds s).answer.value?.toList :=
  valuesOf_seen (m.poll feeds s)

theorem replayPart_append (part : Option m.State) (schedule later : List Feeds) :
    m.replayPart part (schedule ++ later)
      = m.replayPart part schedule ++ m.replayPart (m.partAfter part schedule) later := by
  induction schedule generalizing part with
  | nil => rfl
  | cons feeds schedule ih =>
    cases part with
    | none =>
      have hnone := ih none
      rw [replayPart_none, replayPart_none] at hnone
      exact hnone
    | some s => exact congrArg ((m.poll feeds s).seen :: ·) (ih _)

theorem partAfter_append (part : Option m.State) (schedule later : List Feeds) :
    m.partAfter part (schedule ++ later) = m.partAfter (m.partAfter part schedule) later :=
  List.foldl_append

/-! ## Rounds -/

section Rounds

variable (m : Machine α) (f : α → Machine β) (feeds : Feeds)

/-- What a round makes of a switching stream. -/
def round (s : SwitchState m f) : Polled (SwitchState m f) β :=
  m.finishRound f feeds (m.pollOuter f feeds s)

/-- A round is followed by another one if it has switched and has given nothing. -/
def goesOn (s : SwitchState m f) : Bool :=
  (m.pollOuter f feeds s).answer.value?.isSome && (m.round f feeds s).answer.value?.isNone

/-- What a poll makes of its last round. -/
def closing (q : Polled (SwitchState m f) β) : Polled (SwitchState m f) β :=
  match q.answer with
  | .value _ => q
  | _ => { q with answer := if q.next.1.isNone && q.next.2.isNone then .ended else .pending }

theorem goesOn_iff {s : SwitchState m f} :
    m.goesOn f feeds s = true ↔ (m.pollOuter f feeds s).answer = .value ()
      ∧ ∀ b, (m.round f feeds s).answer ≠ .value b := by
  unfold goesOn
  cases (m.pollOuter f feeds s).answer <;> cases (m.round f feeds s).answer <;>
    simp [Answer.value?]

/-- **A poll in rounds.** -/
theorem pollSwitch_eq (s : SwitchState m f) :
    m.pollSwitch f feeds s
      = if m.goesOn f feeds s then
          (m.pollSwitch f feeds (m.round f feeds s).next).after (m.round f feeds s).woken
            (m.round f feeds s).log
        else m.closing f (m.round f feeds s) := by
  fun_cases pollSwitch m f feeds s with
  | case1 p q b hb =>
    rw [if_neg fun h => ((m.goesOn_iff f feeds).1 h).2 b hb, closing,
      show (m.round f feeds s).answer = .value b from hb]
    exact (congrArg (Polled.mk · q.next q.woken q.log) hb).symm
  | case2 p q hp hq =>
    rw [if_pos ((m.goesOn_iff f feeds).2 ⟨hp, hq⟩)]
    rfl
  | case3 p q hover hq hp =>
    rw [if_neg fun h => hp ((m.goesOn_iff f feeds).1 h).1, closing]
    split
    · next b hb => exact absurd hb (hq b)
    · rw [show ((m.round f feeds s).next.1.isNone && (m.round f feeds s).next.2.isNone) = true
        from hover]
      rfl
  | case4 p q hover hq hp =>
    rw [if_neg fun h => hp ((m.goesOn_iff f feeds).1 h).1, closing]
    split
    · next b hb => exact absurd hb (hq b)
    · rw [show ((m.round f feeds s).next.1.isNone && (m.round f feeds s).next.2.isNone) = false
        from Bool.eq_false_iff.2 hover]
      rfl

/-- **How many rounds** a poll of a switching stream goes through. -/
def rounds (s : SwitchState m f) : Nat :=
  if _h : m.goesOn f feeds s = true then 1 + rounds (m.round f feeds s).next else 1
termination_by (⟨s⟩ : Descent.Bound (m.switchDescent f feeds))
decreasing_by exact below_finishRound ((m.goesOn_iff f feeds).1 _h).1

end Rounds

/-! ## Repetitions -/

section Repetitions

variable (m : Machine α) (same : α → α → Bool) (feeds : Feeds)

/-- A poll gives a repetition of the last value that was let through. -/
def repeats (s : m.State) (last : Option α) : Bool :=
  (m.poll feeds s).answer.value?.any fun a => last.any (same · a)

variable {m}

theorem exists_of_repeats {s : m.State} {last : Option α}
    (h : m.repeats same feeds s last = true) :
    ∃ a, (m.poll feeds s).answer = .value a ∧ last.any (same · a) = true := by
  unfold repeats at h
  cases hp : (m.poll feeds s).answer with
  | value a => exact ⟨a, rfl, by rwa [hp] at h⟩
  | ended => rw [hp] at h; cases h
  | pending => rw [hp] at h; cases h

/-- **A poll without repetitions.** -/
theorem pollDistinct_eq (s : m.State) (last : Option α) :
    let p := m.poll feeds s
    m.pollDistinct same feeds s last
      = if m.repeats same feeds s last then
          (m.pollDistinct same feeds p.next last).after p.woken p.log
        else ⟨p.answer, (p.next, p.answer.value?.or last), p.woken, p.log⟩ := by
  intro p
  have hrepeats : m.repeats same feeds s last
      = p.answer.value?.any fun a => last.any (same · a) := rfl
  fun_cases pollDistinct m same feeds s last with
  | case1 q a ha hsame =>
    rw [show p.answer = .value a from ha] at hrepeats
    rw [if_pos (hrepeats.trans hsame)]
  | case2 q a ha hsame =>
    rw [show p.answer = .value a from ha] at hrepeats ⊢
    rw [if_neg fun h => hsame (hrepeats.symm.trans h)]
    rfl
  | case3 q hp => rw [hrepeats, show p.answer = .ended from hp]; rfl
  | case4 q hp => rw [hrepeats, show p.answer = .pending from hp]; rfl

/-- How often a part of a stream is polled by a poll of the stream without repetitions. -/
def pollsDistinct (polls : m.State → Nat) (s : m.State) (last : Option α) : Nat :=
  if _h : m.repeats same feeds s last = true then
    polls s + pollsDistinct polls (m.poll feeds s).next last
  else polls s
termination_by (⟨s⟩ : Descent.Bound (m.descent feeds))
decreasing_by
  exact (m.respects feeds s).advances
    (.inl ((exists_of_repeats same feeds _h).imp fun _ => And.left))

end Repetitions

/-! ## Parts that are polled along -/

/-- **How a stream conducts a part of it**: where the part stands, which of its values the stream
goes by, and how often it is polled in a poll of the stream. -/
structure Conduct (m : Machine β) (n : Machine α) where
  part : m.State → Option n.State
  newest : m.State → Option α
  polls : Feeds → m.State → Nat
  part_next : ∀ feeds s, part (m.poll feeds s).next
    = n.partAfter (part s) (List.replicate (polls feeds s) feeds)
  /-- The stream goes by the last value of the part, if by any. -/
  newest_next : ∀ feeds s a, newest (m.poll feeds s).next = some a →
    (valuesOf (n.replayPart (part s) (List.replicate (polls feeds s) feeds))).getLast?.or (newest s)
      = some a

/-- What is seen of the part in a poll of the whole. -/
def Conduct.heard {m : Machine β} {n : Machine α} (c : Conduct m n) (feeds : Feeds) (s : m.State) :
    List (Polled Unit α) :=
  n.replayPart (c.part s) (List.replicate (c.polls feeds s) feeds)

/-! ### Switching streams -/

section Switching

variable {m : Machine α} {f : α → Machine β} {feeds : Feeds}

theorem partAfter_replicate_add (part : Option m.State) (k k' : Nat) :
    m.partAfter part (List.replicate (k + k') feeds)
      = m.partAfter (m.partAfter part (List.replicate k feeds)) (List.replicate k' feeds) := by
  rw [List.replicate_add, partAfter_append]

theorem replayPart_replicate_add (part : Option m.State) (k k' : Nat) :
    m.replayPart part (List.replicate (k + k') feeds)
      = m.replayPart part (List.replicate k feeds)
        ++ m.replayPart (m.partAfter part (List.replicate k feeds)) (List.replicate k' feeds) := by
  rw [List.replicate_add, replayPart_append]

/-- A round leaves of the outer stream what one poll of it leaves. -/
theorem part_round (s : SwitchState m f) :
    (m.round f feeds s).next.1 = m.remainder feeds s.1 := by
  rw [← next_pollOuter]
  show (m.pollInner f feeds (m.pollOuter f feeds s).next).next.1 = _
  obtain ⟨outer, inner⟩ := (m.pollOuter f feeds s).next
  cases inner with
  | none => rfl
  | some i => rw [next_pollInner]

/-- The inner stream that a round leaves belongs to the value that the outer stream gave in it, or
else it was there before. -/
theorem newest_round (s : SwitchState m f) {a : α}
    (h : (m.round f feeds s).next.2.map Sigma.fst = some a) :
    (valuesOf (m.replayPart s.1 [feeds])).getLast?.or (s.2.map Sigma.fst) = some a := by
  -- the poll of the inner stream keeps the value that has opened it
  have hinner : (m.pollOuter f feeds s).next.2.map Sigma.fst = some a := by
    revert h
    show (m.pollInner f feeds (m.pollOuter f feeds s).next).next.2.map Sigma.fst = some a → _
    obtain ⟨outer, inner⟩ := (m.pollOuter f feeds s).next
    cases inner with
    | none => exact id
    | some i =>
      rw [next_pollInner]
      cases (f i.1).remainder feeds (some i.2) with
      | none => rintro ⟨⟩
      | some t => exact id
  revert hinner
  fun_cases Machine.pollOuter m f feeds s with
  | case1 inner => exact id
  | case2 s inner p b hp =>
    rw [valuesOf_replayPart_one, show (m.poll feeds s).answer = .value b from hp]
    exact id
  | case3 s inner p hp =>
    rw [valuesOf_replayPart_one, show (m.poll feeds s).answer = .ended from hp]
    exact id
  | case4 s inner p hp =>
    rw [valuesOf_replayPart_one, show (m.poll feeds s).answer = .pending from hp]
    exact id

theorem next_closing (q : Polled (SwitchState m f) β) : (m.closing f q).next = q.next := by
  unfold closing
  split <;> rfl

/-- **The outer stream of a switching one** is polled once in each round, and the inner stream that
is kept belongs to the last of its values. -/
def conductSwitch (m : Machine α) (f : α → Machine β) : Conduct (m.switchMap f) m where
  part := Prod.fst
  newest s := s.2.map Sigma.fst
  polls feeds s := m.rounds f feeds s
  part_next feeds s := by
    show (m.pollSwitch f feeds s).next.1 = _
    fun_induction rounds m f feeds s with
    | case1 s h ih =>
      rw [pollSwitch_eq, if_pos h, partAfter_replicate_add]
      exact ih.trans (by rw [part_round]; rfl)
    | case2 s h =>
      rw [pollSwitch_eq, if_neg h, next_closing, part_round]
      rfl
  newest_next feeds s a := by
    show (m.pollSwitch f feeds s).next.2.map Sigma.fst = some a → _
    fun_induction rounds m f feeds s with
    | case1 s h ih =>
      rw [pollSwitch_eq, if_pos h, replayPart_replicate_add, valuesOf_append, getLast?_append_or]
      intro hnext
      have hlater := ih hnext
      rw [part_round] at hlater
      exact or_eq_some_of_imp hlater (newest_round s)
    | case2 s h =>
      rw [pollSwitch_eq, if_neg h, next_closing]
      exact newest_round s

end Switching

/-! ### Streams without repetitions -/

/-- **A part of a stream without repetitions** is polled along with the stream below. -/
def Conduct.distinct {m : Machine β} {n : Machine α} (c : Conduct m n) (same : β → β → Bool) :
    Conduct (m.distinct same) n where
  part s := c.part s.1
  newest s := c.newest s.1
  polls feeds s := m.pollsDistinct same feeds (c.polls feeds) s.1 s.2
  part_next feeds s := by
    obtain ⟨s, last⟩ := s
    show c.part (m.pollDistinct same feeds s last).next.1
      = n.partAfter (c.part s) (List.replicate (m.pollsDistinct same feeds _ s last) feeds)
    fun_induction pollsDistinct same feeds (c.polls feeds) s last with
    | case1 s h ih =>
      rw [pollDistinct_eq, if_pos h, partAfter_replicate_add, ← c.part_next]
      exact ih
    | case2 s h =>
      rw [pollDistinct_eq, if_neg h]
      exact c.part_next feeds s
  newest_next feeds s a := by
    obtain ⟨s, last⟩ := s
    show c.newest (m.pollDistinct same feeds s last).next.1 = some a →
      (valuesOf (n.replayPart (c.part s)
        (List.replicate (m.pollsDistinct same feeds _ s last) feeds))).getLast?.or (c.newest s)
          = some a
    fun_induction pollsDistinct same feeds (c.polls feeds) s last with
    | case1 s h ih =>
      rw [pollDistinct_eq, if_pos h, replayPart_replicate_add, valuesOf_append,
        getLast?_append_or, ← c.part_next]
      exact fun hnext => or_eq_some_of_imp (ih hnext) (c.newest_next feeds s a)
    | case2 s h =>
      rw [pollDistinct_eq, if_neg h]
      exact c.newest_next feeds s a

/-! ### Under a schedule -/

namespace Conduct

variable {m : Machine β} {n : Machine α} (c : Conduct m n)

/-- **The schedule of the part** under a schedule of the whole. -/
def schedule : m.State → List Feeds → List Feeds
  | _, [] => []
  | s, feeds :: later =>
    List.replicate (c.polls feeds s) feeds ++ schedule (m.poll feeds s).next later

theorem schedule_append (s : m.State) (earlier later : List Feeds) :
    c.schedule s (earlier ++ later)
      = c.schedule s earlier ++ c.schedule (m.stateAfter s earlier) later := by
  induction earlier generalizing s with
  | nil => rfl
  | cons feeds earlier ih =>
    rw [List.cons_append, Conduct.schedule, ih, Conduct.schedule, List.append_assoc]
    rfl

/-- What is seen of the part under a schedule of the whole. -/
def said (s : m.State) (schedule : List Feeds) : List (Polled Unit α) :=
  n.replayPart (c.part s) (c.schedule s schedule)

theorem said_cons (s : m.State) (feeds : Feeds) (later : List Feeds) :
    c.said s (feeds :: later) = c.heard feeds s ++ c.said (m.poll feeds s).next later := by
  unfold said heard
  rw [schedule, replayPart_append, c.part_next]

/-- The part ends up where its own schedule leads. -/
theorem part_stateAfter (s : m.State) (schedule : List Feeds) :
    c.part (m.stateAfter s schedule) = n.partAfter (c.part s) (c.schedule s schedule) := by
  induction schedule generalizing s with
  | nil => rfl
  | cons feeds later ih => rw [Conduct.schedule, partAfter_append, ← c.part_next]; exact ih _

/-- What the whole goes by is the last value of the part. -/
theorem newest_stateAfter (s : m.State) (schedule : List Feeds) {a : α}
    (h : c.newest (m.stateAfter s schedule) = some a) :
    (valuesOf (c.said s schedule)).getLast?.or (c.newest s) = some a := by
  induction schedule generalizing s with
  | nil => exact h
  | cons feeds later ih =>
    rw [said_cons, valuesOf_append, getLast?_append_or]
    exact or_eq_some_of_imp (ih _ h) (c.newest_next feeds s a)

end Conduct

end Machine

end AccessPolicy
