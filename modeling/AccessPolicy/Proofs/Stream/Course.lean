import AccessPolicy.Stream.Distinct
import AccessPolicy.Stream.Source
import Mathlib.Data.List.Infix

/-!
# Streams in the course of time

The feeds change over time, and a stream is polled in between. A *history* lists the feeds that
there have been, the newest first. `Machine.Reached` says which states a stream can be in after a
history, together with the last value that it gave. A stream may be opened late in a history,
since streams open streams.

A stream **rests** when asking it again is of no use before something changes: it has reported
its end, or it has just answered that it is pending without waking the poller. What a combined
stream gives last, where it rests, and which values it has ever given, is told by the same facts
about its parts. The parts of `switchMap` and `combineLatest` take a module each; the streams of
one part are here.
-/

namespace AccessPolicy

/-- The value that an answer gives. -/
def Answer.value? {α : Type} : Answer α → Option α
  | value a => some a
  | _ => none

theorem Answer.value?_eq_some_iff {α : Type} {answer : Answer α} {a : α} :
    answer.value? = some a ↔ answer = .value a := by
  cases answer <;> simp [Answer.value?]

theorem Answer.value?_eq_none {α : Type} {answer : Answer α}
    (h : ∀ a, answer = .value a → False) : answer.value? = none := by
  cases answer with
  | value a => exact (h a rfl).elim
  | ended => rfl
  | pending => rfl

namespace Machine

variable {α β : Type} {m : Machine α} {history : List Feeds} {last : Option α}

/-- **A stream in the course of a history**: `m.Reached history s last` says that `s` can be its
state by now, and `last` the last value that it has given. -/
inductive Reached (m : Machine α) : List Feeds → m.State → Option α → Prop where
  /-- A stream may be opened at any time. -/
  | opened (history : List Feeds) : Reached m history m.start none
  /-- The feeds may change while it is not polled. -/
  | later {history : List Feeds} {s : m.State} {last : Option α} (feeds : Feeds) :
      Reached m history s last → Reached m (feeds :: history) s last
  /-- It may be polled under the newest feeds. -/
  | polled {feeds : Feeds} {past : List Feeds} {s : m.State} {last : Option α} :
      Reached m (feeds :: past) s last →
        Reached m (feeds :: past) (m.poll feeds s).next
          ((m.poll feeds s).answer.value?.or last)

/-- A stream has given a value in the course of a history. -/
def Emitted (m : Machine α) (history : List Feeds) (a : α) : Prop :=
  ∃ s, m.Reached history s (some a)

/-- A stream has reported its end in the course of a history. -/
def Finished (m : Machine α) (history : List Feeds) (last : Option α) : Prop :=
  ∃ feeds past s, (feeds :: past) <:+ history ∧ m.Reached (feeds :: past) s last
    ∧ (m.poll feeds s).answer = .ended

/-- A stream is pending under the newest feeds of a history and does not ask to be polled
again. -/
def Waits (m : Machine α) (history : List Feeds) (last : Option α) : Prop :=
  ∃ feeds past s, history = feeds :: past ∧ m.Reached (feeds :: past) s last
    ∧ (m.poll feeds s).answer = .pending ∧ (m.poll feeds s).woken = false

/-- **A stream at rest**, with the last value that it has given. -/
def Rests (m : Machine α) (history : List Feeds) (last : Option α) : Prop :=
  m.Finished history last ∨ m.Waits history last

/-- A stream as a part of another one, which lets go of it when it ends. -/
def Part (m : Machine α) (history : List Feeds) : Option m.State → Option α → Prop
  | some s, last => m.Reached history s last
  | none, last => m.Finished history last

/-! ## What a poll makes of a course -/

theorem Reached.of_value {feeds : Feeds} {past : List Feeds} {s : m.State} {a : α}
    (h : m.Reached (feeds :: past) s last) (hp : (m.poll feeds s).answer = .value a) :
    m.Reached (feeds :: past) (m.poll feeds s).next (some a) := by
  have := h.polled
  rwa [hp] at this

theorem Reached.of_pending {feeds : Feeds} {past : List Feeds} {s : m.State}
    (h : m.Reached (feeds :: past) s last) (hp : (m.poll feeds s).answer = .pending) :
    m.Reached (feeds :: past) (m.poll feeds s).next last := by
  have := h.polled
  rwa [hp] at this

theorem Reached.finished {feeds : Feeds} {past : List Feeds} {s : m.State}
    (h : m.Reached (feeds :: past) s last) (hp : (m.poll feeds s).answer = .ended) :
    m.Finished (feeds :: past) last :=
  ⟨feeds, past, s, List.suffix_refl _, h, hp⟩

theorem Reached.waits {feeds : Feeds} {past : List Feeds} {s : m.State}
    (h : m.Reached (feeds :: past) s last) (hp : (m.poll feeds s).answer = .pending)
    (hw : (m.poll feeds s).woken = false) : m.Waits (feeds :: past) last :=
  ⟨feeds, past, s, rfl, h, hp, hw⟩

/-! ## Longer histories -/

theorem Reached.mono {s : m.State} {older : List Feeds} (h : m.Reached older s last)
    (hs : older <:+ history) : m.Reached history s last := by
  obtain ⟨newer, rfl⟩ := hs
  induction newer with
  | nil => exact h
  | cons feeds newer ih => exact .later feeds ih

theorem Emitted.mono {older : List Feeds} {a : α} (h : m.Emitted older a)
    (hs : older <:+ history) : m.Emitted history a := by
  obtain ⟨s, h⟩ := h
  exact ⟨s, h.mono hs⟩

theorem Finished.mono {older : List Feeds} (h : m.Finished older last)
    (hs : older <:+ history) : m.Finished history last := by
  obtain ⟨feeds, past, s, hp, h⟩ := h
  exact ⟨feeds, past, s, hp.trans hs, h⟩

theorem Part.mono {state : Option m.State} {older : List Feeds} (h : m.Part older state last)
    (hs : older <:+ history) : m.Part history state last := by
  cases state with
  | some s => exact Reached.mono h hs
  | none => exact Finished.mono h hs

/-! ## Histories that go on from a moment -/

/-- **A history goes on from a moment**: `older` is what there has been up to that moment and
`newer` is what there has been since. The feeds of the moment are in both. -/
inductive Since : List Feeds → List Feeds → List Feeds → Prop where
  | now (feeds : Feeds) (past : List Feeds) : Since (feeds :: past) [feeds] (feeds :: past)
  | later {older newer history : List Feeds} (feeds : Feeds) :
      Since older newer history → Since older (feeds :: newer) (feeds :: history)

/-- What there has been since ends in the same feeds as the history. -/
theorem Since.head {older newer past : List Feeds} {feeds : Feeds}
    (h : Since older newer (feeds :: past)) : ∃ recent, newer = feeds :: recent := by
  cases h with
  | now => exact ⟨[], rfl⟩
  | later => exact ⟨_, rfl⟩

/-- What there has been since is the newest part of the history. -/
theorem Since.newest {older newer : List Feeds} (h : Since older newer history) :
    ∃ past, history = newer ++ past := by
  induction h with
  | now feeds past => exact ⟨past, rfl⟩
  | later feeds _ ih =>
    obtain ⟨past, rfl⟩ := ih
    exact ⟨past, rfl⟩

theorem Since.mono {older newer longer : List Feeds} (h : Since older newer history)
    (hs : history <:+ longer) : ∃ since, Since older since longer ∧ newer <:+ since := by
  obtain ⟨recent, rfl⟩ := hs
  induction recent with
  | nil => exact ⟨newer, h, List.suffix_refl _⟩
  | cons feeds recent ih =>
    obtain ⟨since, h, hs⟩ := ih
    exact ⟨feeds :: since, .later feeds h, hs.trans (List.suffix_cons _ _)⟩

/-- A stream does not depend on what there was before it was opened. -/
theorem Reached.extend {s : m.State} (h : m.Reached history s last) (past : List Feeds) :
    m.Reached (history ++ past) s last := by
  induction h with
  | opened history => exact .opened _
  | later feeds _ ih => exact .later feeds ih
  | polled _ ih => exact .polled ih

/-- A stream that rests in what there has been since a moment rests in the whole history. -/
theorem Rests.of_since {older newer : List Feeds} (h : m.Rests newer last)
    (hs : Since older newer history) : m.Rests history last := by
  obtain ⟨past, rfl⟩ := hs.newest
  rcases h with ⟨feeds, recent, s, hsuffix, h, hp⟩ | ⟨feeds, recent, s, rfl, h, hp⟩
  · obtain ⟨latest, rfl⟩ := hsuffix
    exact .inl ⟨feeds, recent ++ past, s, ⟨latest, by rw [List.append_assoc]; rfl⟩,
      h.extend past, hp⟩
  · exact .inr ⟨feeds, recent ++ past, s, rfl, h.extend past, hp⟩

/-! ## The values of a course -/

theorem Reached.emitted {s : m.State} {a : α} (h : m.Reached history s (some a)) :
    m.Emitted history a := ⟨s, h⟩

theorem Finished.emitted {a : α} (h : m.Finished history (some a)) : m.Emitted history a := by
  obtain ⟨feeds, past, s, hs, h, _⟩ := h
  exact h.emitted.mono hs

theorem Part.emitted {state : Option m.State} {a : α} (h : m.Part history state (some a)) :
    m.Emitted history a := by
  cases state with
  | some s => exact Reached.emitted h
  | none => exact Finished.emitted h

/-! ## Streams of one part -/

theorem reached_just {a : α} {fresh : (just a).State} (h : (just a).Reached history fresh last) :
    (fresh = true ∧ last = none) ∨ (fresh = false ∧ last = some a) := by
  induction h with
  | opened => exact .inl ⟨rfl, rfl⟩
  | later _ _ ih => exact ih
  | polled _ ih =>
    rcases ih with ⟨rfl, rfl⟩ | ⟨rfl, rfl⟩
    · exact .inr ⟨rfl, rfl⟩
    · exact .inr ⟨rfl, rfl⟩

theorem value?_mapReporting {σ : Type} (p : Polled σ α) (f : α → β × List Event) :
    (p.mapReporting f).answer.value? = p.answer.value?.map fun a => (f a).1 := by
  unfold Polled.mapReporting
  split <;> simp_all [Answer.value?]

theorem reached_mapReporting {f : α → β × List Event} {s : (m.mapReporting f).State}
    {given : Option β} (h : (m.mapReporting f).Reached history s given) :
    ∃ last, m.Reached history s last ∧ given = last.map fun a => (f a).1 := by
  induction h with
  | opened history => exact ⟨none, .opened history, rfl⟩
  | later feeds _ ih =>
    obtain ⟨last, hm, rfl⟩ := ih
    exact ⟨last, .later feeds hm, rfl⟩
  | @polled feeds past s _ _ ih =>
    obtain ⟨last, hm, rfl⟩ := ih
    refine ⟨(m.poll feeds s).answer.value?.or last, ?_, ?_⟩
    · have hnext : ((m.mapReporting f).poll feeds s).next = (m.poll feeds s).next :=
        Polled.next_mapReporting (m.poll feeds s) f
      rw [hnext]
      exact hm.polled
    · show ((m.poll feeds s).mapReporting f).answer.value?.or _ = _
      rw [value?_mapReporting, ← Option.map_or]

/-- Where the results of a function rest, the stream of its arguments does. -/
theorem rests_mapReporting {f : α → β × List Event} {given : Option β}
    (h : (m.mapReporting f).Rests history given) :
    ∃ last, m.Rests history last ∧ given = last.map fun a => (f a).1 := by
  rcases h with ⟨feeds, past, s, hs, h, hp⟩ | ⟨feeds, past, s, rfl, h, hp, hw⟩
  · obtain ⟨last, hm, rfl⟩ := reached_mapReporting h
    refine ⟨last, .inl ⟨feeds, past, s, hs, hm, ?_⟩, rfl⟩
    change ((m.poll feeds s).mapReporting f).answer = .ended at hp
    unfold Polled.mapReporting at hp
    split at hp <;> simp_all
  · obtain ⟨last, hm, rfl⟩ := reached_mapReporting h
    refine ⟨last, .inr ⟨feeds, past, s, rfl, hm, ?_⟩, rfl⟩
    change ((m.poll feeds s).mapReporting f).answer = .pending at hp
    change ((m.poll feeds s).mapReporting f).woken = false at hw
    unfold Polled.mapReporting at hp hw
    split at hp <;> simp_all

theorem emitted_mapReporting {f : α → β × List Event} {b : β}
    (h : (m.mapReporting f).Emitted history b) : ∃ a, m.Emitted history a ∧ b = (f a).1 := by
  obtain ⟨s, h⟩ := h
  obtain ⟨last, hm, hb⟩ := reached_mapReporting h
  obtain ⟨a, rfl, ha⟩ := Option.map_eq_some_iff.1 hb.symm
  exact ⟨a, hm.emitted, ha.symm⟩

/-! ### Streams without repetitions -/

/-- What was let through is what was given last, or the same as that. -/
def LetThrough (same : α → α → Bool) : (passed given : Option α) → Prop
  | none, none => True
  | some a, some b => a = b ∨ same a b = true
  | _, _ => False

/-- A poll of a stream without repetitions keeps the two in step, and where it gives nothing the
stream below rests. -/
theorem poll_distinct (same : α → α → Bool) {feeds : Feeds} {past : List Feeds} (s : m.State)
    (passed : Option α) :
    let p := m.pollDistinct same feeds s passed
    ∀ given, m.Reached (feeds :: past) s given → LetThrough same passed given →
      p.next.2 = p.answer.value?.or passed
        ∧ (∃ given, m.Reached (feeds :: past) p.next.1 given ∧ LetThrough same p.next.2 given)
        ∧ (∀ a, p.answer = .value a → m.Emitted (feeds :: past) a)
        ∧ (p.answer = .ended → ∃ given, m.Finished (feeds :: past) given
            ∧ LetThrough same passed given)
        ∧ (p.answer = .pending → p.woken = false → ∃ given, m.Waits (feeds :: past) given
            ∧ LetThrough same passed given) := by
  fun_induction pollDistinct m same feeds s passed with
  | case1 s p a hp hs ih =>
    intro _ given h hl
    obtain ⟨b, rfl, hb⟩ := (Option.any_eq_true _ _).1 hs
    obtain ⟨hlast, hnext, hval, hend, hpend⟩ := ih (some a) (h.of_value hp) (.inr hb)
    refine ⟨hlast, hnext, hval, hend, fun hans hw => hpend hans ?_⟩
    exact (Bool.or_eq_false_iff.1 hw).2
  | case2 s p a hp hs =>
    intro _ given h hl
    exact ⟨rfl, ⟨some a, h.of_value hp, .inl rfl⟩,
      fun b hb => by cases hb; exact (h.of_value hp).emitted, by rintro ⟨⟩, by rintro ⟨⟩⟩
  | case3 s p hp =>
    intro _ given h hl
    have hnext := h.polled
    rw [hp] at hnext
    exact ⟨rfl, ⟨given, hnext, hl⟩, by rintro _ ⟨⟩, fun _ => ⟨given, h.finished hp, hl⟩,
      by rintro ⟨⟩⟩
  | case4 s p hp =>
    intro _ given h hl
    exact ⟨rfl, ⟨given, h.of_pending hp, hl⟩, by rintro _ ⟨⟩, by rintro ⟨⟩,
      fun _ hw => ⟨given, h.waits hp hw, hl⟩⟩

theorem reached_distinct {same : α → α → Bool} {s : (m.distinct same).State}
    (h : (m.distinct same).Reached history s last) :
    s.2 = last ∧ (∃ given, m.Reached history s.1 given ∧ LetThrough same s.2 given)
      ∧ ∀ a, last = some a → m.Emitted history a := by
  induction h with
  | opened history => exact ⟨rfl, ⟨none, .opened history, trivial⟩, by rintro _ ⟨⟩⟩
  | later feeds _ ih =>
    obtain ⟨hlast, ⟨given, hm, hl⟩, hval⟩ := ih
    exact ⟨hlast, ⟨given, .later feeds hm, hl⟩,
      fun a ha => (hval a ha).mono (List.suffix_cons _ _)⟩
  | @polled feeds past s last _ ih =>
    obtain ⟨rfl, ⟨given, hm, hl⟩, hval⟩ := ih
    obtain ⟨hnext, hm', hval', -, -⟩ := poll_distinct same s.1 s.2 given hm hl
    refine ⟨hnext, hm', fun a ha => ?_⟩
    rcases Option.or_eq_some_iff.1 ha with ha | ⟨-, ha⟩
    · exact hval' a (Answer.value?_eq_some_iff.1 ha)
    · exact hval a ha

/-- Where a stream without repetitions rests, the stream below does, and what that one gave last
is the same as what was let through. -/
theorem rests_distinct {same : α → α → Bool} (h : (m.distinct same).Rests history last) :
    ∃ given, m.Rests history given ∧ LetThrough same last given := by
  rcases h with ⟨feeds, past, s, hs, h, hp⟩ | ⟨feeds, past, s, rfl, h, hp, hw⟩
  · obtain ⟨rfl, ⟨given, hm, hl⟩, -⟩ := reached_distinct h
    obtain ⟨-, -, -, hend, -⟩ := poll_distinct same s.1 s.2 given hm hl
    obtain ⟨given, hf, hl⟩ := hend hp
    exact ⟨given, .inl (hf.mono hs), hl⟩
  · obtain ⟨rfl, ⟨given, hm, hl⟩, -⟩ := reached_distinct h
    obtain ⟨-, -, -, -, hpend⟩ := poll_distinct same s.1 s.2 given hm hl
    obtain ⟨given, hf, hl⟩ := hpend hp hw
    exact ⟨given, .inr hf, hl⟩

theorem emitted_distinct {same : α → α → Bool} {a : α}
    (h : (m.distinct same).Emitted history a) : m.Emitted history a := by
  obtain ⟨s, h⟩ := h
  obtain ⟨-, -, hval⟩ := reached_distinct h
  exact hval a rfl

/-! ### Streams that report an event -/

theorem reached_announced {event : Event} {s : (m.announced event).State}
    (h : (m.announced event).Reached history s last) : m.Reached history s.1 last := by
  induction h with
  | opened history => exact .opened history
  | later feeds _ ih => exact .later feeds ih
  | polled _ ih => exact ih.polled

theorem rests_announced {event : Event} (h : (m.announced event).Rests history last) :
    m.Rests history last := by
  rcases h with ⟨feeds, past, s, hs, h, hp⟩ | ⟨feeds, past, s, rfl, h, hp, hw⟩
  · exact .inl ⟨feeds, past, s.1, hs, reached_announced h, hp⟩
  · exact .inr ⟨feeds, past, s.1, rfl, reached_announced h, hp, hw⟩

theorem emitted_just {a b : α} (h : (just a).Emitted history b) : b = a := by
  obtain ⟨s, h⟩ := h
  rcases reached_just h with ⟨-, hb⟩ | ⟨-, hb⟩
  · cases hb
  · exact Option.some.inj hb

end Machine

end AccessPolicy
