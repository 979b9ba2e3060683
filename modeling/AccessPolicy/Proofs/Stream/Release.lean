import AccessPolicy.Proofs.Stream.Replay

/-!
# What is held at the end

A stream may report its end and yet not be dropped. What it holds open then depends on what the end
does to its state. A combination forgets the streams that it combines, and a switching stream has
neither an outer nor an inner stream left when it ends: both **release** everything, however their
parts behave, and what is built on them by applying functions or by leaving out repetitions does
the same.

The first value of a stream is the exception. `once` ends without asking the stream below again and
without dropping it, so whatever was open when the value came stays open. It **lingers**: up to its
value it is like any other stream, and from then on nothing moves.
-/

namespace AccessPolicy.Machine

open Polled

variable {α β : Type} {m : Machine α} {feeds : Feeds} {s : m.State}

/-! ## Everything is released -/

/-- **A stream releases** at its end everything that it holds, whatever state it ends in. -/
structure Releases (m : Machine α) : Prop where
  fused : m.Fused
  empty : ∀ feeds s, (m.poll feeds s).answer = .ended → m.live (m.poll feeds s).next = []

theorem releases_just (a : α) : (just a).Releases := ⟨fused_just a, fun _ _ _ => rfl⟩

theorem ended_of_mapReporting {f : α → β × List Event}
    (h : ((m.poll feeds s).mapReporting f).answer = .ended) : (m.poll feeds s).answer = .ended := by
  unfold Polled.mapReporting at h
  split at h
  · cases h
  · next hend => exact hend
  · cases h

theorem Releases.mapReporting (h : m.Releases) (f : α → β × List Event) :
    (m.mapReporting f).Releases where
  fused feeds s hend := by
    have hover := h.fused feeds s (ended_of_mapReporting hend)
    rw [← next_mapReporting (m.poll feeds s) f] at hover
    exact hover.mapReporting
  empty feeds s hend := by
    show m.live ((m.poll feeds s).mapReporting f).next = []
    rw [next_mapReporting]
    exact h.empty feeds s (ended_of_mapReporting hend)

theorem Releases.map (h : m.Releases) (f : α → β) : (m.map f).Releases := h.mapReporting _

theorem Releases.distinct (h : m.Releases) (same : α → α → Bool) : (m.distinct same).Releases where
  fused := h.fused.distinct same
  empty := by
    rintro feeds ⟨s, last⟩ hend
    change (m.pollDistinct same feeds s last).answer = .ended at hend
    show m.live (m.pollDistinct same feeds s last).next.1 = []
    fun_induction pollDistinct m same feeds s last with
    | case1 s p a ha hsame ih => exact ih hend
    | case2 => cases hend
    | case3 s p hp => exact h.empty feeds s hp
    | case4 => cases hend

/-- A combination that reports its end keeps nothing of its streams. -/
theorem next_pollCombined_of_ended {ms : List (Machine α)} {s : Option (Slots ms)}
    (h : (pollCombined ms feeds s).answer = .ended) : (pollCombined ms feeds s).next = none := by
  revert h
  fun_cases pollCombined ms feeds s with
  | case1 => exact fun _ => rfl
  | case2 => rintro ⟨⟩
  | case3 slots hempty w hw =>
    unfold report
    split <;> rintro ⟨⟩
  | case4 => exact fun _ => rfl
  | case5 => exact fun _ => rfl
  | case6 => rintro ⟨⟩

/-- **A combination** releases everything, whatever its streams do. -/
theorem releases_combineLatest (ms : List (Machine α)) : (combineLatest ms).Releases where
  fused feeds s hend := by
    show (combineLatest ms).Over (pollCombined ms feeds s).next
    rw [next_pollCombined_of_ended hend]
    exact fun _ => ⟨rfl, rfl⟩
  empty feeds s hend := by
    show (combineLatest ms).live (pollCombined ms feeds s).next = []
    rw [next_pollCombined_of_ended hend]
    rfl

/-- **A switching stream** releases everything, whatever its parts do. -/
theorem releases_switchMap (m : Machine α) (f : α → Machine β) : (m.switchMap f).Releases where
  fused := fused_switchMap m f
  empty feeds s hend := by
    show (m.switchMap f).live (m.pollSwitch f feeds s).next = []
    rw [next_pollSwitch_of_ended hend]
    rfl

/-! ## What was open stays open -/

/-- **A stream lingers** if it releases everything when it ends without a value, and after a value
is over in the state that the value has left. It is fresh until then. -/
structure Lingers (m : Machine α) (fresh : m.State → Prop) : Prop where
  start : fresh m.start
  value : ∀ {feeds s a}, fresh s → (m.poll feeds s).answer = .value a →
    m.Over (m.poll feeds s).next
  ended : ∀ {feeds s}, fresh s → (m.poll feeds s).answer = .ended →
    m.Over (m.poll feeds s).next ∧ m.live (m.poll feeds s).next = []
  pending : ∀ {feeds s}, fresh s → (m.poll feeds s).answer = .pending →
    fresh (m.poll feeds s).next

/-- The first value of a stream, before it has been given. -/
theorem Releases.once (h : m.Releases) : m.once.Lingers fun s => s.2 = true where
  start := rfl
  value := by
    rintro feeds ⟨s, fresh⟩ a rfl ha
    change (m.pollOnce feeds (s, true)).answer = _ at ha
    show m.once.Over (m.pollOnce feeds (s, true)).next
    simp only [pollOnce] at ha ⊢
    split at ha
    · exact fun _ => ⟨rfl, rfl⟩
    · cases ha
    · cases ha
  ended := by
    rintro feeds ⟨s, fresh⟩ rfl hend
    change (m.pollOnce feeds (s, true)).answer = _ at hend
    show m.once.Over (m.pollOnce feeds (s, true)).next
      ∧ m.live (m.pollOnce feeds (s, true)).next.1 = []
    simp only [pollOnce] at hend ⊢
    split at hend
    · cases hend
    · next hp => exact ⟨fun _ => ⟨rfl, rfl⟩, h.empty feeds s hp⟩
    · cases hend
  pending := by
    rintro feeds ⟨s, fresh⟩ rfl hp
    change (m.pollOnce feeds (s, true)).answer = _ at hp
    show (m.pollOnce feeds (s, true)).next.2 = true
    simp only [pollOnce] at hp ⊢
    split at hp
    · cases hp
    · cases hp
    · rfl

theorem Lingers.mapReporting {fresh : m.State → Prop} (h : m.Lingers fresh)
    (f : α → β × List Event) : (m.mapReporting f).Lingers fresh := by
  have hnext : ∀ feeds s, ((m.mapReporting f).poll feeds s).next = (m.poll feeds s).next :=
    fun feeds s => next_mapReporting (m.poll feeds s) f
  refine ⟨h.start, fun {feeds s b} hs hb => ?_, fun {feeds s} hs hend => ?_,
    fun {feeds s} hs hp => ?_⟩
  · change ((m.poll feeds s).mapReporting f).answer = .value b at hb
    rw [hnext]
    unfold Polled.mapReporting at hb
    split at hb
    · next a ha => exact (h.value hs ha).mapReporting
    · cases hb
    · cases hb
  · obtain ⟨hover, hlive⟩ := h.ended hs (ended_of_mapReporting hend)
    rw [hnext]
    exact ⟨hover.mapReporting, hlive⟩
  · change ((m.poll feeds s).mapReporting f).answer = .pending at hp
    rw [hnext]
    unfold Polled.mapReporting at hp
    split at hp
    · cases hp
    · cases hp
    · next ha => exact h.pending hs ha

theorem Lingers.map {fresh : m.State → Prop} (h : m.Lingers fresh) (f : α → β) :
    (m.map f).Lingers fresh := h.mapReporting _

theorem Over.distinct (h : m.Over s) (same : α → α → Bool) (last : Option α) :
    (m.distinct same).Over (s, last) := by
  intro feeds
  obtain ⟨hanswer, hnext⟩ := h feeds
  refine ⟨(pollDistinct_of_ended hanswer).1, (pollDistinct_of_ended hanswer).2.trans ?_⟩
  rw [hnext]

/-- There is nothing for the only value to repeat. -/
theorem Lingers.distinct {fresh : m.State → Prop} (h : m.Lingers fresh) (same : α → α → Bool) :
    (m.distinct same).Lingers fun s => fresh s.1 ∧ s.2 = none := by
  have heq : ∀ feeds s, (m.distinct same).poll feeds (s, none)
      = ⟨(m.poll feeds s).answer, ((m.poll feeds s).next, (m.poll feeds s).answer.value?),
        (m.poll feeds s).woken, (m.poll feeds s).log⟩ := by
    intro feeds s
    refine (pollDistinct_eq same feeds s none).trans ?_
    have hnew : m.repeats same feeds s none = false := by
      unfold repeats
      cases (m.poll feeds s).answer.value? <;> rfl
    rw [hnew, Option.or_none]
    rfl
  refine ⟨⟨h.start, rfl⟩, ?_, ?_, ?_⟩
  · rintro feeds ⟨s, last⟩ a ⟨hs, rfl⟩ ha
    rw [heq] at ha ⊢
    exact (h.value hs ha).distinct same _
  · rintro feeds ⟨s, last⟩ ⟨hs, rfl⟩ hend
    rw [heq] at hend ⊢
    obtain ⟨hover, hlive⟩ := h.ended hs hend
    exact ⟨hover.distinct same _, hlive⟩
  · rintro feeds ⟨s, last⟩ ⟨hs, rfl⟩ hp
    rw [heq] at hp ⊢
    refine ⟨h.pending hs hp, ?_⟩
    show (m.poll feeds s).answer.value? = none
    rw [show (m.poll feeds s).answer = .pending from hp]
    rfl

/-! ## Under a schedule -/

theorem Over.stateAfter (h : m.Over s) (schedule : List Feeds) : m.stateAfter s schedule = s := by
  induction schedule with
  | nil => rfl
  | cons feeds later ih =>
    show m.stateAfter (m.poll feeds s).next later = s
    rw [(h feeds).2, ih]

theorem stateAfter_append (s : m.State) (earlier later : List Feeds) :
    m.stateAfter s (earlier ++ later) = m.stateAfter (m.stateAfter s earlier) later :=
  List.foldl_append

/-- **The end has been reported** at some poll of a schedule. -/
def HasEnded (m : Machine α) (schedule : List Feeds) : Prop :=
  ∃ p ∈ m.shown schedule, p.answer = .ended

/-- **What is held is what the value has left**: a stream gave a value at some poll of a schedule,
and holds now what it held then. -/
def HoldsSinceValue (m : Machine α) (schedule : List Feeds) : Prop :=
  ∃ earlier feeds later a, schedule = earlier ++ feeds :: later
    ∧ (m.poll feeds (m.stateAfter m.start earlier)).answer = .value a
    ∧ m.heldAfter schedule = m.heldAfter (earlier ++ [feeds])

/-- A poll that reported the end stands somewhere in the schedule. -/
theorem exists_of_ended_mem_replay {schedule : List Feeds}
    (h : ∃ p ∈ m.replay s schedule, p.answer = .ended) :
    ∃ earlier feeds later, schedule = earlier ++ feeds :: later
      ∧ (m.poll feeds (m.stateAfter s earlier)).answer = .ended := by
  induction schedule generalizing s with
  | nil =>
    obtain ⟨p, ⟨⟩, -⟩ := h
  | cons feeds later ih =>
    obtain ⟨p, hp, hend⟩ := h
    rcases List.mem_cons.1 hp with rfl | hp
    · exact ⟨[], feeds, later, rfl, hend⟩
    · obtain ⟨earlier, feeds', rest, rfl, hend'⟩ := ih ⟨p, hp, hend⟩
      exact ⟨feeds :: earlier, feeds', rest, rfl, hend'⟩

/-- **A stream that releases** holds nothing once it has reported its end. -/
theorem Releases.heldAfter (h : m.Releases) {schedule : List Feeds} (hend : m.HasEnded schedule) :
    m.heldAfter schedule = [] := by
  obtain ⟨earlier, feeds, later, rfl, hlast⟩ := exists_of_ended_mem_replay hend
  have hover := h.fused _ _ hlast
  unfold Machine.heldAfter
  rw [stateAfter_append]
  show m.live (m.stateAfter (m.poll feeds (m.stateAfter m.start earlier)).next later) = []
  rw [hover.stateAfter]
  exact h.empty _ _ hlast

/-- From a fresh state: nothing is held, or what the value has left. -/
theorem Lingers.live_stateAfter {fresh : m.State → Prop} (h : m.Lingers fresh) (hs : fresh s)
    {schedule : List Feeds} (hend : ∃ p ∈ m.replay s schedule, p.answer = .ended) :
    m.live (m.stateAfter s schedule) = []
      ∨ ∃ earlier feeds later a, schedule = earlier ++ feeds :: later
        ∧ (m.poll feeds (m.stateAfter s earlier)).answer = .value a
        ∧ m.stateAfter s schedule = m.stateAfter s (earlier ++ [feeds]) := by
  induction schedule generalizing s with
  | nil =>
    obtain ⟨p, ⟨⟩, -⟩ := hend
  | cons feeds later ih =>
    have hstate : m.stateAfter s (feeds :: later) = m.stateAfter (m.poll feeds s).next later := rfl
    cases hp : (m.poll feeds s).answer with
    | value a =>
      refine .inr ⟨[], feeds, later, a, rfl, hp, ?_⟩
      rw [hstate, (h.value hs hp).stateAfter]
      rfl
    | ended =>
      obtain ⟨hover, hlive⟩ := h.ended hs hp
      rw [hstate, hover.stateAfter]
      exact .inl hlive
    | pending =>
      have hrest : ∃ p ∈ m.replay (m.poll feeds s).next later, p.answer = .ended := by
        obtain ⟨p, hmem, hended⟩ := hend
        rcases List.mem_cons.1 hmem with rfl | hmem
        · cases hp.symm.trans hended
        · exact ⟨p, hmem, hended⟩
      refine (ih (h.pending hs hp) hrest).imp id ?_
      rintro ⟨earlier, feeds', rest, a, rfl, ha, hsame⟩
      exact ⟨feeds :: earlier, feeds', rest, a, rfl, ha, hsame⟩

/-- **A stream that lingers** holds nothing once it has reported its end, or what its value has
left. -/
theorem Lingers.heldAfter {fresh : m.State → Prop} (h : m.Lingers fresh) {schedule : List Feeds}
    (hend : m.HasEnded schedule) : m.heldAfter schedule = [] ∨ m.HoldsSinceValue schedule := by
  refine (h.live_stateAfter h.start hend).imp id ?_
  rintro ⟨earlier, feeds, later, a, hsplit, ha, hsame⟩
  exact ⟨earlier, feeds, later, a, hsplit, ha, congrArg m.live hsame⟩

/-- A stream that has a value at once: when the end of its first value is reported, what it holds
with that value is still open. -/
theorem heldAfter_once {a : α} (h : (m.poll feeds m.start).answer = .value a) :
    m.once.HasEnded [feeds, feeds]
      ∧ m.once.heldAfter [feeds, feeds] = m.live (m.poll feeds m.start).next := by
  have hnext : (m.pollOnce feeds (m.start, true)).next = ((m.poll feeds m.start).next, false) := by
    rw [pollOnce, h]
  refine ⟨⟨_, List.mem_cons_of_mem _ List.mem_cons_self, ?_⟩, ?_⟩
  · show (m.pollOnce feeds (m.pollOnce feeds (m.start, true)).next).answer = .ended
    rw [hnext]
    rfl
  · show m.live (m.pollOnce feeds (m.pollOnce feeds (m.start, true)).next).next.1 = _
    rw [hnext]
    rfl

end AccessPolicy.Machine
