import AccessPolicy.Proofs.Stream.Compositional
import AccessPolicy.Stream.Source

/-!
# Streams that stay at rest

Whoever waits for a stream goes by its word: a poll that is pending and wakes nobody says that there
is nothing more to be had until something changes. A stream is **steady** if it means it, so that
asking again changes nothing and is answered in the same way. It is a compositional property, so
that an evaluation is steady if the sources are.
-/

namespace AccessPolicy

open Machine

namespace Polled

variable {σ τ α β : Type}

/-- A poll finds the stream at rest if it is pending and wakes nobody. -/
structure AtRest (p : Polled σ α) : Prop where
  answer : p.answer = .pending
  woken : p.woken = false

/-- A way of polling is idle in a state that it finds at rest and leaves as it is. -/
def Idle (poll : σ → Polled σ α) (s : σ) : Prop := ∃ log, poll s = ⟨.pending, s, false, log⟩

/-- **A way of polling is steady** if it is idle after it has found the stream at rest. -/
def Steady (poll : σ → Polled σ α) : Prop := ∀ s, (poll s).AtRest → Idle poll (poll s).next

end Polled

namespace Machine

open Polled

variable {α β : Type} {m : Machine α}

/-- **A steady stream** is polled steadily, whatever the feeds are. -/
def Steady (m : Machine α) : Prop := ∀ feeds, Polled.Steady (m.poll feeds)

theorem steady_just (a : α) : (just a).Steady := by
  intro feeds fresh h
  cases fresh <;> cases h.answer

theorem atRest_of_mapReporting {σ : Type} {p : Polled σ α} {f : α → β × List Event}
    (h : (p.mapReporting f).AtRest) : p.AtRest := by
  unfold Polled.mapReporting at h
  split at h
  · cases h.answer
  · cases h.answer
  · next hp => exact ⟨hp, h.woken⟩

theorem Steady.mapReporting (h : m.Steady) (f : α → β × List Event) :
    (m.mapReporting f).Steady := by
  intro feeds s hs
  change ((m.poll feeds s).mapReporting f).AtRest at hs
  obtain ⟨log, hidle⟩ := h feeds s (atRest_of_mapReporting hs)
  have hnext : ((m.mapReporting f).poll feeds s).next = (m.poll feeds s).next :=
    next_mapReporting _ f
  rw [hnext]
  refine ⟨log, ?_⟩
  show (m.poll feeds (m.poll feeds s).next).mapReporting f = _
  rw [hidle]
  rfl

/-! ## Several streams side by side -/

theorem Steady.pollSlot (h : m.Steady) (feeds : Feeds) : Polled.Steady (m.pollSlot feeds) := by
  intro slot hs
  fun_cases Machine.pollSlot m feeds slot with
  | case1 latest => exact ⟨[], rfl⟩
  | case2 s latest p a hp =>
    simp only [Machine.pollSlot, p, hp] at hs
    cases hs.answer
  | case3 s latest p hp hlatest =>
    simp only [Machine.pollSlot, p, hp, if_pos hlatest] at hs
    cases hs.answer
  | case4 s latest p hp hlatest => exact ⟨[], rfl⟩
  | case5 s latest p hp =>
    simp only [Machine.pollSlot, p, hp] at hs
    obtain ⟨log, hidle⟩ := h feeds s ⟨hp, hs.woken⟩
    exact ⟨log, by simp only [Machine.pollSlot, p, hidle]⟩

/-- Two polls side by side find their streams at rest together. -/
theorem atRest_besides {σ τ : Type} {p : Polled σ Unit} {q : Polled τ Unit}
    (hp : p.answer ≠ .ended) (h : (besides p q).AtRest) : p.AtRest ∧ q.AtRest := by
  obtain ⟨hanswer, hwoken⟩ := h
  obtain ⟨hpw, hqw⟩ := Bool.or_eq_false_iff.1 hwoken
  obtain ⟨pa, pn, pw, pl⟩ := p
  obtain ⟨qa, qn, qw, ql⟩ := q
  cases pa with
  | value a => cases qa <;> cases hanswer
  | ended => exact absurd rfl hp
  | pending => exact ⟨⟨rfl, hpw⟩, ⟨hanswer, hqw⟩⟩

theorem steady_sweep {ms : List (Machine α)} (h : ∀ m ∈ ms, m.Steady) (feeds : Feeds) :
    Polled.Steady (sweep feeds ms) := by
  intro slots hs
  fun_induction sweep feeds ms slots with
  | case1 => exact ⟨[], rfl⟩
  | case2 => cases hs.answer
  | case3 m ms slot slots p hp ih =>
    obtain ⟨hm, hms⟩ := List.forall_mem_cons.1 h
    obtain ⟨hslot, hslots⟩ := atRest_besides hp hs
    obtain ⟨log, hidle⟩ := hm.pollSlot feeds slot hslot
    obtain ⟨log', hidle'⟩ := ih hms hslots
    refine ⟨log ++ log', ?_⟩
    show sweep feeds (m :: ms) (p.next, (sweep feeds ms slots).next) = _
    simp only [sweep, p, hidle, hidle']
    rfl

theorem steady_combineLatest {ms : List (Machine α)} (h : ∀ m ∈ ms, m.Steady) :
    (combineLatest ms).Steady := by
  intro feeds s hs
  change (pollCombined ms feeds s).AtRest at hs
  show Idle (pollCombined ms feeds) (pollCombined ms feeds s).next
  fun_cases pollCombined ms feeds s with
  | case1 => simp only [pollCombined] at hs; cases hs.answer
  | case2 slots hempty => simp only [pollCombined, if_pos hempty] at hs; cases hs.answer
  | case3 slots hempty w hw =>
    simp only [pollCombined, if_neg hempty, w, hw, report] at hs
    split at hs
    · cases hs.answer
    · cases hs.woken
  | case4 slots hempty w hw =>
    simp only [pollCombined, if_neg hempty, w, hw] at hs
    cases hs.answer
  | case5 slots hempty w hw hended =>
    simp only [pollCombined, if_neg hempty, w, hw, if_pos hended] at hs
    cases hs.answer
  | case6 slots hempty w hw hended =>
    simp only [pollCombined, if_neg hempty, w, hw, if_neg hended] at hs
    obtain ⟨log, hidle⟩ := steady_sweep h feeds slots ⟨hw, hs.woken⟩
    refine ⟨log, ?_⟩
    simp only [pollCombined, if_neg hempty, w, hidle, if_neg hended]

/-! ## Streams that open streams -/

section Switch

variable {f : α → Machine β} {feeds : Feeds}

/-- The parts of a switched stream are calm if those that are left are idle. -/
structure Calm (m : Machine α) (f : α → Machine β) (feeds : Feeds) (s : SwitchState m f) :
    Prop where
  outer : ∀ t, s.1 = some t → Idle (m.poll feeds) t
  inner : ∀ i, s.2 = some i → Idle ((f i.1).poll feeds) i.2

/-- The outer stream is idle or has ended after a poll that has not switched. -/
theorem Steady.pollOuter (h : m.Steady) (s : SwitchState m f)
    (hw : (m.pollOuter f feeds s).woken = false) (hp : (m.pollOuter f feeds s).answer ≠ .value ()) :
    ∀ t, (m.pollOuter f feeds s).next.1 = some t → Idle (m.poll feeds) t := by
  fun_cases Machine.pollOuter m f feeds s with
  | case1 inner => rintro t ⟨⟩
  | case2 s inner p a ha =>
    simp only [Machine.pollOuter, p, ha] at hp
    exact absurd rfl hp
  | case3 s inner p ha => rintro t ⟨⟩
  | case4 s inner p ha =>
    simp only [Machine.pollOuter, p, ha] at hw
    rintro t ⟨⟩
    exact h feeds s ⟨ha, hw⟩

/-- The inner stream is idle or has ended after a poll that gave no value, and the outer one is left
alone. -/
theorem pollInner_calm (hf : ∀ a, (f a).Steady) (s : SwitchState m f)
    (hw : (m.pollInner f feeds s).woken = false)
    (hp : ∀ b, (m.pollInner f feeds s).answer ≠ .value b) :
    (m.pollInner f feeds s).next.1 = s.1
      ∧ ∀ i, (m.pollInner f feeds s).next.2 = some i → Idle ((f i.1).poll feeds) i.2 := by
  fun_cases Machine.pollInner m f feeds s with
  | case1 outer => exact ⟨rfl, by rintro i ⟨⟩⟩
  | case2 outer a t p b hb =>
    simp only [Machine.pollInner, p, hb] at hp
    exact absurd rfl (hp b)
  | case3 outer a t p hb => exact ⟨rfl, by rintro i ⟨⟩⟩
  | case4 outer a t p hb =>
    simp only [Machine.pollInner, p, hb] at hw
    refine ⟨rfl, ?_⟩
    rintro i ⟨⟩
    exact hf a feeds t ⟨hb, hw⟩

/-- Calm parts are polled without effect. -/
theorem Calm.pollOuter {s : SwitchState m f} (h : Calm m f feeds s) :
    ∃ answer log, m.pollOuter f feeds s = ⟨answer, s, false, log⟩ ∧ answer ≠ .value () := by
  obtain ⟨outer, inner⟩ := s
  cases outer with
  | none => exact ⟨.ended, [], rfl, by rintro ⟨⟩⟩
  | some t =>
    obtain ⟨log, hidle⟩ := h.outer t rfl
    exact ⟨.pending, log, by simp only [Machine.pollOuter, hidle], by rintro ⟨⟩⟩

theorem Calm.pollInner {s : SwitchState m f} (h : Calm m f feeds s) :
    ∃ answer log, m.pollInner f feeds s = ⟨answer, s, false, log⟩ ∧ ∀ b, answer ≠ .value b := by
  obtain ⟨outer, inner⟩ := s
  cases inner with
  | none => exact ⟨.ended, [], rfl, by rintro _ ⟨⟩⟩
  | some i =>
    obtain ⟨log, hidle⟩ := h.inner i rfl
    exact ⟨.pending, log, by simp only [Machine.pollInner, hidle], by rintro _ ⟨⟩⟩

/-- A switched stream is idle while its parts are calm and one of them is left. -/
theorem Calm.idle {s : SwitchState m f} (h : Calm m f feeds s)
    (hleft : ¬ (s.1.isNone && s.2.isNone) = true) : Idle (m.pollSwitch f feeds) s := by
  obtain ⟨answer, log, houter, hanswer⟩ := h.pollOuter
  obtain ⟨answer', log', hinner, hanswer'⟩ := h.pollInner
  have hround : m.finishRound f feeds (m.pollOuter f feeds s)
      = ⟨answer', s, false, log ++ log'⟩ := by
    rw [finishRound, houter, hinner]
    rfl
  refine ⟨log ++ log', ?_⟩
  unfold pollSwitch
  simp only [hround]
  split
  · next hp =>
    rw [houter] at hp
    exact absurd hp hanswer
  · rw [if_neg hleft]

theorem Steady.switchMap (h : m.Steady) (hf : ∀ a, (f a).Steady) : (m.switchMap f).Steady := by
  intro feeds s hs
  change (m.pollSwitch f feeds s).AtRest at hs
  show Idle (m.pollSwitch f feeds) (m.pollSwitch f feeds s).next
  fun_induction pollSwitch m f feeds s with
  | case1 => cases hs.answer
  | case2 s p q _ _ ih => exact ih ⟨hs.answer, (Bool.or_eq_false_iff.1 hs.woken).2⟩
  | case3 => cases hs.answer
  | case4 s p q hleft hq hp =>
    obtain ⟨hpw, hqw⟩ := Bool.or_eq_false_iff.1 hs.woken
    obtain ⟨hsame, hinner⟩ := pollInner_calm hf p.next hqw hq
    refine Calm.idle ⟨?_, hinner⟩ hleft
    intro t ht
    exact h.pollOuter s hpw hp t (hsame ▸ ht)

end Switch

/-! ## Single streams -/

theorem pollDistinct_of_idle {same : α → α → Bool} {feeds : Feeds} {s : m.State}
    {last : Option α} {log : List Event} (h : m.poll feeds s = ⟨.pending, s, false, log⟩) :
    m.pollDistinct same feeds s last = ⟨.pending, (s, last), false, log⟩ := by
  fun_cases pollDistinct m same feeds s last with
  | case1 p a hp => simp only [p, h] at hp; cases hp
  | case2 p a hp => simp only [p, h] at hp; cases hp
  | case3 p hp => simp only [p, h] at hp; cases hp
  | case4 p hp => simp only [p, h]

theorem Steady.distinct (h : m.Steady) (same : α → α → Bool) : (m.distinct same).Steady := by
  rintro feeds ⟨s, last⟩ hs
  change (m.pollDistinct same feeds s last).AtRest at hs
  show Idle (fun s => m.pollDistinct same feeds s.1 s.2) (m.pollDistinct same feeds s last).next
  fun_induction pollDistinct m same feeds s last with
  | case1 s p a ha hsame ih => exact ih ⟨hs.answer, (Bool.or_eq_false_iff.1 hs.woken).2⟩
  | case2 => cases hs.answer
  | case3 => cases hs.answer
  | case4 s p hp =>
    obtain ⟨log, hidle⟩ := h feeds s ⟨hp, hs.woken⟩
    exact ⟨log, pollDistinct_of_idle hidle⟩

theorem Steady.once (h : m.Steady) : m.once.Steady := by
  intro feeds s hs
  change (m.pollOnce feeds s).AtRest at hs
  show Idle (m.pollOnce feeds) (m.pollOnce feeds s).next
  fun_cases pollOnce m feeds s with
  | case1 s p a hp => simp only [pollOnce, p, hp] at hs; cases hs.answer
  | case2 s p hp => simp only [pollOnce, p, hp] at hs; cases hs.answer
  | case3 s p hp =>
    simp only [pollOnce, p, hp] at hs
    obtain ⟨log, hidle⟩ := h feeds s ⟨hp, hs.woken⟩
    exact ⟨log, by simp only [pollOnce, p, hidle]⟩
  | case4 s => cases hs.answer

theorem Steady.followedBy (h : m.Steady) (last : α) : (m.followedBy last).Steady := by
  intro feeds s hs
  change (m.pollFollowed last feeds s).AtRest at hs
  show Idle (m.pollFollowed last feeds) (m.pollFollowed last feeds s).next
  fun_cases pollFollowed m last feeds s with
  | case1 => cases hs.answer
  | case2 s p a hp => simp only [pollFollowed, p, hp] at hs; cases hs.answer
  | case3 s p hp => simp only [pollFollowed, p, hp] at hs; cases hs.answer
  | case4 s p hp =>
    simp only [pollFollowed, p, hp] at hs
    obtain ⟨log, hidle⟩ := h feeds s ⟨hp, hs.woken⟩
    exact ⟨log, by simp only [pollFollowed, p, hidle]⟩

/-- **Steadiness is compositional.** -/
theorem compositional_steady : Compositional Steady where
  just := steady_just
  mapReporting f _ h := h.mapReporting f
  combine := steady_combineLatest
  switch := Steady.switchMap
  distinct same h := h.distinct same
  once := Steady.once
  first last h := (h.followedBy last).once

/-! ## Sources -/

theorem Steady.announced (h : m.Steady) (event : Event) : (m.announced event).Steady := by
  rintro feeds ⟨s, fresh⟩ hs
  obtain ⟨log, hidle⟩ := h feeds s ⟨hs.answer, hs.woken⟩
  refine ⟨log, ?_⟩
  show m.pollAnnounced event feeds ((m.poll feeds s).next, false) = _
  simp only [pollAnnounced, hidle]
  rfl

end Machine

/-- **A steady supply** keeps its word: while the feeds stay as they are it has nothing to give to
whoever it has turned away without waking. -/
def Supply.Steady (supply : Supply) : Prop := ∀ feeds, Polled.Steady (supply.poll feeds)

theorem Supply.Steady.subscription {supply : Supply} (h : supply.Steady) (source : String) :
    (subscription source supply).Steady := by
  intro feeds state hs
  change (supply.pollGuarded source feeds state).AtRest at hs
  show Polled.Idle (supply.pollGuarded source feeds) (supply.pollGuarded source feeds state).next
  fun_cases Supply.pollGuarded supply source feeds state with
  | case1 => cases hs.answer
  | case2 s p v hp => simp only [Supply.pollGuarded, p, hp] at hs; cases hs.answer
  | case3 s p reason hp => simp only [Supply.pollGuarded, p, hp] at hs; cases hs.answer
  | case4 s p hp => simp only [Supply.pollGuarded, p, hp] at hs; cases hs.answer
  | case5 s p hp =>
    simp only [Supply.pollGuarded, p, hp] at hs
    obtain ⟨log, hidle⟩ := h feeds s ⟨hp, hs.woken⟩
    exact ⟨[], by simp only [Supply.pollGuarded, p, hidle]⟩

/-- A steady source provides nothing but steady supplies. -/
def Source.Steady (source : Source) : Prop :=
  ∀ q supply, source.stream q = .ok supply → supply.Steady

/-- All of the sources are steady. -/
def Sources.Steady (sources : Sources) : Prop :=
  ∀ name source, Dict.get? sources name = some source → source.Steady

theorem Source.Steady.subscribe {source : Source} (h : source.Steady) (name : String) (q : Query) :
    (source.subscribe name q).Steady := by
  unfold Source.subscribe
  split
  · next supply hsupply => exact (h q supply hsupply).subscription name
  · exact steady_just _

/-- Whatever steady sources answer is steady. -/
theorem Sources.Steady.subscribe {sources : Sources} (h : sources.Steady) (name : String)
    (q : Query) : (sources.subscribe name q).Steady := by
  unfold Sources.subscribe
  split
  · exact steady_just _
  · next source hsource => exact ((h name source hsource).subscribe name q).announced _

end AccessPolicy
