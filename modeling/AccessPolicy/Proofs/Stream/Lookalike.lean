import AccessPolicy.Proofs.Stream.Replay

/-!
# Streams that look the same

Two streams may share a part and do different things with its values. Whether the difference shows
depends on the values: a stream that switches on a decided value to a constant looks the same
whatever it would have switched to on another one.

So two polls are compared by the values that the common part gives in them. As long as these are of
a kind for which both streams go on with the same inner stream, and that stream is silent, the polls
are **alike**: the answers, the wake-ups and the reports are the same, and nothing is reported but
what the polls of the part report.
-/

namespace AccessPolicy

variable {α β : Type}

/-! ## Two streams that look the same -/

/-- **Two polls look alike**, they report what they should, and they leave related states. -/
structure Polled.Alike {σ τ : Type} (R : σ → τ → Prop) (report : List Event) (p : Polled σ β)
    (q : Polled τ β) : Prop where
  seen : p.seen = q.seen
  log : p.log = report
  next : R p.next q.next

namespace Polled

variable {σ τ : Type} {R : σ → τ → Prop} {report : List Event} {p : Polled σ β} {q : Polled τ β}

theorem Alike.answer (h : Alike R report p q) : p.answer = q.answer := congrArg Polled.answer h.seen

theorem Alike.woken (h : Alike R report p q) : p.woken = q.woken := congrArg Polled.woken h.seen

theorem Alike.logs (h : Alike R report p q) : p.log = q.log := congrArg Polled.log h.seen

theorem Alike.after (h : Alike R report p q) (woken : Bool) (log : List Event) :
    Alike R (log ++ report) (p.after woken log) (q.after woken log) where
  seen := congrArg (Polled.after · woken log) h.seen
  log := congrArg (log ++ ·) h.log
  next := h.next

end Polled

namespace Machine

variable {n : Machine α} {m m' : Machine β}

/-- **Two streams look the same by a part** that they share: as long as its values are of some kind,
their polls look alike and report only what the polls of the part do. -/
def LookSame (c : Conduct m n) (c' : Conduct m' n) (R : m.State → m'.State → Prop)
    (Kind : α → Prop) : Prop :=
  ∀ feeds s t, R s t → (∀ a ∈ valuesOf (c.heard feeds s), Kind a) →
    c.polls feeds s = c'.polls feeds t
      ∧ (m.poll feeds s).Alike R (reportOf (c.heard feeds s)) (m'.poll feeds t)

/-! ### Switching streams -/

/-- A stream is silent if its polls report nothing. -/
def Silent (m : Machine α) : Prop := ∀ feeds s, (m.poll feeds s).log = []

theorem silent_just (a : α) : (just a).Silent := by
  intro feeds fresh
  cases fresh <;> rfl

theorem Silent.reportOf_replayPart (h : n.Silent) (part : Option n.State)
    (schedule : List Feeds) : reportOf (n.replayPart part schedule) = [] := by
  induction schedule generalizing part with
  | nil => rfl
  | cons feeds schedule ih =>
    cases part with
    | none => rfl
    | some s =>
      show (n.poll feeds s).log ++ reportOf (n.replayPart (n.remainder feeds (some s)) schedule) = _
      rw [h feeds s, ih]
      rfl

/-- A constant gives no other value. -/
theorem eq_of_mem_replayPart_just {a b : α} {part : Option (just a).State}
    {schedule : List Feeds} (h : b ∈ valuesOf ((just a).replayPart part schedule)) : b = a := by
  induction schedule generalizing part with
  | nil => cases h
  | cons feeds schedule ih =>
    cases part with
    | none => cases h
    | some fresh =>
      have hcons := valuesOf_append [((just a).poll feeds fresh).seen]
        ((just a).replayPart ((just a).remainder feeds (some fresh)) schedule)
      rcases List.mem_append.1 (hcons ▸ h) with hfirst | hlater
      · cases fresh with
        | true => exact List.mem_singleton.1 hfirst
        | false => cases hfirst
      · exact ih hlater

theorem live_of_eq_just {b : β} (h : m = just b) (s : m.State) : m.live s = [] := by
  subst h
  rfl

section Switching

variable {m : Machine α} {f g : α → Machine β} {feeds : Feeds} {Kind : α → Prop}

/-- The states of two streams that switch on the same outer one, to inner streams that are the same
for the values of some kind. -/
inductive SameInner (m : Machine α) (f g : α → Machine β) (Kind : α → Prop) :
    SwitchState m f → SwitchState m g → Prop where
  | neither (outer : Option m.State) : SameInner m f g Kind (outer, none) (outer, none)
  | both (outer : Option m.State) {a : α} {t : (f a).State} {t' : (g a).State} :
      Kind a → HEq t t' → SameInner m f g Kind (outer, some ⟨a, t⟩) (outer, some ⟨a, t'⟩)

/-- The poll of an inner stream is seen as it is. -/
theorem seen_pollInner (outer : Option m.State) {a : α} (t : (f a).State) :
    (m.pollInner f feeds (outer, some ⟨a, t⟩)).seen = ((f a).poll feeds t).seen := by
  generalize hs : ((outer, some ⟨a, t⟩) : SwitchState m f) = s
  fun_cases Machine.pollInner m f feeds s with
  | case1 => cases hs
  | case2 outer a t p b hp =>
    cases hs
    exact congrArg (Polled.mk · () p.woken p.log) hp.symm
  | case3 outer a t p hp =>
    cases hs
    exact congrArg (Polled.mk · () p.woken p.log) hp.symm
  | case4 outer a t p hp =>
    cases hs
    exact congrArg (Polled.mk · () p.woken p.log) hp.symm

theorem seen_poll_of_heq {k k' : Machine β} (h : k = k') {t : k.State} {t' : k'.State}
    (ht : HEq t t') : (k.poll feeds t).seen = (k'.poll feeds t').seen := by
  subst h
  rw [eq_of_heq ht]

theorem remainder_of_heq {k k' : Machine β} (h : k = k') {t : k.State} {t' : k'.State}
    (ht : HEq t t') :
    Option.Rel (HEq · ·) (k.remainder feeds (some t)) (k'.remainder feeds (some t')) := by
  subst h
  rw [eq_of_heq ht]
  cases k.remainder feeds (some t') with
  | none => exact .none
  | some next => exact .some .rfl

theorem SameInner.over_eq {s : SwitchState m f} {t : SwitchState m g}
    (h : SameInner m f g Kind s t) :
    (s.1.isNone && s.2.isNone) = (t.1.isNone && t.2.isNone) := by
  cases h <;> rfl

theorem SameInner.of_rel (outer : Option m.State) {a : α} (ha : Kind a)
    {t : Option (f a).State} {t' : Option (g a).State} (h : Option.Rel (HEq · ·) t t') :
    SameInner m f g Kind (outer, t.map (Sigma.mk a)) (outer, t'.map (Sigma.mk a)) := by
  cases h with
  | none => exact .neither outer
  | some ht => exact .both outer ha ht

variable (hsame : ∀ a, Kind a → f a = g a) (hsilent : ∀ a, Kind a → (f a).Silent)
include hsame

/-- The values of the outer stream open the same inner streams. -/
theorem SameInner.alike_pollOuter {s : SwitchState m f} {t : SwitchState m g}
    (h : SameInner m f g Kind s t) (hkind : ∀ a ∈ valuesOf (m.replayPart s.1 [feeds]), Kind a) :
    (m.pollOuter f feeds s).Alike (SameInner m f g Kind) (reportOf (m.replayPart s.1 [feeds]))
      (m.pollOuter g feeds t) := by
  obtain ⟨outer, inner⟩ := s
  obtain ⟨outer', inner'⟩ := t
  obtain rfl : outer = outer' := by cases h <;> rfl
  cases outer with
  | none => exact ⟨rfl, rfl, h⟩
  | some s =>
    have hreport : (m.poll feeds s).log = reportOf (m.replayPart (some s) [feeds]) :=
      (List.append_nil _).symm
    rw [valuesOf_replayPart_one] at hkind
    have hnext : ∀ next, SameInner m f g Kind (next, inner) (next, inner') := by
      intro next
      cases h with
      | neither => exact .neither next
      | both _ ha ht => exact .both next ha ht
    cases hp : (m.poll feeds s).answer with
    | value a =>
      have ha : Kind a := hkind a (by rw [hp]; exact List.mem_singleton_self a)
      have hstart : HEq (f a).start (g a).start := by rw [hsame a ha]
      simp only [Machine.pollOuter, hp]
      exact ⟨rfl, hreport, .both _ ha hstart⟩
    | ended =>
      simp only [Machine.pollOuter, hp]
      exact ⟨rfl, hreport, hnext none⟩
    | pending =>
      simp only [Machine.pollOuter, hp]
      exact ⟨rfl, hreport, hnext (some (m.poll feeds s).next)⟩

include hsilent

/-- The same inner streams are polled alike. -/
theorem SameInner.alike_pollInner {s : SwitchState m f} {t : SwitchState m g}
    (h : SameInner m f g Kind s t) :
    (m.pollInner f feeds s).Alike (SameInner m f g Kind) [] (m.pollInner g feeds t) := by
  cases h with
  | neither outer => exact ⟨rfl, rfl, .neither outer⟩
  | @both outer a t t' ha ht =>
    have hseen : (m.pollInner f feeds (outer, some ⟨a, t⟩)).seen = ((f a).poll feeds t).seen :=
      seen_pollInner outer t
    refine ⟨?_, ?_, ?_⟩
    · rw [hseen, seen_pollInner, seen_poll_of_heq (hsame a ha) ht]
    · exact (congrArg Polled.log hseen).trans (hsilent a ha feeds t)
    · rw [next_pollInner, next_pollInner]
      exact .of_rel outer ha (remainder_of_heq (hsame a ha) ht)

theorem SameInner.alike_round {s : SwitchState m f} {t : SwitchState m g}
    (h : SameInner m f g Kind s t) (hkind : ∀ a ∈ valuesOf (m.replayPart s.1 [feeds]), Kind a) :
    m.goesOn f feeds s = m.goesOn g feeds t
      ∧ (m.round f feeds s).Alike (SameInner m f g Kind) (reportOf (m.replayPart s.1 [feeds]))
          (m.round g feeds t) := by
  have houter := h.alike_pollOuter hsame hkind
  have hround : (m.round f feeds s).Alike (SameInner m f g Kind)
      (reportOf (m.replayPart s.1 [feeds])) (m.round g feeds t) := by
    have hinner : (m.pollInner f feeds (m.pollOuter f feeds s).next).Alike _ []
        (m.pollInner g feeds (m.pollOuter g feeds t).next) :=
      houter.next.alike_pollInner hsame hsilent
    have hafter := hinner.after (m.pollOuter f feeds s).woken (m.pollOuter f feeds s).log
    rw [List.append_nil, houter.log] at hafter
    unfold round finishRound
    rw [← houter.woken, ← houter.logs, houter.log]
    exact hafter
  refine ⟨?_, hround⟩
  unfold goesOn
  rw [houter.answer, hround.answer]

omit hsame hsilent in
theorem SameInner.alike_closing {p : Polled (SwitchState m f) β} {q : Polled (SwitchState m g) β}
    {report : List Event} (h : p.Alike (SameInner m f g Kind) report q) :
    (m.closing f p).Alike (SameInner m f g Kind) report (m.closing g q) := by
  obtain ⟨answer, next, woken, log⟩ := p
  obtain ⟨answer', next', woken', log'⟩ := q
  obtain rfl : answer = answer' := h.answer
  obtain rfl : woken = woken' := h.woken
  obtain rfl : log = log' := h.logs
  have hover : (next.1.isNone && next.2.isNone) = (next'.1.isNone && next'.2.isNone) :=
    h.next.over_eq
  unfold closing
  cases answer with
  | value b => exact h
  | ended => exact ⟨by simp only [hover, Polled.seen], h.log, h.next⟩
  | pending => exact ⟨by simp only [hover, Polled.seen], h.log, h.next⟩

/-- **Two streams that switch on the same outer one** look the same as long as its values open inner
streams that are the same and silent. -/
theorem lookSame_switchMap :
    LookSame (conductSwitch m f) (conductSwitch m g) (SameInner m f g Kind) Kind := by
  intro feeds (s : SwitchState m f) (t : SwitchState m g) h hkind
  show m.rounds f feeds s = m.rounds g feeds t ∧ (m.pollSwitch f feeds s).Alike _
    (reportOf (m.replayPart s.1 (List.replicate (m.rounds f feeds s) feeds)))
    (m.pollSwitch g feeds t)
  change ∀ a ∈ valuesOf (m.replayPart s.1 (List.replicate (m.rounds f feeds s) feeds)), Kind a
    at hkind
  -- round by round
  fun_induction rounds m f feeds s generalizing t with
  | case1 s hagain ih =>
    rw [replayPart_replicate_add, valuesOf_append] at hkind
    obtain ⟨hfirst, hlater⟩ := List.forall_mem_append.1 hkind
    obtain ⟨hgoes, hround⟩ := h.alike_round hsame hsilent hfirst
    have hpart : m.partAfter s.1 [feeds] = (m.round f feeds s).next.1 := (part_round s).symm
    rw [List.replicate_one, hpart] at hlater
    obtain ⟨hrounds, hrest⟩ := ih _ hround.next hlater
    have hagain' : m.goesOn g feeds t = true := hgoes.symm.trans hagain
    refine ⟨?_, ?_⟩
    · rw [rounds.eq_def m g feeds t, dif_pos hagain', hrounds]
    · rw [m.pollSwitch_eq f feeds s, if_pos hagain, m.pollSwitch_eq g feeds t, if_pos hagain',
        replayPart_replicate_add, reportOf_append, List.replicate_one, hpart, ← hround.woken,
        ← hround.logs, hround.log]
      exact hrest.after _ _
  | case2 s hlast =>
    obtain ⟨hgoes, hround⟩ := h.alike_round hsame hsilent hkind
    have hlast' : ¬ m.goesOn g feeds t = true := fun hagain => hlast (hgoes.trans hagain)
    refine ⟨?_, ?_⟩
    · rw [rounds.eq_def m g feeds t, dif_neg hlast']
    · rw [m.pollSwitch_eq f feeds s, if_neg hlast, m.pollSwitch_eq g feeds t, if_neg hlast']
      exact SameInner.alike_closing hround

end Switching

/-! ### Streams without repetitions -/

variable {c : Conduct m n} {c' : Conduct m' n} {R : m.State → m'.State → Prop} {Kind : α → Prop}

/-- The same polls let the same values through. -/
theorem LookSame.distinct (h : LookSame c c' R Kind) (same : β → β → Bool) :
    LookSame (c.distinct same) (c'.distinct same) (fun s t => R s.1 t.1 ∧ s.2 = t.2) Kind := by
  rintro feeds ⟨s, last⟩ ⟨t, _⟩ ⟨hst, rfl⟩ hkind
  show m.pollsDistinct same feeds (c.polls feeds) s last
      = m'.pollsDistinct same feeds (c'.polls feeds) t last
    ∧ (m.pollDistinct same feeds s last).Alike _ (reportOf (n.replayPart (c.part s)
        (List.replicate (m.pollsDistinct same feeds (c.polls feeds) s last) feeds)))
      (m'.pollDistinct same feeds t last)
  change ∀ a ∈ valuesOf (n.replayPart (c.part s)
    (List.replicate (m.pollsDistinct same feeds (c.polls feeds) s last) feeds)), Kind a at hkind
  have hrepeats : ∀ {s t report}, (m.poll feeds s).Alike R report (m'.poll feeds t) →
      m.repeats same feeds s last = m'.repeats same feeds t last := by
    intro s t report hpoll
    unfold repeats
    rw [hpoll.answer]
  fun_induction pollsDistinct same feeds (c.polls feeds) s last generalizing t with
  | case1 s hagain ih =>
    rw [replayPart_replicate_add, valuesOf_append, ← c.part_next] at hkind
    obtain ⟨hfirst, hlater⟩ := List.forall_mem_append.1 hkind
    obtain ⟨hpolls, hpoll⟩ := h feeds s t hst hfirst
    obtain ⟨hlaterPolls, hrest⟩ := ih _ hpoll.next hlater
    have hagain' : m'.repeats same feeds t last = true := (hrepeats hpoll).symm.trans hagain
    refine ⟨?_, ?_⟩
    · rw [pollsDistinct.eq_def same feeds (c'.polls feeds) t, dif_pos hagain', hpolls, hlaterPolls]
    · rw [pollDistinct_eq same feeds s, if_pos hagain, pollDistinct_eq same feeds t, if_pos hagain',
        replayPart_replicate_add, reportOf_append, ← c.part_next, ← hpoll.woken, ← hpoll.logs,
        hpoll.log]
      exact hrest.after _ _
  | case2 s hlast =>
    obtain ⟨hpolls, hpoll⟩ := h feeds s t hst hkind
    have hlast' : ¬ m'.repeats same feeds t last = true :=
      fun hagain => hlast ((hrepeats hpoll).trans hagain)
    refine ⟨?_, ?_⟩
    · rw [pollsDistinct.eq_def same feeds (c'.polls feeds) t, dif_neg hlast', hpolls]
    · rw [pollDistinct_eq same feeds s, if_neg hlast, pollDistinct_eq same feeds t, if_neg hlast']
      refine ⟨hpoll.seen, hpoll.log, hpoll.next, ?_⟩
      show (m.poll feeds s).answer.value?.or last = (m'.poll feeds t).answer.value?.or last
      rw [hpoll.answer]

/-! ### Under a schedule -/

/-- **Two streams that look the same by a part** give the same under every schedule that makes the
part give values of that kind, and report what the part does. -/
theorem LookSame.replay_eq (h : LookSame c c' R Kind) {s : m.State} {t : m'.State} (hst : R s t)
    (schedule : List Feeds) (hkind : ∀ a ∈ valuesOf (c.said s schedule), Kind a) :
    c.schedule s schedule = c'.schedule t schedule
      ∧ m.replay s schedule = m'.replay t schedule
      ∧ reportOf (m.replay s schedule) = reportOf (c.said s schedule) := by
  induction schedule generalizing s t with
  | nil => exact ⟨rfl, rfl, rfl⟩
  | cons feeds later ih =>
    rw [Conduct.said_cons, valuesOf_append] at hkind
    obtain ⟨hfirst, hlater⟩ := List.forall_mem_append.1 hkind
    obtain ⟨hpolls, hpoll⟩ := h feeds s t hst hfirst
    obtain ⟨hschedule, hreplay, hreport⟩ := ih hpoll.next hlater
    refine ⟨?_, ?_, ?_⟩
    · rw [Conduct.schedule, Conduct.schedule, hpolls, hschedule]
    · rw [replay, replay, hpoll.seen, hreplay]
    · rw [Conduct.said_cons, reportOf_append, ← hreport, ← hpoll.log]
      rfl

end Machine

end AccessPolicy
