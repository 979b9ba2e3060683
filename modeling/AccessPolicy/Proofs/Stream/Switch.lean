import AccessPolicy.Proofs.Stream.Course
import AccessPolicy.Stream.Switch

/-!
# The course of a stream that opens streams

At any time a `switchMap` follows the stream that the last value of the outer stream has opened,
and what it gave last is what that one gave last – or, as long as the new inner stream is silent,
what an earlier one did. Hence it rests only where the outer stream rests and the newest inner
stream does, and every value it ever gives is one of an inner stream that a value of the outer
stream has opened – and that has given it since.
-/

namespace AccessPolicy.Machine

variable {α β : Type} {m : Machine α} {f : α → Machine β} {history : List Feeds}

/-- The newest inner stream, which a value has opened and which may have ended. -/
inductive InnerPart (f : α → Machine β) (history : List Feeds) (a : α) :
    Option (InnerState f) → Option β → Prop where
  | running {t : (f a).State} {given : Option β} :
      (f a).Reached history t given → InnerPart f history a (some ⟨a, t⟩) given
  | ended {given : Option β} : (f a).Finished history given → InnerPart f history a none given

/-- **How the parts of a switching stream are doing**, together with what it gave last: either
nothing has been opened yet, or the last value of the outer stream has opened the inner one at
the moment when it was given. -/
inductive Following (m : Machine α) (f : α → Machine β) (history : List Feeds) :
    SwitchState m f → Option β → Prop where
  | silent {outer : Option m.State} :
      m.Part history outer none → Following m f history (outer, none) none
  | opened {outer : Option m.State} {a : α} {inner : Option (InnerState f)}
      {given last : Option β} {older newer : List Feeds} :
      m.Part history outer (some a) → Since older newer history → m.Emitted older a →
        InnerPart f newer a inner given → (∀ b, given = some b → last = some b) →
          Following m f history (outer, inner) last

/-- **A value that is relayed**: the outer stream has given a value, and the inner stream that
it opened has given this one since then. -/
def Relayed (m : Machine α) (f : α → Machine β) (history : List Feeds) (b : β) : Prop :=
  ∃ a older newer, Since older newer history ∧ m.Emitted older a ∧ (f a).Emitted newer b

/-- A switching stream whose parts rest. -/
def SwitchRests (m : Machine α) (f : α → Machine β) (history : List Feeds)
    (last : Option β) : Prop :=
  (m.Rests history none ∧ last = none)
    ∨ ∃ a given, m.Rests history (some a) ∧ (f a).Rests history given
        ∧ ∀ b, given = some b → last = some b

theorem InnerPart.mono {a : α} {inner : Option (InnerState f)} {given : Option β}
    {older : List Feeds} (h : InnerPart f older a inner given) (hs : older <:+ history) :
    InnerPart f history a inner given := by
  cases h with
  | running h => exact .running (h.mono hs)
  | ended h => exact .ended (h.mono hs)

theorem Following.mono {s : SwitchState m f} {last : Option β} {older : List Feeds}
    (h : Following m f older s last) (hs : older <:+ history) :
    Following m f history s last := by
  cases h with
  | silent ho => exact .silent (ho.mono hs)
  | opened ho hsince ha hi hl =>
    obtain ⟨since, hsince, hsuffix⟩ := hsince.mono hs
    exact .opened (ho.mono hs) hsince ha (hi.mono hsuffix) hl

theorem Relayed.mono {b : β} {older : List Feeds} (h : Relayed m f older b)
    (hs : older <:+ history) : Relayed m f history b := by
  obtain ⟨a, _, _, hsince, ha, hb⟩ := h
  obtain ⟨since, hsince, hsuffix⟩ := hsince.mono hs
  exact ⟨a, _, since, hsince, ha, hb.mono hsuffix⟩

/-- With both parts ended, both rest. -/
theorem Following.rests_of_over {last : Option β}
    (h : Following m f history (none, none) last) : SwitchRests m f history last := by
  cases h with
  | silent ho => exact .inl ⟨.inl ho, rfl⟩
  | opened ho hsince _ hi hl =>
    cases hi with
    | ended hi => exact .inr ⟨_, _, .inl ho, Rests.of_since (.inl hi) hsince, hl⟩

/-! ## One round -/

section Round

variable {feeds : Feeds} {past : List Feeds} {s : SwitchState m f} {last : Option β}

theorem Following.pollOuter (h : Following m f (feeds :: past) s last) :
    Following m f (feeds :: past) (m.pollOuter f feeds s).next last := by
  fun_cases Machine.pollOuter m f feeds s with
  | case1 inner => exact h
  | case2 s inner p a hp =>
    -- the new inner stream is silent so far, so the last value stays
    have ho : ∃ given, m.Reached (feeds :: past) s given := by
      cases h with
      | silent ho => exact ⟨_, ho⟩
      | opened ho => exact ⟨_, ho⟩
    obtain ⟨given, ho⟩ := ho
    have ha := ho.of_value hp
    exact .opened ha (.now feeds past) ha.emitted (.running (.opened _)) (by rintro _ ⟨⟩)
  | case3 s inner p hp =>
    cases h with
    | silent ho => exact .silent (Reached.finished ho hp)
    | opened ho hsince ha hi hl => exact .opened (Reached.finished ho hp) hsince ha hi hl
  | case4 s inner p hp =>
    cases h with
    | silent ho => exact .silent (Reached.of_pending ho hp)
    | opened ho hsince ha hi hl => exact .opened (Reached.of_pending ho hp) hsince ha hi hl

theorem Following.pollInner (h : Following m f (feeds :: past) s last) :
    Following m f (feeds :: past) (m.pollInner f feeds s).next
        ((m.pollInner f feeds s).answer.value?.or last)
      ∧ ∀ b, (m.pollInner f feeds s).answer = .value b → Relayed m f (feeds :: past) b := by
  fun_cases Machine.pollInner m f feeds s with
  | case1 outer => exact ⟨h, by rintro _ ⟨⟩⟩
  | case2 outer a t p b hp =>
    cases h with
    | opened ho hsince ha hi hl =>
      obtain ⟨recent, rfl⟩ := hsince.head
      cases hi with
      | running ht =>
        have hb := ht.of_value hp
        refine ⟨.opened ho hsince ha (.running hb) fun c hc => hc, fun c hc => ?_⟩
        cases hc
        exact ⟨a, _, _, hsince, ha, hb.emitted⟩
  | case3 outer a t p hp =>
    cases h with
    | opened ho hsince ha hi hl =>
      obtain ⟨recent, rfl⟩ := hsince.head
      cases hi with
      | running ht =>
        exact ⟨.opened ho hsince ha (.ended (ht.finished hp)) hl, by rintro _ ⟨⟩⟩
  | case4 outer a t p hp =>
    cases h with
    | opened ho hsince ha hi hl =>
      obtain ⟨recent, rfl⟩ := hsince.head
      cases hi with
      | running ht =>
        exact ⟨.opened ho hsince ha (.running (ht.of_pending hp)) hl, by rintro _ ⟨⟩⟩

theorem Following.finishRound (h : Following m f (feeds :: past) s last) :
    let q := m.finishRound f feeds (m.pollOuter f feeds s)
    Following m f (feeds :: past) q.next (q.answer.value?.or last)
      ∧ ∀ b, q.answer = .value b → Relayed m f (feeds :: past) b :=
  h.pollOuter.pollInner

/-- An outer stream that gives nothing and wakes nobody rests. -/
theorem Part.rests_of_pollOuter {opener : Option α} (h : m.Part (feeds :: past) s.1 opener)
    (ha : (m.pollOuter f feeds s).answer ≠ .value ())
    (hw : (m.pollOuter f feeds s).woken = false) :
    m.Rests (feeds :: past) opener ∧ (m.pollOuter f feeds s).next.2 = s.2 := by
  obtain ⟨outer, inner⟩ := s
  cases outer with
  | none => exact ⟨.inl h, rfl⟩
  | some s =>
    cases hp : (m.poll feeds s).answer with
    | value a => simp [Machine.pollOuter, hp] at ha
    | ended => exact ⟨.inl (Reached.finished h hp), by simp [Machine.pollOuter, hp]⟩
    | pending =>
      simp only [Machine.pollOuter, hp] at hw ⊢
      exact ⟨.inr (Reached.waits h hp hw), trivial⟩

/-- An inner stream that gives nothing and wakes nobody rests. -/
theorem InnerPart.rests_of_pollInner {a : α} {given : Option β}
    (h : InnerPart f (feeds :: past) a s.2 given)
    (ha : ∀ b, (m.pollInner f feeds s).answer ≠ .value b)
    (hw : (m.pollInner f feeds s).woken = false) : (f a).Rests (feeds :: past) given := by
  obtain ⟨outer, inner⟩ := s
  cases h with
  | ended h => exact .inl h
  | @running t _ h =>
    cases hp : ((f a).poll feeds t).answer with
    | value b => simp [Machine.pollInner, hp] at ha
    | ended => exact .inl (h.finished hp)
    | pending =>
      simp only [Machine.pollInner, hp] at hw
      exact .inr (h.waits hp hw)

/-- A round that gives nothing and wakes nobody leaves both parts at rest. -/
theorem Following.rests_of_round (h : Following m f (feeds :: past) s last)
    (houter : (m.pollOuter f feeds s).answer ≠ .value ())
    (hinner : ∀ b, (m.finishRound f feeds (m.pollOuter f feeds s)).answer ≠ .value b)
    (hwoken : (m.finishRound f feeds (m.pollOuter f feeds s)).woken = false) :
    SwitchRests m f (feeds :: past) last := by
  obtain ⟨hw, hw'⟩ := Bool.or_eq_false_iff.1 hwoken
  cases h with
  | silent ho => exact .inl ⟨(Part.rests_of_pollOuter (f := f) ho houter hw).1, rfl⟩
  | @opened _ _ inner _ _ _ newer ho hsince ha hi hl =>
    obtain ⟨hrest, hsame⟩ := Part.rests_of_pollOuter (f := f) ho houter hw
    obtain ⟨recent, rfl⟩ := hsince.head
    have hi : InnerPart f (feeds :: recent) _ (m.pollOuter f feeds _).next.2 _ :=
      hsame.symm ▸ (show InnerPart f (feeds :: recent) _ (_, inner).2 _ from hi)
    exact .inr ⟨_, _, hrest, (hi.rests_of_pollInner hinner hw').of_since hsince, hl⟩

end Round

/-! ## One poll, and a whole course -/

/-- A poll keeps the parts in step with what is given, and where it gives nothing they rest. -/
theorem poll_switchMap {feeds : Feeds} {past : List Feeds} (s : SwitchState m f) :
    let p := m.pollSwitch f feeds s
    ∀ last, Following m f (feeds :: past) s last →
      Following m f (feeds :: past) p.next (p.answer.value?.or last)
        ∧ (∀ b, p.answer = .value b → Relayed m f (feeds :: past) b)
        ∧ (p.answer = .ended → p.next = (none, none))
        ∧ (p.answer = .pending → p.woken = false → SwitchRests m f (feeds :: past) last) := by
  fun_induction pollSwitch m f feeds s with
  | case1 s p q b hb =>
    intro _ last h
    obtain ⟨hnext, hval⟩ := h.finishRound
    rw [show (m.finishRound f feeds (m.pollOuter f feeds s)).answer = .value b from hb] at hnext
    exact ⟨hnext, fun c hc => hval c (hb.trans hc), by rintro ⟨⟩, by rintro ⟨⟩⟩
  | case2 s p q hp hq ih =>
    intro _ last h
    obtain ⟨hnext, -⟩ := h.finishRound
    rw [Answer.value?_eq_none hq] at hnext
    obtain ⟨hnext, hval, hend, hpend⟩ := ih last hnext
    exact ⟨hnext, hval, hend, fun ha hw => hpend ha (Bool.or_eq_false_iff.1 hw).2⟩
  | case3 s p q hover hq hp =>
    intro _ last h
    obtain ⟨hnext, -⟩ := h.finishRound
    rw [Answer.value?_eq_none hq] at hnext
    refine ⟨hnext, by rintro _ ⟨⟩, fun _ => ?_, by rintro ⟨⟩⟩
    obtain ⟨ho, hi⟩ := Bool.and_eq_true_iff.1 hover
    exact Prod.ext (Option.isNone_iff_eq_none.1 ho) (Option.isNone_iff_eq_none.1 hi)
  | case4 s p q hover hq hp =>
    intro _ last h
    obtain ⟨hnext, -⟩ := h.finishRound
    rw [Answer.value?_eq_none hq] at hnext
    exact ⟨hnext, by rintro _ ⟨⟩, by rintro ⟨⟩, fun _ hw => h.rests_of_round hp hq hw⟩

theorem reached_switchMap {s : (m.switchMap f).State} {last : Option β}
    (h : (m.switchMap f).Reached history s last) :
    Following m f history s last
      ∧ ∀ b, last = some b → Relayed m f history b := by
  induction h with
  | opened history => exact ⟨.silent (.opened history), by rintro _ ⟨⟩⟩
  | later feeds _ ih =>
    obtain ⟨h, hval⟩ := ih
    exact ⟨h.mono (List.suffix_cons _ _), fun b hb => (hval b hb).mono (List.suffix_cons _ _)⟩
  | @polled feeds past s last _ ih =>
    obtain ⟨h, hval⟩ := ih
    obtain ⟨hnext, hval', -, -⟩ := poll_switchMap s last h
    refine ⟨hnext, fun b hb => ?_⟩
    rcases Option.or_eq_some_iff.1 hb with hb | ⟨-, hb⟩
    · exact hval' b (Answer.value?_eq_some_iff.1 hb)
    · exact hval b hb

/-- **A switching stream rests only with its parts**: with an outer stream that has given
nothing, or with an inner stream that the last value of the outer one has opened. -/
theorem rests_switchMap {last : Option β} (h : (m.switchMap f).Rests history last) :
    SwitchRests m f history last := by
  rcases h with ⟨feeds, past, s, hs, h, hp⟩ | ⟨feeds, past, s, rfl, h, hp, hw⟩
  · obtain ⟨h, -⟩ := reached_switchMap h
    obtain ⟨hnext, -, hend, -⟩ := poll_switchMap s last h
    rw [hend hp, show (m.pollSwitch f feeds s).answer = .ended from hp] at hnext
    exact (hnext.mono hs).rests_of_over
  · obtain ⟨h, -⟩ := reached_switchMap h
    obtain ⟨-, -, -, hpend⟩ := poll_switchMap s last h
    exact hpend hp hw

/-- **Nothing is given that no part has given**, first the outer stream and then the inner
one. -/
theorem emitted_switchMap {b : β} (h : (m.switchMap f).Emitted history b) :
    ∃ a older newer, Since older newer history ∧ m.Emitted older a ∧ (f a).Emitted newer b := by
  obtain ⟨s, h⟩ := h
  exact (reached_switchMap h).2 b rfl

end AccessPolicy.Machine
