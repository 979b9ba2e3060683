import AccessPolicy.Proofs.Stream.Steady

/-!
# What draining gives

A stream that is drained from time to time gives, each time, some values and perhaps its end. What
it reports on the way, and how often it was polled for it, is another matter: two streams **drain
alike** if they give the same each time, under the same feeds. For steady streams it makes no
difference to ask once too often, and that is all the difference there is between a stream and the
one that a single value opens it with.
-/

namespace AccessPolicy

namespace Machine

open Polled

variable {α β : Type} {m : Machine α} {feeds : Feeds} {s : m.State}

/-- What draining a stream gives and where it leaves the stream, apart from the report. -/
def outcome (m : Machine α) (feeds : Feeds) (s : m.State) : List α × Bool × m.State :=
  ((m.drain feeds s).values, (m.drain feeds s).ended, (m.drain feeds s).state)

/-! ## One poll after another -/

theorem outcome_of_value {a : α} (h : (m.poll feeds s).answer = .value a) :
    m.outcome feeds s = (a :: (m.outcome feeds (m.poll feeds s).next).1,
      (m.outcome feeds (m.poll feeds s).next).2) := by
  conv_lhs => unfold outcome
  fun_cases Machine.drain m feeds s with
  | case1 p b hp =>
    cases hp.symm.trans h
    rfl
  | case2 p hp => cases hp.symm.trans h
  | case3 p hp => cases hp.symm.trans h
  | case4 p hp => cases hp.symm.trans h

theorem outcome_of_ended (h : (m.poll feeds s).answer = .ended) :
    m.outcome feeds s = ([], true, (m.poll feeds s).next) := by
  unfold outcome
  fun_cases Machine.drain m feeds s with
  | case1 p b hp => cases hp.symm.trans h
  | case2 p hp => rfl
  | case3 p hp => cases hp.symm.trans h
  | case4 p hp => cases hp.symm.trans h

theorem outcome_of_atRest (h : (m.poll feeds s).AtRest) :
    m.outcome feeds s = ([], false, (m.poll feeds s).next) := by
  unfold outcome
  fun_cases Machine.drain m feeds s with
  | case1 p b hp => cases hp.symm.trans h.answer
  | case2 p hp => cases hp.symm.trans h.answer
  | case3 p hp hw => cases hw.symm.trans h.woken
  | case4 p hp hw => rfl

theorem outcome_of_idle (h : Idle (m.poll feeds) s) : m.outcome feeds s = ([], false, s) := by
  obtain ⟨log, hidle⟩ := h
  rw [outcome_of_atRest (by rw [hidle]; exact ⟨rfl, rfl⟩), hidle]

/-- **A pending poll makes no difference** to what is to come, be it that the stream asked to be
polled again or that it is idle. -/
theorem Steady.outcome_of_pending (hm : m.Steady) (h : (m.poll feeds s).answer = .pending) :
    m.outcome feeds s = m.outcome feeds (m.poll feeds s).next := by
  conv_lhs => unfold outcome
  fun_cases Machine.drain m feeds s with
  | case1 p b hp => cases hp.symm.trans h
  | case2 p hp => cases hp.symm.trans h
  | case3 p hp hw => rfl
  | case4 p hp hw =>
    exact (outcome_of_idle (hm feeds s ⟨hp, Bool.eq_false_iff.2 hw⟩)).symm

/-- Two states from which a poll comes to the same are drained alike. -/
theorem Steady.outcome_congr (hm : m.Steady) {t : m.State}
    (hanswer : (m.poll feeds s).answer = (m.poll feeds t).answer)
    (hnext : (m.poll feeds s).next = (m.poll feeds t).next) :
    m.outcome feeds s = m.outcome feeds t := by
  cases ht : (m.poll feeds t).answer with
  | value a => rw [outcome_of_value (hanswer.trans ht), outcome_of_value ht, hnext]
  | ended => rw [outcome_of_ended (hanswer.trans ht), outcome_of_ended ht, hnext]
  | pending =>
    rw [hm.outcome_of_pending (hanswer.trans ht), hm.outcome_of_pending ht, hnext]

/-! ## Time after time -/

/-- What a stream gives that is drained time after time: the values and whether it has ended. -/
def drains (m : Machine α) : m.State → List Feeds → List (List α × Bool)
  | _, [] => []
  | s, feeds :: later =>
    ((m.outcome feeds s).1, (m.outcome feeds s).2.1) :: m.drains (m.outcome feeds s).2.2 later

/-- **Two streams drain alike** if they give the same each time, whatever the feeds are. -/
def DrainsLike (m n : Machine α) : Prop :=
  ∀ times, m.drains m.start times = n.drains n.start times

theorem DrainsLike.trans {n o : Machine α} (h : m.DrainsLike n) (h' : n.DrainsLike o) :
    m.DrainsLike o :=
  fun times => (h times).trans (h' times)

theorem Over.drains (h : m.Over s) (times : List Feeds) :
    m.drains s times = times.map fun _ => ([], true) := by
  induction times with
  | nil => rfl
  | cons feeds later ih =>
    obtain ⟨hanswer, hnext⟩ := h feeds
    rw [Machine.drains, outcome_of_ended hanswer, hnext, ih]
    rfl

/-- A single value is given the first time, together with the end. -/
theorem Gives.drains {a : α} (h : m.Gives a) (feeds : Feeds) (later : List Feeds) :
    m.drains m.start (feeds :: later) = ([a], true) :: later.map fun _ => ([], true) := by
  rw [Machine.drains, outcome_of_value (h.first feeds), outcome_of_ended (h.second feeds feeds)]
  dsimp only
  rw [(h.ended feeds feeds).drains]

theorem Gives.drainsLike {n : Machine α} {a : α} (h : m.Gives a) (h' : n.Gives a) :
    m.DrainsLike n := by
  intro times
  cases times with
  | nil => rfl
  | cons feeds later => rw [h.drains, h'.drains]

/-! ## Without repetitions -/

section Distinct

variable (same : α → α → Bool)

/-- The values that do not repeat the one let through before them, and the last one let through. -/
def unrepeated : Option α → List α → List α × Option α
  | last, [] => ([], last)
  | last, a :: as =>
    if last.any (same · a) then unrepeated last as
    else (a :: (unrepeated (some a) as).1, (unrepeated (some a) as).2)

/-- To drop the repetitions once more drops nothing. -/
theorem unrepeated_unrepeated (last : Option α) (as : List α) :
    unrepeated same last (unrepeated same last as).1 = unrepeated same last as := by
  fun_induction unrepeated same last as with
  | case1 last => rfl
  | case2 last a as h ih => exact ih
  | case3 last a as h ih =>
    rw [unrepeated, if_neg h, ih]

theorem pollDistinct_of_new {last : Option α} {a : α} (h : (m.poll feeds s).answer = .value a)
    (hnew : ¬ last.any (same · a) = true) :
    m.pollDistinct same feeds s last = ⟨.value a, ((m.poll feeds s).next, some a),
      (m.poll feeds s).woken, (m.poll feeds s).log⟩ := by
  fun_cases pollDistinct m same feeds s last with
  | case1 p b hp hs =>
    cases hp.symm.trans h
    exact absurd hs hnew
  | case2 p b hp hs =>
    cases hp.symm.trans h
    rfl
  | case3 p hp => cases hp.symm.trans h
  | case4 p hp => cases hp.symm.trans h

theorem pollDistinct_of_same {last : Option α} {a : α} (h : (m.poll feeds s).answer = .value a)
    (hsame : last.any (same · a) = true) :
    m.pollDistinct same feeds s last = (m.pollDistinct same feeds (m.poll feeds s).next last).after
      (m.poll feeds s).woken (m.poll feeds s).log := by
  fun_cases pollDistinct m same feeds s last with
  | case1 p b hp hs => rfl
  | case2 p b hp hs =>
    cases hp.symm.trans h
    exact absurd hsame hs
  | case3 p hp => cases hp.symm.trans h
  | case4 p hp => cases hp.symm.trans h

theorem pollDistinct_of_pending {last : Option α} (h : (m.poll feeds s).answer = .pending) :
    m.pollDistinct same feeds s last = ⟨.pending, ((m.poll feeds s).next, last),
      (m.poll feeds s).woken, (m.poll feeds s).log⟩ := by
  fun_cases pollDistinct m same feeds s last with
  | case1 p b hp hs => cases hp.symm.trans h
  | case2 p b hp hs => cases hp.symm.trans h
  | case3 p hp => cases hp.symm.trans h
  | case4 p hp => rfl

/-- **Draining without repetitions** gives what draining gives, without the repetitions. -/
theorem Steady.outcome_distinct (hm : m.Steady) (feeds : Feeds) (s : m.State) (last : Option α) :
    (m.distinct same).outcome feeds (s, last)
      = ((unrepeated same last (m.outcome feeds s).1).1, (m.outcome feeds s).2.1,
        ((m.outcome feeds s).2.2, (unrepeated same last (m.outcome feeds s).1).2)) := by
  have hd := hm.distinct same
  -- by the descent of the stream below
  induction s using (m.descent feeds).wf.induction generalizing last with
  | _ s ih =>
    let p := m.poll feeds s
    cases ha : p.answer with
    | value a =>
      have hbelow := (m.respects feeds s).advances (.inl ⟨a, ha⟩)
      rw [outcome_of_value ha]
      by_cases hsame : last.any (same · a) = true
      · have hpoll : (m.distinct same).poll feeds (s, last)
            = ((m.distinct same).poll feeds (p.next, last)).after p.woken p.log :=
          pollDistinct_of_same same ha hsame
        have hcongr : (m.distinct same).outcome feeds (s, last)
            = (m.distinct same).outcome feeds (p.next, last) :=
          hd.outcome_congr (by rw [hpoll]; rfl) (by rw [hpoll]; rfl)
        rw [hcongr, ih _ hbelow]
        dsimp only
        rw [unrepeated, if_pos hsame]
      · have hpoll : (m.distinct same).poll feeds (s, last)
            = ⟨.value a, (p.next, some a), p.woken, p.log⟩ := pollDistinct_of_new same ha hsame
        rw [outcome_of_value (congrArg Polled.answer hpoll), hpoll]
        dsimp only
        rw [ih _ hbelow, unrepeated, if_neg hsame]
        rfl
    | ended =>
      have hended : ((m.distinct same).poll feeds (s, last)).answer = .ended
          ∧ ((m.distinct same).poll feeds (s, last)).next = (p.next, last) :=
        pollDistinct_of_ended ha
      rw [outcome_of_ended ha, outcome_of_ended hended.1, hended.2]
      rfl
    | pending =>
      have hpoll : (m.distinct same).poll feeds (s, last)
          = ⟨.pending, (p.next, last), p.woken, p.log⟩ := pollDistinct_of_pending same ha
      rw [hm.outcome_of_pending ha, hd.outcome_of_pending (congrArg Polled.answer hpoll), hpoll]
      by_cases hw : p.woken = true
      · exact ih _ ((m.respects feeds s).advances (.inr hw)) last
      · have hw : p.woken = false := Bool.eq_false_iff.2 hw
        have hidle := hd feeds (s, last) (by rw [hpoll]; exact ⟨rfl, hw⟩)
        rw [hpoll] at hidle
        rw [outcome_of_idle (hm feeds s ⟨ha, hw⟩), outcome_of_idle hidle]
        rfl

/-- What is given time after time, without the repetitions. -/
def unrepeatedAll : Option α → List (List α × Bool) → List (List α × Bool)
  | _, [] => []
  | last, (values, ended) :: later =>
    ((unrepeated same last values).1, ended)
      :: unrepeatedAll (unrepeated same last values).2 later

theorem unrepeatedAll_unrepeatedAll (last : Option α) (given : List (List α × Bool)) :
    unrepeatedAll same last (unrepeatedAll same last given) = unrepeatedAll same last given := by
  induction given generalizing last with
  | nil => rfl
  | cons first later ih =>
    rw [unrepeatedAll, unrepeatedAll, unrepeated_unrepeated, ih]

theorem Steady.drains_distinct (hm : m.Steady) (s : m.State) (last : Option α)
    (times : List Feeds) :
    (m.distinct same).drains (s, last) times = unrepeatedAll same last (m.drains s times) := by
  induction times generalizing s last with
  | nil => rfl
  | cons feeds later ih =>
    simp only [Machine.drains, hm.outcome_distinct, ih, unrepeatedAll]

/-- From its start. -/
theorem Steady.drains_distinct_start (hm : m.Steady) (times : List Feeds) :
    (m.distinct same).drains (m.distinct same).start times
      = unrepeatedAll same none (m.drains m.start times) :=
  hm.drains_distinct same m.start none times

/-- Streams that drain alike still do so without repetitions. -/
theorem DrainsLike.distinct {n : Machine α} (h : m.DrainsLike n) (hm : m.Steady) (hn : n.Steady) :
    (m.distinct same).DrainsLike (n.distinct same) := by
  intro times
  rw [hm.drains_distinct_start, hn.drains_distinct_start, h times]

/-- A stream without repetitions is not changed by dropping them. -/
theorem Steady.drainsLike_distinct (hm : m.Steady) :
    ((m.distinct same).distinct same).DrainsLike (m.distinct same) := by
  intro times
  rw [(hm.distinct same).drains_distinct_start, hm.drains_distinct_start,
    unrepeatedAll_unrepeatedAll]

end Distinct

/-! ## Opened by a single value -/

/-- A stream is fused if it is over once it has ended. -/
def Fused (m : Machine α) : Prop :=
  ∀ feeds s, (m.poll feeds s).answer = .ended → m.Over (m.poll feeds s).next

theorem fused_just (a : α) : (just a).Fused := by
  intro feeds fresh h
  cases fresh with
  | true => cases h
  | false => exact fun _ => ⟨rfl, rfl⟩

theorem Fused.over_outcome (hm : m.Fused) (h : (m.outcome feeds s).2.1 = true) :
    m.Over (m.outcome feeds s).2.2 := by
  change (m.drain feeds s).ended = true at h
  show m.Over (m.drain feeds s).state
  fun_induction Machine.drain m feeds s with
  | case1 s p a ha rest ih => exact ih h
  | case2 s p ha => exact hm feeds s ha
  | case3 s p ha hw rest ih => exact ih h
  | case4 => cases h

theorem Fused.distinct (hm : m.Fused) (same : α → α → Bool) : (m.distinct same).Fused := by
  rintro feeds ⟨s, last⟩ h
  change (m.pollDistinct same feeds s last).answer = .ended at h
  show (m.distinct same).Over (m.pollDistinct same feeds s last).next
  fun_induction pollDistinct m same feeds s last with
  | case1 s p a ha hsame ih => exact ih h
  | case2 => cases h
  | case3 s p hp =>
    intro feeds'
    obtain ⟨hanswer, hnext⟩ := hm feeds s hp feeds'
    refine ⟨(pollDistinct_of_ended hanswer).1, (pollDistinct_of_ended hanswer).2.trans ?_⟩
    rw [hnext]
  | case4 => cases h

/-- A switching stream that reports its end keeps nothing of its parts. -/
theorem next_pollSwitch_of_ended {f : α → Machine β} {s : SwitchState m f}
    (h : (m.pollSwitch f feeds s).answer = .ended) :
    (m.pollSwitch f feeds s).next = (none, none) := by
  fun_induction pollSwitch m f feeds s with
  | case1 => cases h
  | case2 s p q _ _ ih => exact ih h
  | case3 s p q hnone =>
    obtain ⟨houter, hinner⟩ := Bool.and_eq_true_iff.1 hnone
    exact Prod.ext (Option.isNone_iff_eq_none.1 houter) (Option.isNone_iff_eq_none.1 hinner)
  | case4 => cases h

theorem fused_switchMap (m : Machine α) (f : α → Machine β) : (m.switchMap f).Fused := by
  intro feeds s h
  show (m.switchMap f).Over (m.pollSwitch f feeds s).next
  rw [next_pollSwitch_of_ended h]
  exact over_switchMap m f

section Switch

variable {f : α → Machine β} {a : α}

/-- The outer part of a switched stream has ended, or it is about to say so. -/
def Spent (m : Machine α) (feeds : Feeds) (outer : Option m.State) : Prop :=
  ∀ s, outer = some s → (m.poll feeds s).answer = .ended

/-- A poll of the inner stream alone reports the end exactly if there is nothing left of it. -/
theorem pollInner_ended_iff (inner : Option (InnerState f)) :
    (m.pollInner f feeds (none, inner)).answer = .ended
      ↔ ((m.pollInner f feeds (none, inner)).next.1.isNone
        && (m.pollInner f feeds (none, inner)).next.2.isNone) = true := by
  cases inner with
  | none => exact iff_of_true rfl rfl
  | some i =>
    simp only [pollInner]
    split
    · exact iff_of_false (by rintro ⟨⟩) (by rintro ⟨⟩)
    · exact iff_of_true rfl rfl
    · exact iff_of_false (by rintro ⟨⟩) (by rintro ⟨⟩)

/-- With the outer stream at its end, a poll is one of the inner stream. -/
theorem pollSwitch_of_spent {outer : Option m.State} (h : m.Spent feeds outer)
    (inner : Option (InnerState f)) :
    (m.pollSwitch f feeds (outer, inner)).answer = (m.pollInner f feeds (none, inner)).answer
      ∧ (m.pollSwitch f feeds (outer, inner)).next = (m.pollInner f feeds (none, inner)).next := by
  obtain ⟨woken, log, houter⟩ : ∃ woken log, m.pollOuter f feeds (outer, inner)
      = ⟨.ended, (none, inner), woken, log⟩ := by
    cases outer with
    | none => exact ⟨false, [], rfl⟩
    | some s =>
      exact ⟨(m.poll feeds s).woken, (m.poll feeds s).log, by simp only [pollOuter, h s rfl]⟩
  have hround : m.finishRound f feeds (m.pollOuter f feeds (outer, inner))
      = (m.pollInner f feeds (none, inner)).after woken log := by rw [finishRound, houter]
  have hended : (m.pollInner f feeds (none, inner)).answer = .ended ↔ _ :=
    m.pollInner_ended_iff inner
  fun_cases pollSwitch m f feeds (outer, inner) with
  | case1 p q b hb =>
    simp only [q, p, hround] at hb ⊢
    exact ⟨hb.symm, rfl⟩
  | case2 p q hp =>
    simp only [p, houter] at hp
    cases hp
  | case3 p q hnone =>
    simp only [q, p, hround] at hnone ⊢
    exact ⟨(hended.2 hnone).symm, rfl⟩
  | case4 p q hleft hvalue =>
    simp only [q, p, hround] at hleft hvalue ⊢
    refine ⟨?_, rfl⟩
    cases ha : (m.pollInner f feeds (none, inner)).answer with
    | value b => exact absurd ha (hvalue b)
    | ended => exact absurd (hended.1 ha) hleft
    | pending => rfl

/-- What draining an inner stream gives, as what the stream that follows it gives. -/
def relay (m : Machine α) (f : α → Machine β) (a : α) (r : List β × Bool × (f a).State) :
    List β × Bool × SwitchState m f :=
  (r.1, r.2.1, (none, if r.2.1 then none else some ⟨a, r.2.2⟩))

/-- With the outer stream at its end, draining is draining the inner stream. -/
theorem Steady.outcome_of_spent (hm : m.Steady) (hf : ∀ a, (f a).Steady)
    {outer : Option m.State} (h : m.Spent feeds outer) (t : (f a).State) :
    (m.switchMap f).outcome feeds (outer, some ⟨a, t⟩) = relay m f a ((f a).outcome feeds t) := by
  have hs := hm.switchMap hf
  -- by the descent of the inner stream
  induction t using ((f a).descent feeds).wf.induction generalizing outer with
  | _ t ih =>
    let p := (f a).poll feeds t
    have hspent : m.Spent feeds none := by rintro s ⟨⟩
    obtain ⟨hanswer, hnext⟩ : ((m.switchMap f).poll feeds (outer, some ⟨a, t⟩)).answer = _
        ∧ ((m.switchMap f).poll feeds (outer, some ⟨a, t⟩)).next = _ :=
      pollSwitch_of_spent h (some ⟨a, t⟩)
    cases ha : p.answer with
    | value b =>
      simp only [pollInner, p, ha] at hanswer hnext
      rw [outcome_of_value hanswer, hnext, outcome_of_value ha,
        ih _ (((f a).respects feeds t).advances (.inl ⟨b, ha⟩)) hspent]
      rfl
    | ended =>
      simp only [pollInner, p, ha] at hanswer hnext
      rw [outcome_of_ended hanswer, hnext, outcome_of_ended ha]
      rfl
    | pending =>
      simp only [pollInner, p, ha] at hanswer hnext
      rw [hs.outcome_of_pending hanswer, hnext, (hf a).outcome_of_pending ha]
      by_cases hw : p.woken = true
      · exact ih _ (((f a).respects feeds t).advances (.inr hw)) hspent
      · have hidle := hf a feeds t ⟨ha, Bool.eq_false_iff.2 hw⟩
        have hcalm : Calm m f feeds (none, some ⟨a, p.next⟩) :=
          ⟨by rintro s ⟨⟩, by rintro i ⟨⟩; exact hidle⟩
        have hidle' : Idle ((m.switchMap f).poll feeds) (none, some ⟨a, p.next⟩) :=
          hcalm.idle (by rintro ⟨⟩)
        rw [outcome_of_idle hidle]
        exact outcome_of_idle hidle'

/-- A poll that opens a stream which gives no value at once goes on with another round. -/
theorem pollSwitch_of_silent {s : m.State} {inner : Option (InnerState f)} {woken : Bool}
    {log : List Event} {answer : Answer β} (h : (m.poll feeds s).answer = .value a)
    (hinner : m.pollInner f feeds (some (m.poll feeds s).next, some ⟨a, (f a).start⟩)
      = ⟨answer, (some (m.poll feeds s).next, inner), woken, log⟩)
    (hsilent : ∀ b, answer ≠ .value b) :
    (m.pollSwitch f feeds (some s, none)).answer
        = (m.pollSwitch f feeds (some (m.poll feeds s).next, inner)).answer
      ∧ (m.pollSwitch f feeds (some s, none)).next
        = (m.pollSwitch f feeds (some (m.poll feeds s).next, inner)).next := by
  have houter : m.pollOuter f feeds (some s, none) = ⟨.value (), (some (m.poll feeds s).next,
      some ⟨a, (f a).start⟩), (m.poll feeds s).woken, (m.poll feeds s).log⟩ := by
    simp only [pollOuter, h]
  fun_cases pollSwitch m f feeds (some s, none) with
  | case1 p q b hb =>
    simp only [q, p, finishRound, houter, hinner] at hb
    exact absurd hb (hsilent b)
  | case2 p q hp hq =>
    simp only [q, p, finishRound, houter, hinner]
    exact ⟨rfl, rfl⟩
  | case3 p q hnone hq hp => exact (hp (by simp only [p, houter])).elim
  | case4 p q hleft hq hp => exact (hp (by simp only [p, houter])).elim

/-- A stream that a single value opens is drained as the one that it opens. -/
theorem Gives.outcome_switchMap (h : m.Gives a) (hm : m.Steady) (hf : ∀ a, (f a).Steady)
    (feeds : Feeds) :
    (m.switchMap f).outcome feeds (m.switchMap f).start
      = relay m f a ((f a).outcome feeds (f a).start) := by
  have hs := hm.switchMap hf
  let o := m.poll feeds m.start
  let p := (f a).poll feeds (f a).start
  have hspent : m.Spent feeds (some o.next) := by
    rintro s ⟨⟩
    exact h.second feeds feeds
  cases ha : p.answer with
  | value b =>
    obtain ⟨hanswer, hnext⟩ : ((m.switchMap f).poll feeds (m.switchMap f).start).answer = _
        ∧ ((m.switchMap f).poll feeds (m.switchMap f).start).next = _ :=
      pollSwitch_first (h.first feeds) ha
    rw [outcome_of_value hanswer, hnext, outcome_of_value ha, hm.outcome_of_spent hf hspent]
    rfl
  | ended =>
    have hinner : m.pollInner f feeds (some o.next, some ⟨a, (f a).start⟩)
        = ⟨.ended, (some o.next, none), p.woken, p.log⟩ := by simp only [pollInner, p, ha]
    obtain ⟨hanswer, hnext⟩ := pollSwitch_of_silent (h.first feeds) hinner (by rintro _ ⟨⟩)
    obtain ⟨hanswer', hnext'⟩ := pollSwitch_of_spent (f := f) hspent none
    rw [outcome_of_ended ha]
    have hended : ((m.switchMap f).poll feeds (m.switchMap f).start).answer = .ended :=
      hanswer.trans hanswer'
    rw [outcome_of_ended hended, show ((m.switchMap f).poll feeds (m.switchMap f).start).next = _
      from hnext.trans hnext']
    rfl
  | pending =>
    have hinner : m.pollInner f feeds (some o.next, some ⟨a, (f a).start⟩)
        = ⟨.pending, (some o.next, some ⟨a, p.next⟩), p.woken, p.log⟩ := by
      simp only [pollInner, p, ha]
    obtain ⟨hanswer, hnext⟩ := pollSwitch_of_silent (h.first feeds) hinner (by rintro _ ⟨⟩)
    have hcongr : (m.switchMap f).outcome feeds (m.switchMap f).start
        = (m.switchMap f).outcome feeds (some o.next, some ⟨a, p.next⟩) :=
      hs.outcome_congr hanswer hnext
    rw [hcongr, hm.outcome_of_spent hf hspent, (hf a).outcome_of_pending ha]

/-- Where a drain leaves the stream that follows an inner one, the two go on alike. -/
theorem drains_relay (hfused : (f a).Fused) {feeds : Feeds} {t : (f a).State} {later : List Feeds}
    (ih : ∀ t, (m.switchMap f).drains (none, some ⟨a, t⟩) later = (f a).drains t later) :
    (m.switchMap f).drains (relay m f a ((f a).outcome feeds t)).2.2 later
      = (f a).drains ((f a).outcome feeds t).2.2 later := by
  cases hended : ((f a).outcome feeds t).2.1 with
  | true =>
    have hrelay : (relay m f a ((f a).outcome feeds t)).2.2 = (none, none) := by
      simp only [relay, hended, if_pos]
    rw [hrelay, (over_switchMap m f).drains, (hfused.over_outcome hended).drains]
  | false =>
    have hrelay : (relay m f a ((f a).outcome feeds t)).2.2
        = (none, some ⟨a, ((f a).outcome feeds t).2.2⟩) := by
      simp only [relay, hended, if_neg Bool.false_ne_true]
    rw [hrelay, ih]

/-- With the outer stream at its end, the stream that follows the inner one goes on like it. -/
theorem Steady.drains_of_spent (hm : m.Steady) (hf : ∀ a, (f a).Steady) (hfused : (f a).Fused)
    (t : (f a).State) (times : List Feeds) :
    (m.switchMap f).drains (none, some ⟨a, t⟩) times = (f a).drains t times := by
  induction times generalizing t with
  | nil => rfl
  | cons feeds later ih =>
    have hspent : m.Spent feeds none := by rintro s ⟨⟩
    simp only [Machine.drains, hm.outcome_of_spent hf hspent t]
    rw [drains_relay hfused ih]
    rfl

/-- **A stream that a single value opens** drains like the one that it opens. -/
theorem Gives.drainsLike_switchMap (h : m.Gives a) (hm : m.Steady) (hf : ∀ a, (f a).Steady)
    (hfused : (f a).Fused) : (m.switchMap f).DrainsLike (f a) := by
  intro times
  cases times with
  | nil => rfl
  | cons feeds later =>
    simp only [Machine.drains, h.outcome_switchMap hm hf]
    rw [drains_relay hfused fun t => hm.drains_of_spent hf hfused t later]
    rfl

end Switch

end Machine

end AccessPolicy
