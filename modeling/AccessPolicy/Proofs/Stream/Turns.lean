import AccessPolicy.Proofs.Stream.Drain

/-!
# Who is asked before a stream rests

Whoever waits for a stream that is at rest waits for the subscriptions that it holds open, and a
source calls back only those whom it has turned away. If one of them was passed over in the poll, or
gave a value that got stuck on the way, the stream hangs: the source has spoken, and nobody will ask
it again. Steadiness does not exclude this. It is about what a second poll would give, and here no
second poll comes.

So the polls of the sources are followed through a poll of the whole stream. Each subscription that
is open after it has had its **turn** or has missed it. A stream may poll its parts several times,
because it passes over a repetition or switches, and the last time counts. A combination that is
over has no turns to show, and what is kept open after a first value has missed its turn; but
neither of them is at rest then.
-/

namespace AccessPolicy

open Machine Polled

/-! ## Turns -/

/-- A subscription after a poll of it. -/
def Subscription.polled (subscription : Subscription) (feeds : Feeds) : Subscription :=
  { subscription with state := (subscription.poll feeds).next }

/-- How a subscription that is open after a poll has fared in it. -/
inductive Turn where
  /-- It was polled, the last time while it stood as given. -/
  | taken (subscription : Subscription)
  /-- It was not polled. -/
  | missed (subscription : Subscription)

namespace Turn

/-- The subscription as the poll leaves it. -/
def left (feeds : Feeds) : Turn → Subscription
  | taken subscription => subscription.polled feeds
  | missed subscription => subscription

/-- The subscription was polled, and the last time its answer was pending and woke nobody. -/
def Waits (feeds : Feeds) : Turn → Prop
  | taken subscription => (subscription.poll feeds).AtRest
  | missed _ => False

end Turn

/-- What is polled when a stream is polled. -/
inductive Polling where
  | stream {α : Type} (m : Machine α) (s : m.State)
  /-- A part of a stream, which is left out if it has gone. -/
  | part {α : Type} (m : Machine α) (state : Option m.State)
  /-- The parts of a combination, from some place on. -/
  | row {α : Type} (ms : List (Machine α)) (slots : Slots ms)

/-- What a poll leaves of a part. -/
def Machine.remainder {α : Type} (m : Machine α) (feeds : Feeds) : Option m.State → Option m.State
  | none => none
  | some s =>
    match (m.poll feeds s).answer with
    | .ended => none
    | _ => some (m.poll feeds s).next

/-- **The turns of the subscriptions** that are open after something has been polled, in the order
in which it holds them. -/
inductive Turns (feeds : Feeds) : Polling → List Turn → Prop where
  | just {α : Type} (a : α) (s : (just a).State) : Turns feeds (.stream (just a) s) []
  | subscription (source : String) (supply : Supply) (state : Option supply.State) :
      Turns feeds (.stream (subscription source supply) state) [.taken ⟨source, supply, state⟩]
  | announced {α : Type} {m : Machine α} {s : m.State} {turns : List Turn} (event : Event)
      (fresh : Bool) :
      Turns feeds (.stream m s) turns → Turns feeds (.stream (m.announced event) (s, fresh)) turns
  | mapReporting {α β : Type} {m : Machine α} {s : m.State} {turns : List Turn}
      (f : α → β × List Event) :
      Turns feeds (.stream m s) turns → Turns feeds (.stream (m.mapReporting f) s) turns
  | first {α : Type} {m : Machine α} {s : m.State} {turns : List Turn} :
      Turns feeds (.stream m s) turns → Turns feeds (.stream m.once (s, true)) turns
  /-- After the first value nobody is asked, and what was open stays open. -/
  | spent {α : Type} (m : Machine α) (s : m.State) :
      Turns feeds (.stream m.once (s, false)) ((m.live s).map .missed)
  | followedBy {α : Type} {m : Machine α} {state : Option m.State} {turns : List Turn} (last : α) :
      Turns feeds (.part m state) turns → Turns feeds (.stream (m.followedBy last) state) turns
  /-- A value that is passed over: the turns of the next poll count. -/
  | repeated {α : Type} {m : Machine α} {same : α → α → Bool} {s : m.State} {last : Option α}
      {a : α} {turns : List Turn} :
      (m.poll feeds s).answer = .value a → last.any (same · a) = true →
        Turns feeds (.stream (m.distinct same) ((m.poll feeds s).next, last)) turns →
          Turns feeds (.stream (m.distinct same) (s, last)) turns
  | letThrough {α : Type} {m : Machine α} {same : α → α → Bool} {s : m.State} {last : Option α}
      {turns : List Turn} :
      (∀ a, (m.poll feeds s).answer = .value a → ¬ last.any (same · a) = true) →
        Turns feeds (.stream m s) turns →
          Turns feeds (.stream (m.distinct same) (s, last)) turns
  /-- A combination that is over has dropped its parts. -/
  | dropped {α : Type} {ms : List (Machine α)} {state : Option (Slots ms)} :
      (pollCombined ms feeds state).next = none →
        Turns feeds (.stream (combineLatest ms) state) []
  | swept {α : Type} {ms : List (Machine α)} {slots rest : Slots ms} {turns : List Turn} :
      (pollCombined ms feeds (some slots)).next = some rest →
        Turns feeds (.row ms slots) turns →
          Turns feeds (.stream (combineLatest ms) (some slots)) turns
  /-- A round that is followed by another one: the turns of that one count. -/
  | again {α β : Type} {m : Machine α} {f : α → Machine β} {s : SwitchState m f}
      {turns : List Turn} :
      (m.pollOuter f feeds s).answer = .value () →
        (∀ b, (m.finishRound f feeds (m.pollOuter f feeds s)).answer ≠ .value b) →
          Turns feeds (.stream (m.switchMap f)
            (m.finishRound f feeds (m.pollOuter f feeds s)).next) turns →
            Turns feeds (.stream (m.switchMap f) s) turns
  /-- The last round, without an inner stream. -/
  | alone {α β : Type} {m : Machine α} {f : α → Machine β} {s : SwitchState m f}
      {turns : List Turn} :
      (m.pollOuter f feeds s).answer ≠ .value () → (m.pollOuter f feeds s).next.2 = none →
        Turns feeds (.part m s.1) turns → Turns feeds (.stream (m.switchMap f) s) turns
  /-- The last round, with the inner stream that is the newest by then. -/
  | along {α β : Type} {m : Machine α} {f : α → Machine β} {s : SwitchState m f} {a : α}
      {t : (f a).State} {turns turns' : List Turn} :
      ((m.pollOuter f feeds s).answer = .value () →
        ∃ b, (m.finishRound f feeds (m.pollOuter f feeds s)).answer = .value b) →
        (m.pollOuter f feeds s).next.2 = some ⟨a, t⟩ → Turns feeds (.part m s.1) turns →
          Turns feeds (.part (f a) (some t)) turns' →
            Turns feeds (.stream (m.switchMap f) s) (turns ++ turns')
  | gone {α : Type} (m : Machine α) : Turns feeds (.part m none) []
  | ended {α : Type} {m : Machine α} {s : m.State} :
      (m.poll feeds s).answer = .ended → Turns feeds (.part m (some s)) []
  | present {α : Type} {m : Machine α} {s : m.State} {turns : List Turn} :
      (m.poll feeds s).answer ≠ .ended → Turns feeds (.stream m s) turns →
        Turns feeds (.part m (some s)) turns
  | nobody {α : Type} : Turns feeds (.row ([] : List (Machine α)) ()) []
  /-- A part that does not starve the combination, and those after it. -/
  | beside {α : Type} {m : Machine α} {ms : List (Machine α)} {state : Option m.State}
      {latest : Option α} {slots : Slots ms} {turns turns' : List Turn} :
      (m.pollSlot feeds (state, latest)).answer ≠ .ended → Turns feeds (.part m state) turns →
        Turns feeds (.row ms slots) turns' →
          Turns feeds (.row (m :: ms) ((state, latest), slots)) (turns ++ turns')

namespace Polling

/-- The subscriptions that are open after something has been polled. -/
def left (feeds : Feeds) : Polling → List Subscription
  | stream m s => m.live (m.poll feeds s).next
  | part m state => (m.remainder feeds state).elim [] m.live
  | row ms slots => Slots.live ms (sweep feeds ms slots).next

/-- What is polled is found at rest. A part that has gone, or goes with this poll, does not
matter. -/
def AtRest (feeds : Feeds) : Polling → Prop
  | stream m s => (m.poll feeds s).AtRest
  | part m state =>
    ∀ s, state = some s → (m.poll feeds s).answer ≠ .ended → (m.poll feeds s).AtRest
  | row ms slots => (sweep feeds ms slots).AtRest

end Polling

variable {α β : Type} {feeds : Feeds}

/-! ## What is left of parts -/

namespace Machine

variable {m : Machine α} {f : α → Machine β} {s : m.State}

theorem remainder_of_ended (h : (m.poll feeds s).answer = .ended) :
    m.remainder feeds (some s) = none := by
  rw [remainder, h]

theorem remainder_of_present (h : (m.poll feeds s).answer ≠ .ended) :
    m.remainder feeds (some s) = some (m.poll feeds s).next := by
  rw [remainder]
  split
  · next hp => exact absurd hp h
  · rfl

theorem remainder_of_value {a : α} (h : (m.poll feeds s).answer = .value a) :
    m.remainder feeds (some s) = some (m.poll feeds s).next :=
  remainder_of_present fun hp => by cases h.symm.trans hp

theorem remainder_of_pending (h : (m.poll feeds s).answer = .pending) :
    m.remainder feeds (some s) = some (m.poll feeds s).next :=
  remainder_of_present fun hp => by cases h.symm.trans hp

theorem next_pollOnce (s : m.State) :
    (m.pollOnce feeds (s, true)).next.1 = (m.poll feeds s).next := by
  unfold pollOnce
  dsimp only
  split <;> rfl

/-- A value that is let through is the last one polled for. -/
theorem next_pollDistinct {same : α → α → Bool} {last : Option α}
    (hnew : ∀ a, (m.poll feeds s).answer = .value a → ¬ last.any (same · a) = true) :
    (m.pollDistinct same feeds s last).next.1 = (m.poll feeds s).next := by
  fun_cases pollDistinct m same feeds s last with
  | case1 p a ha hsame => exact absurd hsame (hnew a ha)
  | case2 p a ha => rfl
  | case3 p => rfl
  | case4 p => rfl

theorem next_pollFollowed (last : α) (state : Option m.State) :
    (m.pollFollowed last feeds state).next = m.remainder feeds state := by
  fun_cases pollFollowed m last feeds state with
  | case1 => rfl
  | case2 s p a hp => exact (remainder_of_value hp).symm
  | case3 s p hp => exact (remainder_of_ended hp).symm
  | case4 s p hp => exact (remainder_of_pending hp).symm

theorem next_pollSlot (slot : Option m.State × Option α) :
    (m.pollSlot feeds slot).next.1 = m.remainder feeds slot.1 := by
  fun_cases Machine.pollSlot m feeds slot with
  | case1 => rfl
  | case2 s latest p a hp => exact (remainder_of_value hp).symm
  | case3 s latest p hp => exact (remainder_of_ended hp).symm
  | case4 s latest p hp => exact (remainder_of_ended hp).symm
  | case5 s latest p hp => exact (remainder_of_pending hp).symm

theorem next_pollOuter (s : SwitchState m f) :
    (m.pollOuter f feeds s).next.1 = m.remainder feeds s.1 := by
  fun_cases Machine.pollOuter m f feeds s with
  | case1 => rfl
  | case2 s inner p a hp => exact (remainder_of_value hp).symm
  | case3 s inner p hp => exact (remainder_of_ended hp).symm
  | case4 s inner p hp => exact (remainder_of_pending hp).symm

theorem inner_of_pollOuter {s : SwitchState m f}
    (h : (m.pollOuter f feeds s).answer = .value ()) : (m.pollOuter f feeds s).next.2 ≠ none := by
  revert h
  fun_cases Machine.pollOuter m f feeds s with
  | case1 => rintro ⟨⟩
  | case2 => rintro - ⟨⟩
  | case3 => rintro ⟨⟩
  | case4 => rintro ⟨⟩

/-- The poll of an inner stream leaves the outer one alone. -/
theorem next_pollInner (outer : Option m.State) {a : α} (t : (f a).State) :
    (m.pollInner f feeds (outer, some ⟨a, t⟩)).next
      = (outer, ((f a).remainder feeds (some t)).map (Sigma.mk a)) := by
  generalize hs : ((outer, some ⟨a, t⟩) : SwitchState m f) = s
  fun_cases Machine.pollInner m f feeds s with
  | case1 => cases hs
  | case2 outer a t p b hp =>
    cases hs
    rw [remainder_of_value hp]
    rfl
  | case3 outer a t p hp =>
    cases hs
    rw [remainder_of_ended hp]
    rfl
  | case4 outer a t p hp =>
    cases hs
    rw [remainder_of_pending hp]
    rfl

theorem ended_besides {σ τ : Type} (p : Polled σ Unit) {q : Polled τ Unit}
    (h : q.answer = .ended) : (besides p q).answer = .ended := by
  unfold besides
  rw [h]
  cases p.answer <;> rfl

theorem sweep_of_present {m : Machine α} {ms : List (Machine α)}
    {slot : Option m.State × Option α} (slots : Slots ms)
    (h : (m.pollSlot feeds slot).answer ≠ .ended) :
    sweep feeds (m :: ms) (slot, slots)
      = besides (m.pollSlot feeds slot) (sweep feeds ms slots) := by
  cases hp : (m.pollSlot feeds slot).answer with
  | value => rw [sweep, hp]
  | ended => exact absurd hp h
  | pending => rw [sweep, hp]

/-- A combination that is not over keeps what a sweep has left that was not cut short. -/
theorem next_pollCombined {ms : List (Machine α)} {state : Option (Slots ms)} {rest : Slots ms}
    (h : (pollCombined ms feeds state).next = some rest) :
    ∃ slots, state = some slots ∧ (sweep feeds ms slots).answer ≠ .ended
      ∧ (sweep feeds ms slots).next = rest := by
  revert h
  fun_cases pollCombined ms feeds state with
  | case1 => rintro ⟨⟩
  | case2 => rintro ⟨⟩
  | case3 slots _ w hw =>
    have hended : w.answer ≠ .ended := fun he => by cases hw.symm.trans he
    unfold report
    split <;> exact fun h => ⟨slots, rfl, hended, Option.some.inj h⟩
  | case4 => rintro ⟨⟩
  | case5 => rintro ⟨⟩
  | case6 slots _ w hw =>
    have hended : w.answer ≠ .ended := fun he => by cases hw.symm.trans he
    exact fun h => ⟨slots, rfl, hended, Option.some.inj h⟩

/-! ## What is found at rest -/

theorem atRest_of_pollOnce {s : m.State × Bool} (h : (m.pollOnce feeds s).AtRest) :
    (m.poll feeds s.1).AtRest := by
  revert h
  fun_cases pollOnce m feeds s with
  | case1 s p a hp => exact fun h => by cases h.answer
  | case2 s p hp => exact fun h => by cases h.answer
  | case3 s p hp => exact fun h => ⟨hp, h.woken⟩
  | case4 => exact fun h => by cases h.answer

theorem atRest_of_pollDistinct {same : α → α → Bool} {last : Option α}
    (hnew : ∀ a, (m.poll feeds s).answer = .value a → ¬ last.any (same · a) = true)
    (h : (m.pollDistinct same feeds s last).AtRest) : (m.poll feeds s).AtRest := by
  revert h
  fun_cases pollDistinct m same feeds s last with
  | case1 p a ha hsame => exact absurd hsame (hnew a ha)
  | case2 p a ha => exact fun h => by cases h.answer
  | case3 p hp => exact fun h => by cases h.answer
  | case4 p hp => exact fun h => ⟨hp, h.woken⟩

theorem atRest_of_pollFollowed {last : α} {state : Option m.State}
    (h : (m.pollFollowed last feeds state).AtRest) : (Polling.part m state).AtRest feeds := by
  revert h
  fun_cases pollFollowed m last feeds state with
  | case1 => rintro - t ⟨⟩
  | case2 s p a hp => exact fun h => by cases h.answer
  | case3 s p hp =>
    rintro - t ⟨⟩ hpresent
    exact absurd hp hpresent
  | case4 s p hp =>
    rintro h t ⟨⟩ -
    exact ⟨hp, h.woken⟩

theorem atRest_of_pollSlot {slot : Option m.State × Option α}
    (h : (m.pollSlot feeds slot).AtRest) : (Polling.part m slot.1).AtRest feeds := by
  revert h
  fun_cases Machine.pollSlot m feeds slot with
  | case1 => rintro - t ⟨⟩
  | case2 s latest p a hp => exact fun h => by cases h.answer
  | case3 s latest p hp =>
    rintro - t ⟨⟩ hpresent
    exact absurd hp hpresent
  | case4 s latest p hp =>
    rintro - t ⟨⟩ hpresent
    exact absurd hp hpresent
  | case5 s latest p hp =>
    rintro h t ⟨⟩ -
    exact ⟨hp, h.woken⟩

theorem atRest_of_pollOuter {s : SwitchState m f} (hw : (m.pollOuter f feeds s).woken = false)
    (hp : (m.pollOuter f feeds s).answer ≠ .value ()) : (Polling.part m s.1).AtRest feeds := by
  revert hw hp
  fun_cases Machine.pollOuter m f feeds s with
  | case1 => rintro - - t ⟨⟩
  | case2 s inner p a ha => exact fun _ hp => absurd rfl hp
  | case3 s inner p ha =>
    rintro - - t ⟨⟩ hpresent
    exact absurd ha hpresent
  | case4 s inner p ha =>
    rintro hw - t ⟨⟩ -
    exact ⟨ha, hw⟩

theorem atRest_of_pollInner {s : SwitchState m f} {a : α} {t : (f a).State}
    (hs : s.2 = some ⟨a, t⟩) (hw : (m.pollInner f feeds s).woken = false)
    (hp : ∀ b, (m.pollInner f feeds s).answer ≠ .value b) :
    (Polling.part (f a) (some t)).AtRest feeds := by
  revert hw hp
  fun_cases Machine.pollInner m f feeds s with
  | case1 => cases hs
  | case2 outer a t p b hb => exact fun _ hp => absurd rfl (hp b)
  | case3 outer a t p hb =>
    cases hs
    rintro - - t ⟨⟩ hpresent
    exact absurd hb hpresent
  | case4 outer a t p hb =>
    cases hs
    rintro hw - t ⟨⟩ -
    exact ⟨hb, hw⟩

theorem atRest_of_pollCombined {ms : List (Machine α)} {state : Option (Slots ms)}
    (h : (pollCombined ms feeds state).AtRest) :
    ∃ slots, state = some slots ∧ (sweep feeds ms slots).AtRest := by
  revert h
  fun_cases pollCombined ms feeds state with
  | case1 => exact fun h => by cases h.answer
  | case2 => exact fun h => by cases h.answer
  | case3 slots _ w hw =>
    unfold report
    split
    · exact fun h => by cases h.answer
    · exact fun h => by cases h.woken
  | case4 => exact fun h => by cases h.answer
  | case5 => exact fun h => by cases h.answer
  | case6 slots _ w hw => exact fun h => ⟨slots, rfl, hw, h.woken⟩

/-! ## Rounds -/

section Rounds

variable {s : SwitchState m f}

theorem pollSwitch_of_again (hp : (m.pollOuter f feeds s).answer = .value ())
    (hq : ∀ b, (m.finishRound f feeds (m.pollOuter f feeds s)).answer ≠ .value b) :
    let q := m.finishRound f feeds (m.pollOuter f feeds s)
    m.pollSwitch f feeds s = (m.pollSwitch f feeds q.next).after q.woken q.log := by
  fun_cases pollSwitch m f feeds s with
  | case1 p q b hb => exact absurd hb (hq b)
  | case2 p q => rfl
  | case3 p q _ _ hp' => exact absurd hp hp'
  | case4 p q _ _ hp' => exact absurd hp hp'

variable (hlast : (m.pollOuter f feeds s).answer = .value () →
  ∃ b, (m.finishRound f feeds (m.pollOuter f feeds s)).answer = .value b)
include hlast

theorem next_pollSwitch :
    (m.pollSwitch f feeds s).next = (m.finishRound f feeds (m.pollOuter f feeds s)).next := by
  fun_cases pollSwitch m f feeds s with
  | case1 p q b hb => rfl
  | case2 p q hp hq =>
    obtain ⟨b, hb⟩ := hlast hp
    exact absurd hb (hq b)
  | case3 p q => rfl
  | case4 p q => rfl

/-- The last round leaves what its polls leave of the outer stream and of the newest inner one. -/
theorem next_pollSwitch_along {a : α} {t : (f a).State}
    (hinner : (m.pollOuter f feeds s).next.2 = some ⟨a, t⟩) :
    (m.pollSwitch f feeds s).next
      = (m.remainder feeds s.1, ((f a).remainder feeds (some t)).map (Sigma.mk a)) := by
  have houter : (m.pollOuter f feeds s).next = (m.remainder feeds s.1, some ⟨a, t⟩) :=
    Prod.ext (next_pollOuter s) hinner
  rw [next_pollSwitch hlast]
  show (m.pollInner f feeds (m.pollOuter f feeds s).next).next = _
  rw [houter, next_pollInner]

omit hlast in
theorem next_pollSwitch_alone (hp : (m.pollOuter f feeds s).answer ≠ .value ())
    (hinner : (m.pollOuter f feeds s).next.2 = none) :
    (m.pollSwitch f feeds s).next = (m.remainder feeds s.1, none) := by
  have houter : (m.pollOuter f feeds s).next = (m.remainder feeds s.1, none) :=
    Prod.ext (next_pollOuter s) hinner
  rw [next_pollSwitch fun h => absurd h hp]
  show (m.pollInner f feeds (m.pollOuter f feeds s).next).next = _
  rw [houter]
  rfl

/-- If a switched stream is found at rest, so are the outer stream and the newest inner one. -/
theorem atRest_of_pollSwitch (h : (m.pollSwitch f feeds s).AtRest) :
    (Polling.part m s.1).AtRest feeds ∧ ∀ a t, (m.pollOuter f feeds s).next.2 = some ⟨a, t⟩ →
      (Polling.part (f a) (some t)).AtRest feeds := by
  revert h
  fun_cases pollSwitch m f feeds s with
  | case1 => exact fun h => by cases h.answer
  | case2 p q hp hq =>
    obtain ⟨b, hb⟩ := hlast hp
    exact absurd hb (hq b)
  | case3 => exact fun h => by cases h.answer
  | case4 p q _ hq hp =>
    intro h
    obtain ⟨hpw, hqw⟩ := Bool.or_eq_false_iff.1 h.woken
    exact ⟨atRest_of_pollOuter hpw hp, fun a t ht => atRest_of_pollInner ht hqw hq⟩

end Rounds

end Machine

/-! ## Following the turns -/

open Polling

/-- **The turns account for what is open** after a poll, one for one. -/
theorem Turns.left_eq {p : Polling} {turns : List Turn} (h : Turns feeds p turns) :
    turns.map (Turn.left feeds) = p.left feeds := by
  -- each case says what the poll of the whole leaves of what its parts have left
  induction h with
  | just => rfl
  | subscription => rfl
  | announced event fresh _ ih => exact ih
  | @mapReporting α β m s turns f _ ih =>
    have hnext : ((m.mapReporting f).poll feeds s).next = (m.poll feeds s).next :=
      next_mapReporting _ f
    show _ = m.live ((m.mapReporting f).poll feeds s).next
    rw [hnext]
    exact ih
  | @first α m s turns _ ih =>
    show _ = m.live (m.pollOnce feeds (s, true)).next.1
    rw [next_pollOnce]
    exact ih
  | spent m s =>
    rw [List.map_map]
    exact List.map_id _
  | @followedBy α m state turns last _ ih =>
    show _ = ((m.pollFollowed last feeds state).next).elim [] m.live
    rw [next_pollFollowed]
    exact ih
  | @repeated α m same s last a turns ha hsame _ ih =>
    show _ = m.live (m.pollDistinct same feeds s last).next.1
    rw [pollDistinct_of_same same ha hsame]
    exact ih
  | @letThrough α m same s last turns hnew _ ih =>
    show _ = m.live (m.pollDistinct same feeds s last).next.1
    rw [next_pollDistinct hnew]
    exact ih
  | @dropped α ms state hnext =>
    show _ = (pollCombined ms feeds state).next.elim [] (Slots.live ms)
    rw [hnext]
    rfl
  | @swept α ms slots rest turns hnext _ ih =>
    obtain ⟨_, ⟨⟩, -, hrest⟩ := next_pollCombined hnext
    show _ = (pollCombined ms feeds (some slots)).next.elim [] (Slots.live ms)
    rw [hnext, ← hrest]
    exact ih
  | @again α β m f s turns hp hq _ ih =>
    show _ = (m.switchMap f).live (m.pollSwitch f feeds s).next
    rw [pollSwitch_of_again hp hq]
    exact ih
  | @alone α β m f s turns hp hinner _ ih =>
    show _ = (m.switchMap f).live (m.pollSwitch f feeds s).next
    rw [next_pollSwitch_alone hp hinner, ih]
    exact (List.append_nil _).symm
  | @along α β m f s a t turns turns' hlast hinner _ _ ih ih' =>
    show _ = (m.switchMap f).live (m.pollSwitch f feeds s).next
    rw [next_pollSwitch_along hlast hinner, List.map_append, ih, ih']
    show _ ++ ((f a).remainder feeds (some t)).elim [] (f a).live = _
    cases (f a).remainder feeds (some t) <;> rfl
  | gone => rfl
  | ended hp =>
    show _ = (remainder _ feeds _).elim [] _
    rw [remainder_of_ended hp]
    rfl
  | present hp _ ih =>
    show _ = (remainder _ feeds _).elim [] _
    rw [remainder_of_present hp]
    exact ih
  | nobody => rfl
  | @beside α m ms state latest slots turns turns' hslot _ _ ih ih' =>
    show _ = Slots.live (m :: ms) (sweep feeds (m :: ms) ((state, latest), slots)).next
    rw [sweep_of_present slots hslot, List.map_append, ih, ih']
    show _ = (m.pollSlot feeds (state, latest)).next.1.elim [] m.live ++ _
    rw [next_pollSlot]
    rfl

/-- **Nobody is passed over, and nobody is left unheard**, if what is polled is found at rest. -/
theorem Turns.waits {p : Polling} {turns : List Turn} (h : Turns feeds p turns)
    (hrest : p.AtRest feeds) : ∀ turn ∈ turns, turn.Waits feeds := by
  -- each case says which parts have been found at rest if the whole has been
  induction h with
  | just => rintro _ ⟨⟩
  | subscription source supply state =>
    intro turn hturn
    obtain rfl := List.mem_singleton.1 hturn
    exact hrest
  | announced event fresh _ ih => exact ih ⟨hrest.answer, hrest.woken⟩
  | mapReporting f _ ih => exact ih (atRest_of_mapReporting hrest)
  | @first α m s turns _ ih =>
    change (m.pollOnce feeds (s, true)).AtRest at hrest
    exact ih (atRest_of_pollOnce hrest)
  | spent => cases hrest.answer
  | followedBy last _ ih => exact ih (atRest_of_pollFollowed hrest)
  | @repeated α m same s last a turns ha hsame _ ih =>
    change (m.pollDistinct same feeds s last).AtRest at hrest
    rw [pollDistinct_of_same same ha hsame] at hrest
    exact ih ⟨hrest.answer, (Bool.or_eq_false_iff.1 hrest.woken).2⟩
  | letThrough hnew _ ih => exact ih (atRest_of_pollDistinct hnew hrest)
  | dropped => rintro _ ⟨⟩
  | @swept α ms slots rest turns _ _ ih =>
    change (pollCombined ms feeds (some slots)).AtRest at hrest
    obtain ⟨_, ⟨⟩, hsweep⟩ := atRest_of_pollCombined hrest
    exact ih hsweep
  | @again α β m f s turns hp hq _ ih =>
    change (m.pollSwitch f feeds s).AtRest at hrest
    rw [pollSwitch_of_again hp hq] at hrest
    exact ih ⟨hrest.answer, (Bool.or_eq_false_iff.1 hrest.woken).2⟩
  | alone hp _ _ ih => exact ih (atRest_of_pollSwitch (fun h => absurd h hp) hrest).1
  | along hlast hinner _ _ ih ih' =>
    obtain ⟨houter, hnewest⟩ := atRest_of_pollSwitch hlast hrest
    exact List.forall_mem_append.2 ⟨ih houter, ih' (hnewest _ _ hinner)⟩
  | gone => rintro _ ⟨⟩
  | ended => rintro _ ⟨⟩
  | present hpresent _ ih => exact ih (hrest _ rfl hpresent)
  | nobody => rintro _ ⟨⟩
  | @beside α m ms state latest slots turns turns' hslot _ _ ih ih' =>
    change (sweep feeds (m :: ms) ((state, latest), slots)).AtRest at hrest
    rw [sweep_of_present slots hslot] at hrest
    obtain ⟨hfirst, hothers⟩ := atRest_besides hslot hrest
    exact List.forall_mem_append.2 ⟨ih (atRest_of_pollSlot hfirst), ih' hothers⟩

end AccessPolicy
