import AccessPolicy.Proofs.Stream.Turns

/-!
# Streams that lose no wake-up

A stream can be relied on if the turns in each of its polls can be followed. Then those that it
holds open are exactly those that it asked in the poll that found it at rest, and each of them has
said last that it had nothing to give. That the turns can be followed is a compositional property,
and it holds of what the sources answer, whatever sources they are.
-/

namespace AccessPolicy

open Machine Polled

variable {α β : Type}

namespace Machine

variable {m : Machine α}

/-! ## Streams whose turns can be followed -/

/-- The turns in every poll of a stream can be followed, whatever the feeds and the state are. -/
def Followed (m : Machine α) : Prop :=
  ∀ feeds s, ∃ turns, Turns feeds (.stream m s) turns

theorem Followed.mapReporting (h : m.Followed) (f : α → β × List Event) :
    (m.mapReporting f).Followed := by
  intro feeds s
  obtain ⟨turns, hturns⟩ := h feeds s
  exact ⟨turns, .mapReporting f hturns⟩

theorem Followed.once (h : m.Followed) : m.once.Followed := by
  rintro feeds ⟨s, fresh⟩
  cases fresh with
  | true =>
    obtain ⟨turns, hturns⟩ := h feeds s
    exact ⟨turns, .first hturns⟩
  | false => exact ⟨_, .spent m s⟩

theorem Followed.part (h : m.Followed) (feeds : Feeds) (state : Option m.State) :
    ∃ turns, Turns feeds (.part m state) turns := by
  cases state with
  | none => exact ⟨[], .gone m⟩
  | some s =>
    by_cases hp : (m.poll feeds s).answer = .ended
    · exact ⟨[], .ended hp⟩
    · obtain ⟨turns, hturns⟩ := h feeds s
      exact ⟨turns, .present hp hturns⟩

theorem Followed.followedBy (h : m.Followed) (last : α) : (m.followedBy last).Followed := by
  intro feeds state
  obtain ⟨turns, hturns⟩ := h.part feeds state
  exact ⟨turns, .followedBy last hturns⟩

theorem Followed.distinct (h : m.Followed) (same : α → α → Bool) :
    (m.distinct same).Followed := by
  rintro feeds ⟨s, last⟩
  have hlast : ∀ s, (∀ a, (m.poll feeds s).answer = .value a → ¬ last.any (same · a) = true) →
      ∃ turns, Turns feeds (.stream (m.distinct same) (s, last)) turns := by
    intro s hnew
    obtain ⟨turns, hturns⟩ := h feeds s
    exact ⟨turns, .letThrough hnew hturns⟩
  fun_induction pollDistinct m same feeds s last with
  | case1 s p a ha hsame ih =>
    obtain ⟨turns, hturns⟩ := ih
    exact ⟨turns, .repeated ha hsame hturns⟩
  | case2 s p a ha hnew =>
    refine hlast s fun b hb => ?_
    cases ha.symm.trans hb
    exact hnew
  | case3 s p hp => exact hlast s fun b hb => by cases hp.symm.trans hb
  | case4 s p hp => exact hlast s fun b hb => by cases hp.symm.trans hb

/-- A sweep that is not cut short asks all parts. -/
theorem followed_sweep {ms : List (Machine α)} (h : ∀ m ∈ ms, m.Followed) (feeds : Feeds)
    (slots : Slots ms) (hp : (sweep feeds ms slots).answer ≠ .ended) :
    ∃ turns, Turns feeds (.row ms slots) turns := by
  fun_induction sweep feeds ms slots with
  | case1 => exact ⟨[], .nobody⟩
  | case2 => exact absurd rfl hp
  | case3 m ms slot slots p hslot ih =>
    obtain ⟨hm, hms⟩ := List.forall_mem_cons.1 h
    obtain ⟨turns, hturns⟩ := hm.part feeds slot.1
    obtain ⟨turns', hturns'⟩ := ih hms fun hw => hp (ended_besides p hw)
    exact ⟨turns ++ turns', .beside hslot hturns hturns'⟩

theorem followed_combineLatest {ms : List (Machine α)} (h : ∀ m ∈ ms, m.Followed) :
    (combineLatest ms).Followed := by
  intro feeds state
  cases hnext : (pollCombined ms feeds state).next with
  | none => exact ⟨[], .dropped hnext⟩
  | some rest =>
    obtain ⟨slots, rfl, hp, -⟩ := next_pollCombined hnext
    obtain ⟨turns, hturns⟩ := followed_sweep h feeds slots hp
    exact ⟨turns, .swept hnext hturns⟩

theorem Followed.switchMap {f : α → Machine β} (h : m.Followed) (hf : ∀ a, (f a).Followed) :
    (m.switchMap f).Followed := by
  intro feeds s
  have hlast : ∀ s : SwitchState m f, ((m.pollOuter f feeds s).answer = .value () →
      ∃ b, (m.finishRound f feeds (m.pollOuter f feeds s)).answer = .value b) →
        ∃ turns, Turns feeds (.stream (m.switchMap f) s) turns := by
    intro s hlast
    obtain ⟨turns, hturns⟩ := h.part feeds s.1
    cases hinner : (m.pollOuter f feeds s).next.2 with
    | none => exact ⟨turns, .alone (fun hp => inner_of_pollOuter hp hinner) hinner hturns⟩
    | some i =>
      obtain ⟨turns', hturns'⟩ := (hf i.1).part feeds (some i.2)
      exact ⟨turns ++ turns', .along hlast hinner hturns hturns'⟩
  show ∃ turns, Turns feeds (.stream (m.switchMap f) s) turns
  fun_induction pollSwitch m f feeds s with
  | case1 s p q b hb => exact hlast s fun _ => ⟨b, hb⟩
  | case2 s p q hp hq ih =>
    obtain ⟨turns, hturns⟩ := ih
    exact ⟨turns, .again hp hq hturns⟩
  | case3 s p q _ _ hp => exact hlast s fun h => absurd h hp
  | case4 s p q _ _ hp => exact hlast s fun h => absurd h hp

theorem followed_just (a : α) : (just a).Followed := fun _ s => ⟨[], .just a s⟩

theorem compositional_followed : Compositional Followed where
  just := followed_just
  mapReporting f _ h := h.mapReporting f
  combine := followed_combineLatest
  switch := Followed.switchMap
  distinct same h := h.distinct same
  once := Followed.once
  first last h := (h.followedBy last).once

theorem followed_subscription (source : String) (supply : Supply) :
    (subscription source supply).Followed :=
  fun _ state => ⟨_, .subscription source supply state⟩

theorem Followed.announced (h : m.Followed) (event : Event) : (m.announced event).Followed := by
  rintro feeds ⟨s, fresh⟩
  obtain ⟨turns, hturns⟩ := h feeds s
  exact ⟨turns, .announced event fresh hturns⟩

end Machine

theorem Source.followed_subscribe (source : Source) (name : String) (q : Query) :
    (source.subscribe name q).Followed := by
  unfold subscribe
  split
  · exact followed_subscription _ _
  · exact followed_just _

/-- The turns of whatever a source answers can be followed. -/
theorem Sources.followed_subscribe (sources : Sources) (name : String) (q : Query) :
    (sources.subscribe name q).Followed := by
  unfold subscribe
  split
  · exact followed_just _
  · exact (Source.followed_subscribe _ name q).announced _

/-! ## Attentive streams -/

/-- **A subscription has been turned away**: it stands where it was left by a poll under the same
feeds, the last one of it, which was pending and woke nobody. -/
def Subscription.TurnedAway (feeds : Feeds) (subscription : Subscription) : Prop :=
  ∃ earlier : Subscription,
    subscription = earlier.polled feeds ∧ (earlier.poll feeds).AtRest

theorem Turn.Waits.turnedAway {feeds : Feeds} {turn : Turn} (h : turn.Waits feeds) :
    (turn.left feeds).TurnedAway feeds := by
  cases turn with
  | missed => exact h.elim
  | taken subscription => exact ⟨subscription, rfl, h⟩

namespace Machine

variable {m : Machine α}

/-- Draining ends with a poll, which found the stream at rest unless the stream has ended. -/
theorem exists_last_poll (m : Machine α) (feeds : Feeds) (s : m.State) :
    ∃ t, (m.drain feeds s).state = (m.poll feeds t).next
      ∧ ((m.drain feeds s).ended = false → (m.poll feeds t).AtRest) := by
  fun_induction drain m feeds s with
  | case1 s p a _ rest ih => exact ih
  | case2 s p _ => exact ⟨s, rfl, by rintro ⟨⟩⟩
  | case3 s p _ _ rest ih => exact ih
  | case4 s p hp hw => exact ⟨s, rfl, fun _ => ⟨hp, Bool.eq_false_iff.2 hw⟩⟩

/-- **An attentive stream** loses no wake-up. What it says holds of every poll, whatever the feeds
are and in whatever state the stream is polled. -/
structure Attentive (m : Machine α) : Prop where
  /-- The turns in a poll can be followed. -/
  followed : m.Followed
  /-- They account for the subscriptions that are open after the poll, one for one. Each of these
  stands where its own poll has left it, so who is said to have been polled has been. -/
  accounted : ∀ feeds s turns, Turns feeds (.stream m s) turns →
    turns.map (Turn.left feeds) = m.live (m.poll feeds s).next
  /-- Where the poll is pending and wakes nobody, each of them was polled and turned away. -/
  turnedAway : ∀ feeds s turns, Turns feeds (.stream m s) turns → (m.poll feeds s).AtRest →
    ∀ turn ∈ turns, turn.Waits feeds
  /-- So the stream sits on nothing that a source has produced: the last that each of them has said
  is that there is nothing. -/
  heardOut : ∀ feeds s, (m.poll feeds s).AtRest →
    ∀ subscription ∈ m.live (m.poll feeds s).next, subscription.TurnedAway feeds
  /-- Nor does it when it has been drained, unless it has ended. -/
  drained : ∀ feeds s, (m.drain feeds s).ended = false →
    ∀ subscription ∈ m.live (m.drain feeds s).state, subscription.TurnedAway feeds

theorem Followed.attentive (h : m.Followed) : m.Attentive := by
  have hheard : ∀ feeds s, (m.poll feeds s).AtRest →
      ∀ subscription ∈ m.live (m.poll feeds s).next, subscription.TurnedAway feeds := by
    intro feeds s hrest subscription hopen
    obtain ⟨turns, hturns⟩ := h feeds s
    rw [← show turns.map _ = m.live (m.poll feeds s).next from hturns.left_eq] at hopen
    obtain ⟨turn, hturn, rfl⟩ := List.mem_map.1 hopen
    exact (hturns.waits hrest turn hturn).turnedAway
  refine ⟨h, fun _ _ _ hturns => hturns.left_eq, fun _ _ _ hturns => hturns.waits, hheard, ?_⟩
  intro feeds s hended
  obtain ⟨t, hstate, hrest⟩ := m.exists_last_poll feeds s
  rw [hstate]
  exact hheard feeds t (hrest hended)

end Machine

end AccessPolicy
