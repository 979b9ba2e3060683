import AccessPolicy.Proofs.Stream.Combine
import AccessPolicy.Stream.Head
import AccessPolicy.Stream.Session
import AccessPolicy.Stream.Switch

/-!
# Streams of a single value

A stream that depends on nothing that changes is asked three times to be known: its first poll
gives a value, the next one reports the end, and from then on nothing moves. This holds of a
combination of such streams, whatever the feeds are at each poll, so that the value of such a
stream can be had by running it once and can be computed from the values of its parts.
-/

namespace AccessPolicy.Machine

variable {α β : Type} {m : Machine α} {a : α}

/-- A stream that has ended and stays where it is. -/
def Over (m : Machine α) (s : m.State) : Prop :=
  ∀ feeds, (m.poll feeds s).answer = .ended ∧ (m.poll feeds s).next = s

/-- **A stream of a single value**, which it gives at once. -/
structure Gives (m : Machine α) (a : α) : Prop where
  /-- The first poll gives the value. -/
  first : ∀ feeds, (m.poll feeds m.start).answer = .value a
  /-- The second poll reports the end. -/
  second : ∀ feeds feeds', (m.poll feeds' (m.poll feeds m.start).next).answer = .ended
  /-- From then on nothing moves. -/
  ended : ∀ feeds feeds', m.Over (m.poll feeds' (m.poll feeds m.start).next).next

/-! ## Building single values -/

theorem gives_just (a : α) : (just a).Gives a where
  first _ := rfl
  second _ _ := rfl
  ended _ _ _ := ⟨rfl, rfl⟩

theorem Over.mapReporting {f : α → β × List Event} {s : m.State} (h : m.Over s) :
    (m.mapReporting f).Over s := by
  intro feeds
  obtain ⟨ha, hn⟩ := h feeds
  have hp : (m.mapReporting f).poll feeds s = (m.poll feeds s).mapReporting f := rfl
  refine ⟨?_, ?_⟩
  · rw [hp, Polled.mapReporting, ha]
  · rw [hp, Polled.next_mapReporting, hn]

theorem Gives.mapReporting (h : m.Gives a) (f : α → β × List Event) :
    (m.mapReporting f).Gives (f a).1 := by
  have hp : ∀ feeds s, (m.mapReporting f).poll feeds s = (m.poll feeds s).mapReporting f :=
    fun _ _ => rfl
  have hn : ∀ feeds s, ((m.mapReporting f).poll feeds s).next = (m.poll feeds s).next :=
    fun feeds s => Polled.next_mapReporting (m.poll feeds s) f
  constructor
  · intro feeds
    rw [hp, Polled.mapReporting, show (m.poll feeds (m.mapReporting f).start).answer = _ from
      h.first feeds]
  · intro feeds feeds'
    rw [hp, hn, Polled.mapReporting, show (m.poll feeds' (m.poll feeds
      (m.mapReporting f).start).next).answer = _ from h.second feeds feeds']
  · intro feeds feeds'
    rw [hn, hn]
    exact (h.ended feeds feeds').mapReporting

theorem pollDistinct_of_value {same : α → α → Bool} {feeds : Feeds} {s : m.State}
    (h : (m.poll feeds s).answer = .value a) :
    (m.pollDistinct same feeds s none).answer = .value a
      ∧ (m.pollDistinct same feeds s none).next = ((m.poll feeds s).next, some a) := by
  fun_cases pollDistinct m same feeds s none with
  | case1 p b hp hs => cases hs
  | case2 p b hp hs =>
    cases hp.symm.trans h
    exact ⟨rfl, rfl⟩
  | case3 p hp => cases hp.symm.trans h
  | case4 p hp => cases hp.symm.trans h

theorem pollDistinct_of_ended {same : α → α → Bool} {feeds : Feeds} {s : m.State}
    {last : Option α} (h : (m.poll feeds s).answer = .ended) :
    (m.pollDistinct same feeds s last).answer = .ended
      ∧ (m.pollDistinct same feeds s last).next = ((m.poll feeds s).next, last) := by
  fun_cases pollDistinct m same feeds s last with
  | case1 p b hp hs => cases hp.symm.trans h
  | case2 p b hp hs => cases hp.symm.trans h
  | case3 p hp => exact ⟨rfl, rfl⟩
  | case4 p hp => cases hp.symm.trans h

theorem Gives.distinct (h : m.Gives a) (same : α → α → Bool) : (m.distinct same).Gives a := by
  have hfirst : ∀ feeds, ((m.distinct same).poll feeds (m.distinct same).start).next
      = ((m.poll feeds m.start).next, some a) :=
    fun feeds => (pollDistinct_of_value (h.first feeds)).2
  have hsecond : ∀ feeds feeds', ((m.distinct same).poll feeds'
      ((m.distinct same).poll feeds (m.distinct same).start).next).next
      = ((m.poll feeds' (m.poll feeds m.start).next).next, some a) := by
    intro feeds feeds'
    rw [hfirst]
    exact (pollDistinct_of_ended (h.second feeds feeds')).2
  constructor
  · intro feeds
    exact (pollDistinct_of_value (h.first feeds)).1
  · intro feeds feeds'
    rw [hfirst]
    exact (pollDistinct_of_ended (h.second feeds feeds')).1
  · intro feeds feeds' feeds''
    obtain ⟨ha, hn⟩ := h.ended feeds feeds' feeds''
    rw [hsecond]
    refine ⟨(pollDistinct_of_ended ha).1, (pollDistinct_of_ended ha).2.trans ?_⟩
    rw [hn]

theorem Gives.announced (h : m.Gives a) (event : Event) : (m.announced event).Gives a where
  first feeds := h.first feeds
  second feeds feeds' := h.second feeds feeds'
  ended feeds feeds' feeds'' := by
    obtain ⟨ha, hn⟩ := h.ended feeds feeds' feeds''
    exact ⟨ha, Prod.ext hn rfl⟩

/-- A script of one value. -/
theorem gives_script (source : String) (v : Value) :
    (subscription source (.script [.value v])).Gives v where
  first _ := rfl
  second _ _ := rfl
  ended _ _ _ := ⟨rfl, rfl⟩

/-- The first value is all that `once` lets through. -/
theorem gives_once (h : ∀ feeds, (m.poll feeds m.start).answer = .value a) : m.once.Gives a := by
  have hfirst : ∀ feeds, m.pollOnce feeds (m.start, true) = ⟨.value a,
      ((m.poll feeds m.start).next, false), (m.poll feeds m.start).woken,
      (m.poll feeds m.start).log⟩ := by
    intro feeds
    simp only [pollOnce, h feeds]
  have hnext : ∀ feeds, (m.once.poll feeds m.once.start).next
      = ((m.poll feeds m.start).next, false) := by
    intro feeds
    show (m.pollOnce feeds (m.start, true)).next = _
    rw [hfirst]
  constructor
  · intro feeds
    show (m.pollOnce feeds (m.start, true)).answer = _
    rw [hfirst]
  · intro feeds feeds'
    rw [hnext]
    rfl
  · intro feeds feeds' feeds''
    rw [hnext]
    exact ⟨rfl, rfl⟩

theorem Gives.once (h : m.Gives a) : m.once.Gives a := gives_once h.first

/-- A value that follows the end of a stream does not come first. -/
theorem Gives.first_followedBy (h : m.Gives a) (last : α) (feeds : Feeds) :
    ((m.followedBy last).poll feeds (m.followedBy last).start).answer = .value a := by
  show (m.pollFollowed last feeds (some m.start)).answer = _
  simp only [pollFollowed, h.first feeds]

/-! ### Switching -/

theorem pollSwitch_first {f : α → Machine β} {b : β} {feeds : Feeds} {s : m.State}
    (h : (m.poll feeds s).answer = .value a)
    (hf : ((f a).poll feeds (f a).start).answer = .value b) :
    (m.pollSwitch f feeds (some s, none)).answer = .value b
      ∧ (m.pollSwitch f feeds (some s, none)).next
        = (some (m.poll feeds s).next, some ⟨a, ((f a).poll feeds (f a).start).next⟩) := by
  have houter : m.pollOuter f feeds (some s, none) = ⟨.value (), (some (m.poll feeds s).next,
      some ⟨a, (f a).start⟩), (m.poll feeds s).woken, (m.poll feeds s).log⟩ := by
    simp only [pollOuter, h]
  have hround : m.finishRound f feeds (m.pollOuter f feeds (some s, none))
      = ⟨.value b, (some (m.poll feeds s).next, some ⟨a, ((f a).poll feeds (f a).start).next⟩),
          (m.poll feeds s).woken || ((f a).poll feeds (f a).start).woken,
          (m.poll feeds s).log ++ ((f a).poll feeds (f a).start).log⟩ := by
    rw [houter]
    simp only [finishRound, pollInner, hf, Polled.after]
  rw [pollSwitch]
  simp only [hround, and_self]

theorem pollSwitch_last {f : α → Machine β} {feeds : Feeds} {s : m.State} {t : (f a).State}
    (h : (m.poll feeds s).answer = .ended) (hf : ((f a).poll feeds t).answer = .ended) :
    (m.pollSwitch f feeds (some s, some ⟨a, t⟩)).answer = .ended
      ∧ (m.pollSwitch f feeds (some s, some ⟨a, t⟩)).next = (none, none) := by
  have houter : m.pollOuter f feeds (some s, some ⟨a, t⟩) = ⟨.ended, (none, some ⟨a, t⟩),
      (m.poll feeds s).woken, (m.poll feeds s).log⟩ := by
    simp only [pollOuter, h]
  have hround : m.finishRound f feeds ⟨.ended, (none, some ⟨a, t⟩), (m.poll feeds s).woken,
        (m.poll feeds s).log⟩
      = ⟨.ended, (none, none), (m.poll feeds s).woken || ((f a).poll feeds t).woken,
          (m.poll feeds s).log ++ ((f a).poll feeds t).log⟩ := by
    simp only [finishRound, pollInner, hf, Polled.after]
  rw [pollSwitch]
  simp [houter, hround]

/-- A switching stream with nothing left of its parts has nobody to ask. -/
theorem pollSwitch_over (m : Machine α) (f : α → Machine β) (feeds : Feeds) :
    m.pollSwitch f feeds (none, none) = ⟨.ended, (none, none), false, []⟩ := by
  rw [pollSwitch]
  rfl

theorem over_switchMap (m : Machine α) (f : α → Machine β) : (m.switchMap f).Over (none, none) := by
  intro feeds
  show (m.pollSwitch f feeds (none, none)).answer = _ ∧ (m.pollSwitch f feeds (none, none)).next = _
  rw [pollSwitch_over]
  exact ⟨rfl, rfl⟩

theorem Gives.switchMap {f : α → Machine β} {b : β} (h : m.Gives a) (hf : (f a).Gives b) :
    (m.switchMap f).Gives b := by
  have hfirst : ∀ feeds, ((m.switchMap f).poll feeds (m.switchMap f).start).next
      = (some (m.poll feeds m.start).next, some ⟨a, ((f a).poll feeds (f a).start).next⟩) :=
    fun feeds => (pollSwitch_first (h.first feeds) (hf.first feeds)).2
  have hsecond : ∀ feeds feeds', ((m.switchMap f).poll feeds'
      ((m.switchMap f).poll feeds (m.switchMap f).start).next).next = (none, none) := by
    intro feeds feeds'
    rw [hfirst]
    exact (pollSwitch_last (h.second feeds feeds') (hf.second feeds feeds')).2
  constructor
  · intro feeds
    exact (pollSwitch_first (h.first feeds) (hf.first feeds)).1
  · intro feeds feeds'
    rw [hfirst]
    exact (pollSwitch_last (h.second feeds feeds') (hf.second feeds feeds')).1
  · intro feeds feeds'
    rw [hsecond]
    exact over_switchMap m f

/-! ### Combining -/

namespace Slots

/-- Every stream has given its value under some feeds and nothing since. -/
def Given (feeds : Feeds) : (ms : List (Machine α)) → List α → Slots ms → Prop
  | m :: ms, a :: as, (slot, slots) =>
    slot = (some (m.poll feeds m.start).next, some a) ∧ Given feeds ms as slots
  | [], [], () => True
  | _, _, _ => False

theorem Given.latest? {feeds : Feeds} {ms : List (Machine α)} {as : List α} {slots : Slots ms}
    (h : Given feeds ms as slots) : Slots.latest? ms slots = some as := by
  induction ms generalizing as with
  | nil =>
    cases as with
    | nil => rfl
    | cons a as => exact h.elim
  | cons m ms ih =>
    cases as with
    | nil => exact h.elim
    | cons a as =>
      obtain ⟨slot, slots⟩ := slots
      obtain ⟨rfl, h⟩ := h
      rw [latest?_cons, ih h]
      rfl

end Slots

theorem sweep_first (feeds : Feeds) {ms : List (Machine α)} {as : List α}
    (h : List.Forall₂ (fun m a => m.Gives a) ms as) :
    Slots.Given feeds ms as (sweep feeds ms (Slots.start ms)).next
      ∧ (sweep feeds ms (Slots.start ms)).answer
        = if ms.isEmpty then .pending else .value () := by
  induction h with
  | nil => exact ⟨trivial, rfl⟩
  | @cons m a ms as hm hms ih =>
    have hp : m.pollSlot feeds (some m.start, none) = ⟨.value (), (some (m.poll feeds m.start).next,
        some a), (m.poll feeds m.start).woken, (m.poll feeds m.start).log⟩ := by
      simp only [pollSlot, hm.first feeds]
    obtain ⟨hgiven, hans⟩ := ih
    have hs : sweep feeds (m :: ms) (Slots.start (m :: ms))
        = besides (m.pollSlot feeds (some m.start, none)) (sweep feeds ms (Slots.start ms)) := by
      simp only [sweep, Slots.start, hp]
      rfl
    rw [hs, hp]
    refine ⟨⟨rfl, hgiven⟩, ?_⟩
    simp only [besides, hans]
    cases ms.isEmpty <;> rfl

theorem sweep_last {feeds : Feeds} (feeds' : Feeds) {ms : List (Machine α)} {as : List α}
    {slots : Slots ms} (h : List.Forall₂ (fun m a => m.Gives a) ms as)
    (hg : Slots.Given feeds ms as slots) :
    (sweep feeds' ms slots).answer = .pending
      ∧ Slots.ended ms (sweep feeds' ms slots).next = true := by
  induction h with
  | nil => exact ⟨rfl, rfl⟩
  | @cons m a ms as hm hms ih =>
    obtain ⟨slot, slots⟩ := slots
    obtain ⟨rfl, hg⟩ := hg
    have hp : m.pollSlot feeds' (some (m.poll feeds m.start).next, some a)
        = ⟨.pending, (none, some a), (m.poll feeds' (m.poll feeds m.start).next).woken,
            (m.poll feeds' (m.poll feeds m.start).next).log⟩ := by
      simp [pollSlot, hm.second feeds feeds']
    obtain ⟨hans, hend⟩ := ih hg
    have hs : sweep feeds' (m :: ms) ((some (m.poll feeds m.start).next, some a), slots)
        = besides (m.pollSlot feeds' (some (m.poll feeds m.start).next, some a))
            (sweep feeds' ms slots) := by
      simp only [sweep, hp]
      rfl
    rw [hs, hp]
    refine ⟨?_, hend⟩
    simp only [besides, hans]

/-- **Single values side by side** are the single value of their list. -/
theorem gives_combineLatest {ms : List (Machine α)} {as : List α}
    (h : List.Forall₂ (fun m a => m.Gives a) ms as) : (combineLatest ms).Gives as := by
  cases hms : ms.isEmpty with
  | true =>
    obtain rfl := List.isEmpty_iff.1 hms
    cases h
    exact ⟨fun _ => rfl, fun _ _ => rfl, fun _ _ _ => ⟨rfl, rfl⟩⟩
  | false =>
    -- one sweep takes all values, the next one finds all streams ended
    have hfirst : ∀ feeds, ((combineLatest ms).poll feeds (combineLatest ms).start).answer
          = .value as
        ∧ ((combineLatest ms).poll feeds (combineLatest ms).start).next
          = some (sweep feeds ms (Slots.start ms)).next := by
      intro feeds
      obtain ⟨hgiven, hans⟩ := sweep_first feeds h
      rw [hms, if_neg Bool.false_ne_true] at hans
      show (pollCombined ms feeds (some (Slots.start ms))).answer = _
        ∧ (pollCombined ms feeds (some (Slots.start ms))).next = _
      simp [pollCombined, hms, hans, report, hgiven.latest?]
    have hsecond : ∀ feeds feeds', ((combineLatest ms).poll feeds'
            ((combineLatest ms).poll feeds (combineLatest ms).start).next).answer = .ended
        ∧ ((combineLatest ms).poll feeds'
            ((combineLatest ms).poll feeds (combineLatest ms).start).next).next = none := by
      intro feeds feeds'
      obtain ⟨hans, hend⟩ := sweep_last feeds' h (sweep_first feeds h).1
      rw [(hfirst feeds).2]
      show (pollCombined ms feeds' (some _)).answer = _ ∧ (pollCombined ms feeds' (some _)).next = _
      simp [pollCombined, hms, hans, hend]
    refine ⟨fun feeds => (hfirst feeds).1, fun feeds feeds' => (hsecond feeds feeds').1,
      fun feeds feeds' => ?_⟩
    rw [(hsecond feeds feeds').2]
    exact fun _ => ⟨rfl, rfl⟩

/-! ## Using single values -/

/-- A stream has no other single value. -/
theorem Gives.unique {b : α} (h : m.Gives a) (h' : m.Gives b) : a = b :=
  Answer.value.inj ((h.first []).symm.trans (h'.first []))

/-- Running the stream of a single value gives it, and then the end. -/
theorem Gives.run (h : m.Gives a) (feeds : Feeds) :
    (m.run feeds).values = [a] ∧ (m.run feeds).ended = true := by
  have hlast : m.drain feeds (m.poll feeds m.start).next
      = ⟨[], true, (m.poll feeds (m.poll feeds m.start).next).next,
          (m.poll feeds (m.poll feeds m.start).next).log⟩ := by
    fun_cases Machine.drain m feeds (m.poll feeds m.start).next with
    | case1 p b hp => cases hp.symm.trans (h.second feeds feeds)
    | case2 p hp => rfl
    | case3 p hp => cases hp.symm.trans (h.second feeds feeds)
    | case4 p hp => cases hp.symm.trans (h.second feeds feeds)
  unfold Machine.run
  fun_cases Machine.drain m feeds m.start with
  | case1 p b hp rest =>
    cases hp.symm.trans (h.first feeds)
    have hrest : rest = _ := hlast
    rw [hrest]
    exact ⟨rfl, rfl⟩
  | case2 p hp => cases hp.symm.trans (h.first feeds)
  | case3 p hp => cases hp.symm.trans (h.first feeds)
  | case4 p hp => cases hp.symm.trans (h.first feeds)

theorem Gives.reached {history : List Feeds} {s : m.State} {last : Option α} (h : m.Gives a)
    (hs : m.Reached history s last) :
    (s = m.start ∧ last = none)
      ∨ (∃ feeds, s = (m.poll feeds m.start).next ∧ last = some a)
      ∨ (m.Over s ∧ last = some a) := by
  induction hs with
  | opened => exact .inl ⟨rfl, rfl⟩
  | later _ _ ih => exact ih
  | @polled feeds past s last _ ih =>
    rcases ih with ⟨rfl, rfl⟩ | ⟨feeds', rfl, rfl⟩ | ⟨hover, rfl⟩
    · refine .inr (.inl ⟨feeds, rfl, ?_⟩)
      rw [h.first feeds]
      rfl
    · refine .inr (.inr ⟨h.ended feeds' feeds, ?_⟩)
      rw [h.second feeds' feeds]
      rfl
    · obtain ⟨hans, hnext⟩ := hover feeds
      refine .inr (.inr ⟨?_, ?_⟩)
      · rwa [hnext]
      · rw [hans]
        rfl

/-- A single value has been given before its stream rests. -/
theorem Gives.rests {history : List Feeds} {last : Option α} (h : m.Gives a)
    (hs : m.Rests history last) : last = some a := by
  rcases hs with ⟨feeds, past, s, -, hs, hp⟩ | ⟨feeds, past, s, -, hs, hp, -⟩
  · rcases h.reached hs with ⟨rfl, rfl⟩ | ⟨_, -, hl⟩ | ⟨-, hl⟩
    · cases hp.symm.trans (h.first feeds)
    · exact hl
    · exact hl
  · rcases h.reached hs with ⟨rfl, rfl⟩ | ⟨_, -, hl⟩ | ⟨-, hl⟩
    · cases hp.symm.trans (h.first feeds)
    · exact hl
    · exact hl

/-- A single value is given as soon as the stream is polled. -/
theorem Gives.emits (h : m.Gives a) (feeds : Feeds) (past : List Feeds) :
    m.Emitted (feeds :: past) a :=
  ((Reached.opened (feeds :: past)).of_value (h.first feeds)).emitted

end AccessPolicy.Machine

namespace AccessPolicy

/-- A source that replays a single value gives it to everyone who asks. -/
theorem Sources.gives_subscribe {sources : Sources} {name : String} {v : Value}
    (h : Dict.get? sources name = some (.script [.value v])) (q : Query) :
    (sources.subscribe name q).Gives v := by
  unfold subscribe
  rw [h]
  exact (Machine.gives_script name v).announced (.opened name)

end AccessPolicy
