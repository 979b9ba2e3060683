import AccessPolicy.Proofs.Stream.Reading

/-!
# Watches in the course of time

A run of a stream interleaves polls with the setting and the closing of watches, in any order. In
the course of a run the feed of a source only moves on: its version grows with each value that is
set, and once it is closed nothing changes any more. This is all that a subscriber needs. If the
watch has held a value from the beginning, a subscription that rests has given the *current*
value last, because it rests only where nothing is unseen.

A run is a history of the feeds together with what the stream has given, so that what holds of
a stream that rests in a history holds of a run that is at rest.
-/

namespace AccessPolicy

/-! ## Feeds that move on -/

namespace Feed

/-- A feed that holds a value. -/
def Holds (feed : Feed) : Prop := feed.latest.isSome = true ∧ 0 < feed.version

/-- **A feed moves on** from an older state of it to a newer one. -/
structure MovesOn (older newer : Feed) : Prop where
  version : older.version ≤ newer.version
  holds : older.latest.isSome = true → newer.latest.isSome = true
  /-- The value changes only with the version. -/
  latest : newer.version = older.version → newer.latest = older.latest
  /-- A closed feed stays as it is. -/
  closed : older.closed = true → newer = older

theorem MovesOn.refl (feed : Feed) : feed.MovesOn feed :=
  ⟨le_refl _, id, fun _ => rfl, fun _ => rfl⟩

theorem MovesOn.trans {a b c : Feed} (h : a.MovesOn b) (h' : b.MovesOn c) : a.MovesOn c where
  version := h.version.trans h'.version
  holds ha := h'.holds (h.holds ha)
  latest hv := by
    have hb : b.version = a.version := le_antisymm (h'.version.trans hv.le) h.version
    exact (h'.latest (hv.trans hb.symm)).trans (h.latest hb)
  closed ha := by
    obtain rfl := h.closed ha
    exact h'.closed ha

theorem Holds.movesOn {a b : Feed} (h : a.Holds) (hab : a.MovesOn b) : b.Holds :=
  ⟨hab.holds h.1, h.2.trans_le hab.version⟩

end Feed

namespace Feeds

theorem feed_insert (feeds : Feeds) (source : String) (feed : Feed) (name : String) :
    Feeds.feed (Dict.insert feeds source feed) name
      = if name = source then feed else feeds.feed name := by
  unfold Feeds.feed
  rw [Dict.get?_insert]
  split <;> rfl

/-- The feeds of all sources move on. -/
def MoveOn (older newer : Feeds) : Prop :=
  ∀ source, (older.feed source).MovesOn (newer.feed source)

theorem MoveOn.refl (feeds : Feeds) : feeds.MoveOn feeds := fun _ => .refl _

theorem MoveOn.trans {a b c : Feeds} (h : a.MoveOn b) (h' : b.MoveOn c) : a.MoveOn c :=
  fun source => (h source).trans (h' source)

theorem moveOn_set {feeds : Feeds} {source : String} (v : Value)
    (h : (feeds.feed source).closed = false) : feeds.MoveOn (feeds.set source v) := by
  intro name
  rw [set, feed_insert]
  split
  · next hn =>
    subst hn
    refine ⟨Nat.le_succ _, fun _ => rfl, fun hv => ?_, fun hc => ?_⟩
    · exact absurd hv (Nat.succ_ne_self _)
    · rw [h] at hc
      cases hc
  · exact .refl _

theorem moveOn_close (feeds : Feeds) (source : String) : feeds.MoveOn (feeds.close source) := by
  intro name
  rw [close, feed_insert]
  split
  · next hn =>
    subst hn
    refine ⟨le_refl _, id, fun _ => rfl, fun hc => ?_⟩
    rw [← hc]
  · exact .refl _

/-- **A history of watches**: the feeds have moved on from some first ones, all the way. -/
structure Watched (first : Feeds) (history : List Feeds) : Prop where
  ordered : history.Pairwise fun newer older => older.MoveOn newer
  since : ∀ feeds ∈ history, first.MoveOn feeds

theorem Watched.start (first : Feeds) : Watched first [first] where
  ordered := List.pairwise_singleton _ _
  since feeds h := by
    obtain rfl := List.mem_singleton.1 h
    exact .refl _

theorem Watched.cons {first feeds next : Feeds} {past : List Feeds}
    (h : Watched first (feeds :: past)) (hnext : feeds.MoveOn next) :
    Watched first (next :: feeds :: past) where
  ordered := by
    refine List.Pairwise.cons (fun older ho => ?_) h.ordered
    rcases List.mem_cons.1 ho with rfl | ho
    · exact hnext
    · exact ((List.pairwise_cons.1 h.ordered).1 older ho).trans hnext
  since other ho := by
    rcases List.mem_cons.1 ho with rfl | ho
    · exact (h.since feeds (List.mem_cons_self ..)).trans hnext
    · exact h.since other ho

theorem Watched.suffix {first : Feeds} {older history : List Feeds} (h : Watched first history)
    (hs : older <:+ history) : Watched first older where
  ordered := h.ordered.sublist hs.sublist
  since feeds hf := h.since feeds (hs.subset hf)

/-- The newest feeds have moved on from all those of the history. -/
theorem Watched.moveOn_of_suffix {first feeds newest : Feeds} {past history : List Feeds}
    (h : Watched first (newest :: history)) (hs : (feeds :: past) <:+ newest :: history) :
    feeds.MoveOn newest := by
  rcases List.mem_cons.1 (hs.subset (List.mem_cons_self ..)) with rfl | hm
  · exact .refl _
  · exact (List.pairwise_cons.1 h.ordered).1 feeds hm

/-- Where a stream rests, the newest feeds have moved on from the first ones. -/
theorem Watched.moveOn_newest {α : Type} {m : Machine α} {first : Feeds} {history : List Feeds}
    {last : Option α} (h : Watched first history) (hr : m.Rests history last) :
    first.MoveOn (history.headD []) := by
  have hne : history ≠ [] := by
    rintro rfl
    rcases hr with ⟨_, _, _, hs, -⟩ | ⟨_, _, _, hs, -⟩
    · exact absurd hs.length_le (Nat.not_succ_le_zero _)
    · cases hs
  cases history with
  | nil => exact absurd rfl hne
  | cons feeds past => exact h.since feeds (List.mem_cons_self ..)

end Feeds

/-! ## Subscriptions -/

namespace Machine

variable {source name : String} {view : Value → Value} {first feeds : Feeds}

/-- Polls a subscription of a watch. -/
def pollWatched (source name : String) (view : Value → Value) (feeds : Feeds) :
    Option Nat → Polled (Option Nat) Value :=
  (Supply.watch name view).pollGuarded source feeds

/-- The poll of a subscription of a watch, by what the feed holds. -/
theorem pollWatched_some (seen : Nat) :
    pollWatched source name view feeds (some seen)
      = match (feeds.feed name).unseen? seen with
        | some v => ⟨.value (view v), some (feeds.feed name).version, false, []⟩
        | none =>
          if (feeds.feed name).closed then ⟨.ended, some seen, false, []⟩
          else ⟨.pending, some seen, false, []⟩ := by
  have hpoll : (Supply.watch name view).poll feeds seen = Supply.pollWatch name view feeds seen :=
    rfl
  show (Supply.watch name view).pollGuarded source feeds (some seen) = _
  unfold Supply.pollGuarded
  simp only [hpoll, Supply.pollWatch]
  cases (feeds.feed name).unseen? seen with
  | some v => rfl
  | none => cases (feeds.feed name).closed <;> rfl

/-- What a subscription of a watch has seen, and that it gave last what it has seen last. -/
def Seen (view : Value → Value) (feed : Feed) : Option Nat → Option Value → Prop
  | some seen, last =>
    seen ≤ feed.version ∧ (0 < seen → seen = feed.version → last = feed.latest.map view)
  | none, _ => False

theorem Seen.movesOn {older newer : Feed} {state : Option Nat} {last : Option Value}
    (h : Seen view older state last) (hm : older.MovesOn newer) : Seen view newer state last := by
  cases state with
  | none => exact h.elim
  | some seen =>
    refine ⟨h.1.trans hm.version, fun hpos hseen => ?_⟩
    have hv : newer.version = older.version := le_antisymm (hseen ▸ h.1) hm.version
    rw [hm.latest hv]
    exact h.2 hpos (hseen.trans hv)

/-- A poll shows the newest version to a subscription, or leaves it as it is. -/
theorem Seen.poll {state : Option Nat} {last : Option Value}
    (h : Seen view (feeds.feed name) state last) :
    Seen view (feeds.feed name) (pollWatched source name view feeds state).next
      ((pollWatched source name view feeds state).answer.value?.or last) := by
  cases state with
  | none => exact h.elim
  | some seen =>
    rw [pollWatched_some]
    cases hu : (feeds.feed name).unseen? seen with
    | some v =>
      have hl : (feeds.feed name).latest = some v := by
        unfold Feed.unseen? at hu
        split at hu
        · exact hu
        · cases hu
      exact ⟨le_refl _, fun _ _ => by rw [hl]; rfl⟩
    | none => cases (feeds.feed name).closed <;> exact h

/-- Where a poll gives nothing, the latest value of a feed that holds one has been seen. -/
theorem Seen.latest_of_none {state : Option Nat} {last : Option Value}
    (h : Seen view (feeds.feed name) state last) (hh : (feeds.feed name).Holds)
    (hp : ∀ v, (pollWatched source name view feeds state).answer ≠ .value v) :
    last = (feeds.feed name).latest.map view := by
  cases state with
  | none => exact h.elim
  | some seen =>
    have hseen : ¬ seen < (feeds.feed name).version := by
      intro hlt
      obtain ⟨v, hv⟩ := Option.isSome_iff_exists.1 hh.1
      refine hp (view v) ?_
      simp only [pollWatched_some, Feed.unseen?, if_pos hlt, hv]
    have heq : seen = (feeds.feed name).version := le_antisymm h.1 (not_lt.1 hseen)
    exact h.2 (heq ▸ hh.2) heq

/-- A feed whose subscription has ended is closed. -/
theorem Seen.closed_of_ended {state : Option Nat} {last : Option Value}
    (h : Seen view (feeds.feed name) state last)
    (hp : (pollWatched source name view feeds state).answer = .ended) :
    (feeds.feed name).closed = true := by
  cases state with
  | none => exact h.elim
  | some seen =>
    cases hc : (feeds.feed name).closed with
    | true => rfl
    | false =>
      rw [pollWatched_some] at hp
      cases hu : (feeds.feed name).unseen? seen <;> simp [hu, hc] at hp

/-- What is known of a subscription under the newest feeds, if there have been any. -/
def SeenLately (name : String) (view : Value → Value) :
    List Feeds → Option Nat → Option Value → Prop
  | [], state, _ => state = some 0
  | feeds :: _, state, last => Seen view (feeds.feed name) state last

theorem reached_watch {history : List Feeds}
    {state : (subscription source (.watch name view)).State} {last : Option Value}
    (h : (subscription source (.watch name view)).Reached history state last)
    (hw : first.Watched history) : SeenLately name view history state last := by
  have hnew : ∀ feed last, Seen view feed (some 0) last :=
    fun _ _ => ⟨Nat.zero_le _, fun hpos => absurd hpos (lt_irrefl _)⟩
  induction h with
  | opened history =>
    cases history with
    | nil => rfl
    | cons feeds past => exact hnew _ _
  | @later history state last feeds h ih =>
    cases history with
    | nil =>
      obtain rfl : state = some (0 : Nat) := ih (hw.suffix (List.suffix_cons ..))
      exact hnew _ _
    | cons older past =>
      have hm := (List.pairwise_cons.1 hw.ordered).1 older (List.mem_cons_self ..)
      exact Seen.movesOn (ih (hw.suffix (List.suffix_cons ..))) (hm name)
  | polled _ ih => exact Seen.poll (ih hw)

/-- **A subscription at rest is up to date**: if the watch has held a value from the beginning,
the value that the subscription gave last is the current one, as the watch presents it. -/
theorem settles_watch (h : (first.feed name).Holds) :
    (subscription source (.watch name view)).Settles first.Watched fun history v =>
      ((history.headD []).feed name).Holds
        ∧ ((history.headD []).feed name).latest.map view = some v := by
  intro history last hw hr
  have hholds : ∀ feeds ∈ history, (Feeds.feed feeds name).Holds :=
    fun feeds hf => h.movesOn (hw.since feeds hf name)
  rcases hr with ⟨feeds, past, state, hs, hreach, hp⟩ | ⟨feeds, past, state, rfl, hreach, hp, -⟩
  · obtain ⟨newer, rfl⟩ := hs
    have hseen : Seen view (feeds.feed name) state last :=
      reached_watch hreach (hw.suffix (List.suffix_append ..))
    have hlast := hseen.latest_of_none (hholds feeds (by simp)) fun v hv => nomatch hp.symm.trans hv
    -- since the end the feed has not changed
    have hcurrent : ((newer ++ feeds :: past).headD []).feed name = feeds.feed name := by
      cases newer with
      | nil => rfl
      | cons newest newer =>
        have hm := hw.moveOn_of_suffix (List.suffix_append (newest :: newer) (feeds :: past))
        exact (hm name).closed (hseen.closed_of_ended hp)
    obtain ⟨v, hv⟩ := Option.isSome_iff_exists.1 (hholds feeds (by simp)).1
    dsimp only
    rw [hcurrent, hlast, hv]
    exact ⟨view v, rfl, hholds feeds (by simp), rfl⟩
  · have hseen : Seen view (feeds.feed name) state last := reached_watch hreach hw
    have hlast := hseen.latest_of_none (hholds feeds (List.mem_cons_self ..))
      fun v hv => nomatch hp.symm.trans hv
    obtain ⟨v, hv⟩ := Option.isSome_iff_exists.1 (hholds feeds (List.mem_cons_self ..)).1
    refine ⟨view v, by rw [hlast, hv]; rfl, hholds feeds (List.mem_cons_self ..), ?_⟩
    show (feeds.feed name).latest.map view = some (view v)
    rw [hv]
    rfl

end Machine

end AccessPolicy
