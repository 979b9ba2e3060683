import AccessPolicy.Proofs.Stream.Latest
import AccessPolicy.Proofs.Stream.Lookalike
import AccessPolicy.Stream.Enumerate

/-!
# A switching stream follows the newest inner stream

A poll of a switching stream may take several values of the outer stream, so the polls are the wrong
steps to count in. Its rounds are the right ones: a round polls the outer stream once, and then the
inner stream that is the newest by then. A run of polls is a run of rounds, and the values that the
outer stream gives divide it into **episodes**. A value opens an episode with the round in which it
is given, and the episode lasts until the next value. Which episodes there are is a matter of the
outer stream alone.

In an episode one inner stream is polled, once in each round until it has ended, and nothing is left
of the ones before. So what a switching stream gives is what the inner streams give, each in its own
episode, one episode after the other. This is more than a rearrangement of the definition: a poll
has to answer with what the last of its rounds gives, and must not go on past a round that gives
something, or it would lose a value. As in a combination, nothing is assumed about the streams: any
sequence of polls is what some stream shows.

The projection is a function, and a function does not show how often it is called. But a round that
calls it keeps the value with the stream that it opens, which is enough to count the calls. A
projection that goes by how often it has been called is a function of numbered values.
-/

namespace AccessPolicy

open Polled

variable {α β : Type} {feeds : Feeds}

namespace Machine

variable {m : Machine α} {f : α → Machine β}

/-! ## Rounds -/

/-- **A switching stream that is polled one round at a time.** A round that gives no value does not
tell whether there is another one to come, so of its answers only the values count. -/
def byRounds (m : Machine α) (f : α → Machine β) : Machine β where
  State := SwitchState m f
  start := (some m.start, none)
  poll := m.round f
  live := (m.switchMap f).live
  descent := m.switchDescent f
  respects := m.respects_finishRound f

/-- **The rounds** that a switching stream goes through under a schedule, with the feeds of each. -/
def roundsUnder (m : Machine α) (f : α → Machine β) (schedule : List Feeds) : List Feeds :=
  (conductSwitch m f).schedule (m.switchMap f).start schedule

/-- A poll leaves what its rounds leave. -/
theorem stateAfter_rounds (s : SwitchState m f) :
    (m.byRounds f).stateAfter s (List.replicate (m.rounds f feeds s) feeds)
      = (m.pollSwitch f feeds s).next := by
  fun_induction rounds m f feeds s with
  | case1 s h ih =>
    rw [pollSwitch_eq, if_pos h, List.replicate_add]
    exact (stateAfter_append (m := m.byRounds f) s _ _).trans ih
  | case2 s h =>
    rw [pollSwitch_eq, if_neg h, next_closing]
    rfl

theorem value?_closing (q : Polled (SwitchState m f) β) :
    (m.closing f q).answer.value? = q.answer.value? := by
  unfold closing
  split
  · rfl
  · next hq =>
    rw [Answer.value?_eq_none hq]
    split <;> rfl

/-- **A poll answers with what its last round gives**, and no other round of it gives anything. -/
theorem exists_lastRound (feeds : Feeds) (s : SwitchState m f) :
    ∃ k, m.rounds f feeds s = k + 1
      ∧ valuesOf ((m.byRounds f).replay s (List.replicate k feeds)) = []
      ∧ (m.pollSwitch f feeds s).answer.value?
        = (m.round f feeds
            ((m.byRounds f).stateAfter s (List.replicate k feeds))).answer.value? := by
  fun_induction rounds m f feeds s with
  | case1 s h ih =>
    obtain ⟨k, hrounds, hnothing, hlast⟩ := ih
    have hfirst : valuesOf [(m.round f feeds s).seen] = [] := by
      rw [valuesOf_seen, Answer.value?_eq_none ((m.goesOn_iff f feeds).1 h).2]
      rfl
    refine ⟨k + 1, by rw [hrounds, Nat.add_comm], ?_, ?_⟩
    · exact (valuesOf_append [(m.round f feeds s).seen] _).trans
        (List.append_eq_nil_iff.2 ⟨hfirst, hnothing⟩)
    · rw [pollSwitch_eq, if_pos h]
      exact hlast
  | case2 s h =>
    refine ⟨0, rfl, rfl, ?_⟩
    rw [pollSwitch_eq, if_neg h, value?_closing]
    rfl

/-! ### Under a schedule -/

theorem roundsUnder_snoc (m : Machine α) (f : α → Machine β) (schedule : List Feeds)
    (feeds : Feeds) :
    m.roundsUnder f (schedule ++ [feeds])
      = m.roundsUnder f schedule
        ++ List.replicate
          (m.rounds f feeds ((m.switchMap f).stateAfter (m.switchMap f).start schedule)) feeds := by
  unfold roundsUnder
  rw [Conduct.schedule_append, Conduct.schedule, Conduct.schedule, List.append_nil]
  rfl

/-- **A run is the run of its rounds.** -/
theorem stateAfter_roundsUnder (m : Machine α) (f : α → Machine β) (schedule : List Feeds) :
    (m.switchMap f).stateAfter (m.switchMap f).start schedule
      = (m.byRounds f).stateAfter (m.byRounds f).start (m.roundsUnder f schedule) := by
  induction schedule using List.reverseRecOn with
  | nil => rfl
  | append_singleton schedule feeds ih =>
    rw [stateAfter_snoc, roundsUnder_snoc, stateAfter_append, ← ih]
    exact (stateAfter_rounds _).symm

/-- The last round of the poll that follows a schedule. -/
theorem exists_lastRound_after (m : Machine α) (f : α → Machine β) (schedule : List Feeds)
    (feeds : Feeds) :
    ∃ before, m.roundsUnder f (schedule ++ [feeds]) = before ++ [feeds]
      ∧ valuesOf ((m.byRounds f).shown before)
        = valuesOf ((m.byRounds f).shown (m.roundsUnder f schedule))
      ∧ ((m.switchMap f).pollAfter schedule feeds).answer.value?
        = ((m.byRounds f).pollAfter before feeds).answer.value? := by
  obtain ⟨k, hrounds, hnothing, hlast⟩ := exists_lastRound feeds
    ((m.switchMap f).stateAfter (m.switchMap f).start schedule)
  refine ⟨m.roundsUnder f schedule ++ List.replicate k feeds, ?_, ?_, ?_⟩
  · rw [roundsUnder_snoc, hrounds, List.replicate_succ', List.append_assoc]
  · rw [stateAfter_roundsUnder] at hnothing
    unfold shown
    rw [replay_append, valuesOf_append, hnothing, List.append_nil]
  · rw [stateAfter_roundsUnder] at hlast
    unfold pollAfter
    rw [stateAfter_append, stateAfter_roundsUnder]
    exact hlast

theorem valuesOf_roundsUnder (m : Machine α) (f : α → Machine β) (schedule : List Feeds) :
    valuesOf ((m.switchMap f).shown schedule)
      = valuesOf ((m.byRounds f).shown (m.roundsUnder f schedule)) := by
  induction schedule using List.reverseRecOn with
  | nil => rfl
  | append_singleton schedule feeds ih =>
    obtain ⟨before, hrounds, hnothing, hlast⟩ := exists_lastRound_after m f schedule feeds
    rw [valuesOf_shown_snoc, hrounds, valuesOf_shown_snoc, hnothing, ih, hlast]

end Machine

/-! ## Episodes -/

/-- **An episode**: the value that has opened it, and its rounds. -/
@[ext]
structure Episode (α : Type) where
  opener : α
  rounds : List Feeds

namespace Episode

/-- An episode that goes on for one more round. -/
def longer (feeds : Feeds) (e : Episode α) : Episode α := { e with rounds := e.rounds ++ [feeds] }

theorem longer_injective {e e' : Episode α} (h : e.longer feeds = e'.longer feeds) : e = e' := by
  obtain ⟨hopener, hrounds⟩ := Episode.mk.inj h
  exact Episode.ext hopener (List.append_cancel_right hrounds)

/-- A value opens an episode, which is the newest from then on. -/
def entered : Option α → List (Episode α) → List (Episode α)
  | none, episodes => episodes
  | some a, episodes => ⟨a, []⟩ :: episodes

/-- What is left of the inner stream of an episode. -/
def left (f : α → Machine β) (e : Episode α) : Option (Machine.InnerState f) :=
  ((f e.opener).partAfter (some (f e.opener).start) e.rounds).map (Sigma.mk e.opener)

/-- What the inner stream of an episode has given. -/
def values (f : α → Machine β) (e : Episode α) : List β := (f e.opener).given e.rounds

/-- The inner stream of an episode gives a value in the next round. -/
def GivesNext (f : α → Machine β) (feeds : Feeds) (e : Episode α) (b : β) : Prop :=
  ∃ t, (f e.opener).partAfter (some (f e.opener).start) e.rounds = some t
    ∧ ((f e.opener).poll feeds t).answer = .value b

end Episode

namespace Machine

variable {m : Machine α} {f : α → Machine β}

/-- The value that a part of a stream gives when it is polled. -/
def valueOf? (m : Machine α) (feeds : Feeds) (part : Option m.State) : Option α :=
  part.bind fun s => (m.poll feeds s).answer.value?

theorem valuesOf_replayPart_singleton (part : Option m.State) :
    valuesOf (m.replayPart part [feeds]) = (m.valueOf? feeds part).toList := by
  cases part with
  | none => exact congrArg valuesOf (replayPart_none [feeds])
  | some s => exact valuesOf_replayPart_one s

theorem given_concat (m : Machine α) (rounds : List Feeds) (feeds : Feeds) :
    m.given (rounds ++ [feeds])
      = m.given rounds ++ (m.valueOf? feeds (m.partAfter (some m.start) rounds)).toList := by
  rw [given_snoc, valuesOf_replayPart_singleton]

/-- The episodes after some more rounds, the newest first. A value opens an episode, and its round
belongs to that episode already. -/
def episodesFrom (m : Machine α) :
    Option m.State → List (Episode α) → List Feeds → List (Episode α)
  | _, episodes, [] => episodes
  | part, episodes, feeds :: rounds =>
    episodesFrom m (m.remainder feeds part)
      ((Episode.entered (m.valueOf? feeds part) episodes).modifyHead (·.longer feeds)) rounds

/-- **The episodes** into which the values of an outer stream divide some rounds, the newest
first. -/
def episodes (m : Machine α) (rounds : List Feeds) : List (Episode α) :=
  m.episodesFrom (some m.start) [] rounds

/-- The episodes in a round, between the poll of the outer stream and that of the inner one. -/
def episodesIn (m : Machine α) (rounds : List Feeds) (feeds : Feeds) : List (Episode α) :=
  Episode.entered (m.valueOf? feeds (m.partAfter (some m.start) rounds)) (m.episodes rounds)

theorem episodesFrom_append (part : Option m.State) (episodes : List (Episode α))
    (earlier later : List Feeds) :
    m.episodesFrom part episodes (earlier ++ later)
      = m.episodesFrom (m.partAfter part earlier) (m.episodesFrom part episodes earlier) later := by
  induction earlier generalizing part episodes with
  | nil => rfl
  | cons feeds earlier ih => exact ih _ _

theorem episodes_snoc (m : Machine α) (rounds : List Feeds) (feeds : Feeds) :
    m.episodes (rounds ++ [feeds]) = (m.episodesIn rounds feeds).modifyHead (·.longer feeds) :=
  episodesFrom_append (some m.start) [] rounds [feeds]

/-- **Each value opens one episode**, in order. -/
theorem openers_episodes (m : Machine α) (rounds : List Feeds) :
    ((m.episodes rounds).map Episode.opener).reverse = m.given rounds := by
  induction rounds using List.reverseRecOn with
  | nil => rfl
  | append_singleton rounds feeds ih =>
    have hsame (episodes : List (Episode α)) :
        (episodes.modifyHead (·.longer feeds)).map Episode.opener
          = episodes.map Episode.opener := by
      cases episodes <;> rfl
    rw [episodes_snoc, hsame, given_concat, ← ih, episodesIn]
    cases m.valueOf? feeds (m.partAfter (some m.start) rounds) with
    | none => exact (List.append_nil _).symm
    | some a => exact List.reverse_cons

/-- **The newest episode** has begun with the round in which its value was given. -/
theorem exists_span {rounds : List Feeds} {e : Episode α} {older : List (Episode α)}
    (h : m.episodes rounds = e :: older) :
    ∃ earlier feeds later, rounds = earlier ++ feeds :: later ∧ e.rounds = feeds :: later
      ∧ m.valueOf? feeds (m.partAfter (some m.start) earlier) = some e.opener
      ∧ m.episodes earlier = older := by
  induction rounds using List.reverseRecOn generalizing e with
  | nil => cases h
  | append_singleton rounds feeds ih =>
    rw [episodes_snoc, episodesIn] at h
    cases hv : m.valueOf? feeds (m.partAfter (some m.start) rounds) with
    | some a =>
      rw [hv] at h
      cases h
      exact ⟨rounds, feeds, [], rfl, rfl, hv, rfl⟩
    | none =>
      rw [hv, Episode.entered] at h
      cases hes : m.episodes rounds with
      | nil =>
        rw [hes] at h
        cases h
      | cons e' older' =>
        rw [hes] at h
        cases h
        obtain ⟨earlier, first, later, hrounds, he, hopener, holder⟩ := ih hes
        refine ⟨earlier, first, later ++ [feeds], ?_, ?_, hopener, holder⟩
        · rw [hrounds, List.append_assoc, List.cons_append]
        · exact congrArg (· ++ [feeds]) he

/-- A round without a value belongs to the episode before it. -/
example (feeds : Feeds) :
    (recital [⟨.value 10, (), false, []⟩, ⟨.pending, (), false, []⟩,
        ⟨.value 7, (), false, []⟩]).episodes [feeds, feeds, feeds]
      = [⟨7, [feeds]⟩, ⟨10, [feeds, feeds]⟩] := rfl

/-! ### One round -/

/-- The poll of the outer stream replaces the inner stream if it gives a value. -/
theorem next_pollOuter_entered (part : Option m.State) (episodes : List (Episode α)) :
    (m.pollOuter f feeds (part, episodes.head?.bind (Episode.left f))).next
      = (m.remainder feeds part,
          (Episode.entered (m.valueOf? feeds part) episodes).head?.bind (Episode.left f)) := by
  refine Prod.ext (next_pollOuter _) ?_
  cases part with
  | none => rfl
  | some s => cases hp : (m.poll feeds s).answer <;> simp [pollOuter, valueOf?, hp, Answer.value?,
      Episode.entered, Episode.left, partAfter]

/-- The poll of an inner stream is one more round of its episode. -/
theorem pollInner_left (feeds : Feeds) (outer : Option m.State) (e : Episode α) :
    (m.pollInner f feeds (outer, e.left f)).next = (outer, (e.longer feeds).left f)
      ∧ (e.longer feeds).values f
        = e.values f ++ (m.pollInner f feeds (outer, e.left f)).answer.value?.toList
      ∧ ∀ b, (m.pollInner f feeds (outer, e.left f)).answer = .value b ↔ e.GivesNext f feeds b := by
  unfold Episode.left Episode.values Episode.GivesNext Episode.longer
  rw [partAfter_snoc, given_concat]
  cases (f e.opener).partAfter (some (f e.opener).start) e.rounds with
  | none =>
    refine ⟨rfl, rfl, fun b => iff_of_false (by rintro ⟨⟩) ?_⟩
    rintro ⟨t, ⟨⟩, -⟩
  | some t =>
    have hseen : (m.pollInner f feeds (outer, some ⟨e.opener, t⟩)).answer
        = ((f e.opener).poll feeds t).answer :=
      congrArg Polled.answer (seen_pollInner (m := m) outer t)
    refine ⟨next_pollInner outer t, ?_, fun b => ?_⟩
    · exact congrArg (_ ++ ·.value?.toList) hseen.symm
    · rw [Option.map_some, hseen]
      simp only [Option.some.injEq, exists_eq_left']

/-- The poll of the newest inner stream is one more round of the newest episode. -/
theorem pollInner_newest (feeds : Feeds) (outer : Option m.State)
    (episodes : List (Episode α)) :
    let p := m.pollInner f feeds (outer, episodes.head?.bind (Episode.left f))
    let later := episodes.modifyHead (·.longer feeds)
    p.next = (outer, later.head?.bind (Episode.left f))
      ∧ later.reverse.flatMap (Episode.values f)
        = episodes.reverse.flatMap (Episode.values f) ++ p.answer.value?.toList := by
  cases episodes with
  | nil => exact ⟨rfl, rfl⟩
  | cons e older =>
    obtain ⟨hnext, hvalues, -⟩ := pollInner_left (f := f) feeds outer e
    refine ⟨hnext, ?_⟩
    simp only [List.modifyHead_cons, List.reverse_cons, List.flatMap_append, List.flatMap_singleton,
      hvalues, List.append_assoc]
    rfl

/-! ### A run of rounds -/

/-- **Where a switching stream is** after some rounds: the outer stream is where the rounds lead it,
and of the inner streams only the one of the newest episode is left. -/
def followed (m : Machine α) (f : α → Machine β) (rounds : List Feeds) : SwitchState m f :=
  (m.partAfter (some m.start) rounds, (m.episodes rounds).head?.bind (Episode.left f))

theorem next_pollOuter_followed (rounds : List Feeds) :
    (m.pollOuter f feeds (m.followed f rounds)).next
      = (m.partAfter (some m.start) (rounds ++ [feeds]),
          (m.episodesIn rounds feeds).head?.bind (Episode.left f)) := by
  rw [partAfter_snoc]
  exact next_pollOuter_entered _ _

/-- A value of the outer stream leaves nothing of the inner stream before. -/
theorem next_pollOuter_of_value {rounds : List Feeds} {a : α}
    (h : m.valueOf? feeds (m.partAfter (some m.start) rounds) = some a) :
    (m.pollOuter f feeds (m.followed f rounds)).next
      = (m.partAfter (some m.start) (rounds ++ [feeds]), some ⟨a, (f a).start⟩) := by
  rw [next_pollOuter_followed, episodesIn, h]
  rfl

/-- One more round. -/
theorem round_followed (rounds : List Feeds) :
    (m.round f feeds (m.followed f rounds)).next = m.followed f (rounds ++ [feeds])
      ∧ (m.episodes (rounds ++ [feeds])).reverse.flatMap (Episode.values f)
        = (m.episodes rounds).reverse.flatMap (Episode.values f)
          ++ (m.round f feeds (m.followed f rounds)).answer.value?.toList := by
  obtain ⟨hnext, hvalues⟩ := pollInner_newest (f := f) feeds
    (m.partAfter (some m.start) (rounds ++ [feeds])) (m.episodesIn rounds feeds)
  have hopened : (m.episodesIn rounds feeds).reverse.flatMap (Episode.values f)
      = (m.episodes rounds).reverse.flatMap (Episode.values f) := by
    unfold episodesIn
    cases m.valueOf? feeds (m.partAfter (some m.start) rounds) with
    | none => rfl
    | some a =>
      rw [Episode.entered, List.reverse_cons, List.flatMap_append]
      exact List.append_nil _
  rw [← next_pollOuter_followed] at hnext hvalues
  rw [hopened, ← episodes_snoc] at hvalues
  refine ⟨hnext.trans ?_, hvalues⟩
  rw [← episodes_snoc]
  rfl

/-- A round gives what the newest inner stream gives in it. -/
theorem answer_round_followed (rounds : List Feeds) (b : β) :
    (m.round f feeds (m.followed f rounds)).answer.value? = some b
      ↔ ∃ e : Episode α, (m.episodes (rounds ++ [feeds])).head? = some (e.longer feeds)
        ∧ e.GivesNext f feeds b := by
  have hround : (m.round f feeds (m.followed f rounds)).answer
      = (m.pollInner f feeds (m.pollOuter f feeds (m.followed f rounds)).next).answer := rfl
  rw [hround, next_pollOuter_followed, Answer.value?_eq_some_iff, episodes_snoc,
    List.head?_modifyHead]
  cases (m.episodesIn rounds feeds).head? with
  | none =>
    refine iff_of_false (by rintro ⟨⟩) ?_
    rintro ⟨e, ⟨⟩, -⟩
  | some e =>
    obtain ⟨-, -, hgives⟩ := pollInner_left (f := f) feeds
      (m.partAfter (some m.start) (rounds ++ [feeds])) e
    refine (hgives b).trans ⟨fun h => ⟨e, rfl, h⟩, ?_⟩
    rintro ⟨e', hsame, h⟩
    rwa [Episode.longer_injective (Option.some.inj hsame)]

theorem stateAfter_eq_followed (m : Machine α) (f : α → Machine β) (rounds : List Feeds) :
    (m.byRounds f).stateAfter (m.byRounds f).start rounds = m.followed f rounds := by
  induction rounds using List.reverseRecOn with
  | nil => rfl
  | append_singleton rounds feeds ih =>
    rw [stateAfter_snoc]
    unfold pollAfter
    rw [ih]
    exact (round_followed rounds).1

theorem shown_eq_values (m : Machine α) (f : α → Machine β) (rounds : List Feeds) :
    valuesOf ((m.byRounds f).shown rounds)
      = (m.episodes rounds).reverse.flatMap (Episode.values f) := by
  induction rounds using List.reverseRecOn with
  | nil => rfl
  | append_singleton rounds feeds ih =>
    rw [valuesOf_shown_snoc, ih, (round_followed rounds).2]
    unfold pollAfter
    rw [stateAfter_eq_followed]
    rfl

/-! ### A run of polls -/

/-- **A poll gives what the newest inner stream gives** in the last round. -/
theorem pollAfter_switchMap_eq_value (m : Machine α) (f : α → Machine β) (schedule : List Feeds)
    (feeds : Feeds) (b : β) :
    ((m.switchMap f).pollAfter schedule feeds).answer = .value b
      ↔ ∃ e : Episode α,
        (m.episodes (m.roundsUnder f (schedule ++ [feeds]))).head? = some (e.longer feeds)
        ∧ e.GivesNext f feeds b := by
  obtain ⟨before, hrounds, -, hlast⟩ := exists_lastRound_after m f schedule feeds
  rw [hrounds, ← answer_round_followed, ← Answer.value?_eq_some_iff, hlast]
  unfold pollAfter
  rw [stateAfter_eq_followed]
  rfl

/-- **What has been given** by then, episode by episode. -/
theorem valuesOf_shown_switchMap (m : Machine α) (f : α → Machine β) (schedule : List Feeds) :
    valuesOf ((m.switchMap f).shown schedule)
      = (m.episodes (m.roundsUnder f schedule)).reverse.flatMap (Episode.values f) := by
  rw [valuesOf_roundsUnder, shown_eq_values]

/-! ### Calls of the projection -/

/-- The value with which a round calls the projection, which it does if it replaces the inner
stream. -/
def calledWith (m : Machine α) (f : α → Machine β) (feeds : Feeds) (s : SwitchState m f) :
    Option α :=
  match (m.pollOuter f feeds s).answer with
  | .value () => (m.pollOuter f feeds s).next.2.map Sigma.fst
  | _ => none

/-- **The calls of the projection** in some rounds, in order. -/
def callsIn (m : Machine α) (f : α → Machine β) : SwitchState m f → List Feeds → List α
  | _, [] => []
  | s, feeds :: rounds =>
    (m.calledWith f feeds s).toList ++ callsIn m f (m.round f feeds s).next rounds

theorem calledWith_eq (s : SwitchState m f) : m.calledWith f feeds s = m.valueOf? feeds s.1 := by
  unfold calledWith
  fun_cases Machine.pollOuter m f feeds s with
  | case1 => rfl
  | case2 s inner p a hp => exact (congrArg Answer.value? hp).symm
  | case3 s inner p hp => exact congrArg Answer.value? hp.symm
  | case4 s inner p hp => exact congrArg Answer.value? hp.symm

/-- **The projection is called once for each value** of the outer stream, in order. -/
theorem callsIn_eq (s : SwitchState m f) (rounds : List Feeds) :
    m.callsIn f s rounds = valuesOf (m.replayPart s.1 rounds) := by
  induction rounds generalizing s with
  | nil => cases s.1 <;> rfl
  | cons feeds rounds ih =>
    rw [callsIn, calledWith_eq, ih, part_round, ← valuesOf_replayPart_singleton, ← valuesOf_append]
    exact congrArg valuesOf (replayPart_append s.1 [feeds] rounds).symm

/-! ### The end -/

/-- An inner stream that gives a value is still there after that. -/
theorem inner_of_pollInner {s : SwitchState m f} {b : β}
    (h : (m.pollInner f feeds s).answer = .value b) : (m.pollInner f feeds s).next.2 ≠ none := by
  revert h
  fun_cases Machine.pollInner m f feeds s with
  | case1 => rintro ⟨⟩
  | case2 => rintro - ⟨⟩
  | case3 => rintro ⟨⟩
  | case4 => rintro ⟨⟩

/-- Only a switching stream that has ended has nothing left of its parts. -/
theorem pollSwitch_ended_iff (s : SwitchState m f) :
    (m.pollSwitch f feeds s).answer = .ended ↔ (m.pollSwitch f feeds s).next = (none, none) := by
  refine ⟨next_pollSwitch_of_ended, ?_⟩
  fun_induction pollSwitch m f feeds s with
  | case1 s p q b hb =>
    exact fun hnone => absurd (congrArg Prod.snd hnone) (inner_of_pollInner (s := p.next) hb)
  | case2 s p q hp hq ih => exact ih
  | case3 => exact fun _ => rfl
  | case4 s p q hgoes =>
    intro hnone
    refine absurd ?_ hgoes
    rw [show q.next = (none, none) from hnone]
    rfl

theorem hasEnded_iff_stateAfter (m : Machine α) (f : α → Machine β) (schedule : List Feeds) :
    (m.switchMap f).HasEnded schedule
      ↔ (m.switchMap f).stateAfter (m.switchMap f).start schedule = (none, none) := by
  induction schedule using List.reverseRecOn with
  | nil =>
    refine iff_of_false ?_ ?_
    · rintro ⟨p, ⟨⟩, -⟩
    · rintro ⟨⟩
  | append_singleton schedule feeds ih =>
    rw [hasEnded_snoc, stateAfter_snoc, ih]
    refine ⟨?_, fun hnone => .inr ((pollSwitch_ended_iff _).2 hnone)⟩
    rintro (hnone | hended)
    · unfold pollAfter
      rw [hnone]
      exact congrArg Polled.next (pollSwitch_over m f feeds)
    · exact (pollSwitch_ended_iff _).1 hended

/-- **The end has come** once the outer stream and the newest inner stream have ended. -/
theorem hasEnded_switchMap_iff (m : Machine α) (f : α → Machine β) (schedule : List Feeds) :
    (m.switchMap f).HasEnded schedule
      ↔ m.Done (m.roundsUnder f schedule)
        ∧ ∀ e, (m.episodes (m.roundsUnder f schedule)).head? = some e →
          (f e.opener).Done e.rounds := by
  rw [hasEnded_iff_stateAfter, stateAfter_roundsUnder, stateAfter_eq_followed]
  refine Prod.ext_iff.trans (and_congr Iff.rfl ?_)
  show (m.episodes _).head?.bind (Episode.left f) = none ↔ _
  rw [Option.bind_eq_none_iff]
  exact forall₂_congr fun e _ => Option.map_eq_none_iff

theorem pollAfter_switchMap_of_hasEnded {schedule : List Feeds} (feeds : Feeds)
    (h : (m.switchMap f).HasEnded schedule) :
    (m.switchMap f).stateAfter (m.switchMap f).start schedule = (none, none)
      ∧ (m.switchMap f).pollAfter schedule feeds = ⟨.ended, (none, none), false, []⟩ := by
  have hstate := (hasEnded_iff_stateAfter m f schedule).1 h
  refine ⟨hstate, ?_⟩
  unfold pollAfter
  rw [hstate]
  exact pollSwitch_over m f feeds

/-! ## Numbered values -/

/-- A part of a stream of numbered values: the part of the stream below, and the next number. -/
def numbered (m : Machine α) (part : Option m.State) (next : Nat) : Option m.enumerate.State :=
  part.map (·, next)

theorem valueOf?_numbered (part : Option m.State) (next : Nat) :
    m.enumerate.valueOf? feeds (m.numbered part next) = (m.valueOf? feeds part).map (next, ·) := by
  cases part with
  | none => rfl
  | some s =>
    show (m.pollEnumerated feeds (s, next)).answer.value? = _
    cases hp : (m.poll feeds s).answer <;> simp [pollEnumerated, valueOf?, hp, Answer.value?]

theorem remainder_numbered (part : Option m.State) (next : Nat) :
    m.enumerate.remainder feeds (m.numbered part next)
      = m.numbered (m.remainder feeds part)
          (next + (m.valueOf? feeds part).toList.length) := by
  cases part with
  | none => rfl
  | some s =>
    have hpoll : m.enumerate.poll feeds (s, next) = m.pollEnumerated feeds (s, next) := rfl
    cases hp : (m.poll feeds s).answer with
    | value a =>
      rw [remainder_of_value hp]
      refine (remainder_of_value (m := m.enumerate) (a := (next, a)) ?_).trans ?_
      · rw [hpoll, pollEnumerated, hp]
      · simp only [hpoll, pollEnumerated, valueOf?, hp, Option.bind_some]
        rfl
    | ended =>
      rw [remainder_of_ended hp]
      refine remainder_of_ended (m := m.enumerate) ?_
      rw [hpoll, pollEnumerated, hp]
    | pending =>
      rw [remainder_of_pending hp]
      refine (remainder_of_pending (m := m.enumerate) ?_).trans ?_
      · rw [hpoll, pollEnumerated, hp]
      · simp only [hpoll, pollEnumerated, valueOf?, hp, Option.bind_some]
        rfl

theorem partAfter_enumerate (m : Machine α) (rounds : List Feeds) :
    m.enumerate.partAfter (some m.enumerate.start) rounds
      = m.numbered (m.partAfter (some m.start) rounds) (m.given rounds).length := by
  induction rounds using List.reverseRecOn with
  | nil => rfl
  | append_singleton rounds feeds ih =>
    rw [partAfter_snoc, ih, remainder_numbered, partAfter_snoc, given_concat, List.length_append]

/-- **The values are numbered** in the order in which they are given. -/
theorem given_enumerate (m : Machine α) (rounds : List Feeds) :
    m.enumerate.given rounds = (m.given rounds).mapIdx Prod.mk := by
  induction rounds using List.reverseRecOn with
  | nil => rfl
  | append_singleton rounds feeds ih =>
    rw [given_concat, given_concat, ih, partAfter_enumerate, valueOf?_numbered]
    cases m.valueOf? feeds (m.partAfter (some m.start) rounds) with
    | none =>
      rw [Option.toList_none, List.append_nil]
      exact List.append_nil _
    | some a => exact List.mapIdx_concat.symm

/-! ## All of it -/

/-- **A switching stream follows only the newest inner stream**, whatever the outer stream and the
inner ones do. -/
structure FollowsNewest (m : Machine α) (f : α → Machine β) : Prop where
  /-- A run of polls is the run of its rounds. -/
  steps (schedule : List Feeds) :
    (m.switchMap f).stateAfter (m.switchMap f).start schedule
      = (m.byRounds f).stateAfter (m.byRounds f).start (m.roundsUnder f schedule)
  /-- The projection is called once for each value that the outer stream has given, in order. -/
  calls (schedule : List Feeds) :
    m.callsIn f (m.byRounds f).start (m.roundsUnder f schedule) = m.given (m.roundsUnder f schedule)
  /-- Each of these values opens an episode, in order. -/
  opens (rounds : List Feeds) : ((m.episodes rounds).map Episode.opener).reverse = m.given rounds
  /-- An episode begins with the round in which its value is given, and has all rounds since, up to
  the next one. -/
  spans {rounds : List Feeds} {e : Episode α} {older : List (Episode α)} :
    m.episodes rounds = e :: older →
      ∃ earlier feeds later, rounds = earlier ++ feeds :: later ∧ e.rounds = feeds :: later
        ∧ m.valueOf? feeds (m.partAfter (some m.start) earlier) = some e.opener
        ∧ m.episodes earlier = older
  /-- After any rounds the outer stream is where they lead it, and of the inner streams only the
  newest is left, which has been polled once in each round of its episode. -/
  along (rounds : List Feeds) :
    (m.byRounds f).stateAfter (m.byRounds f).start rounds
      = (m.partAfter (some m.start) rounds, (m.episodes rounds).head?.bind (Episode.left f))
  /-- In a round in which the outer stream gives a value, the inner stream before is gone when the
  new one is polled for the first time. -/
  drops {rounds : List Feeds} {feeds : Feeds} {a : α} :
    m.valueOf? feeds (m.partAfter (some m.start) rounds) = some a →
      (m.pollOuter f feeds ((m.byRounds f).stateAfter (m.byRounds f).start rounds)).next
        = (m.partAfter (some m.start) (rounds ++ [feeds]), some ⟨a, (f a).start⟩)
  /-- A poll gives a value if the newest inner stream gives it in the last round, and not
  otherwise. -/
  answers (schedule : List Feeds) (feeds : Feeds) (b : β) :
    ((m.switchMap f).pollAfter schedule feeds).answer = .value b
      ↔ ∃ e : Episode α,
        (m.episodes (m.roundsUnder f (schedule ++ [feeds]))).head? = some (e.longer feeds)
        ∧ e.GivesNext f feeds b
  /-- What has been given is what the inner streams have given, each in its episode, in order. -/
  gives (schedule : List Feeds) :
    valuesOf ((m.switchMap f).shown schedule)
      = (m.episodes (m.roundsUnder f schedule)).reverse.flatMap (Episode.values f)
  /-- The end has come if the outer stream and the newest inner stream, if there is one, have ended,
  and not before. -/
  ends (schedule : List Feeds) :
    (m.switchMap f).HasEnded schedule
      ↔ m.Done (m.roundsUnder f schedule)
        ∧ ∀ e, (m.episodes (m.roundsUnder f schedule)).head? = some e →
          (f e.opener).Done e.rounds
  /-- After the end no part is left that could be polled, and the answer stays the same. -/
  stays {schedule : List Feeds} (feeds : Feeds) : (m.switchMap f).HasEnded schedule →
    (m.switchMap f).stateAfter (m.switchMap f).start schedule = (none, none)
      ∧ (m.switchMap f).pollAfter schedule feeds = ⟨.ended, (none, none), false, []⟩

/-- **A switching stream follows only the newest inner stream.** If the projection goes by how often
it has been called, its calls are numbered like the values. -/
theorem switchMap_follows_newest (m : Machine α) (f : α → Machine β)
    (project : Nat × α → Machine β) :
    FollowsNewest m f
      ∧ ∀ schedule,
        m.enumerate.callsIn project (m.enumerate.byRounds project).start
            (m.enumerate.roundsUnder project schedule)
          = (m.given (m.enumerate.roundsUnder project schedule)).mapIdx Prod.mk := by
  refine ⟨?_, fun schedule => (callsIn_eq _ _).trans (given_enumerate m _)⟩
  constructor
  case steps => exact stateAfter_roundsUnder m f
  case calls => exact fun schedule => callsIn_eq _ _
  case opens => exact openers_episodes m
  case spans => exact exists_span
  case along => exact stateAfter_eq_followed m f
  case drops =>
    intro rounds feeds a ha
    rw [stateAfter_eq_followed]
    exact next_pollOuter_of_value ha
  case answers => exact pollAfter_switchMap_eq_value m f
  case gives => exact valuesOf_shown_switchMap m f
  case ends => exact hasEnded_switchMap_iff m f
  case stays => exact pollAfter_switchMap_of_hasEnded

/-- In the third poll two values of the outer stream are taken, since the stream that the first of
them opens is silent. The third value of the stream before is never heard. -/
example (feeds : Feeds) :
    (((recital [⟨.value 10, (), false, []⟩, ⟨.pending, (), false, []⟩, ⟨.value 5, (), false, []⟩,
        ⟨.value 7, (), false, []⟩, ⟨.ended, (), false, []⟩]).switchMap fun n =>
          if n = 10 then recital [⟨.value 1, (), false, []⟩, ⟨.value 2, (), false, []⟩,
            ⟨.value 3, (), false, []⟩]
          else if n = 5 then recital []
          else just n).shown [feeds, feeds, feeds, feeds]).map Polled.answer
      = [.value 1, .value 2, .value 7, .ended] := by cbv

end Machine

end AccessPolicy
