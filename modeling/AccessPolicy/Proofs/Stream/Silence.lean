import AccessPolicy.Proofs.Stream.Combine
import AccessPolicy.Proofs.Stream.Compositional
import AccessPolicy.Proofs.Stream.Switch

/-!
# Streams that end without a value

A stream is **barren** in a history if it has ended there and has never given a value. Nobody can
tell from such a stream what it was to say, and the streams that are built on it have nothing to
say either: a combination is starved by one barren part, and a stream that opens streams is barren
where the outer one is, or the one that it has opened.

None of the combinators makes a stream barren by itself. So a stream that is put together from
parts that are not barren is not barren, and where the first value is taken or another one if there
is none, that holds whatever the part does.
-/

namespace AccessPolicy

open Machine

namespace Machine

variable {α β : Type} {m : Machine α} {history : List Feeds}

/-- **A stream that ends without a value** in the course of a history. -/
def Barren (m : Machine α) (history : List Feeds) : Prop := m.Finished history none

/-- A stream that is barren in what there has been since a moment is barren in the whole
history. -/
theorem Barren.of_since {older newer : List Feeds} (h : m.Barren newer)
    (hs : Since older newer history) : m.Barren history := by
  obtain ⟨past, rfl⟩ := hs.newest
  obtain ⟨feeds, recent, s, ⟨latest, rfl⟩, h, hp⟩ := h
  exact ⟨feeds, recent ++ past, s, ⟨latest, by rw [List.append_assoc]; rfl⟩, h.extend past, hp⟩

/-- A stream of a single value is not barren. -/
theorem Gives.not_barren {a : α} (h : m.Gives a) : ¬ m.Barren history :=
  fun hs => Option.some_ne_none a (h.rests (.inl hs)).symm

/-- It ends with that value. -/
theorem Gives.finished {a : α} (h : m.Gives a) (feeds : Feeds) (past : List Feeds) :
    m.Finished (feeds :: past) (some a) :=
  ((Reached.opened (feeds :: past)).of_value (h.first feeds)).finished (h.second feeds feeds)

/-! ## What the combinators do with silence -/

theorem barren_mapReporting {f : α → β × List Event} (h : (m.mapReporting f).Barren history) :
    m.Barren history := by
  obtain ⟨feeds, past, s, hs, h, hp⟩ := h
  obtain ⟨last, hm, hlast⟩ := reached_mapReporting h
  obtain rfl := Option.map_eq_none_iff.1 hlast.symm
  refine ⟨feeds, past, s, hs, hm, ?_⟩
  change ((m.poll feeds s).mapReporting f).answer = .ended at hp
  unfold Polled.mapReporting at hp
  split at hp
  · cases hp
  · next hend => exact hend
  · cases hp

/-- **A combination is barren** only if one of its streams is. -/
theorem barren_combineLatest {ms : List (Machine α)} (h : (combineLatest ms).Barren history) :
    ∃ m ∈ ms, m.Barren history := by
  obtain ⟨feeds, past, s, hs, h, hp⟩ := h
  obtain ⟨hnext, hend, -⟩ := (reached_combineLatest h).poll
  rw [hend hp, show (pollCombined ms feeds s).answer = .ended from hp] at hnext
  cases hnext with
  | starved hstarved =>
    obtain ⟨m, hm, hfinished⟩ := hstarved
    exact ⟨m, hm, hfinished.mono hs⟩

/-- **A stream that opens streams is barren** only if the outer one is, or one that it has opened
has been since. -/
theorem barren_switchMap {f : α → Machine β} (h : (m.switchMap f).Barren history) :
    m.Barren history
      ∨ ∃ a older newer, Since older newer history ∧ m.Emitted older a ∧ (f a).Barren newer := by
  obtain ⟨feeds, past, s, hs, h, hp⟩ := h
  obtain ⟨hfollowing, -⟩ := reached_switchMap h
  obtain ⟨hnext, -, hend, -⟩ := poll_switchMap s none hfollowing
  rw [hend hp, show (m.pollSwitch f feeds s).answer = .ended from hp] at hnext
  cases hnext.mono hs with
  | silent houter => exact .inl houter
  | @opened _ a _ given _ older newer _ hsince ha hinner hlast =>
    cases hinner with
    | ended hfinished =>
      obtain rfl : given = none :=
        Option.eq_none_iff_forall_ne_some.2 fun b hb => Option.some_ne_none b (hlast b hb).symm
      exact .inr ⟨a, older, newer, hsince, ha, hfinished⟩

theorem barren_distinct {same : α → α → Bool} (h : (m.distinct same).Barren history) :
    m.Barren history := by
  obtain ⟨feeds, past, s, hs, h, hp⟩ := h
  obtain ⟨hpassed, ⟨given, hm, hl⟩, -⟩ := reached_distinct h
  obtain ⟨-, -, -, hend, -⟩ := poll_distinct same s.1 s.2 given hm hl
  obtain ⟨given, hfinished, hl⟩ := hend hp
  rw [hpassed] at hl
  cases given with
  | none => exact hfinished.mono hs
  | some a => exact hl.elim

/-- How a stream is doing of which only the first value is taken. -/
theorem reached_once {s : m.once.State} {last : Option α} (h : m.once.Reached history s last) :
    if s.2 then m.Reached history s.1 none ∧ last = none
    else last = none → m.Barren history := by
  induction h with
  | opened history => exact ⟨.opened history, rfl⟩
  | @later history s _ feeds _ ih =>
    obtain ⟨s, fresh⟩ := s
    cases fresh with
    | true => exact ⟨.later feeds ih.1, ih.2⟩
    | false => exact fun hlast => (ih hlast).mono (List.suffix_cons _ _)
  | @polled feeds past s last _ ih =>
    obtain ⟨s, fresh⟩ := s
    show if (m.pollOnce feeds (s, fresh)).next.2 = true then _ else _
    cases fresh with
    | false => exact ih
    | true =>
      obtain ⟨hm, rfl⟩ := ih
      cases hp : (m.poll feeds s).answer with
      | value a =>
        simp only [Machine.once, pollOnce, hp, Answer.value?]
        rintro ⟨⟩
      | ended =>
        simp only [Machine.once, pollOnce, hp]
        exact fun _ => hm.finished hp
      | pending =>
        simp only [Machine.once, pollOnce, hp]
        exact ⟨hm.of_pending hp, rfl⟩

theorem barren_once (h : m.once.Barren history) : m.Barren history := by
  obtain ⟨feeds, past, ⟨s, fresh⟩, hs, h, hp⟩ := h
  have hpart := reached_once h
  cases fresh with
  | false => exact (hpart rfl).mono hs
  | true =>
    refine Finished.mono (hpart.1.finished ?_) hs
    change (m.pollOnce feeds (s, true)).answer = .ended at hp
    cases hend : (m.poll feeds s).answer with
    | ended => rfl
    | value a => simp [pollOnce, hend] at hp
    | pending => simp [pollOnce, hend] at hp

/-- A stream with another value after its end has given that value when it is over. -/
theorem reached_followedBy {last : α} {s : (m.followedBy last).State} {given : Option α}
    (h : (m.followedBy last).Reached history s given) : s = none → given ≠ none := by
  induction h with
  | opened => rintro ⟨⟩
  | later _ _ ih => exact ih
  | @polled feeds past s given _ ih =>
    show (m.pollFollowed last feeds s).next = none → _
    cases s with
    | none => exact ih
    | some s =>
      cases hp : (m.poll feeds s).answer with
      | value a =>
        simp only [pollFollowed, hp]
        rintro ⟨⟩
      | ended =>
        simp only [followedBy, pollFollowed, hp]
        exact fun _ => Option.some_ne_none last
      | pending =>
        simp only [pollFollowed, hp]
        rintro ⟨⟩

/-- **A stream with another value after its end** is not barren, whatever the stream does. -/
theorem not_barren_followedBy (m : Machine α) (last : α) :
    ¬ (m.followedBy last).Barren history := by
  rintro ⟨feeds, past, s, -, h, hp⟩
  cases s with
  | none => exact reached_followedBy h rfl rfl
  | some s =>
    change (m.pollFollowed last feeds (some s)).answer = .ended at hp
    cases hend : (m.poll feeds s).answer <;> simp [pollFollowed, hend] at hp

/-! ## Streams that end at once -/

/-- A stream is **mute** if it ends at once, whatever the feeds are. -/
def Mute (m : Machine α) : Prop := ∀ feeds, (m.poll feeds m.start).answer = .ended

theorem Mute.barren (h : m.Mute) (feeds : Feeds) (past : List Feeds) :
    m.Barren (feeds :: past) :=
  (Reached.opened _).finished (h feeds)

/-- Running a mute stream gives the end and nothing else. -/
theorem Mute.run (h : m.Mute) (feeds : Feeds) :
    (m.run feeds).values = [] ∧ (m.run feeds).ended = true := by
  unfold Machine.run
  fun_cases Machine.drain m feeds m.start with
  | case1 p a hp => cases hp.symm.trans (h feeds)
  | case2 p hp => exact ⟨rfl, rfl⟩
  | case3 p hp => cases hp.symm.trans (h feeds)
  | case4 p hp => cases hp.symm.trans (h feeds)

theorem Mute.distinct (h : m.Mute) (same : α → α → Bool) : (m.distinct same).Mute :=
  fun feeds => (pollDistinct_of_ended (h feeds)).1

/-- A mute stream opens no other one. -/
theorem Mute.switchMap (h : m.Mute) (f : α → Machine β) : (m.switchMap f).Mute := by
  intro feeds
  show (m.pollSwitch f feeds (some m.start, none)).answer = .ended
  rw [pollSwitch]
  simp [pollOuter, finishRound, pollInner, Polled.after, h feeds]

/-- Nor does it help to open a mute one. -/
theorem Gives.mute_switchMap {f : α → Machine β} {a : α} (h : m.Gives a) (hf : (f a).Mute) :
    (m.switchMap f).Mute := by
  intro feeds
  -- in the first round the inner stream is opened and ends, in the second one the outer one ends
  have hfirst : m.pollOuter f feeds (some m.start, none)
      = ⟨.value (), (some (m.poll feeds m.start).next, some ⟨a, (f a).start⟩),
          (m.poll feeds m.start).woken, (m.poll feeds m.start).log⟩ := by
    simp only [pollOuter, h.first feeds]
  have hlast : (m.pollSwitch f feeds (some (m.poll feeds m.start).next, none)).answer = .ended := by
    rw [pollSwitch]
    simp [pollOuter, finishRound, pollInner, Polled.after, h.second feeds feeds]
  show (m.pollSwitch f feeds (some m.start, none)).answer = .ended
  rw [pollSwitch]
  simp only [hfirst, finishRound, pollInner, Polled.after, hf feeds]
  split
  · exact hlast
  · next hne => exact absurd (congrArg Polled.answer hfirst) hne

end Machine

/-- **Silence is not made by a combinator.** -/
theorem compositional_not_barren (history : List Feeds) :
    Compositional fun m => ¬ m.Barren history where
  just a := (gives_just a).not_barren
  mapReporting _ _ h := fun hs => h (barren_mapReporting hs)
  combine h := fun hs => by
    obtain ⟨m, hm, hbarren⟩ := barren_combineLatest hs
    exact h m hm hbarren
  switch h hf := fun hs => by
    rcases barren_switchMap hs with hbarren | ⟨a, older, newer, hsince, -, hbarren⟩
    · exact h hbarren
    · exact hf a (hbarren.of_since hsince)
  distinct _ h := fun hs => h (barren_distinct hs)
  once h := fun hs => h (barren_once hs)
  first last _ := fun hs => not_barren_followedBy _ last (barren_once hs)

end AccessPolicy
