import AccessPolicy.Stream.Combine
import AccessPolicy.Stream.Distinct
import AccessPolicy.Stream.Head
import AccessPolicy.Stream.Session
import AccessPolicy.Stream.Switch

/-!
# What a stream holds open

A subscription stays open as long as the part of a stream that has opened it is kept. A switching
stream has room for one inner stream, so taking the next one lets go of the one before it with
everything that it holds, and a stream that has been dropped holds nothing. How many subscriptions
of a source there can be is therefore settled by how a stream is put together, in each of its
states alike, and no run of polls, however long, adds up to more.
-/

namespace AccessPolicy

namespace Machine

variable {α β : Type} {m : Machine α} {source : String} {n k : Nat}

/-! ## At most so many -/

/-- **A stream holds at most so many** subscriptions of a source, whatever state it is in. -/
def HoldsAtMost (m : Machine α) (source : String) (n : Nat) : Prop :=
  ∀ s, (m.live s).countP (fun subscription => subscription.source == source) ≤ n

/-- Several streams side by side hold at most so many together. -/
def RowHoldsAtMost (ms : List (Machine α)) (source : String) (n : Nat) : Prop :=
  ∀ slots, (Slots.live ms slots).countP (fun subscription => subscription.source == source) ≤ n

/-- A part that may have gone holds no more than one that has not. -/
theorem HoldsAtMost.part (h : m.HoldsAtMost source n) (state : Option m.State) :
    (state.elim [] m.live).countP (fun subscription => subscription.source == source) ≤ n := by
  cases state with
  | none => exact Nat.zero_le n
  | some s => exact h s

theorem holdsAtMost_just (a : α) (source : String) (n : Nat) : (just a).HoldsAtMost source n :=
  fun _ => Nat.zero_le n

theorem HoldsAtMost.mapReporting (h : m.HoldsAtMost source n) (f : α → β × List Event) :
    (m.mapReporting f).HoldsAtMost source n := h

theorem HoldsAtMost.map (h : m.HoldsAtMost source n) (f : α → β) :
    (m.map f).HoldsAtMost source n := h

theorem HoldsAtMost.distinct (h : m.HoldsAtMost source n) (same : α → α → Bool) :
    (m.distinct same).HoldsAtMost source n := fun s => h s.1

/-- What is kept open after a first value counts as well. -/
theorem HoldsAtMost.headed (h : m.HoldsAtMost source n) (head : Bool) :
    (if head then m.once else m).HoldsAtMost source n := by
  cases head with
  | true => exact fun s => h s.1
  | false => exact h

theorem rowHoldsAtMost_nil : RowHoldsAtMost ([] : List (Machine α)) source 0 :=
  fun _ => Nat.le_refl 0

theorem RowHoldsAtMost.cons {ms : List (Machine α)} (h : m.HoldsAtMost source n)
    (hs : RowHoldsAtMost ms source k) : RowHoldsAtMost (m :: ms) source (n + k) := by
  rintro ⟨⟨state, latest⟩, slots⟩
  show (state.elim [] m.live ++ Slots.live ms slots).countP _ ≤ n + k
  rw [List.countP_append]
  exact Nat.add_le_add (h.part state) (hs slots)

theorem RowHoldsAtMost.combine {ms : List (Machine α)} (h : RowHoldsAtMost ms source n) :
    (combineLatest ms).HoldsAtMost source n := by
  intro s
  cases s with
  | none => exact Nat.zero_le n
  | some slots => exact h slots

/-- **A switching stream** holds what its outer stream does and what one inner stream does, no
matter how many inner streams there have been. -/
theorem HoldsAtMost.switchMap {f : α → Machine β} (h : m.HoldsAtMost source n)
    (hf : ∀ a, (f a).HoldsAtMost source k) : (m.switchMap f).HoldsAtMost source (n + k) := by
  rintro ⟨outer, inner⟩
  show (outer.elim [] m.live ++ inner.elim [] fun i => (f i.1).live i.2).countP _ ≤ n + k
  rw [List.countP_append]
  refine Nat.add_le_add (h.part outer) ?_
  cases inner with
  | none => exact Nat.zero_le k
  | some i => exact hf i.1 i.2

theorem holdsAtMost_subscription (name : String) (supply : Supply) (source : String) :
    (subscription name supply).HoldsAtMost source (if name = source then 1 else 0) := by
  intro state
  show [(⟨name, supply, state⟩ : Subscription)].countP _ ≤ _
  rw [List.countP_singleton]
  simp only [beq_iff_eq]
  exact Nat.le_refl _

end Machine

open Machine

theorem Source.holdsAtMost_subscribe (item : Source) (name : String) (q : Query)
    (source : String) :
    (item.subscribe name q).HoldsAtMost source (if name = source then 1 else 0) := by
  unfold subscribe
  split
  · exact holdsAtMost_subscription name _ source
  · exact holdsAtMost_just _ source _

/-- What a source of some name answers holds at most one subscription, of that name. -/
theorem Sources.holdsAtMost_subscribe (sources : Sources) (name : String) (q : Query)
    (source : String) :
    (sources.subscribe name q).HoldsAtMost source (if name = source then 1 else 0) := by
  unfold subscribe
  split
  · exact holdsAtMost_just _ _ _
  · exact fun s => Source.holdsAtMost_subscribe _ name q source s.1

/-! ## Nothing before the first poll -/

namespace Machine

variable {α β : Type} {m : Machine α}

/-- **A stream that starts with nothing** holds no subscription until it is polled. -/
def StartsEmpty (m : Machine α) : Prop := m.live m.start = []

theorem startsEmpty_just (a : α) : (just a).StartsEmpty := rfl

theorem StartsEmpty.mapReporting (h : m.StartsEmpty) (f : α → β × List Event) :
    (m.mapReporting f).StartsEmpty := h

theorem StartsEmpty.map (h : m.StartsEmpty) (f : α → β) : (m.map f).StartsEmpty := h

theorem StartsEmpty.distinct (h : m.StartsEmpty) (same : α → α → Bool) :
    (m.distinct same).StartsEmpty := h

theorem StartsEmpty.headed (h : m.StartsEmpty) (head : Bool) :
    (if head then m.once else m).StartsEmpty := by
  cases head <;> exact h

/-- An inner stream, whatever it starts with, is opened by a poll. -/
theorem StartsEmpty.switchMap (h : m.StartsEmpty) (f : α → Machine β) :
    (m.switchMap f).StartsEmpty := (List.append_nil _).trans h

theorem startsEmpty_combineLatest {ms : List (Machine α)} (h : ∀ m ∈ ms, m.StartsEmpty) :
    (combineLatest ms).StartsEmpty := by
  show Slots.live ms (Slots.start ms) = []
  induction ms with
  | nil => rfl
  | cons m ms ih =>
    obtain ⟨hm, hms⟩ := List.forall_mem_cons.1 h
    show m.live m.start ++ Slots.live ms (Slots.start ms) = []
    rw [ih hms, List.append_nil]
    exact hm

end Machine

/-! ## Sessions, poll by poll -/

namespace Session

variable {α : Type} {m : Machine α} {source : String} {n : Nat}

/-- What can happen to a session, poll by poll. -/
inductive Move where
  | poll
  | drain
  | change (c : Change)

/-- Polls the stream once, unless it has been dropped. -/
def poll (s : Session m) : Session m :=
  match s.state with
  | none => s
  | some state =>
    let p := m.poll s.feeds state
    { s with state := some p.next, log := s.log ++ p.log }

/-- The session after a move. -/
def move (s : Session m) : Move → Session m
  | .poll => s.poll
  | .drain => s.drain.2.2
  | .change c => s.change c

/-- The session after some moves, one after another. -/
def after (s : Session m) (moves : List Move) : Session m := moves.foldl move s

theorem openCount_le (h : m.HoldsAtMost source n) (s : Session m) : s.openCount source ≤ n :=
  h.part s.state

theorem openCount_start (h : m.StartsEmpty) (feeds : Feeds) (source : String) :
    (start m feeds).openCount source = 0 := by
  show (m.live m.start).countP _ = 0
  rw [show m.live m.start = [] from h]
  rfl

/-- Nothing brings back a stream that has been dropped. -/
theorem state_move_of_dropped {s : Session m} (h : s.state = none) (action : Move) :
    (s.move action).state = none := by
  cases action with
  | poll =>
    show s.poll.state = none
    rwa [poll, h]
  | drain =>
    show s.drain.2.2.state = none
    rwa [drain, h]
  | change c =>
    cases c with
    | set source v => exact h
    | close source => exact h
    | drop => rfl

theorem state_after_of_dropped {s : Session m} (h : s.state = none) (moves : List Move) :
    (s.after moves).state = none := by
  induction moves generalizing s with
  | nil => exact h
  | cons action moves ih => exact ih (state_move_of_dropped h action)

/-- **Dropping a stream** closes everything that it holds, for good. -/
theorem openCount_after_drop (s : Session m) (moves : List Move) (source : String) :
    ((s.change .drop).after moves).openCount source = 0 := by
  have hstate : ((s.change .drop).after moves).state = none := state_after_of_dropped rfl moves
  rw [openCount, live, hstate]
  rfl

end Session

end AccessPolicy
