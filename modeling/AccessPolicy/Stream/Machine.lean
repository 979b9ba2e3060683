import AccessPolicy.Stream.Descent
import AccessPolicy.Value.Fault

/-!
# Streams that are polled

A stream produces values when it is asked to. A *poll* answers with a value, with the end, or
with *pending*; it may also wake the poller, which then asks again. Polling reads the feeds,
which are all that is seen of the world outside, and never changes them, so between two changes
of the feeds a stream is a machine that runs on its own: each poll that yields a value or wakes
the poller goes down in the stream's descent, and any other poll goes down or leaves the state
alone. Hence a stream always comes to rest.

There are two kinds of streams. A *supply* is what a host provides to somebody who asks for an
attribute, and nothing else is known of it. A *machine* is put together by the evaluation; its
states list the subscriptions that it holds open, and its polls report the subscriptions that
they opened and the functions that they called, in order.
-/

namespace AccessPolicy

/-! ## What a stream sees and does -/

/-- The current state of something outside that changes: how often its value has been set, the
latest value, and whether it is closed. -/
structure Feed where
  version : Nat
  latest : Option Value
  closed : Bool

/-- The state of the world outside: the feeds of everything that changes, by name. -/
abbrev Feeds := Dict String Feed

/-- The value of a feed that has not been seen by one who saw a version of it. -/
def Feed.unseen? (feed : Feed) (seen : Nat) : Option Value :=
  if seen < feed.version then feed.latest else none

theorem Feed.lt_of_unseen? {feed : Feed} {seen : Nat} {v : Value}
    (h : feed.unseen? seen = some v) : seen < feed.version := by
  unfold Feed.unseen? at h
  split at h
  · next hlt => exact hlt
  · cases h

/-- The feed of some name; one that was never set is empty. -/
def Feeds.feed (feeds : Feeds) (name : String) : Feed :=
  (Dict.get? feeds name).getD ⟨0, none, false⟩

/-- Something that a poll does to the world around the stream. -/
inductive Event where
  | opened (source : String)
  | called (function : String)
deriving DecidableEq, Repr

/-- What a poll answers. -/
inductive Answer (α : Type) where
  | value (a : α)
  | ended
  | pending

/-- The result of a poll. -/
structure Polled (σ α : Type) where
  answer : Answer α
  next : σ
  woken : Bool := false
  log : List Event := []

namespace Polled

variable {σ τ α β : Type}

/-- Whether a poll promises that another one makes progress. -/
def Advances (p : Polled σ α) : Prop := (∃ a, p.answer = .value a) ∨ p.woken = true

/-- The result of a poll after one that is not reported on its own. -/
def after (p : Polled σ α) (woken : Bool) (log : List Event) : Polled σ α :=
  { p with woken := woken || p.woken, log := log ++ p.log }

theorem Advances.of_ended {p : Polled σ α} {t : τ} {log : List Event}
    (h : (⟨.ended, t, p.woken, log⟩ : Polled τ β).Advances) : p.Advances := by
  rcases h with ⟨_, h⟩ | h
  · cases h
  · exact .inr h

theorem Advances.of_pending {p : Polled σ α} {t : τ} {log : List Event}
    (h : (⟨.pending, t, p.woken, log⟩ : Polled τ β).Advances) : p.Advances := by
  rcases h with ⟨_, h⟩ | h
  · cases h
  · exact .inr h

/-- A descent is respected by a poll if it goes down when the poll advances, and never up. -/
structure Respects (d : Descent σ) (s : σ) (p : Polled σ α) : Prop where
  advances : p.Advances → d.Below p.next s
  atMost : d.AtMost p.next s

theorem Respects.of_below {d : Descent σ} {s : σ} {p : Polled σ α} (h : d.Below p.next s) :
    Respects d s p := ⟨fun _ => h, .inr h⟩

/-- An end that leaves the state alone respects every descent. -/
theorem Respects.ended_at {d : Descent σ} (s : σ) :
    Respects d s (⟨.ended, s, false, []⟩ : Polled σ α) :=
  ⟨fun h => by (rcases h with ⟨_, h⟩ | h <;> cases h), .inl rfl⟩

/-- A pending answer that leaves the state alone respects every descent. -/
theorem Respects.pending_at {d : Descent σ} (s : σ) :
    Respects d s (⟨.pending, s, false, []⟩ : Polled σ α) :=
  ⟨fun h => by (rcases h with ⟨_, h⟩ | h <;> cases h), .inl rfl⟩

/-- A poll that only passes on what another poll did respects a descent if that one does. -/
theorem Respects.transfer {d : Descent σ} {e : Descent τ} {s : σ} {t : τ} {p : Polled σ α}
    {q : Polled τ β} (h : Respects d s p) (advances : q.Advances → p.Advances)
    (below : d.Below p.next s → e.Below q.next t) (same : p.next = s → q.next = t) :
    Respects e t q :=
  ⟨fun hq => below (h.advances (advances hq)), h.atMost.imp same below⟩

theorem Respects.after_below {d : Descent σ} {s t : σ} {p : Polled σ α} {woken : Bool}
    {log : List Event} (h : Respects d t p) (h' : d.Below t s) :
    Respects d s (p.after woken log) :=
  .of_below (Descent.AtMost.below h.atMost h')

/-- Two polls in a row respect a descent if each of them does. -/
theorem Respects.after {d : Descent σ} {s : σ} {p : Polled σ α} {q : Polled σ β}
    (h : Respects d s p) (h' : Respects d p.next q) :
    Respects d s (q.after p.woken p.log) where
  advances ha := by
    rcases ha with ha | ha
    · exact h.atMost.above (h'.advances (.inl ha))
    · rcases Bool.or_eq_true_iff.1 ha with hp | hq
      · exact h'.atMost.below (h.advances (.inr hp))
      · exact h.atMost.above (h'.advances (.inr hq))
  atMost := h'.atMost.trans h.atMost

/-- The result of a poll with a function applied to its value. The function may report what it
did, and the report follows that of the poll. -/
def mapReporting (p : Polled σ α) (f : α → β × List Event) : Polled σ β :=
  match p.answer with
  | .value a => ⟨.value (f a).1, p.next, p.woken, p.log ++ (f a).2⟩
  | .ended => ⟨.ended, p.next, p.woken, p.log⟩
  | .pending => ⟨.pending, p.next, p.woken, p.log⟩

theorem next_mapReporting (p : Polled σ α) (f : α → β × List Event) :
    (p.mapReporting f).next = p.next := by
  unfold mapReporting
  split <;> rfl

theorem Advances.of_mapReporting {p : Polled σ α} {f : α → β × List Event}
    (h : (p.mapReporting f).Advances) : p.Advances := by
  unfold mapReporting at h
  split at h
  · next a ha => exact .inl ⟨a, ha⟩
  · exact .of_ended h
  · exact .of_pending h

theorem Respects.mapReporting {d : Descent σ} {s : σ} {p : Polled σ α} (h : Respects d s p)
    (f : α → β × List Event) : Respects d s (p.mapReporting f) :=
  h.transfer .of_mapReporting (fun h => p.next_mapReporting f ▸ h)
    (fun h => p.next_mapReporting f ▸ h)

end Polled

/-- **A stream that a host provides** to one subscriber. It has states of its own, and what it
answers may depend on the feeds in any way. A poll may crash: then its value is the reason.

That it comes to rest is no more than that polling it comes to an end. A stream that is ready
for ever can keep those that poll it from ever returning; up to any number of polls it is the
same as one that comes to rest (`Supply.lasting`). -/
structure Supply : Type 1 where
  State : Type
  start : State
  poll : Feeds → State → Polled State (Except String Value)
  descent : Feeds → Descent State
  respects : ∀ (feeds : Feeds) (s : State), (poll feeds s).Respects (descent feeds) s

/-- An open subscription of a source: what the source has provided, and the state that it has
come to. No state is left after a crash. -/
structure Subscription : Type 1 where
  source : String
  supply : Supply
  state : Option supply.State

/-- A stream of values of a type. -/
structure Machine (α : Type) : Type 1 where
  State : Type
  start : State
  poll : Feeds → State → Polled State α
  live : State → List Subscription
  descent : Feeds → Descent State
  respects : ∀ (feeds : Feeds) (s : State), (poll feeds s).Respects (descent feeds) s

namespace Machine

variable {α β : Type}

open Polled Descent

/-! ## One stream -/

/-- The stream of one value. -/
def just (a : α) : Machine α where
  State := Bool
  start := true
  poll _ fresh := if fresh then ⟨.value a, false, false, []⟩ else ⟨.ended, false, false, []⟩
  live _ := []
  descent _ := .ofRank Bool.toNat
  respects _ fresh :=
    match fresh with
    | true => .of_below (Nat.zero_lt_one)
    | false => .ended_at _

/-- The stream of the results of a function, which may report what it did. -/
def mapReporting (m : Machine α) (f : α → β × List Event) : Machine β where
  State := m.State
  start := m.start
  poll feeds s := (m.poll feeds s).mapReporting f
  live := m.live
  descent := m.descent
  respects feeds s := (m.respects feeds s).mapReporting f

/-- The stream of the results of a function. -/
def map (m : Machine α) (f : α → β) : Machine β := m.mapReporting fun a => (f a, [])

end Machine

end AccessPolicy
