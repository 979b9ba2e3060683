import AccessPolicy.Stream.Source

/-!
# Running a stream

Draining a stream polls it until it ends or until a poll neither gives a value nor wakes the
poller; then the stream is at rest. A session is a stream in the course of its use: its state,
if it has not been dropped, the feeds, and what all polls so far reported. Setting or closing a
feed changes the feeds and nothing else; whoever uses the session drains it when it is due.
-/

namespace AccessPolicy

/-- What draining a stream gave. -/
structure Drained (σ α : Type) where
  values : List α
  ended : Bool
  state : σ
  log : List Event

namespace Machine

open Descent

variable {α : Type}

/-- Polls a stream until it ends or comes to rest. -/
def drain (m : Machine α) (feeds : Feeds) (s : m.State) : Drained m.State α :=
  let p := m.poll feeds s
  match _h : p.answer with
  | .value a =>
    let rest := drain m feeds p.next
    ⟨a :: rest.values, rest.ended, rest.state, p.log ++ rest.log⟩
  | .ended => ⟨[], true, p.next, p.log⟩
  | .pending =>
    if _w : p.woken = true then
      let rest := drain m feeds p.next
      ⟨rest.values, rest.ended, rest.state, p.log ++ rest.log⟩
    else ⟨[], false, p.next, p.log⟩
termination_by (⟨s⟩ : Bound (m.descent feeds))
decreasing_by
  · exact (m.respects feeds s).advances (.inl ⟨_, _h⟩)
  · exact (m.respects feeds s).advances (.inr _w)

/-- What a stream gives when it is drained once. -/
def run (m : Machine α) (feeds : Feeds) : Drained m.State α := m.drain feeds m.start

end Machine

namespace Feeds

/-- Sets the value of a feed. -/
def set (feeds : Feeds) (source : String) (v : Value) : Feeds :=
  let feed := feeds.feed source
  Dict.insert feeds source { feed with version := feed.version + 1, latest := some v }

/-- Closes a feed. -/
def close (feeds : Feeds) (source : String) : Feeds :=
  Dict.insert feeds source { feeds.feed source with closed := true }

end Feeds

/-- What can happen to a session between two drains. -/
inductive Change where
  | set (source : String) (v : Value)
  | close (source : String)
  | drop

/-- A stream in the course of its use. No state is left when the stream has been dropped. -/
structure Session {α : Type} (m : Machine α) where
  state : Option m.State
  feeds : Feeds
  log : List Event

namespace Session

variable {α : Type} {m : Machine α}

/-- The session of a stream that has not been polled. -/
def start (m : Machine α) (feeds : Feeds) : Session m := ⟨some m.start, feeds, []⟩

/-- Drains the stream: its values, whether it ended, and the session after that. A dropped
stream gives nothing and does not end. -/
def drain (s : Session m) : List α × Bool × Session m :=
  match s.state with
  | none => ([], false, s)
  | some state =>
    let d := m.drain s.feeds state
    (d.values, d.ended, { s with state := some d.state, log := s.log ++ d.log })

/-- Changes what a session runs in, or drops its stream. -/
def change (s : Session m) : Change → Session m
  | .set source v => { s with feeds := s.feeds.set source v }
  | .close source => { s with feeds := s.feeds.close source }
  | .drop => { s with state := none }

/-- The subscriptions that the stream holds open. -/
def live (s : Session m) : List Subscription := s.state.elim [] m.live

/-- How many subscriptions of a source are open. -/
def openCount (s : Session m) (source : String) : Nat :=
  s.live.countP fun subscription => subscription.source == source

end Session

end AccessPolicy
