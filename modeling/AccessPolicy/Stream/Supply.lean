import AccessPolicy.Stream.Machine

/-!
# What hosts provide

A host may provide any stream. Some kinds are common. A *script* replays its items. A *watch*
holds a latest value: a subscriber gets the value that it has not seen yet, and the end once the
watch is closed and nothing is left unseen. A *channel* passes on every message, in order.

Nothing is needed of a host for finitely many polls: a stream that *lasts* for a number of polls
answers them in any way whatsoever, and hangs after that.
-/

namespace AccessPolicy

/-- An item of a script. -/
inductive Item where
  | value (v : Value)
  | yield
  | hang
  | crash (reason : String)

namespace Supply

open Polled Descent

/-! ## Scripts -/

/-- Polls for the next item. A crash is the last one. -/
def pollScript : List Item → Polled (List Item) (Except String Value)
  | [] => ⟨.ended, [], false, []⟩
  | .value v :: rest => ⟨.value (.ok v), rest, false, []⟩
  | .yield :: rest => ⟨.pending, rest, true, []⟩
  | .hang :: rest => ⟨.pending, .hang :: rest, false, []⟩
  | .crash reason :: _ => ⟨.value (.error reason), [], false, []⟩

theorem respects_pollScript (items : List Item) :
    (pollScript items).Respects (.ofRank List.length) items := by
  fun_cases pollScript items with
  | case1 => exact .ended_at _
  | case2 v rest => exact .of_below (Nat.lt_succ_self _)
  | case3 rest => exact .of_below (Nat.lt_succ_self _)
  | case4 rest => exact .pending_at _
  | case5 reason rest => exact .of_below (Nat.zero_lt_succ _)

/-- The stream that replays some items. -/
def script (items : List Item) : Supply where
  State := List Item
  start := items
  poll _ := pollScript
  descent _ := .ofRank List.length
  respects _ := respects_pollScript

/-! ## Watches -/

section Watch

variable (name : String) (view : Value → Value) (feeds : Feeds)

/-- Polls a watch of a feed for the value that has not been seen, in the view that the watch
gives of it. -/
def pollWatch (seen : Nat) : Polled Nat (Except String Value) :=
  let feed := feeds.feed name
  match feed.unseen? seen with
  | some v => ⟨.value (.ok (view v)), feed.version, false, []⟩
  | none =>
    if feed.closed then ⟨.ended, seen, false, []⟩
    else ⟨.pending, seen, false, []⟩

theorem respects_pollWatch (seen : Nat) :
    (pollWatch name view feeds seen).Respects
      (.ofRank fun seen => (feeds.feed name).version - seen) seen := by
  fun_cases pollWatch name view feeds seen with
  | case1 feed v h =>
    have hlt : seen < feed.version := Feed.lt_of_unseen? h
    exact .of_below (Nat.sub_lt_sub_left hlt hlt)
  | case2 => exact .ended_at _
  | case3 => exact .pending_at _

/-- The stream of the latest values of a feed. -/
def watch : Supply where
  State := Nat
  start := 0
  poll := pollWatch name view
  descent feeds := .ofRank fun seen => (feeds.feed name).version - seen
  respects := respects_pollWatch name view

end Watch

/-! ## Channels -/

section Channel

variable (name : String) (feeds : Feeds)

/-- The messages that a channel has been sent so far: the items of the array that its feed
holds. -/
def messages : List Json :=
  match (feeds.feed name).latest.bind Value.document? with
  | some (.array items) => items
  | _ => []

/-- Polls a channel for the message after those that have been read. -/
def pollChannel (read : Nat) : Polled Nat (Except String Value) :=
  match (messages name feeds)[read]? with
  | some message => ⟨.value (.ok (Value.of message)), read + 1, false, []⟩
  | none =>
    if (feeds.feed name).closed then ⟨.ended, read, false, []⟩
    else ⟨.pending, read, false, []⟩

theorem respects_pollChannel (read : Nat) :
    (pollChannel name feeds read).Respects
      (.ofRank fun read => (messages name feeds).length - read) read := by
  fun_cases pollChannel name feeds read with
  | case1 message h =>
    have hlt : read < (messages name feeds).length := (List.getElem?_eq_some_iff.1 h).1
    exact .of_below (Nat.sub_lt_sub_left hlt (Nat.lt_succ_self read))
  | case2 => exact .ended_at _
  | case3 => exact .pending_at _

/-- The stream of the messages of a channel. -/
def channel : Supply where
  State := Nat
  start := 0
  poll := pollChannel name
  descent feeds := .ofRank fun read => (messages name feeds).length - read
  respects := respects_pollChannel name

end Channel

/-! ## Any stream at all, for a while -/

section Lasting

variable {σ : Type} (poll : Feeds → σ → Polled σ (Except String Value))

/-- Polls a stream of which nothing is known, as long as polls are left. -/
def pollLasting (feeds : Feeds) : σ × Nat → Polled (σ × Nat) (Except String Value)
  | (s, 0) => ⟨.pending, (s, 0), false, []⟩
  | (s, polls + 1) =>
    let p := poll feeds s
    ⟨p.answer, (p.next, polls), p.woken, p.log⟩

theorem respects_pollLasting (feeds : Feeds) (s : σ × Nat) :
    (pollLasting poll feeds s).Respects (.ofRank Prod.snd) s := by
  fun_cases pollLasting poll feeds s with
  | case1 s => exact .pending_at _
  | case2 s polls => exact .of_below (Nat.lt_succ_self _)

/-- The stream that is polled in the given way so many times, and hangs from then on. -/
def lasting (start : σ) (polls : Nat) : Supply where
  State := σ × Nat
  start := (start, polls)
  poll := pollLasting poll
  descent _ := .ofRank Prod.snd
  respects := respects_pollLasting poll

end Lasting

end Supply

end AccessPolicy
