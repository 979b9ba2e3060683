import AccessPolicy.Stream.Supply

/-!
# Sources of attributes

An attribute finder subscribes to a source. A source is a part of the host: it answers each query
with a stream, or it crashes. Both count as an opening, and a stream that was opened is held until
whoever asked for it drops it, whether it has ended or not. A crash becomes an error value. A
subscription that crashes while it is polled ends after that.

The sources of the kinds that are common look at the query as little or as much as they like: a
watch may be of another feed for each subject, an echo tells nothing but what it was asked with,
and there are sources that crash whatever they are asked.
-/

namespace AccessPolicy

/-- What a subscriber asks a source for. -/
structure Query where
  subject : Value
  arguments : List Value
  bindings : Dict String Value

/-- **A source of attributes**: any function from queries to streams, which may crash instead of
opening one. -/
structure Source : Type 1 where
  stream : Query → Except String Supply

/-- The sources that can be subscribed to, by name. -/
abbrev Sources := Dict String Source

/-! ## Subscriptions -/

namespace Supply

open Polled Descent

/-- Polls what a source of some name has provided. A crash is reported as an error, and from then
on nothing is asked. -/
def pollGuarded (supply : Supply) (source : String) (feeds : Feeds) :
    Option supply.State → Polled (Option supply.State) Value
  | none => ⟨.ended, none, false, []⟩
  | some s =>
    let p := supply.poll feeds s
    match p.answer with
    | .value (.ok v) => ⟨.value v, some p.next, p.woken, []⟩
    | .value (.error reason) =>
      ⟨.value (Value.fault (.crashedFinder source reason)), none, p.woken, []⟩
    | .ended => ⟨.ended, some p.next, p.woken, []⟩
    | .pending => ⟨.pending, some p.next, p.woken, []⟩

theorem respects_pollGuarded (supply : Supply) (source : String) (feeds : Feeds)
    (s : Option supply.State) :
    (supply.pollGuarded source feeds s).Respects (supply.descent feeds).option s := by
  fun_cases pollGuarded supply source feeds s with
  | case1 => exact .ended_at _
  | case2 s p v h =>
    exact .of_below (.still ((supply.respects feeds s).advances (.inl ⟨_, h⟩)))
  | case3 s p reason h => exact .of_below (.gone _)
  | case4 s p h =>
    exact (supply.respects feeds s).transfer .of_ended .still fun hs => by rw [← hs]
  | case5 s p h =>
    exact (supply.respects feeds s).transfer .of_pending .still fun hs => by rw [← hs]

end Supply

/-- Polls a subscription. -/
def Subscription.poll (subscription : Subscription) (feeds : Feeds) :
    Polled (Option subscription.supply.State) Value :=
  subscription.supply.pollGuarded subscription.source feeds subscription.state

namespace Machine

/-- The stream of a subscription. -/
def subscription (source : String) (supply : Supply) : Machine Value where
  State := Option supply.State
  start := some supply.start
  poll := supply.pollGuarded source
  live s := [⟨source, supply, s⟩]
  descent feeds := (supply.descent feeds).option
  respects := supply.respects_pollGuarded source

/-- Polls a stream, reporting an event with the first poll. -/
def pollAnnounced {α : Type} (m : Machine α) (event : Event) (feeds : Feeds)
    (s : m.State × Bool) : Polled (m.State × Bool) α :=
  let p := m.poll feeds s.1
  ⟨p.answer, (p.next, false), p.woken, if s.2 then event :: p.log else p.log⟩

theorem respects_pollAnnounced {α : Type} (m : Machine α) (event : Event) (feeds : Feeds)
    (s : m.State × Bool) :
    (m.pollAnnounced event feeds s).Respects ((m.descent feeds).lex (.ofRank Bool.toNat)) s := by
  obtain ⟨s, fresh⟩ := s
  have h := m.respects feeds s
  cases fresh with
  | true => exact .of_below (h.atMost.lex_below Nat.zero_lt_one)
  | false => exact h.transfer id (.left _ _) fun hs => by simp [pollAnnounced, hs]

/-- The stream that reports an event with its first poll. -/
def announced {α : Type} (m : Machine α) (event : Event) : Machine α where
  State := m.State × Bool
  start := (m.start, true)
  poll := m.pollAnnounced event
  live s := m.live s.1
  descent feeds := (m.descent feeds).lex (.ofRank Bool.toNat)
  respects := m.respects_pollAnnounced event

end Machine

/-- The stream of what a source of some name answers to a query. -/
def Source.subscribe (source : Source) (name : String) (q : Query) : Machine Value :=
  match source.stream q with
  | .ok supply => .subscription name supply
  | .error reason => .just (Value.fault (.crashedFinder name reason))

/-- The stream of what the source of some name answers to a query, if there is one. -/
def Sources.subscribe (sources : Sources) (name : String) (q : Query) : Machine Value :=
  match Dict.get? sources name with
  | none => .just (Value.fault (.unknownFinder name))
  | some source => (source.subscribe name q).announced (.opened name)

/-! ## Kinds of sources -/

namespace Query

/-- The answer of an echo: the texts of the arguments and of the subject, and the names of
the variables in scope. -/
def echoed (q : Query) : Json :=
  .object [
    ("args", .array (q.arguments.map fun a => .string a.text)),
    ("subject", .string q.subject.text),
    ("vars", .array (q.bindings.keys.map .string))]

end Query

namespace Source

/-- A source that replays the same items to each subscriber. -/
def script (items : List Item) : Source where
  stream _ := .ok (.script items)

/-- A source that watches a feed and gives a view of its value. Both may depend on the query. -/
def watch (feed : Query → String) (view : Query → Value → Value := fun _ v => v) : Source where
  stream q := .ok (.watch (feed q) (view q))

/-- A source of the messages of a channel. -/
def channel (feed : Query → String) : Source where
  stream q := .ok (.channel (feed q))

/-- A source that crashes while it is opened. -/
def failing (reason : String) : Source where
  stream _ := .error reason

/-- A source that tells once what it was asked with. -/
def echo : Source where
  stream q := .ok (.script [.value (Value.of q.echoed)])

end Source

end AccessPolicy
