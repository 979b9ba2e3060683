import AccessPolicy.Stream.Machine

/-!
# First values

`once` lets one value through and then ends without polling the stream below again. It does
not drop that stream: what the stream holds open stays open until `once` itself is dropped.
`followedBy` gives one more value when a stream has ended.
-/

namespace AccessPolicy.Machine

open Polled Descent

variable {α : Type}

/-- Polls a stream for its first value, unless that has been given. -/
def pollOnce (m : Machine α) (feeds : Feeds) : m.State × Bool → Polled (m.State × Bool) α
  | (s, true) =>
    let p := m.poll feeds s
    match p.answer with
    | .value a => ⟨.value a, (p.next, false), p.woken, p.log⟩
    | .ended => ⟨.ended, (p.next, false), p.woken, p.log⟩
    | .pending => ⟨.pending, (p.next, true), p.woken, p.log⟩
  | (s, false) => ⟨.ended, (s, false), false, []⟩

theorem respects_pollOnce (m : Machine α) (feeds : Feeds) (s : m.State × Bool) :
    (m.pollOnce feeds s).Respects ((m.descent feeds).lex (.ofRank Bool.toNat)) s := by
  fun_cases pollOnce m feeds s with
  | case1 s p a _ => exact .of_below ((m.respects feeds s).atMost.lex_below Nat.zero_lt_one)
  | case2 s p _ => exact .of_below ((m.respects feeds s).atMost.lex_below Nat.zero_lt_one)
  | case3 s p _ =>
    exact (m.respects feeds s).transfer .of_pending (.left _ _) fun hs => by rw [← hs]
  | case4 s => exact .ended_at _

/-- The stream of the first value of a stream. -/
def once (m : Machine α) : Machine α where
  State := m.State × Bool
  start := (m.start, true)
  poll := m.pollOnce
  live s := m.live s.1
  descent feeds := (m.descent feeds).lex (.ofRank Bool.toNat)
  respects := m.respects_pollOnce

/-- Polls a stream, and gives one more value when it ends. -/
def pollFollowed (m : Machine α) (last : α) (feeds : Feeds) :
    Option m.State → Polled (Option m.State) α
  | none => ⟨.ended, none, false, []⟩
  | some s =>
    let p := m.poll feeds s
    match p.answer with
    | .value a => ⟨.value a, some p.next, p.woken, p.log⟩
    | .ended => ⟨.value last, none, p.woken, p.log⟩
    | .pending => ⟨.pending, some p.next, p.woken, p.log⟩

theorem respects_pollFollowed (m : Machine α) (last : α) (feeds : Feeds)
    (s : Option m.State) :
    (m.pollFollowed last feeds s).Respects (m.descent feeds).option s := by
  fun_cases pollFollowed m last feeds s with
  | case1 => exact .ended_at _
  | case2 s p a h => exact .of_below (.still ((m.respects feeds s).advances (.inl ⟨a, h⟩)))
  | case3 s p _ => exact .of_below (.gone _)
  | case4 s p _ =>
    exact (m.respects feeds s).transfer .of_pending .still fun hs => by rw [← hs]

/-- The values of a stream and then one more. -/
def followedBy (m : Machine α) (last : α) : Machine α where
  State := Option m.State
  start := some m.start
  poll := m.pollFollowed last
  live s := s.elim [] m.live
  descent feeds := (m.descent feeds).option
  respects := m.respects_pollFollowed last

end AccessPolicy.Machine
