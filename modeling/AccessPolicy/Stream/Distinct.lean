import AccessPolicy.Stream.Machine

/-!
# Streams without repetitions

A value that is the same as the one before it is passed over: the stream below is polled
again at once, until it gives a new value or nothing.
-/

namespace AccessPolicy.Machine

open Polled Descent

variable {α : Type}

/-- Polls a stream until it gives something else than a value that is the same as the last
one that was let through. -/
def pollDistinct (m : Machine α) (same : α → α → Bool) (feeds : Feeds) (s : m.State)
    (last : Option α) : Polled (m.State × Option α) α :=
  let p := m.poll feeds s
  match _h : p.answer with
  | .value a =>
    if last.any (same · a) then (pollDistinct m same feeds p.next last).after p.woken p.log
    else ⟨.value a, (p.next, some a), p.woken, p.log⟩
  | .ended => ⟨.ended, (p.next, last), p.woken, p.log⟩
  | .pending => ⟨.pending, (p.next, last), p.woken, p.log⟩
termination_by (⟨s⟩ : Bound (m.descent feeds))
decreasing_by exact (m.respects feeds s).advances (.inl ⟨_, _h⟩)

theorem respects_pollDistinct (m : Machine α) (same : α → α → Bool) (feeds : Feeds)
    (s : m.State) (last : Option α) :
    (m.pollDistinct same feeds s last).Respects ((m.descent feeds).onView Prod.fst) (s, last) := by
  fun_induction pollDistinct m same feeds s last with
  | case1 s p a h _ ih => exact ih.after_below ((m.respects feeds s).advances (.inl ⟨a, h⟩))
  | case2 s p a h _ => exact .of_below ((m.respects feeds s).advances (.inl ⟨a, h⟩))
  | case3 s p h =>
    exact (m.respects feeds s).transfer .of_ended id fun hs => by rw [← hs]
  | case4 s p h =>
    exact (m.respects feeds s).transfer .of_pending id fun hs => by rw [← hs]

/-- The stream without the values that repeat the one before them. -/
def distinct (m : Machine α) (same : α → α → Bool) : Machine α where
  State := m.State × Option α
  start := (m.start, none)
  poll feeds s := m.pollDistinct same feeds s.1 s.2
  live s := m.live s.1
  descent feeds := (m.descent feeds).onView Prod.fst
  respects feeds s := m.respects_pollDistinct same feeds s.1 s.2

end AccessPolicy.Machine
