import AccessPolicy.Stream.Machine

/-!
# Numbered values

Each value of a stream together with how many values came before it.
-/

namespace AccessPolicy.Machine

open Polled Descent

variable {α : Type}

/-- Polls a stream and numbers its value. -/
def pollEnumerated (m : Machine α) (feeds : Feeds) (s : m.State × Nat) :
    Polled (m.State × Nat) (Nat × α) :=
  let p := m.poll feeds s.1
  match p.answer with
  | .value a => ⟨.value (s.2, a), (p.next, s.2 + 1), p.woken, p.log⟩
  | .ended => ⟨.ended, (p.next, s.2), p.woken, p.log⟩
  | .pending => ⟨.pending, (p.next, s.2), p.woken, p.log⟩

theorem respects_pollEnumerated (m : Machine α) (feeds : Feeds) (s : m.State × Nat) :
    (m.pollEnumerated feeds s).Respects ((m.descent feeds).onView Prod.fst) s := by
  fun_cases pollEnumerated m feeds s with
  | case1 p a h => exact .of_below ((m.respects feeds s.1).advances (.inl ⟨a, h⟩))
  | case2 p h => exact (m.respects feeds s.1).transfer .of_ended id fun hs => Prod.ext hs rfl
  | case3 p h => exact (m.respects feeds s.1).transfer .of_pending id fun hs => Prod.ext hs rfl

/-- The stream of the values with their numbers. -/
def enumerate (m : Machine α) : Machine (Nat × α) where
  State := m.State × Nat
  start := (m.start, 0)
  poll := m.pollEnumerated
  live s := m.live s.1
  descent feeds := (m.descent feeds).onView Prod.fst
  respects := m.respects_pollEnumerated

end AccessPolicy.Machine
