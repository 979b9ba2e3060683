import AccessPolicy.Stream.Machine

/-!
# Streams that open streams

Each value of an outer stream opens an inner one, and only the newest inner stream is
followed: the one before it is dropped, unheard. One poll goes in rounds. A round polls the
outer stream once, replaces the inner stream if there was a value, and polls the inner stream
once. A value of the inner stream is the answer. If there is none, a round that has switched
is followed by another one, because the outer stream may have more to give.
-/

namespace AccessPolicy.Machine

open Polled Descent

variable {α β : Type}

/-- The states of the newest inner stream, with the value that opened it. -/
abbrev InnerState (f : α → Machine β) := Σ a, (f a).State

/-- The states of a stream that follows the newest inner one; either part may have ended. -/
abbrev SwitchState (m : Machine α) (f : α → Machine β) :=
  Option m.State × Option (InnerState f)

/-- The descent of the states, the outer stream first. -/
def switchDescent (m : Machine α) (f : α → Machine β) (feeds : Feeds) :
    Descent (SwitchState m f) :=
  (m.descent feeds).option.lex (Descent.family fun a => (f a).descent feeds).option

/-- Polls the outer stream once. The answer is a value if the inner stream has been replaced,
and otherwise the end or pending. -/
def pollOuter (m : Machine α) (f : α → Machine β) (feeds : Feeds) :
    SwitchState m f → Polled (SwitchState m f) Unit
  | (none, inner) => ⟨.ended, (none, inner), false, []⟩
  | (some s, inner) =>
    let p := m.poll feeds s
    match p.answer with
    | .value a => ⟨.value (), (some p.next, some ⟨a, (f a).start⟩), p.woken, p.log⟩
    | .ended => ⟨.ended, (none, inner), p.woken, p.log⟩
    | .pending => ⟨.pending, (some p.next, inner), p.woken, p.log⟩

theorem respects_pollOuter (m : Machine α) (f : α → Machine β) (feeds : Feeds)
    (s : SwitchState m f) : (m.pollOuter f feeds s).Respects (m.switchDescent f feeds) s := by
  fun_cases pollOuter m f feeds s with
  | case1 inner => exact .ended_at _
  | case2 s inner p a h =>
    exact .of_below (.left _ _ (.still ((m.respects feeds s).advances (.inl ⟨a, h⟩))))
  | case3 s inner p _ => exact .of_below (.left _ _ (.gone _))
  | case4 s inner p _ =>
    exact (m.respects feeds s).transfer .of_pending (fun h => .left _ _ (.still h))
      fun hs => by rw [← hs]

/-- Polls the newest inner stream once. -/
def pollInner (m : Machine α) (f : α → Machine β) (feeds : Feeds) :
    SwitchState m f → Polled (SwitchState m f) β
  | (outer, none) => ⟨.ended, (outer, none), false, []⟩
  | (outer, some ⟨a, t⟩) =>
    let p := (f a).poll feeds t
    match p.answer with
    | .value b => ⟨.value b, (outer, some ⟨a, p.next⟩), p.woken, p.log⟩
    | .ended => ⟨.ended, (outer, none), p.woken, p.log⟩
    | .pending => ⟨.pending, (outer, some ⟨a, p.next⟩), p.woken, p.log⟩

theorem respects_pollInner (m : Machine α) (f : α → Machine β) (feeds : Feeds)
    (s : SwitchState m f) : (m.pollInner f feeds s).Respects (m.switchDescent f feeds) s := by
  fun_cases pollInner m f feeds s with
  | case1 outer => exact .ended_at _
  | case2 outer a t p b h =>
    exact .of_below (.right _ (.still (.same a (((f a).respects feeds t).advances (.inl ⟨b, h⟩)))))
  | case3 outer a t p _ => exact .of_below (.right _ (.gone _))
  | case4 outer a t p _ =>
    exact ((f a).respects feeds t).transfer .of_pending
      (fun h => .right _ (.still (.same a h))) fun hs => by rw [← hs]

/-- Completes a round after the poll of the outer stream. -/
def finishRound (m : Machine α) (f : α → Machine β) (feeds : Feeds)
    (p : Polled (SwitchState m f) Unit) : Polled (SwitchState m f) β :=
  (m.pollInner f feeds p.next).after p.woken p.log

theorem respects_finishRound (m : Machine α) (f : α → Machine β) (feeds : Feeds)
    (s : SwitchState m f) :
    (m.finishRound f feeds (m.pollOuter f feeds s)).Respects (m.switchDescent f feeds) s :=
  (m.respects_pollOuter f feeds s).after (m.respects_pollInner f feeds _)

/-- A round in which the outer stream gave a value goes down. -/
theorem below_finishRound {m : Machine α} {f : α → Machine β} {feeds : Feeds}
    {s : SwitchState m f} (h : (m.pollOuter f feeds s).answer = .value ()) :
    (m.switchDescent f feeds).Below (m.finishRound f feeds (m.pollOuter f feeds s)).next s :=
  (m.respects_pollInner f feeds _).atMost.below
    ((m.respects_pollOuter f feeds s).advances (.inl ⟨_, h⟩))

/-- Polls in rounds, until the inner stream gives a value or nothing has been switched. -/
def pollSwitch (m : Machine α) (f : α → Machine β) (feeds : Feeds) (s : SwitchState m f) :
    Polled (SwitchState m f) β :=
  let p := m.pollOuter f feeds s
  let q := m.finishRound f feeds p
  match q.answer with
  | .value b => ⟨.value b, q.next, q.woken, q.log⟩
  | _ =>
    match _h : p.answer with
    | .value () => (pollSwitch m f feeds q.next).after q.woken q.log
    | _ =>
      if q.next.1.isNone && q.next.2.isNone then ⟨.ended, q.next, q.woken, q.log⟩
      else ⟨.pending, q.next, q.woken, q.log⟩
termination_by (⟨s⟩ : Bound (m.switchDescent f feeds))
decreasing_by exact below_finishRound _h

theorem respects_pollSwitch (m : Machine α) (f : α → Machine β) (feeds : Feeds)
    (s : SwitchState m f) : (m.pollSwitch f feeds s).Respects (m.switchDescent f feeds) s := by
  fun_induction pollSwitch m f feeds s with
  | case1 s p q b h => exact .of_below ((m.respects_finishRound f feeds s).advances (.inl ⟨b, h⟩))
  | case2 s p q h _ ih => exact ih.after_below (below_finishRound h)
  | case3 s p q => exact (m.respects_finishRound f feeds s).transfer .of_ended id id
  | case4 s p q => exact (m.respects_finishRound f feeds s).transfer .of_pending id id

/-- The stream of the values of the newest inner stream. -/
def switchMap (m : Machine α) (f : α → Machine β) : Machine β where
  State := SwitchState m f
  start := (some m.start, none)
  poll := m.pollSwitch f
  live s := s.1.elim [] m.live ++ s.2.elim [] fun inner => (f inner.1).live inner.2
  descent := m.switchDescent f
  respects := m.respects_pollSwitch f

end AccessPolicy.Machine
