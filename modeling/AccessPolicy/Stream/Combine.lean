import AccessPolicy.Stream.Machine

/-!
# Several streams side by side

The combination of several streams gives the list of their latest values whenever one of them
has a new value and all of them have one. One poll sweeps over the streams in order and polls
each that has not ended. A stream that ends without ever having given a value starves the
combination, which then ends at once: the sweep stops, and all streams are dropped. If there
are new values while some stream has not given its first one, the answer is pending and the
poller is woken, since a value has been taken that no other poll will announce.

The combination of no streams gives the empty list once.
-/

namespace AccessPolicy.Machine

open Polled Descent

variable {α : Type}

/-- The states of some streams, each with the latest value; a stream may have ended. -/
def Slots : List (Machine α) → Type
  | [] => Unit
  | m :: ms => (Option m.State × Option α) × Slots ms

namespace Slots

/-- The states before the first poll. -/
def start : (ms : List (Machine α)) → Slots ms
  | [] => ()
  | m :: ms => ((some m.start, none), start ms)

/-- The latest values, if there is one of each stream. -/
def latest? : (ms : List (Machine α)) → Slots ms → Option (List α)
  | [], () => some []
  | _ :: ms, ((_, latest), slots) => do
    let a ← latest
    let as ← latest? ms slots
    return a :: as

/-- Whether all streams have ended. -/
def ended : (ms : List (Machine α)) → Slots ms → Bool
  | [], () => true
  | _ :: ms, ((state, _), slots) => state.isNone && ended ms slots

/-- The subscriptions that the streams hold open. -/
def live : (ms : List (Machine α)) → Slots ms → List Subscription
  | [], () => []
  | m :: ms, ((state, _), slots) => state.elim [] m.live ++ live ms slots

/-- The descent of the states, the first stream first. -/
def descent (feeds : Feeds) : (ms : List (Machine α)) → Descent (Slots ms)
  | [] => .ofRank fun _ => 0
  | m :: ms => ((m.descent feeds).option.onView Prod.fst).lex (descent feeds ms)

end Slots

/-- The poll of one stream of a sweep. The answer is a value if the stream gave one, the end
if the stream has just ended without ever giving one, and pending otherwise. -/
def pollSlot (m : Machine α) (feeds : Feeds) :
    Option m.State × Option α → Polled (Option m.State × Option α) Unit
  | (none, latest) => ⟨.pending, (none, latest), false, []⟩
  | (some s, latest) =>
    let p := m.poll feeds s
    match p.answer with
    | .value a => ⟨.value (), (some p.next, some a), p.woken, p.log⟩
    | .ended =>
      if latest.isNone then ⟨.ended, (none, latest), p.woken, p.log⟩
      else ⟨.pending, (none, latest), p.woken, p.log⟩
    | .pending => ⟨.pending, (some p.next, latest), p.woken, p.log⟩

theorem respects_pollSlot (m : Machine α) (feeds : Feeds) (s : Option m.State × Option α) :
    (m.pollSlot feeds s).Respects ((m.descent feeds).option.onView Prod.fst) s := by
  fun_cases pollSlot m feeds s with
  | case1 latest => exact .pending_at _
  | case2 s latest p a h => exact .of_below (.still ((m.respects feeds s).advances (.inl ⟨a, h⟩)))
  | case3 s latest p _ _ => exact .of_below (.gone _)
  | case4 s latest p _ _ => exact .of_below (.gone _)
  | case5 s latest p _ =>
    exact (m.respects feeds s).transfer .of_pending .still fun hs => by rw [← hs]

/-- The polls of a first stream and of those after it as one poll: a starved stream decides,
then a new value. -/
def besides {σ τ : Type} (p : Polled σ Unit) (q : Polled τ Unit) : Polled (σ × τ) Unit where
  answer :=
    match p.answer, q.answer with
    | .value (), .pending => .value ()
    | _, answer => answer
  next := (p.next, q.next)
  woken := p.woken || q.woken
  log := p.log ++ q.log

theorem respects_besides {σ τ : Type} {d : Descent σ} {e : Descent τ} {s : σ} {t : τ}
    {p : Polled σ Unit} {q : Polled τ Unit} (h : p.Respects d s) (h' : q.Respects e t) :
    (besides p q).Respects (d.lex e) (s, t) where
  advances ha := by
    have : p.Advances ∨ q.Advances := by
      rcases ha with ⟨_, ha⟩ | ha
      · unfold besides at ha
        split at ha
        · next hp _ => exact .inl (.inl ⟨(), hp⟩)
        · exact .inr (.inl ⟨_, ha⟩)
      · exact (Bool.or_eq_true_iff.1 ha).imp .inr .inr
    rcases this with hp | hq
    · exact .left _ _ (h.advances hp)
    · exact h.atMost.lex_below (h'.advances hq)
  atMost := h.atMost.lex h'.atMost

/-- Polls some streams in order, up to one that starves the combination. The answer is the
end if there is such a stream, and otherwise a value if some stream gave one. -/
def sweep (feeds : Feeds) : (ms : List (Machine α)) → Slots ms → Polled (Slots ms) Unit
  | [], () => ⟨.pending, (), false, []⟩
  | m :: ms, (slot, slots) =>
    let p := m.pollSlot feeds slot
    match p.answer with
    | .ended => ⟨.ended, (p.next, slots), p.woken, p.log⟩
    | _ => besides p (sweep feeds ms slots)

theorem respects_sweep (feeds : Feeds) (ms : List (Machine α)) (slots : Slots ms) :
    (sweep feeds ms slots).Respects (Slots.descent feeds ms) slots := by
  fun_induction sweep feeds ms slots with
  | case1 => exact .pending_at _
  | case2 m ms slot slots p _ =>
    exact (m.respects_pollSlot feeds slot).transfer .of_ended (.left _ _) fun hs => by rw [← hs]
  | case3 m ms slot slots p _ ih => exact respects_besides (m.respects_pollSlot feeds slot) ih

/-- The latest values after a sweep that found a new one. -/
def report (ms : List (Machine α)) (w : Polled (Slots ms) Unit) :
    Polled (Option (Slots ms)) (List α) :=
  match Slots.latest? ms w.next with
  | some values => ⟨.value values, some w.next, w.woken, w.log⟩
  | none => ⟨.pending, some w.next, true, w.log⟩

/-- Polls some streams side by side; no state is left when the combination has ended. -/
def pollCombined (ms : List (Machine α)) (feeds : Feeds) :
    Option (Slots ms) → Polled (Option (Slots ms)) (List α)
  | none => ⟨.ended, none, false, []⟩
  | some slots =>
    if ms.isEmpty then ⟨.value [], none, false, []⟩
    else
      let w := sweep feeds ms slots
      match w.answer with
      | .value () => report ms w
      | .ended => ⟨.ended, none, w.woken, w.log⟩
      | .pending =>
        if Slots.ended ms w.next then ⟨.ended, none, w.woken, w.log⟩
        else ⟨.pending, some w.next, w.woken, w.log⟩

theorem respects_pollCombined (ms : List (Machine α)) (feeds : Feeds)
    (s : Option (Slots ms)) :
    (pollCombined ms feeds s).Respects (Slots.descent feeds ms).option s := by
  fun_cases pollCombined ms feeds s with
  | case1 => exact .ended_at _
  | case2 slots _ => exact .of_below (.gone _)
  | case3 slots _ w h =>
    have := (respects_sweep feeds ms slots).advances (.inl ⟨(), h⟩)
    unfold report
    split <;> exact .of_below (.still this)
  | case4 slots _ w _ => exact .of_below (.gone _)
  | case5 slots _ w _ _ => exact .of_below (.gone _)
  | case6 slots _ w _ _ =>
    exact (respects_sweep feeds ms slots).transfer .of_pending .still fun hs => by rw [← hs]

/-- The stream of the latest values of some streams. -/
def combineLatest (ms : List (Machine α)) : Machine (List α) where
  State := Option (Slots ms)
  start := some (Slots.start ms)
  poll := pollCombined ms
  live s := s.elim [] (Slots.live ms)
  descent feeds := (Slots.descent feeds ms).option
  respects := respects_pollCombined ms

end AccessPolicy.Machine
