import AccessPolicy.Proofs.Stream.Watch

/-!
# Runs

A run interleaves the polls of one stream with the setting and the closing of watches. It is
**at rest** when its last event was a poll that reported the end, or one that was pending and
did not ask to be polled again. Each run is a course in a history of watches, and draining a
stream is a run of polls that comes to rest.
-/

namespace AccessPolicy

/-- Whether polling again is of no use before something changes. -/
def Polled.resting {σ α : Type} (p : Polled σ α) : Bool :=
  match p.answer with
  | .value _ => false
  | .ended => true
  | .pending => !p.woken

namespace Machine

variable {α : Type} {m : Machine α} {first feeds : Feeds} {s : m.State} {given : List α}
  {resting : Bool}

/-- **A run of a stream** from some first feeds: the feeds by now, the state of the stream, the
values that it has given, and whether it is at rest. -/
inductive Runs (m : Machine α) (first : Feeds) : Feeds → m.State → List α → Bool → Prop where
  | start : Runs m first first m.start [] false
  /-- A watch may be set as long as it is not closed. -/
  | set {feeds : Feeds} {s : m.State} {given : List α} {resting : Bool} (source : String)
      (v : Value) : Runs m first feeds s given resting → (feeds.feed source).closed = false →
        Runs m first (feeds.set source v) s given false
  /-- A watch may be closed. -/
  | close {feeds : Feeds} {s : m.State} {given : List α} {resting : Bool} (source : String) :
      Runs m first feeds s given resting → Runs m first (feeds.close source) s given false
  /-- The stream may be polled. -/
  | poll {feeds : Feeds} {s : m.State} {given : List α} {resting : Bool} :
      Runs m first feeds s given resting →
        Runs m first feeds (m.poll feeds s).next
          (given ++ (m.poll feeds s).answer.value?.toList) (m.poll feeds s).resting

/-- What a poll gives is the last value by then. -/
theorem getLast?_append_answer (given : List α) (answer : Answer α) :
    (given ++ answer.value?.toList).getLast? = answer.value?.or given.getLast? := by
  cases answer.value? <;> simp

/-- A run is a course of the stream in a history of watches, and if it is at rest, so is the
stream. -/
theorem Runs.course (h : m.Runs first feeds s given resting) :
    ∃ past, first.Watched (feeds :: past) ∧ m.Reached (feeds :: past) s given.getLast?
      ∧ (resting = true → m.Rests (feeds :: past) given.getLast?) := by
  induction h with
  | start => exact ⟨[], .start first, .opened _, by rintro ⟨⟩⟩
  | @set feeds s given _ source v _ hc ih =>
    obtain ⟨past, hw, hr, -⟩ := ih
    exact ⟨feeds :: past, hw.cons (Feeds.moveOn_set v hc), .later _ hr, by rintro ⟨⟩⟩
  | @close feeds s given _ source _ ih =>
    obtain ⟨past, hw, hr, -⟩ := ih
    exact ⟨feeds :: past, hw.cons (feeds.moveOn_close source), .later _ hr, by rintro ⟨⟩⟩
  | @poll feeds s given _ _ ih =>
    obtain ⟨past, hw, hr, -⟩ := ih
    refine ⟨past, hw, ?_, fun hrest => ?_⟩
    · rw [getLast?_append_answer]
      exact hr.polled
    · rw [getLast?_append_answer]
      unfold Polled.resting at hrest
      cases ha : (m.poll feeds s).answer with
      | value a =>
        rw [ha] at hrest
        cases hrest
      | ended => exact .inl (hr.finished ha)
      | pending =>
        rw [ha] at hrest
        exact .inr (hr.waits ha (Bool.not_eq_true' _ ▸ hrest))

/-- **Draining comes to rest**, and gives its values in the course of the run. -/
theorem Runs.drain (h : m.Runs first feeds s given resting) :
    m.Runs first feeds (m.drain feeds s).state (given ++ (m.drain feeds s).values) true := by
  fun_induction Machine.drain m feeds s generalizing given resting with
  | case1 s p a ha =>
    rename_i ih
    have hp := h.poll
    rw [show (m.poll feeds s).answer = .value a from ha] at hp
    have := ih hp
    rwa [List.append_assoc] at this
  | case2 s p =>
    rename_i ha
    have hp := h.poll
    unfold Polled.resting at hp
    rwa [show (m.poll feeds s).answer = .ended from ha] at hp
  | case3 s p =>
    rename_i ha hw _ ih
    have hp := h.poll
    rw [show (m.poll feeds s).answer = .pending from ha] at hp
    have := ih hp
    rwa [List.append_assoc] at this
  | case4 s p =>
    rename_i ha hw
    have hp := h.poll
    unfold Polled.resting at hp
    rw [show (m.poll feeds s).answer = .pending from ha] at hp
    rwa [show (m.poll feeds s).woken = false from Bool.eq_false_iff.2 hw] at hp

end Machine

end AccessPolicy
