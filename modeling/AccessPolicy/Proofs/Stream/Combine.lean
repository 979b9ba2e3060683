import AccessPolicy.Proofs.Stream.Course
import AccessPolicy.Stream.Combine
import Mathlib.Data.List.Forall2

/-!
# The course of streams side by side

What a `combineLatest` gave last is the list of the latest values of its streams: a sweep that
takes a new value gives the list again, unless some stream has not given its first value yet. So
it rests only where all its streams do, and the values it gave last are theirs – or some stream
has ended without a value, which starves it.
-/

namespace AccessPolicy.Machine

variable {α : Type} {history : List Feeds}

namespace Slots

/-- Every stream is a part with its latest value. -/
def Parts (history : List Feeds) : (ms : List (Machine α)) → Slots ms → Prop
  | [], () => True
  | m :: ms, (slot, slots) => m.Part history slot.1 slot.2 ∧ Parts history ms slots

/-- Every stream has some property together with its latest value. -/
def All (P : Machine α → Option α → Prop) : (ms : List (Machine α)) → Slots ms → Prop
  | [], () => True
  | m :: ms, (slot, slots) => P m slot.2 ∧ All P ms slots

theorem parts_start (history : List Feeds) (ms : List (Machine α)) :
    Parts history ms (start ms) := by
  induction ms with
  | nil => trivial
  | cons m ms ih => exact ⟨.opened history, ih⟩

theorem Parts.mono {ms : List (Machine α)} {slots : Slots ms} {older : List Feeds}
    (h : Parts older ms slots) (hs : older <:+ history) : Parts history ms slots := by
  induction ms with
  | nil => trivial
  | cons m ms ih => exact ⟨h.1.mono hs, ih h.2⟩

theorem latest?_cons {m : Machine α} {ms : List (Machine α)} {state : Option m.State}
    {latest : Option α} {slots : Slots ms} :
    latest? (m :: ms) ((state, latest), slots)
      = latest.bind fun a => (latest? ms slots).map (a :: ·) := by
  cases latest with
  | none => rfl
  | some a => cases hv : latest? ms slots <;> simp [latest?, hv]

theorem Parts.emitted {ms : List (Machine α)} {slots : Slots ms} {values : List α}
    (h : Parts history ms slots) (hl : latest? ms slots = some values) :
    List.Forall₂ (fun m a => m.Emitted history a) ms values := by
  induction ms generalizing values with
  | nil =>
    cases hl
    exact .nil
  | cons m ms ih =>
    obtain ⟨⟨state, latest⟩, slots⟩ := slots
    rw [latest?_cons, Option.bind_eq_some_iff] at hl
    obtain ⟨a, rfl, hl⟩ := hl
    obtain ⟨as, hv, rfl⟩ := Option.map_eq_some_iff.1 hl
    exact .cons h.1.emitted (ih h.2 hv)

theorem latest?_start {ms : List (Machine α)} (h : ms.isEmpty = false) :
    latest? ms (start ms) = none := by
  cases ms with
  | nil => cases h
  | cons m ms => rfl

/-- A property of all streams holds with the values of the list, or with the lack of a value. -/
theorem All.values {P : Machine α → Option α → Prop} {ms : List (Machine α)} {slots : Slots ms}
    (h : All P ms slots) :
    ((∃ m ∈ ms, P m none) ∧ latest? ms slots = none)
      ∨ ∃ values, latest? ms slots = some values
          ∧ List.Forall₂ (fun m a => P m (some a)) ms values := by
  induction ms with
  | nil => exact .inr ⟨[], rfl, .nil⟩
  | cons m ms ih =>
    obtain ⟨⟨state, latest⟩, slots⟩ := slots
    rw [latest?_cons]
    cases latest with
    | none => exact .inl ⟨⟨m, .head _, h.1⟩, rfl⟩
    | some a =>
      rcases ih h.2 with ⟨⟨m', hm', hr⟩, hl⟩ | ⟨values, hv, hr⟩
      · exact .inl ⟨⟨m', .tail _ hm', hr⟩, by rw [hl]; rfl⟩
      · exact .inr ⟨a :: values, by rw [hv]; rfl, .cons h.1 hr⟩

theorem Parts.finished {ms : List (Machine α)} {slots : Slots ms}
    (h : Parts history ms slots) (he : ended ms slots = true) :
    All (fun m a => m.Finished history a) ms slots := by
  induction ms with
  | nil => trivial
  | cons m ms ih =>
    obtain ⟨⟨state, latest⟩, slots⟩ := slots
    obtain ⟨hs, he⟩ := Bool.and_eq_true_iff.1 he
    rw [Option.isNone_iff_eq_none] at hs
    subst hs
    exact ⟨h.1, ih h.2 he⟩

end Slots

/-! ## One sweep -/

section Sweep

variable {m : Machine α} {feeds : Feeds} {past : List Feeds}

/-- What the poll of one stream of a sweep makes of it. -/
theorem Part.pollSlot {slot : Option m.State × Option α}
    (h : m.Part (feeds :: past) slot.1 slot.2) :
    let p := m.pollSlot feeds slot
    m.Part (feeds :: past) p.next.1 p.next.2
      ∧ (p.answer = .ended → m.Finished (feeds :: past) none ∧ slot.2 = none)
      ∧ (p.answer = .pending → p.next.2 = slot.2
          ∧ (p.woken = false → m.Rests (feeds :: past) p.next.2)) := by
  fun_cases Machine.pollSlot m feeds slot with
  | case1 latest => exact ⟨h, by rintro ⟨⟩, fun _ => ⟨rfl, fun _ => .inl h⟩⟩
  | case2 s latest p a hp => exact ⟨Reached.of_value h hp, by rintro ⟨⟩, by rintro ⟨⟩⟩
  | case3 s latest p hp hl =>
    have hf : m.Finished (feeds :: past) latest := Reached.finished h hp
    rw [Option.isNone_iff_eq_none] at hl
    exact ⟨hf, fun _ => ⟨hl ▸ hf, hl⟩, by rintro ⟨⟩⟩
  | case4 s latest p hp hl =>
    have hf : m.Finished (feeds :: past) latest := Reached.finished h hp
    exact ⟨hf, by rintro ⟨⟩, fun _ => ⟨rfl, fun _ => .inl hf⟩⟩
  | case5 s latest p hp =>
    exact ⟨Reached.of_pending h hp, by rintro ⟨⟩,
      fun _ => ⟨rfl, fun hw => .inr (Reached.waits h hp hw)⟩⟩

theorem pollSlot_latest (feeds : Feeds) {slot : Option m.State × Option α} {a : α}
    (h : slot.2 = some a) :
    ∃ b, (m.pollSlot feeds slot).next.2 = some b := by
  fun_cases Machine.pollSlot m feeds slot with
  | case2 s latest p b => exact ⟨b, rfl⟩
  | case1 => exact ⟨a, h⟩
  | case3 => exact ⟨a, h⟩
  | case4 => exact ⟨a, h⟩
  | case5 => exact ⟨a, h⟩

/-- A sweep loses no latest value. -/
theorem latest?_sweep {ms : List (Machine α)} {slots : Slots ms}
    (h : Slots.latest? ms (Machine.sweep feeds ms slots).next = none) :
    Slots.latest? ms slots = none := by
  fun_induction Machine.sweep feeds ms slots with
  | case1 => exact h
  | case2 m ms slot slots p hp =>
    rw [← Prod.eta p.next, Slots.latest?_cons] at h
    rw [← Prod.eta slot, Slots.latest?_cons]
    cases hs : slot.2 with
    | none => rfl
    | some a =>
      obtain ⟨b, hb⟩ := pollSlot_latest feeds hs
      rw [hb] at h
      rw [Option.map_eq_none_iff.1 h]
      rfl
  | case3 m ms slot slots p hp ih =>
    have h : Slots.latest? (m :: ms) ((p.next.1, p.next.2), (Machine.sweep feeds ms slots).next)
      = none := h
    rw [Slots.latest?_cons] at h
    rw [← Prod.eta slot, Slots.latest?_cons]
    cases hs : slot.2 with
    | none => rfl
    | some a =>
      obtain ⟨b, hb⟩ := pollSlot_latest feeds hs
      rw [hb] at h
      rw [ih (Option.map_eq_none_iff.1 h)]
      rfl

theorem besides_ended {σ τ : Type} {p : Polled σ Unit} {q : Polled τ Unit}
    (h : (besides p q).answer = .ended) : q.answer = .ended := by
  unfold besides at h
  split at h
  · cases h
  · exact h

theorem besides_pending {σ τ : Type} {p : Polled σ Unit} {q : Polled τ Unit}
    (h : (besides p q).answer = .pending) (hp : p.answer ≠ .ended) :
    p.answer = .pending ∧ q.answer = .pending := by
  unfold besides at h
  split at h
  · cases h
  · next hne =>
    cases hpa : p.answer with
    | value u => exact (hne hpa h).elim
    | ended => exact (hp hpa).elim
    | pending => exact ⟨rfl, h⟩

/-- **What a sweep makes of the streams**: where it ends, one of them rests without a value; where
it finds nothing new, nothing has changed, and if it wakes nobody they all rest. -/
theorem Slots.Parts.sweep {ms : List (Machine α)} {slots : Slots ms}
    (h : Slots.Parts (feeds :: past) ms slots) :
    let w := Machine.sweep feeds ms slots
    Slots.Parts (feeds :: past) ms w.next
      ∧ (w.answer = .ended → (∃ m ∈ ms, m.Finished (feeds :: past) none)
          ∧ Slots.latest? ms slots = none)
      ∧ (w.answer = .pending → Slots.latest? ms w.next = Slots.latest? ms slots
          ∧ (w.woken = false →
            Slots.All (fun m a => m.Rests (feeds :: past) a) ms w.next)) := by
  fun_induction Machine.sweep feeds ms slots with
  | case1 => exact ⟨trivial, by rintro ⟨⟩, fun _ => ⟨rfl, fun _ => trivial⟩⟩
  | case2 m ms slot slots p hp =>
    obtain ⟨hpart, hend, -⟩ := Part.pollSlot h.1
    obtain ⟨hrest, hl⟩ := hend hp
    refine ⟨⟨hpart, h.2⟩, fun _ => ⟨⟨m, .head _, hrest⟩, ?_⟩, by rintro ⟨⟩⟩
    rw [← Prod.eta slot, Slots.latest?_cons, hl]
    rfl
  | case3 m ms slot slots p hp ih =>
    obtain ⟨hpart, -, hpend⟩ := Part.pollSlot h.1
    obtain ⟨hparts, hends, hpends⟩ := ih h.2
    refine ⟨⟨hpart, hparts⟩, fun he => ?_, fun he => ?_⟩
    · obtain ⟨⟨m', hm', hr⟩, hl⟩ := hends (besides_ended he)
      refine ⟨⟨m', .tail _ hm', hr⟩, ?_⟩
      rw [← Prod.eta slot, Slots.latest?_cons, hl]
      cases slot.2 <;> rfl
    · obtain ⟨hpa, hqa⟩ := besides_pending he hp
      obtain ⟨hsame, hrest⟩ := hpend hpa
      obtain ⟨hsames, hrests⟩ := hpends hqa
      refine ⟨?_, fun hw => ?_⟩
      · show Slots.latest? (m :: ms) ((p.next.1, p.next.2), (Machine.sweep feeds ms slots).next)
          = Slots.latest? (m :: ms) ((slot.1, slot.2), slots)
        rw [Slots.latest?_cons, Slots.latest?_cons, hsame, hsames]
      · obtain ⟨hw, hw'⟩ := Bool.or_eq_false_iff.1 hw
        exact ⟨hrest hw, hrests hw'⟩

end Sweep

/-! ## One poll, and a whole course -/

/-- **How combined streams are doing**, together with what was given last. -/
inductive Combining (history : List Feeds) (ms : List (Machine α)) :
    Option (Slots ms) → Option (List α) → Prop where
  | running {slots : Slots ms} : Slots.Parts history ms slots →
      Combining history ms (some slots) (if ms.isEmpty then none else Slots.latest? ms slots)
  | starved : (∃ m ∈ ms, m.Finished history none) → Combining history ms none none
  | ended {values : List α} : List.Forall₂ (fun m a => m.Finished history (some a)) ms values →
      Combining history ms none (some values)

/-- Combined streams at rest, with what they gave last. -/
def CombinedRest (history : List Feeds) (ms : List (Machine α)) (last : Option (List α)) : Prop :=
  (∃ m ∈ ms, m.Rests history none)
    ∨ ∃ values, last = some values
        ∧ List.Forall₂ (fun m a => m.Rests history (some a)) ms values

theorem Combining.mono {ms : List (Machine α)} {s : Option (Slots ms)} {last : Option (List α)}
    {older : List Feeds} (h : Combining older ms s last) (hs : older <:+ history) :
    Combining history ms s last := by
  cases h with
  | running h => exact .running (h.mono hs)
  | starved h =>
    obtain ⟨m, hm, h⟩ := h
    exact .starved ⟨m, hm, h.mono hs⟩
  | ended h => exact .ended (h.imp fun _ _ h => h.mono hs)

theorem Combining.rest_of_over {ms : List (Machine α)} {last : Option (List α)}
    (h : Combining history ms none last) : CombinedRest history ms last := by
  cases h with
  | starved h =>
    obtain ⟨m, hm, h⟩ := h
    exact .inl ⟨m, hm, .inl h⟩
  | ended h => exact .inr ⟨_, rfl, h.imp fun _ _ h => .inl h⟩

theorem Combining.emitted {ms : List (Machine α)} {s : Option (Slots ms)} {values : List α}
    (h : Combining history ms s (some values)) :
    List.Forall₂ (fun m a => m.Emitted history a) ms values := by
  generalize hl : some values = last at h
  cases h with
  | running h =>
    split at hl
    · cases hl
    · exact h.emitted hl.symm
  | starved h => cases hl
  | ended h =>
    cases hl
    exact h.imp fun _ _ h => h.emitted

/-- A poll keeps the streams in step with what is given, and where it gives nothing they rest. -/
theorem Combining.poll {ms : List (Machine α)} {feeds : Feeds} {past : List Feeds}
    {s : Option (Slots ms)} {last : Option (List α)} (h : Combining (feeds :: past) ms s last) :
    let p := pollCombined ms feeds s
    Combining (feeds :: past) ms p.next (p.answer.value?.or last)
      ∧ (p.answer = .ended → p.next = none)
      ∧ (p.answer = .pending → p.woken = false → CombinedRest (feeds :: past) ms last) := by
  fun_cases pollCombined ms feeds s with
  | case1 => exact ⟨h, fun _ => rfl, by rintro ⟨⟩⟩
  | case2 slots he =>
    rw [List.isEmpty_iff] at he
    subst he
    exact ⟨.ended .nil, by rintro ⟨⟩, by rintro ⟨⟩⟩
  | case3 slots he w hw =>
    cases h with
    | running h =>
      obtain ⟨hparts, -, -⟩ := h.sweep
      have hrun := Combining.running hparts
      rw [if_neg he] at hrun
      cases hl : Slots.latest? ms w.next with
      | none =>
        -- a value has been taken, but the list is not complete, nor was it before
        have hrep : report ms w = ⟨.pending, some w.next, true, w.log⟩ := by
          unfold report
          rw [hl]
        rw [hrep, if_neg he, latest?_sweep hl]
        exact ⟨hl ▸ hrun, by rintro ⟨⟩, by rintro _ ⟨⟩⟩
      | some values =>
        have hrep : report ms w = ⟨.value values, some w.next, w.woken, w.log⟩ := by
          unfold report
          rw [hl]
        rw [hrep]
        rw [hl] at hrun
        exact ⟨hrun, by rintro ⟨⟩, by rintro ⟨⟩⟩
  | case4 slots he w hw =>
    cases h with
    | running h =>
      obtain ⟨-, hend, -⟩ := h.sweep
      obtain ⟨hstarved, hl⟩ := hend hw
      rw [hl, ite_self]
      exact ⟨.starved hstarved, fun _ => rfl, by rintro ⟨⟩⟩
  | case5 slots he w hw hover =>
    cases h with
    | running h =>
      obtain ⟨hparts, -, hpend⟩ := h.sweep
      rw [if_neg he, ← (hpend hw).1]
      refine ⟨?_, fun _ => rfl, by rintro ⟨⟩⟩
      rcases (hparts.finished hover).values with ⟨hstarved, hl⟩ | ⟨values, hl, hv⟩
      · exact hl ▸ .starved hstarved
      · exact hl ▸ .ended hv
  | case6 slots he w hw hover =>
    cases h with
    | running h =>
      obtain ⟨hparts, -, hpend⟩ := h.sweep
      obtain ⟨hsame, hrest⟩ := hpend hw
      rw [if_neg he, ← hsame]
      refine ⟨?_, by rintro ⟨⟩, fun _ hw => ?_⟩
      · have hrun := Combining.running hparts
        rwa [if_neg he] at hrun
      · rcases (hrest hw).values with ⟨hlacking, -⟩ | ⟨values, hl, hv⟩
        · exact .inl hlacking
        · exact .inr ⟨values, hl, hv⟩

theorem reached_combineLatest {ms : List (Machine α)} {s : (combineLatest ms).State}
    {last : Option (List α)} (h : (combineLatest ms).Reached history s last) :
    Combining history ms s last := by
  induction h with
  | opened history =>
    have hrun := Combining.running (Slots.parts_start history ms)
    cases he : ms.isEmpty with
    | true => rwa [if_pos he] at hrun
    | false => rwa [he, if_neg Bool.false_ne_true, Slots.latest?_start he] at hrun
  | later feeds _ ih => exact ih.mono (List.suffix_cons _ _)
  | polled _ ih => exact ih.poll.1

/-- **Combined streams rest only together**, and what was given last is the list of what each
gave last, unless one of them has given nothing. -/
theorem rests_combineLatest {ms : List (Machine α)} {last : Option (List α)}
    (h : (combineLatest ms).Rests history last) : CombinedRest history ms last := by
  rcases h with ⟨feeds, past, s, hs, h, hp⟩ | ⟨feeds, past, s, rfl, h, hp, hw⟩
  · obtain ⟨hnext, hend, -⟩ := (reached_combineLatest h).poll
    rw [hend hp, show (pollCombined ms feeds s).answer = .ended from hp] at hnext
    exact (hnext.mono hs).rest_of_over
  · exact (reached_combineLatest h).poll.2.2 hp hw

/-- **A list that is given consists of values that the streams have given.** -/
theorem emitted_combineLatest {ms : List (Machine α)} {values : List α}
    (h : (combineLatest ms).Emitted history values) :
    List.Forall₂ (fun m a => m.Emitted history a) ms values := by
  obtain ⟨s, h⟩ := h
  exact (reached_combineLatest h).emitted

end AccessPolicy.Machine
