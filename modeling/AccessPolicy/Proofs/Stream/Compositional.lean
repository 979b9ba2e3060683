import AccessPolicy.Proofs.Lists
import AccessPolicy.Proofs.Stream.Single

/-!
# Properties that go through the combinators

Some properties of a stream hold because of how it is put together, whatever its values are: they
hold of the stream of one value, and each combinator keeps them. Such a property is shown of
everything that is evaluated in one proof, for all of them.

Two of them are here. A **quiet** stream never opens a subscription and holds none, and a stream
that gives a **single** value gives it at once and then ends.
-/

namespace AccessPolicy

open Machine

/-- The event is the call of a function. -/
def Event.IsCall (event : Event) : Prop := ∃ function, event = .called function

/-- **A property of streams is compositional** if it holds of the stream of one value and is kept by
the combinators that expressions are evaluated with. A function that is applied to the values may
report calls. That the first value is taken, or another one if there is none, counts as one
combinator, since a stream followed by another value has no single value. -/
structure Compositional (P : {α : Type} → Machine α → Prop) : Prop where
  just : ∀ {α : Type} (a : α), P (just a)
  mapReporting : ∀ {α β : Type} {m : Machine α} (f : α → β × List Event),
    (∀ a, ∀ event ∈ (f a).2, event.IsCall) → P m → P (m.mapReporting f)
  combine : ∀ {α : Type} {ms : List (Machine α)}, (∀ m ∈ ms, P m) → P (combineLatest ms)
  switch : ∀ {α β : Type} {m : Machine α} {f : α → Machine β},
    P m → (∀ a, P (f a)) → P (m.switchMap f)
  distinct : ∀ {α : Type} {m : Machine α} (same : α → α → Bool), P m → P (m.distinct same)
  once : ∀ {α : Type} {m : Machine α}, P m → P m.once
  first : ∀ {α : Type} {m : Machine α} (last : α), P m → P (m.followedBy last).once

theorem Compositional.map {P : {α : Type} → Machine α → Prop} (h : Compositional P) {α β : Type}
    {m : Machine α} (f : α → β) (hm : P m) : P (m.map f) :=
  h.mapReporting _ (by rintro _ _ ⟨⟩) hm

/-! ## Quiet streams -/

namespace Polled

variable {σ α β : Type}

/-- A poll is quiet if it only reports calls. -/
def Quiet (p : Polled σ α) : Prop := ∀ event ∈ p.log, event.IsCall

theorem Quiet.after {p : Polled σ α} (h : p.Quiet) (woken : Bool) {log : List Event}
    (hlog : ∀ event ∈ log, event.IsCall) : (p.after woken log).Quiet :=
  List.forall_mem_append.2 ⟨hlog, h⟩

theorem Quiet.mapReporting {p : Polled σ α} (h : p.Quiet) {f : α → β × List Event}
    (hf : ∀ a, ∀ event ∈ (f a).2, event.IsCall) : (p.mapReporting f).Quiet := by
  unfold Polled.mapReporting
  split
  · next a _ => exact List.forall_mem_append.2 ⟨h, hf a⟩
  · exact h
  · exact h

end Polled

namespace Machine

variable {α β : Type}

/-- **A quiet stream** opens no subscription and holds none. -/
structure Quiet (m : Machine α) : Prop where
  poll : ∀ feeds s, (m.poll feeds s).Quiet
  live : ∀ s, m.live s = []

theorem quiet_just (a : α) : (just a).Quiet where
  poll _ fresh := by
    cases fresh <;> rintro _ ⟨⟩
  live _ := rfl

theorem Quiet.mapReporting {m : Machine α} (h : m.Quiet) {f : α → β × List Event}
    (hf : ∀ a, ∀ event ∈ (f a).2, event.IsCall) : (m.mapReporting f).Quiet where
  poll feeds s := (h.poll feeds s).mapReporting hf
  live := h.live

theorem Quiet.pollSlot {m : Machine α} (h : m.Quiet) (feeds : Feeds)
    (s : Option m.State × Option α) : (m.pollSlot feeds s).Quiet := by
  fun_cases Machine.pollSlot m feeds s with
  | case1 => rintro _ ⟨⟩
  | case2 s => exact h.poll feeds s
  | case3 s => exact h.poll feeds s
  | case4 s => exact h.poll feeds s
  | case5 s => exact h.poll feeds s

theorem quiet_sweep {ms : List (Machine α)} (h : ∀ m ∈ ms, m.Quiet) (feeds : Feeds)
    (slots : Slots ms) : (sweep feeds ms slots).Quiet := by
  fun_induction sweep feeds ms slots with
  | case1 => rintro _ ⟨⟩
  | case2 m ms slot slots p _ =>
    exact (h m List.mem_cons_self).pollSlot feeds slot
  | case3 m ms slot slots p _ ih =>
    obtain ⟨hm, hms⟩ := List.forall_mem_cons.1 h
    exact List.forall_mem_append.2 ⟨hm.pollSlot feeds slot, ih hms⟩

theorem live_slots {ms : List (Machine α)} (h : ∀ m ∈ ms, m.Quiet) (slots : Slots ms) :
    Slots.live ms slots = [] := by
  induction ms with
  | nil => rfl
  | cons m ms ih =>
    obtain ⟨hm, hms⟩ := List.forall_mem_cons.1 h
    obtain ⟨⟨state, latest⟩, slots⟩ := slots
    show state.elim [] m.live ++ Slots.live ms slots = []
    rw [ih hms]
    cases state with
    | none => rfl
    | some s => exact (List.append_nil _).trans (hm.live s)

theorem quiet_combineLatest {ms : List (Machine α)} (h : ∀ m ∈ ms, m.Quiet) :
    (combineLatest ms).Quiet where
  poll feeds s := by
    show (pollCombined ms feeds s).Quiet
    fun_cases pollCombined ms feeds s with
    | case1 => rintro _ ⟨⟩
    | case2 => rintro _ ⟨⟩
    | case3 slots _ w _ =>
      unfold report
      split <;> exact quiet_sweep h feeds slots
    | case4 slots => exact quiet_sweep h feeds slots
    | case5 slots => exact quiet_sweep h feeds slots
    | case6 slots => exact quiet_sweep h feeds slots
  live s := by
    cases s with
    | none => rfl
    | some slots => exact live_slots h slots

theorem Quiet.pollOuter {m : Machine α} (h : m.Quiet) (f : α → Machine β) (feeds : Feeds)
    (s : SwitchState m f) : (m.pollOuter f feeds s).Quiet := by
  fun_cases Machine.pollOuter m f feeds s with
  | case1 => rintro _ ⟨⟩
  | case2 s => exact h.poll feeds s
  | case3 s => exact h.poll feeds s
  | case4 s => exact h.poll feeds s

theorem quiet_pollInner (m : Machine α) {f : α → Machine β} (hf : ∀ a, (f a).Quiet)
    (feeds : Feeds) (s : SwitchState m f) : (m.pollInner f feeds s).Quiet := by
  fun_cases pollInner m f feeds s with
  | case1 => rintro _ ⟨⟩
  | case2 _ a t => exact (hf a).poll feeds t
  | case3 _ a t => exact (hf a).poll feeds t
  | case4 _ a t => exact (hf a).poll feeds t

theorem Quiet.switchMap {m : Machine α} {f : α → Machine β} (h : m.Quiet)
    (hf : ∀ a, (f a).Quiet) : (m.switchMap f).Quiet where
  poll feeds s := by
    have hround : ∀ s, (m.finishRound f feeds (m.pollOuter f feeds s)).Quiet :=
      fun s => (quiet_pollInner m hf feeds _).after _ (h.pollOuter f feeds s)
    show (m.pollSwitch f feeds s).Quiet
    fun_induction pollSwitch m f feeds s with
    | case1 s => exact hround s
    | case2 s p q _ _ ih => exact ih.after _ (hround s)
    | case3 s => exact hround s
    | case4 s => exact hround s
  live s := by
    obtain ⟨outer, inner⟩ := s
    show outer.elim [] m.live ++ inner.elim [] (fun i => (f i.1).live i.2) = []
    cases outer with
    | none =>
      cases inner with
      | none => rfl
      | some i => exact (hf i.1).live i.2
    | some s =>
      rw [Option.elim_some, h.live]
      cases inner with
      | none => rfl
      | some i => exact (hf i.1).live i.2

theorem Quiet.distinct {m : Machine α} (h : m.Quiet) (same : α → α → Bool) :
    (m.distinct same).Quiet where
  poll feeds s := by
    show (m.pollDistinct same feeds s.1 s.2).Quiet
    fun_induction pollDistinct m same feeds s.1 s.2 with
    | case1 s p a _ _ ih => exact ih.after _ (h.poll feeds s)
    | case2 s => exact h.poll feeds s
    | case3 s => exact h.poll feeds s
    | case4 s => exact h.poll feeds s
  live s := h.live s.1

theorem Quiet.once {m : Machine α} (h : m.Quiet) : m.once.Quiet where
  poll feeds s := by
    show (m.pollOnce feeds s).Quiet
    fun_cases pollOnce m feeds s with
    | case1 s => exact h.poll feeds s
    | case2 s => exact h.poll feeds s
    | case3 s => exact h.poll feeds s
    | case4 => rintro _ ⟨⟩
  live s := h.live s.1

theorem Quiet.followedBy {m : Machine α} (h : m.Quiet) (last : α) :
    (m.followedBy last).Quiet where
  poll feeds s := by
    show (m.pollFollowed last feeds s).Quiet
    fun_cases pollFollowed m last feeds s with
    | case1 => rintro _ ⟨⟩
    | case2 s => exact h.poll feeds s
    | case3 s => exact h.poll feeds s
    | case4 s => exact h.poll feeds s
  live s := by
    cases s with
    | none => rfl
    | some s => exact h.live s

theorem compositional_quiet : Compositional Quiet where
  just := quiet_just
  mapReporting _ hf h := h.mapReporting hf
  combine := quiet_combineLatest
  switch := Quiet.switchMap
  distinct same h := h.distinct same
  once := Quiet.once
  first last h := (h.followedBy last).once

/-! ## Single values -/

/-- A stream gives a single value, at once. -/
def Single (m : Machine α) : Prop := ∃ a, m.Gives a

theorem compositional_single : Compositional Single where
  just a := ⟨a, gives_just a⟩
  mapReporting f _ := fun ⟨a, h⟩ => ⟨(f a).1, h.mapReporting f⟩
  combine h := by
    obtain ⟨as, has⟩ := exists_forall₂ h
    exact ⟨as, gives_combineLatest has⟩
  switch := fun ⟨a, h⟩ hf => (hf a).imp fun b hb => h.switchMap hb
  distinct same := fun ⟨a, h⟩ => ⟨a, h.distinct same⟩
  once := fun ⟨a, h⟩ => ⟨a, h.once⟩
  first last := fun ⟨a, h⟩ => ⟨a, gives_once (h.first_followedBy last)⟩

end Machine

end AccessPolicy
