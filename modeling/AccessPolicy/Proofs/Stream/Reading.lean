import AccessPolicy.Proofs.Lists
import AccessPolicy.Proofs.Stream.Single
import AccessPolicy.Proofs.Stream.Switch

/-!
# Readings of streams

What can be said of a combined stream often follows from the same thing said of its parts. A
*reading* is such a thing to say: it shows of a stream that its values meet a goal, where a goal
is a property of values that may depend on a world. The laws of a reading say how goals pass
through the combinators, so that a statement about everything that is evaluated is proved once,
for all readings.

There are two of them. Where a stream **settles**, the value that it gave last meets its goal
under the history so far. And a stream of a **single** value has its goal met by that value.
-/

namespace AccessPolicy

open Machine

/-! ## What a reading is -/

/-- **A way of reading streams**: which goals a stream is shown to meet, and how goals pass
through the combinators. -/
structure Reading (W : Type) where
  /-- The stream is shown to meet the goal. -/
  Shows : {α : Type} → Machine α → (W → α → Prop) → Prop
  mono : ∀ {α : Type} {m : Machine α} {G G' : W → α → Prop},
    Shows m G → (∀ w a, G w a → G' w a) → Shows m G'
  gives : ∀ {α : Type} {m : Machine α} {a : α} {G : W → α → Prop},
    m.Gives a → (∀ w, G w a) → Shows m G
  mapReporting : ∀ {α β : Type} {m : Machine α} {G : W → α → Prop} (f : α → β × List Event),
    Shows m G → Shows (m.mapReporting f) fun w b => ∃ a, G w a ∧ b = (f a).1
  combine : ∀ {α : Type} {ms : List (Machine α)} {Gs : List (W → α → Prop)},
    List.Forall₂ (fun m G => Shows m G) ms Gs →
      Shows (combineLatest ms) fun w as => List.Forall₂ (fun G a => G w a) Gs as
  switch : ∀ {α β : Type} {m : Machine α} {f : α → Machine β} {G : W → α → Prop}
    {K : α → W → β → Prop},
    Shows m G → (∀ w a, G w a → Shows (f a) (K a)) →
      Shows (m.switchMap f) fun w b => ∃ a, G w a ∧ K a w b
  distinct : ∀ {α : Type} {m : Machine α} {G : W → α → Prop} (same : α → α → Bool),
    Shows m G → Shows (m.distinct same) fun w b => ∃ a, G w a ∧ (b = a ∨ same b a = true)
  announced : ∀ {α : Type} {m : Machine α} {G : W → α → Prop} (event : Event),
    Shows m G → Shows (m.announced event) G

namespace Reading

variable {W α β : Type}

/-! ## Laws that follow -/

section Laws

variable (R : Reading W)

theorem shows_just {a : α} {G : W → α → Prop} (h : ∀ w, G w a) : R.Shows (just a) G :=
  R.gives (gives_just a) h

theorem shows_map {m : Machine α} {G : W → α → Prop} (f : α → β) (h : R.Shows m G) :
    R.Shows (m.map f) fun w b => ∃ a, G w a ∧ b = f a :=
  R.mapReporting _ h

/-- Dropping the values that are equal to the one before keeps every goal. -/
theorem shows_distinct [BEq α] [LawfulBEq α] {m : Machine α} {G : W → α → Prop}
    (h : R.Shows m G) : R.Shows (m.distinct (· == ·)) G := by
  refine R.mono (R.distinct _ h) ?_
  rintro w b ⟨a, hg, hsame⟩
  have hb : b = a := hsame.elim id fun h => eq_of_beq h
  exact hb ▸ hg

end Laws

end Reading

/-! ## Settling -/

namespace Machine

/-- **Where a stream settles**: in the histories that are allowed, a stream that rests has given
a value, and the last one meets the goal. -/
def Settles (Allowed : List Feeds → Prop) {α : Type} (m : Machine α)
    (G : List Feeds → α → Prop) : Prop :=
  ∀ history last, Allowed history → m.Rests history last → ∃ a, last = some a ∧ G history a

variable {Allowed : List Feeds → Prop} {α β : Type} {m : Machine α} {G : List Feeds → α → Prop}

theorem Settles.mapReporting (f : α → β × List Event) (h : m.Settles Allowed G) :
    (m.mapReporting f).Settles Allowed fun history b => ∃ a, G history a ∧ b = (f a).1 := by
  intro history last ha hr
  obtain ⟨given, hm, rfl⟩ := rests_mapReporting hr
  obtain ⟨a, rfl, hg⟩ := h history given ha hm
  exact ⟨(f a).1, rfl, a, hg, rfl⟩

theorem Settles.distinct (same : α → α → Bool) (h : m.Settles Allowed G) :
    (m.distinct same).Settles Allowed
      fun history b => ∃ a, G history a ∧ (b = a ∨ same b a = true) := by
  intro history last ha hr
  obtain ⟨given, hm, hl⟩ := rests_distinct hr
  obtain ⟨a, rfl, hg⟩ := h history given ha hm
  cases last with
  | none => exact hl.elim
  | some b => exact ⟨b, rfl, a, hg, hl⟩

theorem Settles.switch {f : α → Machine β} {K : α → List Feeds → β → Prop}
    (h : m.Settles Allowed G) (hf : ∀ w a, G w a → (f a).Settles Allowed (K a)) :
    (m.switchMap f).Settles Allowed fun history b => ∃ a, G history a ∧ K a history b := by
  intro history last ha hr
  rcases rests_switchMap hr with ⟨hm, -⟩ | ⟨a, given, hm, hi, hl⟩
  · obtain ⟨a, hnone, -⟩ := h history none ha hm
    cases hnone
  · obtain ⟨a', ha', hg⟩ := h history (some a) ha hm
    cases ha'
    obtain ⟨b, rfl, hk⟩ := hf history a hg history given ha hi
    exact ⟨b, hl b rfl, a, hg, hk⟩

theorem Settles.combine {ms : List (Machine α)} {Gs : List (List Feeds → α → Prop)}
    (h : List.Forall₂ (fun m G => m.Settles Allowed G) ms Gs) :
    (combineLatest ms).Settles Allowed
      fun history as => List.Forall₂ (fun G a => G history a) Gs as := by
  intro history last ha hr
  rcases rests_combineLatest hr with ⟨m, hm, hr⟩ | ⟨values, rfl, hv⟩
  · -- no stream rests before it has given a value
    obtain ⟨G, -, hG⟩ := forall₂_mem_left h hm
    obtain ⟨a, hnone, -⟩ := hG history none ha hr
    cases hnone
  · refine ⟨values, rfl, forall₂_through h hv fun m G a hG hr => ?_⟩
    obtain ⟨b, hb, hg⟩ := hG history (some a) ha hr
    cases hb
    exact hg

end Machine

namespace Reading

/-- The reading of where streams settle. -/
def settling (Allowed : List Feeds → Prop) : Reading (List Feeds) where
  Shows m G := m.Settles Allowed G
  mono h hG history last ha hr := by
    obtain ⟨a, rfl, hg⟩ := h history last ha hr
    exact ⟨a, rfl, hG history a hg⟩
  gives hm hG history _ _ hr := ⟨_, hm.rests hr, hG history⟩
  mapReporting f h := h.mapReporting f
  combine h := Settles.combine h
  switch h hf := h.switch hf
  distinct same h := h.distinct same
  announced _ h history last ha hr := h history last ha (rests_announced hr)

/-! ## Single values -/

/-- The reading of streams that give a single value, at once. -/
def single : Reading Unit where
  Shows m G := ∃ a, m.Gives a ∧ G () a
  mono h hG := by
    obtain ⟨a, ha, hg⟩ := h
    exact ⟨a, ha, hG () a hg⟩
  gives hm hG := ⟨_, hm, hG ()⟩
  mapReporting f h := by
    obtain ⟨a, ha, hg⟩ := h
    exact ⟨_, ha.mapReporting f, a, hg, rfl⟩
  combine {α ms Gs} h := by
    have : ∃ as, List.Forall₂ (fun m a => Machine.Gives m a) ms as
        ∧ List.Forall₂ (fun (G : Unit → α → Prop) a => G () a) Gs as := by
      induction h with
      | nil => exact ⟨[], .nil, .nil⟩
      | cons hm _ ih =>
        obtain ⟨a, ha, hg⟩ := hm
        obtain ⟨as, has, hgs⟩ := ih
        exact ⟨a :: as, .cons ha has, .cons hg hgs⟩
    obtain ⟨as, has, hgs⟩ := this
    exact ⟨as, gives_combineLatest has, hgs⟩
  switch h hf := by
    obtain ⟨a, ha, hg⟩ := h
    obtain ⟨b, hb, hk⟩ := hf () a hg
    exact ⟨b, ha.switchMap hb, a, hg, hk⟩
  distinct same h := by
    obtain ⟨a, ha, hg⟩ := h
    exact ⟨a, ha.distinct same, a, hg, .inl rfl⟩
  announced event h := by
    obtain ⟨a, ha, hg⟩ := h
    exact ⟨a, ha.announced event, hg⟩

end Reading

end AccessPolicy
