import AccessPolicy.Index.Canonical
import AccessPolicy.Proofs.Dict
import Mathlib.Data.List.Count
import Mathlib.Data.List.Forall2
import Mathlib.Data.List.Perm.Basic

/-!
# The arena of predicates

What has to be known of an arena is which slots are in use, and how often: this is the list of
slots that its users hold, one item for each use. An arena is **sound** for such a list if it
counts exactly these uses, if a slot is occupied exactly as long as it is used, if the table of
predicates tells the one slot of each, and if every other slot waits once to be taken.

Taking and giving up a slot adds to the list and takes from it, and neither changes the predicate
of a slot that stays in use: whoever holds a slot may rely on it.
-/

namespace AccessPolicy

namespace Arena

/-- The predicate in a slot. -/
def predicate? (a : Arena) (slot : Nat) : Option Predicate :=
  (a.occupant? slot).map Occupant.predicate

/-- How many uses of a slot are counted. -/
def usesOf (a : Arena) (slot : Nat) : Nat := ((a.occupant? slot).map Occupant.uses).getD 0

/-- **An arena is sound** for the slots that are in use, each listed once for each use. -/
structure Sound (a : Arena) (used : List Nat) : Prop where
  /-- Each use is counted, and nothing else is. -/
  counted : ∀ slot, a.usesOf slot = used.count slot
  /-- A slot that is no longer used is given up. -/
  positive : ∀ slot o, a.occupant? slot = some o → 0 < o.uses
  /-- The table of predicates tells the slot of each. -/
  ids : ∀ p slot, a.slotOf? p = some slot ↔ a.predicate? slot = some p
  /-- No predicate is listed twice. -/
  listed : (Dict.keys a.ids).Nodup
  /-- The free slots are those without an occupant. -/
  free : ∀ slot, slot ∈ a.free ↔ slot < a.slots.length ∧ a.occupant? slot = none
  /-- No slot is free twice. -/
  nodup : a.free.Nodup

/-- A term stands for a literal: its slot holds the predicate, and the signs are the same. -/
def Denotes (a : Arena) (t : Term) (l : Literal) : Prop :=
  a.predicate? t.slot = some l.predicate ∧ t.negated = l.negated

/-- **Some slots can be released**, one after another: each of them has a use to give up when its
turn comes. -/
def Releasable : Arena → List Nat → Prop
  | _, [] => True
  | a, slot :: slots => 0 < a.usesOf slot ∧ (a.release slot).Releasable slots

/-- An arena keeps the predicates of some slots. -/
def Keeps (a a' : Arena) (used : List Nat) : Prop :=
  ∀ slot ∈ used, a'.predicate? slot = a.predicate? slot

variable {a a' a'' : Arena} {used used' : List Nat} {slot : Nat}

theorem Keeps.refl : a.Keeps a used := fun _ _ => rfl

theorem Keeps.trans (h : a.Keeps a' used) (h' : a'.Keeps a'' used') (hsub : used ⊆ used') :
    a.Keeps a'' used := fun s hs => (h' s (hsub hs)).trans (h s hs)

theorem Keeps.mono (h : a.Keeps a' used') (hsub : used ⊆ used') : a.Keeps a' used :=
  fun s hs => h s (hsub hs)

/-! ## Slots -/

theorem occupant?_put (o : Option Occupant) (h : slot < a.slots.length) (s : Nat) :
    (a.put slot o).occupant? s = if s = slot then o else a.occupant? s := by
  unfold occupant? put
  rw [List.getElem?_set]
  split
  · next heq => rw [if_pos heq.symm]; rfl
  · next hne => rw [if_neg (Ne.symm hne)]

theorem lt_of_occupant? {o : Occupant} (h : a.occupant? slot = some o) :
    slot < a.slots.length := by
  by_contra hge
  rw [occupant?, List.getElem?_eq_none (Nat.le_of_not_lt hge)] at h
  cases h

theorem predicate?_of_occupant? {o : Occupant} (h : a.occupant? slot = some o) :
    a.predicate? slot = some o.predicate := by
  rw [predicate?, h]
  rfl

/-- A predicate that is added to the table is found there, and no other one notices. -/
theorem slotOf?_cons {p : Predicate} (hids : a'.ids = (p, slot) :: a.ids) (q : Predicate) :
    a'.slotOf? q = if q = p then some slot else a.slotOf? q := by
  rw [slotOf?, hids]
  rfl

/-- A predicate that is not found is not listed. -/
theorem not_mem_keys_of_slotOf? {p : Predicate} (h : a.slotOf? p = none) :
    p ∉ Dict.keys a.ids := by
  rw [← Dict.hasKey_iff_mem_keys, Dict.hasKey, show Dict.get? a.ids p = none from h]
  rintro ⟨⟩

namespace Sound

theorem empty : Sound {} [] where
  counted _ := rfl
  positive _ _ h := by cases h
  ids _ _ := iff_of_false (by rintro ⟨⟩) (by rintro ⟨⟩)
  listed := .nil
  free slot := by simp
  nodup := .nil

/-- Only the number of uses of each slot matters. -/
theorem perm (h : a.Sound used) (hperm : used.Perm used') : a.Sound used' where
  counted slot := (h.counted slot).trans (hperm.count_eq slot)
  positive := h.positive
  ids := h.ids
  listed := h.listed
  free := h.free
  nodup := h.nodup

/-- No predicate has two slots. -/
theorem distinct (h : a.Sound used) {s t : Nat} {p : Predicate} (hs : a.predicate? s = some p)
    (ht : a.predicate? t = some p) : s = t :=
  Option.some.inj (((h.ids p s).2 hs).symm.trans ((h.ids p t).2 ht))

/-- If no slot is found for a predicate then none holds it. -/
theorem predicate?_ne (h : a.Sound used) {p : Predicate} (hnone : a.slotOf? p = none) (s : Nat) :
    a.predicate? s ≠ some p := by
  intro hs
  rw [(h.ids p s).2 hs] at hnone
  cases hnone

/-- **A slot is in use** exactly if it is occupied. -/
theorem mem_used (h : a.Sound used) : slot ∈ used ↔ ∃ o, a.occupant? slot = some o := by
  have hcount := h.counted slot
  rw [← List.count_pos_iff, ← hcount, usesOf]
  cases ho : a.occupant? slot with
  | none => simp
  | some o => exact ⟨fun _ => ⟨o, rfl⟩, fun _ => h.positive slot o ho⟩

/-- Soundness after the occupant of one slot has changed. -/
theorem change {o' : Option Occupant} (h : a.Sound used)
    (hocc : ∀ s, a'.occupant? s = if s = slot then o' else a.occupant? s)
    (hslot : (o'.map Occupant.uses).getD 0 = used'.count slot)
    (hothers : ∀ s, s ≠ slot → used'.count s = used.count s)
    (hpos : ∀ o, o' = some o → 0 < o.uses)
    (hids : ∀ p s, a'.slotOf? p = some s ↔ a'.predicate? s = some p)
    (hlisted : (Dict.keys a'.ids).Nodup)
    (hfree : ∀ s, s ∈ a'.free ↔ s < a'.slots.length ∧ a'.occupant? s = none)
    (hnodup : a'.free.Nodup) : a'.Sound used' where
  counted s := by
    rw [usesOf, hocc]
    split
    · next heq => rw [hslot, heq]
    · next hne => rw [hothers s hne]; exact h.counted s
  positive s o ho := by
    rw [hocc] at ho
    split at ho
    · exact hpos o ho
    · exact h.positive s o ho
  ids := hids
  listed := hlisted
  free := hfree
  nodup := hnodup

/-- Another number of uses for an occupant changes no predicate. -/
theorem recount (used' : List Nat) {o : Occupant} {n : Nat} (h : a.Sound used)
    (ho : a.occupant? slot = some o) (hpos : 0 < n) (hslot : n = used'.count slot)
    (hothers : ∀ s, s ≠ slot → used'.count s = used.count s) :
    (a.put slot (some { o with uses := n })).Sound used'
      ∧ ∀ s, (a.put slot (some { o with uses := n })).predicate? s = a.predicate? s := by
  have hocc := occupant?_put (some { o with uses := n }) (lt_of_occupant? ho)
  have hpred : ∀ s, (a.put slot (some { o with uses := n })).predicate? s = a.predicate? s := by
    intro s
    rw [predicate?, hocc]
    split
    · next heq => rw [heq, predicate?_of_occupant? ho]; rfl
    · rfl
  refine ⟨h.change hocc hslot hothers ?_ (fun p s => ?_) h.listed (fun s => ?_) h.nodup, hpred⟩
  · rintro _ ⟨⟩
    exact hpos
  · rw [hpred]
    exact h.ids p s
  · rw [hocc, put, List.length_set]
    refine (h.free s).trans (and_congr_right fun _ => ?_)
    split
    · next heq => rw [heq, ho]; exact iff_of_false (by rintro ⟨⟩) (by rintro ⟨⟩)
    · rfl

/-! ## Taking a slot -/

/-- What is known after a slot has been taken for a predicate: the use is counted, the slot holds
the predicate, and those in use before keep theirs. -/
structure Taken (a : Arena) (used : List Nat) (p : Predicate) (a' : Arena) (slot : Nat) : Prop where
  sound : a'.Sound (slot :: used)
  holds : a'.predicate? slot = some p
  keeps : a.Keeps a' used

/-- A predicate that is put into a slot without an occupant. -/
theorem taken_fresh {p : Predicate} (h : a.Sound used) (hempty : a.occupant? slot = none)
    (hnone : a.slotOf? p = none)
    (hocc : ∀ s, a'.occupant? s = if s = slot then some ⟨p, 1⟩ else a.occupant? s)
    (hids : a'.ids = (p, slot) :: a.ids)
    (hfree : ∀ s, s ∈ a'.free ↔ s < a'.slots.length ∧ a'.occupant? s = none)
    (hnodup : a'.free.Nodup) : Taken a used p a' slot where
  sound := by
    have hunused : slot ∉ used := by
      rw [h.mem_used, hempty]
      rintro ⟨o, ho⟩
      cases ho
    refine h.change hocc ?_ (fun s hs => ?_) ?_ (fun q s => ?_) ?_ hfree hnodup
    · rw [List.count_cons_self, List.count_eq_zero_of_not_mem hunused]
      rfl
    · exact List.count_cons_of_ne (Ne.symm hs)
    · rintro _ ⟨⟩
      exact Nat.one_pos
    · -- the new entry of the table is for the new occupant, and the others are for other slots
      have hq := h.ids q s
      have hne := h.predicate?_ne hnone s
      have hslot : a.predicate? slot = none := by rw [predicate?, hempty]; rfl
      have hold : a'.predicate? s = if s = slot then some p else a.predicate? s := by
        rw [predicate?, hocc]
        split <;> rfl
      rw [slotOf?_cons hids, hold]
      split <;> split <;> grind
    · rw [hids]
      exact List.nodup_cons.2 ⟨not_mem_keys_of_slotOf? hnone, h.listed⟩
  holds := by
    rw [predicate?, hocc, if_pos rfl]
    rfl
  keeps s hs := by
    have hne : s ≠ slot := by
      rintro rfl
      obtain ⟨o, ho⟩ := h.mem_used.1 hs
      rw [hempty] at ho
      cases ho
    rw [predicate?, hocc, if_neg hne]
    rfl

/-- **Interning** a predicate takes a slot for it. -/
theorem intern (h : a.Sound used) (p : Predicate) :
    Taken a used p (a.intern p).1 (a.intern p).2 := by
  unfold Arena.intern
  split
  · next slot hslot =>
    obtain ⟨o, ho, rfl⟩ := Option.map_eq_some_iff.1 ((h.ids p slot).1 hslot)
    rw [ho, Option.map_some]
    have hcount := h.counted slot
    rw [usesOf, ho] at hcount
    replace hcount : o.uses = used.count slot := hcount
    obtain ⟨hsound, hpred⟩ := h.recount (slot :: used) ho (Nat.succ_pos o.uses)
      (by rw [List.count_cons_self, hcount]) fun s hs => List.count_cons_of_ne (Ne.symm hs)
    exact ⟨hsound, (hpred slot).trans (predicate?_of_occupant? ho), fun s _ => hpred s⟩
  · next hnone =>
    split
    · next slot free hfree =>
      obtain ⟨hlt, hempty⟩ := (h.free slot).1 (hfree ▸ List.mem_cons_self)
      have hocc := occupant?_put (a := { a with free := free, ids := (p, slot) :: a.ids })
        (some ⟨p, 1⟩) hlt
      have hnodup := h.nodup
      rw [hfree, List.nodup_cons] at hnodup
      refine h.taken_fresh hempty hnone hocc rfl (fun s => ?_) hnodup.2
      rw [hocc, put, List.length_set]
      have hs := h.free s
      rw [hfree, List.mem_cons] at hs
      split
      · next heq => rw [heq]; exact iff_of_false hnodup.1 (by rintro ⟨-, ⟨⟩⟩)
      · next hne => exact ⟨fun hmem => hs.1 (.inr hmem), fun hs' => (hs.2 hs').resolve_left hne⟩
    · next hfree =>
      -- no slot is free, so the arena grows by one
      have hempty : a.occupant? a.slots.length = none := by
        rw [occupant?, List.getElem?_eq_none (Nat.le_refl _)]
        rfl
      have hocc : ∀ s, Arena.occupant?
            { a with slots := a.slots ++ [some ⟨p, 1⟩], ids := (p, a.slots.length) :: a.ids } s
          = if s = a.slots.length then some ⟨p, 1⟩ else a.occupant? s := by
        intro s
        unfold occupant?
        rw [List.getElem?_append]
        grind
      refine h.taken_fresh hempty hnone hocc rfl (fun s => ?_) h.nodup
      rw [hocc, List.length_append, List.length_singleton, h.free]
      split
      · next heq => exact iff_of_false (fun hs => by omega) (by rintro ⟨-, ⟨⟩⟩)
      · next hne => exact and_congr_left fun _ => by omega

/-- **Interning the predicates of some literals** takes a slot for each of them. -/
theorem internAll (h : a.Sound used) (ls : List Literal) :
    (a.internAll ls).1.Sound ((a.internAll ls).2.map Term.slot ++ used)
      ∧ List.Forall₂ (a.internAll ls).1.Denotes (a.internAll ls).2 ls
      ∧ a.Keeps (a.internAll ls).1 used := by
  induction ls generalizing a used with
  | nil => exact ⟨h, .nil, .refl⟩
  | cons l ls ih =>
    have htaken := h.intern l.predicate
    obtain ⟨hsound, hdenote, hkeeps⟩ := ih htaken.sound
    refine ⟨hsound.perm List.perm_middle, .cons ⟨?_, rfl⟩ hdenote,
      htaken.keeps.trans hkeeps (List.subset_cons_self _ _)⟩
    exact (hkeeps _ List.mem_cons_self).trans htaken.holds

/-! ## Giving up a slot -/

/-- **Releasing** a slot gives up one of its uses, and the slots that stay in use keep their
predicates. -/
theorem release (h : a.Sound (slot :: used)) :
    (a.release slot).Sound used ∧ a.Keeps (a.release slot) used := by
  obtain ⟨o, ho⟩ := h.mem_used.1 List.mem_cons_self
  have hlt := lt_of_occupant? ho
  have hcount := h.counted slot
  rw [usesOf, ho, List.count_cons_self] at hcount
  replace hcount : o.uses = used.count slot + 1 := hcount
  have hothers : ∀ s, s ≠ slot → used.count s = (slot :: used).count s :=
    fun s hs => (List.count_cons_of_ne (Ne.symm hs)).symm
  unfold Arena.release
  rw [ho]
  dsimp only
  split
  · next huses =>
    -- the last use: the slot is cleared and waits to be taken
    have hunused : slot ∉ used := List.count_eq_zero.1 (by omega)
    have hocc : ∀ s, Arena.occupant? { a.put slot none with
          free := slot :: a.free, ids := Dict.erase a.ids o.predicate } s
        = if s = slot then none else a.occupant? s := occupant?_put none hlt
    refine ⟨h.change hocc ?_ hothers (by rintro _ ⟨⟩) (fun q s => ?_) ?_ (fun s => ?_) ?_,
      fun s hs => ?_⟩
    · rw [List.count_eq_zero_of_not_mem hunused]
      rfl
    · -- the entry that goes from the table is for the slot that is cleared
      have hq := h.ids q s
      have hslot := predicate?_of_occupant? ho
      have hdistinct := fun hs => h.distinct (s := s) hs hslot
      have hold : Arena.predicate? { a.put slot none with
            free := slot :: a.free, ids := Dict.erase a.ids o.predicate } s
          = if s = slot then none else a.predicate? s := by
        rw [predicate?, hocc]
        split <;> rfl
      have hfound : Arena.slotOf? { a.put slot none with
            free := slot :: a.free, ids := Dict.erase a.ids o.predicate } q
          = if q = o.predicate then none else a.slotOf? q := Dict.get?_erase _ _ _
      rw [hfound, hold]
      split <;> split <;> grind
    · exact (List.filter_sublist.map Prod.fst).nodup h.listed
    · rw [hocc, put, List.length_set, List.mem_cons, h.free]
      split
      · next heq => rw [heq]; exact ⟨fun _ => ⟨hlt, rfl⟩, fun _ => .inl rfl⟩
      · next hne => exact or_iff_right hne
    · refine List.nodup_cons.2 ⟨fun hmem => ?_, h.nodup⟩
      rw [h.free, ho] at hmem
      cases hmem.2
    · have hne : s ≠ slot := fun heq => hunused (heq ▸ hs)
      rw [predicate?, hocc, if_neg hne]
      rfl
  · next huses =>
    obtain ⟨hsound, hpred⟩ := h.recount used (n := o.uses - 1) ho (by omega) (by omega) hothers
    exact ⟨hsound, fun s _ => hpred s⟩

/-- Releasing all slots of a list, one after another. -/
theorem releaseAll {slots : List Nat} (h : a.Sound (slots ++ used)) :
    (slots.foldl Arena.release a).Sound used ∧ a.Keeps (slots.foldl Arena.release a) used := by
  induction slots generalizing a with
  | nil => exact ⟨h, .refl⟩
  | cons slot slots ih =>
    obtain ⟨hsound, hkeeps⟩ := h.release
    obtain ⟨hsound', hkeeps'⟩ := ih hsound
    exact ⟨hsound', (hkeeps.mono (List.subset_append_right _ _)).trans hkeeps' (List.Subset.refl _)⟩

/-- Slots that are in use can be released. -/
theorem releasable {slots : List Nat} (h : a.Sound (slots ++ used)) : a.Releasable slots := by
  induction slots generalizing a with
  | nil => trivial
  | cons slot slots ih =>
    refine ⟨?_, ih h.release.1⟩
    rw [h.counted, List.count_pos_iff]
    exact List.mem_cons_self

end Sound

end Arena

end AccessPolicy
