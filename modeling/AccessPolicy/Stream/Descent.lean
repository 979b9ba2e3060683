/-!
# Descents of states

A stream that is polled again and again while nothing changes around it comes to rest. What
guarantees it is a *descent*: a transitive, well-founded order of the stream's states which
every poll that yields something goes down. A descent of a combined stream is built from
those of its parts: a part that may end is an `option`, two parts are compared
lexicographically, and the stream that a value opens belongs to a `family`.

The order is a relation and not a number, because the number of polls left in a stream that
opens other streams cannot be told before the values that open them are known.
-/

namespace AccessPolicy

/-- A transitive, well-founded order of states. -/
structure Descent (σ : Type) where
  Below : σ → σ → Prop
  wf : WellFounded Below
  trans : ∀ {a b c : σ}, Below a b → Below b c → Below a c

namespace Descent

variable {σ τ : Type}

/-- Weakly below: below or the same. -/
def AtMost (d : Descent σ) (a b : σ) : Prop := a = b ∨ d.Below a b

theorem AtMost.refl (d : Descent σ) (a : σ) : d.AtMost a a := .inl rfl

theorem AtMost.below {d : Descent σ} {a b c : σ} (h : d.AtMost a b) (h' : d.Below b c) :
    d.Below a c := by
  rcases h with rfl | h
  · exact h'
  · exact d.trans h h'

theorem AtMost.above {d : Descent σ} {a b c : σ} (h : d.AtMost b c) (h' : d.Below a b) :
    d.Below a c := by
  rcases h with rfl | h
  · exact h'
  · exact d.trans h' h

theorem AtMost.trans {d : Descent σ} {a b c : σ} (h : d.AtMost a b) (h' : d.AtMost b c) :
    d.AtMost a c := by
  rcases h' with rfl | h'
  · exact h
  · exact .inr (h.below h')

/-- The descent of a number attached to each state. -/
def ofRank (rank : σ → Nat) : Descent σ where
  Below a b := rank a < rank b
  wf := (measure rank).wf
  trans := Nat.lt_trans

/-- The descent of a view of a state. -/
def onView (d : Descent τ) (view : σ → τ) : Descent σ where
  Below a b := d.Below (view a) (view b)
  wf := InvImage.wf view d.wf
  trans := d.trans

/-! ## States that may be gone -/

/-- A state that is gone lies below every state that is not. -/
inductive OptionBelow (below : σ → σ → Prop) : Option σ → Option σ → Prop where
  | gone (a : σ) : OptionBelow below none (some a)
  | still {a b : σ} : below a b → OptionBelow below (some a) (some b)

theorem acc_none (below : σ → σ → Prop) : Acc (OptionBelow below) none :=
  ⟨none, fun _ h => nomatch h⟩

theorem acc_some {below : σ → σ → Prop} {a : σ} (h : Acc below a) :
    Acc (OptionBelow below) (some a) := by
  induction h with
  | intro a _ ih =>
    refine ⟨some a, fun b hb => ?_⟩
    cases hb with
    | gone => exact acc_none below
    | still hba => exact ih _ hba

/-- The descent of a state that may be gone. -/
def option (d : Descent σ) : Descent (Option σ) where
  Below := OptionBelow d.Below
  wf := ⟨fun o => match o with
    | none => acc_none _
    | some a => acc_some (d.wf.apply a)⟩
  trans h h' := by
    cases h' with
    | gone => cases h
    | still hb =>
      cases h with
      | gone => exact .gone _
      | still ha => exact .still (d.trans ha hb)

/-! ## Two states -/

/-- The first state counts first, and the second while the first stays the same. -/
def lex (d : Descent σ) (e : Descent τ) : Descent (σ × τ) where
  Below := Prod.Lex d.Below e.Below
  wf := (Prod.lex ⟨d.Below, d.wf⟩ ⟨e.Below, e.wf⟩).wf
  trans h h' := by
    cases h with
    | left _ _ h =>
      cases h' with
      | left _ _ h' => exact .left _ _ (d.trans h h')
      | right _ _ => exact .left _ _ h
    | right _ h =>
      cases h' with
      | left _ _ h' => exact .left _ _ h'
      | right _ h' => exact .right _ (e.trans h h')

theorem AtMost.lex {d : Descent σ} {e : Descent τ} {a b : σ} {s t : τ} (h : d.AtMost a b)
    (h' : e.AtMost s t) : (d.lex e).AtMost (a, s) (b, t) := by
  rcases h with rfl | h
  · rcases h' with rfl | h'
    · exact .refl _ _
    · exact .inr (.right _ h')
  · exact .inr (.left _ _ h)

theorem AtMost.lex_below {d : Descent σ} {e : Descent τ} {a b : σ} {s t : τ}
    (h : d.AtMost a b) (h' : e.Below s t) : (d.lex e).Below (a, s) (b, t) := by
  rcases h with rfl | h
  · exact .right _ h'
  · exact .left _ _ h

/-! ## States of one of many streams -/

/-- Only states of the same member of a family are compared. -/
inductive FamilyBelow {ι : Type} {States : ι → Type}
    (below : (i : ι) → States i → States i → Prop) : (Σ i, States i) → (Σ i, States i) → Prop where
  | same (i : ι) {a b : States i} : below i a b → FamilyBelow below ⟨i, a⟩ ⟨i, b⟩

theorem acc_family {ι : Type} {States : ι → Type}
    {below : (i : ι) → States i → States i → Prop} {i : ι} {a : States i}
    (h : Acc (below i) a) : Acc (FamilyBelow below) ⟨i, a⟩ := by
  induction h with
  | intro a _ ih =>
    refine ⟨_, fun b hb => ?_⟩
    cases hb with
    | same _ hba => exact ih _ hba

/-- The descent of a state of one member of a family. -/
def family {ι : Type} {States : ι → Type} (d : (i : ι) → Descent (States i)) :
    Descent (Σ i, States i) where
  Below := FamilyBelow fun i => (d i).Below
  wf := ⟨fun ⟨i, a⟩ => acc_family ((d i).wf.apply a)⟩
  trans h h' := by
    cases h with
    | same i h =>
      cases h' with
      | same _ h' => exact .same i ((d i).trans h h')

/-! ## Loops that go down -/

/-- A state as the bound of a loop that goes down. -/
structure Bound (d : Descent σ) where
  state : σ

instance (d : Descent σ) : WellFoundedRelation (Bound d) :=
  ⟨fun a b => d.Below a.state b.state, InvImage.wf Bound.state d.wf⟩

end Descent

end AccessPolicy
