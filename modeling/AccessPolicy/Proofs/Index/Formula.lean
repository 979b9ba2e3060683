import AccessPolicy.Index.Formula
import Mathlib.Data.List.Basic

/-!
# What formulas say

An **assignment** gives a truth value to each expression under its imports, and with it to each
literal, clause and formula. None of the rewritings that keep a formula reduced changes what it
says: a constant is as it is under every assignment, a clause with a literal and its opposite
never holds, and a clause that has all literals of another one holds only if that one does.

So the connectives of formulas are the connectives of truth values wherever they stay within the
limit, and the formula of a target says what the target reads as when its operators `&`, `|` and
`!` are taken for those of truth values and everything below them for a predicate.
-/

namespace AccessPolicy

/-- A truth value for each expression and the imports that its names are resolved by. -/
abbrev Assignment := Expr → Dict String String → Bool

/-- The truth value of a predicate. A constant has its own. -/
def Predicate.value (σ : Assignment) : Predicate → Bool
  | .constant value => value
  | .expression e imports => σ e imports

/-- A literal holds if its predicate is true, or false if it is negated. -/
def Literal.Holds (σ : Assignment) (l : Literal) : Prop := l.apply (l.predicate.value σ) = true

/-- A clause holds if all its literals do. -/
def Clause.Holds (σ : Assignment) (c : Clause) : Prop := ∀ l ∈ c.literals, l.Holds σ

/-- A formula holds if one of its clauses does. -/
def Formula.Holds (σ : Assignment) (f : Formula) : Prop := ∃ c ∈ f.clauses, c.Holds σ

/-- All predicates of a formula have some property. -/
def Formula.Over (S : Predicate → Prop) (f : Formula) : Prop :=
  ∀ c ∈ f.clauses, ∀ l ∈ c.literals, S l.predicate

variable {σ : Assignment} {S : Predicate → Prop}

namespace Literal

theorem holds_negate {l : Literal} : l.negate.Holds σ ↔ ¬ l.Holds σ := by
  show (l.predicate.value σ != !l.negated) = true ↔ ¬ (l.predicate.value σ != l.negated) = true
  cases l.predicate.value σ <;> cases l.negated <;> decide

theorem value_of_constant? {l : Literal} {b : Bool} (h : l.constant? = some b) :
    l.Holds σ ↔ b = true := by
  obtain ⟨p, negated⟩ := l
  cases p with
  | constant value =>
    obtain rfl := Option.some.inj h
    exact Iff.rfl
  | expression e imports => cases h

/-- Literals that contradict each other do not hold together. -/
theorem not_holds_of_contradicts {l l' : Literal} (h : l.contradicts l' = true)
    (hl : l.Holds σ) : ¬ l'.Holds σ := by
  obtain ⟨p, negated⟩ := l
  obtain ⟨p', negated'⟩ := l'
  simp only [contradicts, sharesPredicate, sharesNegation, Bool.and_eq_true, decide_eq_true_eq,
    Bool.not_eq_true', beq_eq_false_iff_ne] at h
  obtain ⟨rfl, hne⟩ := h
  simp only [Holds, apply, bne_iff_ne, not_not] at hl ⊢
  exact (Bool.eq_not.2 hl).trans (Bool.eq_not.2 hne.symm).symm

end Literal

/-! ## Clauses -/

namespace Clause

theorem mem_add {c : Clause} {l l' : Literal} :
    l' ∈ (c.add l).literals ↔ l' = l ∨ l' ∈ c.literals := by
  unfold add
  split
  · next h =>
    rw [List.contains_iff_mem] at h
    exact ⟨.inr, fun h' => h'.elim (fun heq => heq ▸ h) id⟩
  · rw [List.mem_append, List.mem_singleton, or_comm]

theorem mem_foldl_add {ls : List Literal} {c : Clause} {l : Literal} :
    l ∈ (ls.foldl add c).literals ↔ l ∈ ls ∨ l ∈ c.literals := by
  induction ls generalizing c with
  | nil => simp
  | cons l' ls ih => rw [List.foldl_cons, ih, mem_add, List.mem_cons, or_left_comm, or_assoc]

theorem mem_ofList {ls : List Literal} {l : Literal} : l ∈ (ofList ls).literals ↔ l ∈ ls := by
  rw [ofList, mem_foldl_add]
  simp

theorem mem_and {c d : Clause} {l : Literal} :
    l ∈ (c.and d).literals ↔ l ∈ d.literals ∨ l ∈ c.literals := mem_foldl_add

/-- A clause of one literal holds if the literal does. -/
theorem holds_single {l : Literal} : (ofList [l]).Holds σ ↔ l.Holds σ := by
  simp [Holds, mem_ofList]

theorem holds_and {c d : Clause} : (c.and d).Holds σ ↔ c.Holds σ ∧ d.Holds σ := by
  simp only [Holds, mem_and]
  grind

/-- Leaving out the literals that hold anyway makes no difference, and a clause with one that
cannot hold does not hold. -/
theorem holds_withoutConstants? {ls : List Literal} :
    (∃ rest, withoutConstants? ls = some rest ∧ ∀ l ∈ rest, l.Holds σ) ↔ ∀ l ∈ ls, l.Holds σ := by
  fun_induction withoutConstants? ls with
  | case1 => simp
  | case2 l ls h =>
    have := Literal.value_of_constant? (σ := σ) h
    simp_all
  | case3 l ls h ih =>
    have := Literal.value_of_constant? (σ := σ) h
    simp_all
  | case4 l ls h ih => simp [← ih, ← exists_and_left, and_left_comm]

theorem mem_withoutConstants? {ls rest : List Literal} (h : withoutConstants? ls = some rest) :
    rest ⊆ ls := by
  fun_induction withoutConstants? ls generalizing rest with
  | case1 => cases h; exact List.Subset.refl _
  | case2 => cases h
  | case3 l ls hl ih => exact List.subset_cons_of_subset _ (ih h)
  | case4 l ls hl ih =>
    obtain ⟨rest, hrest, rfl⟩ := Option.map_eq_some_iff.1 h
    exact List.cons_subset_cons _ (ih hrest)

theorem not_holds_of_opposed {ls : List Literal} (h : opposed ls = true) :
    ¬ ∀ l ∈ ls, l.Holds σ := by
  intro hall
  induction ls with
  | nil => cases h
  | cons l ls ih =>
    obtain ⟨hl, hls⟩ := List.forall_mem_cons.1 hall
    rw [opposed, Bool.or_eq_true] at h
    cases h with
    | inl h =>
      obtain ⟨l', hl', hopp⟩ := List.any_eq_true.1 h
      exact Literal.not_holds_of_contradicts hopp hl (hls l' hl')
    | inr h => exact ih h hls

/-- A clause whose literals are all literals of another one holds if that one does. -/
theorem Holds.of_subsumes {c d : Clause} (h : c.subsumes d = true) (hd : d.Holds σ) :
    c.Holds σ := fun l hl => hd l (List.contains_iff_mem.1 (List.all_eq_true.1 h l hl))

end Clause

/-! ## Formulas -/

namespace Formula

theorem holds_candidates {cs : List Clause} :
    (∃ c ∈ candidates cs, c.Holds σ) ↔ ∃ c ∈ cs, c.Holds σ := by
  constructor
  · rintro ⟨c, hc, hholds⟩
    obtain ⟨d, hd, hcd⟩ := List.mem_filterMap.1 (List.mem_filter.1 hc).1
    obtain ⟨rest, hrest, rfl⟩ := Option.map_eq_some_iff.1 hcd
    exact ⟨d, hd, Clause.holds_withoutConstants?.1 ⟨rest, hrest, hholds⟩⟩
  · rintro ⟨d, hd, hholds⟩
    obtain ⟨rest, hrest, hall⟩ := Clause.holds_withoutConstants?.2 hholds
    refine ⟨⟨rest⟩, List.mem_filter.2 ⟨List.mem_filterMap.2 ⟨d, hd, by rw [hrest]; rfl⟩, ?_⟩, hall⟩
    rw [Bool.not_eq_true']
    exact Bool.eq_false_iff.2 fun hopp => Clause.not_holds_of_opposed hopp hall

theorem holds_keep {cs kept : List Clause} :
    (∃ c ∈ cs.foldl keep kept, c.Holds σ) ↔ ∃ c ∈ kept ++ cs, c.Holds σ := by
  induction cs generalizing kept with
  | nil => rw [List.append_nil, List.foldl_nil]
  | cons d cs ih =>
    rw [List.foldl_cons, ih, keep]
    split
    · next h =>
      -- the clause that is left out holds only if the one that subsumes it does
      obtain ⟨c, hc, hsub⟩ := List.any_eq_true.1 h
      have := Clause.Holds.of_subsumes (σ := σ) hsub
      grind
    · rw [List.append_assoc, List.singleton_append]

/-- **Reducing a formula** does not change what it says. -/
theorem holds_ofClauses {cs : List Clause} : (ofClauses cs).Holds σ ↔ ∃ c ∈ cs, c.Holds σ := by
  rw [← holds_candidates, ofClauses, Holds, holds_keep]
  simp only [List.nil_append, List.mem_mergeSort]

theorem mem_keep {cs kept : List Clause} {c : Clause} (h : c ∈ cs.foldl keep kept) :
    c ∈ kept ++ cs := by
  induction cs generalizing kept with
  | nil => rwa [List.append_nil]
  | cons d cs ih =>
    rw [List.foldl_cons] at h
    have := ih h
    unfold keep at this
    grind

/-- The literals of a reduced formula are literals of the clauses that it was made of. -/
theorem over_ofClauses {cs : List Clause} (h : ∀ c ∈ cs, ∀ l ∈ c.literals, S l.predicate) :
    (ofClauses cs).Over S := by
  intro c hc l hl
  have hmem := List.mem_mergeSort.1 (mem_keep hc)
  obtain ⟨d, hd, hcd⟩ := List.mem_filterMap.1 (List.mem_filter.1 hmem).1
  obtain ⟨rest, hrest, rfl⟩ := Option.map_eq_some_iff.1 hcd
  exact h d hd l (Clause.mem_withoutConstants? hrest hl)

/-! ### Connectives -/

theorem holds_constant {value : Bool} : (constant value).Holds σ ↔ value = true := by
  cases value <;> simp [constant, Holds, Clause.Holds]

theorem over_constant (value : Bool) : (constant value).Over S := by
  cases value <;> simp [constant, Over]

theorem holds_literal {l : Literal} : (literal l).Holds σ ↔ l.Holds σ := by
  rw [literal, holds_ofClauses]
  simp [Clause.holds_single]

theorem over_literal {l : Literal} (h : S l.predicate) : (literal l).Over S := by
  refine over_ofClauses fun c hc l' hl' => ?_
  rw [List.mem_singleton.1 hc, Clause.mem_ofList, List.mem_singleton] at hl'
  rwa [hl']

/-- **The disjunction of two formulas** holds if one of them does. -/
theorem holds_or? {f g r : Formula} {limit : Nat} (h : f.or? g limit = some r) :
    r.Holds σ ↔ f.Holds σ ∨ g.Holds σ := by
  unfold or? at h
  split at h
  · cases h
  · obtain rfl := Option.some.inj h
    rw [holds_ofClauses]
    simp only [List.mem_append, or_and_right, exists_or, Holds]

theorem over_or? {f g r : Formula} {limit : Nat} (h : f.or? g limit = some r) (hf : f.Over S)
    (hg : g.Over S) : r.Over S := by
  unfold or? at h
  split at h
  · cases h
  · obtain rfl := Option.some.inj h
    exact over_ofClauses fun c hc => (List.mem_append.1 hc).elim (hf c) (hg c)

/-- **The conjunction of two formulas** holds if both do. -/
theorem holds_and? {f g r : Formula} {limit : Nat} (h : f.and? g limit = some r) :
    r.Holds σ ↔ f.Holds σ ∧ g.Holds σ := by
  unfold and? at h
  split at h
  · cases h
  · obtain rfl := Option.some.inj h
    rw [holds_ofClauses]
    constructor
    · rintro ⟨_, hmem, hholds⟩
      obtain ⟨c, hc, hmem⟩ := List.mem_flatMap.1 hmem
      obtain ⟨d, hd, rfl⟩ := List.mem_map.1 hmem
      obtain ⟨hcholds, hdholds⟩ := Clause.holds_and.1 hholds
      exact ⟨⟨c, hc, hcholds⟩, ⟨d, hd, hdholds⟩⟩
    · rintro ⟨⟨c, hc, hcholds⟩, ⟨d, hd, hdholds⟩⟩
      exact ⟨c.and d, List.mem_flatMap.2 ⟨c, hc, List.mem_map_of_mem hd⟩,
        Clause.holds_and.2 ⟨hcholds, hdholds⟩⟩

theorem over_and? {f g r : Formula} {limit : Nat} (h : f.and? g limit = some r) (hf : f.Over S)
    (hg : g.Over S) : r.Over S := by
  unfold and? at h
  split at h
  · cases h
  · obtain rfl := Option.some.inj h
    refine over_ofClauses fun b hb l hl => ?_
    obtain ⟨c, hc, hb⟩ := List.mem_flatMap.1 hb
    obtain ⟨d, hd, rfl⟩ := List.mem_map.1 hb
    exact (Clause.mem_and.1 hl).elim (hg d hd l) (hf c hc l)

theorem holds_negateClause {c : Clause} : (negateClause c).Holds σ ↔ ¬ c.Holds σ := by
  rw [negateClause, holds_ofClauses, Clause.Holds]
  simp only [List.mem_map, exists_exists_and_eq_and, Clause.holds_single, Literal.holds_negate,
    not_forall, exists_prop]

theorem over_negateClause {c : Clause} (h : ∀ l ∈ c.literals, S l.predicate) :
    (negateClause c).Over S := by
  refine over_ofClauses fun d hd l' hl' => ?_
  obtain ⟨l, hl, rfl⟩ := List.mem_map.1 hd
  rw [Clause.mem_ofList, List.mem_singleton] at hl'
  rw [hl']
  exact h l hl

theorem holds_andNot? {f r : Formula} {cs : List Clause} {limit : Nat}
    (h : andNot? limit f cs = some r) :
    r.Holds σ ↔ f.Holds σ ∧ ¬ ∃ c ∈ cs, c.Holds σ := by
  fun_induction andNot? limit f cs with
  | case1 f => simp [Option.some.inj h]
  | case2 f c cs g hg ih =>
    rw [ih h, holds_and? hg, holds_negateClause, List.exists_mem_cons_iff, not_or, and_assoc]
  | case3 => cases h

theorem over_andNot? {f r : Formula} {cs : List Clause} {limit : Nat}
    (h : andNot? limit f cs = some r) (hf : f.Over S)
    (hcs : ∀ c ∈ cs, ∀ l ∈ c.literals, S l.predicate) : r.Over S := by
  fun_induction andNot? limit f cs with
  | case1 f => rwa [← Option.some.inj h]
  | case2 f c cs g hg ih =>
    obtain ⟨hc, hcs⟩ := List.forall_mem_cons.1 hcs
    exact ih h (over_and? hg hf (over_negateClause hc)) hcs
  | case3 => cases h

/-- **The negation of a formula** holds if the formula does not. -/
theorem holds_negate? {f r : Formula} {limit : Nat} (h : f.negate? limit = some r) :
    r.Holds σ ↔ ¬ f.Holds σ := by
  rw [holds_andNot? h, holds_constant]
  exact ⟨And.right, fun hf => ⟨rfl, hf⟩⟩

theorem over_negate? {f r : Formula} {limit : Nat} (h : f.negate? limit = some r)
    (hf : f.Over S) : r.Over S := over_andNot? h (over_constant true) hf

end Formula

/-! ## Targets -/

namespace Expr

/-- What a target reads as under an assignment. -/
def reading (σ : Assignment) (imports : Dict String String) : Expr → Bool
  | .literal (.bool value) => value
  | .binary .eagerAnd left right => left.reading σ imports && right.reading σ imports
  | .binary .eagerOr left right => left.reading σ imports || right.reading σ imports
  | .unary .not operand => !operand.reading σ imports
  | e => σ e imports

/-- **The formula of a target** holds under exactly those assignments that the target reads as
true under. -/
theorem holds_formula? {e : Expr} {imports : Dict String String} {limit : Nat} {f : Formula}
    (h : e.formula? imports limit = some f) : f.Holds σ ↔ e.reading σ imports = true := by
  fun_induction Expr.formula? imports limit e generalizing f with
  | case1 value => rw [← Option.some.inj h, Formula.holds_constant]; rfl
  | case2 left right ihl ihr =>
    obtain ⟨fl, hl, h⟩ := Option.bind_eq_some_iff.1 h
    obtain ⟨fr, hr, h⟩ := Option.bind_eq_some_iff.1 h
    rw [Formula.holds_and? h, ihl hl, ihr hr, reading, Bool.and_eq_true]
  | case3 left right ihl ihr =>
    obtain ⟨fl, hl, h⟩ := Option.bind_eq_some_iff.1 h
    obtain ⟨fr, hr, h⟩ := Option.bind_eq_some_iff.1 h
    rw [Formula.holds_or? h, ihl hl, ihr hr, reading, Bool.or_eq_true]
  | case4 operand ih =>
    obtain ⟨fo, ho, h⟩ := Option.bind_eq_some_iff.1 h
    rw [Formula.holds_negate? h, ih ho, reading, Bool.not_eq_true, Bool.not_eq_true']
  | case5 e hbool hand hor hnot =>
    -- everything else is a predicate, and read as one
    rw [← Option.some.inj h, Formula.holds_literal, reading]
    · show (σ e imports != false) = true ↔ _
      rw [Bool.bne_false]
    all_goals assumption

end Expr

end AccessPolicy
