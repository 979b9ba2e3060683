import AccessPolicy.Proofs.Index.Normalization
import AccessPolicy.Proofs.Index.Reduced

/-!
# Formulas within a limit

A conjunction is expanded before it is reduced: each clause of one formula is put together with each
clause of the other. The limit is there so that these products do not grow beyond it, and it is
looked at before anything is expanded. Reducing a product only makes it smaller, so what the
connectives give stays within the limit too.

A negation expands a product for each clause of the formula, and a target does so for each of its
operators `&` and `!`, one after the other, until one of them would be too large. An **expansion**
keeps a record of the products on the way, whether or not there is a formula in the end.

Formulas do not come from targets alone. They can be put together from clauses and by the
connectives in any order, and the clauses of one formula can be taken for another one. Whatever is
**made** in this way is reduced.
-/

namespace AccessPolicy

variable {limit : Nat}

namespace Formula

/-! ## How many clauses there are -/

theorem length_ofClauses_le (cs : List Clause) : (ofClauses cs).length ≤ cs.length := by
  obtain ⟨added, hadded, heq⟩ :=
    exists_kept [] ((candidates cs).mergeSort fun c d => c.length ≤ d.length)
  calc (ofClauses cs).length
      = added.length := by rw [length, ofClauses, heq, List.nil_append]
    _ ≤ (candidates cs).length := by simpa using hadded.length_le
    _ ≤ cs.length := Nat.le_trans (List.length_filter_le _ _) (List.length_filterMap_le _ _)

/-- The clauses of the conjunction of two formulas, before they are reduced. -/
def product (f g : Formula) : List Clause := f.clauses.flatMap fun c => g.clauses.map c.and

theorem length_product (f g : Formula) : (f.product g).length = f.length * g.length := by
  simp [product, length, List.length_flatMap]

theorem length_constant_le (value : Bool) : (constant value).length ≤ 1 := by
  cases value <;> simp [constant, length]

theorem length_literal_le (l : Literal) : (literal l).length ≤ 1 := length_ofClauses_le _

theorem length_or?_le {f g r : Formula} (h : f.or? g limit = some r) : r.length ≤ limit := by
  have hfits := or?_isSome.1 (Option.isSome_of_eq_some h)
  rw [or?, if_neg (by omega)] at h
  rw [← Option.some.inj h]
  refine Nat.le_trans (length_ofClauses_le _) ?_
  rwa [List.length_append]

theorem length_and?_le {f g r : Formula} (h : f.and? g limit = some r) : r.length ≤ limit := by
  have hfits := and?_isSome.1 (Option.isSome_of_eq_some h)
  rw [and?, if_neg (by omega)] at h
  rw [← Option.some.inj h]
  refine Nat.le_trans (length_ofClauses_le (f.product g)) ?_
  rwa [length_product]

theorem length_andNot?_le {f r : Formula} {cs : List Clause} (h : andNot? limit f cs = some r)
    (hf : f.length ≤ limit) : r.length ≤ limit := by
  fun_induction andNot? limit f cs with
  | case1 f => rwa [← Option.some.inj h]
  | case2 f c cs g hg ih => exact ih h (length_and?_le hg)
  | case3 => cases h

/-! ## The products on the way -/

/-- **An expansion**: a formula, if there is one within the limit, and the products that were
expanded on the way to it. -/
structure Expansion where
  formula? : Option Formula
  products : List (List Clause) := []

namespace Expansion

/-- What is expanded next, if there is a formula so far. -/
def andThen (e : Expansion) (next : Formula → Expansion) : Expansion :=
  match e.formula? with
  | some f => ⟨(next f).formula?, e.products ++ (next f).products⟩
  | none => e

/-- **An expansion within a limit** comes to a given result, and none of the products on the way has
more clauses than the limit allows. -/
structure Within (limit : Nat) (e : Expansion) (result : Option Formula) : Prop where
  formula? : e.formula? = result
  products : ∀ p ∈ e.products, p.length ≤ limit

theorem within_done (f? : Option Formula) : Within limit ⟨f?, []⟩ f? := ⟨rfl, by rintro _ ⟨⟩⟩

theorem Within.andThen {e : Expansion} {result : Option Formula} (h : e.Within limit result)
    {next : Formula → Expansion} {result' : Formula → Option Formula}
    (hnext : ∀ f, (next f).Within limit (result' f)) :
    (e.andThen next).Within limit (result.bind result') := by
  obtain ⟨f?, products⟩ := e
  obtain ⟨rfl, hproducts⟩ := h
  cases f? with
  | none => exact ⟨rfl, hproducts⟩
  | some f =>
    refine ⟨(hnext f).formula?, fun p hp => ?_⟩
    exact (List.mem_append.1 hp).elim (hproducts p) ((hnext f).products p)

end Expansion

/-- The expansion of a conjunction. -/
def expandAnd (f g : Formula) (limit : Nat) : Expansion :=
  if limit < f.length * g.length then ⟨none, []⟩
  else ⟨some (ofClauses (f.product g)), [f.product g]⟩

/-- The expansion of the conjunction of a formula with the negations of some clauses. -/
def expandAndNot (limit : Nat) : Formula → List Clause → Expansion
  | f, [] => ⟨some f, []⟩
  | f, c :: cs => (f.expandAnd (negateClause c) limit).andThen fun g => expandAndNot limit g cs

/-- The expansion of a negation. -/
def expandNegation (f : Formula) (limit : Nat) : Expansion :=
  expandAndNot limit (constant true) f.clauses

theorem within_expandAnd (f g : Formula) (limit : Nat) :
    (f.expandAnd g limit).Within limit (f.and? g limit) := by
  unfold expandAnd and?
  split
  · exact Expansion.within_done none
  · next hfits =>
    refine ⟨rfl, fun p hp => ?_⟩
    rw [List.mem_singleton.1 hp, length_product]
    exact Nat.not_lt.1 hfits

theorem within_expandAndNot (f : Formula) (cs : List Clause) :
    (expandAndNot limit f cs).Within limit (andNot? limit f cs) := by
  induction cs generalizing f with
  | nil => exact Expansion.within_done (some f)
  | cons c cs ih =>
    have hbind : andNot? limit f (c :: cs)
        = (f.and? (negateClause c) limit).bind fun g => andNot? limit g cs := by
      rw [andNot?]
      cases f.and? (negateClause c) limit <;> rfl
    rw [expandAndNot, hbind]
    exact (within_expandAnd f (negateClause c) limit).andThen ih

end Formula

namespace Expr

open Formula

/-- The expansion of the formula of a target. -/
def expand (imports : Dict String String) (limit : Nat) : Expr → Expansion
  | .literal (.bool value) => ⟨some (constant value), []⟩
  | .binary .eagerAnd left right =>
    (left.expand imports limit).andThen fun f =>
      (right.expand imports limit).andThen fun g => f.expandAnd g limit
  | .binary .eagerOr left right =>
    (left.expand imports limit).andThen fun f =>
      (right.expand imports limit).andThen fun g => ⟨f.or? g limit, []⟩
  | .unary .not operand => (operand.expand imports limit).andThen fun f => f.expandNegation limit
  | e => ⟨some (Formula.literal (e.asLiteral imports)), []⟩

theorem within_expand (e : Expr) (imports : Dict String String) :
    (e.expand imports limit).Within limit (e.formula? imports limit) := by
  fun_induction Expr.formula? imports limit e with
  | case1 value => exact Expansion.within_done _
  | case2 left right ihl ihr =>
    exact ihl.andThen fun f => ihr.andThen fun g => within_expandAnd f g limit
  | case3 left right ihl ihr =>
    exact ihl.andThen fun f => ihr.andThen fun g => Expansion.within_done _
  | case4 operand ih => exact ih.andThen fun f => within_expandAndNot _ f.clauses
  | case5 e hbool hand hor hnot =>
    rw [expand]
    · exact Expansion.within_done _
    all_goals assumption

theorem length_formula?_le (hlimit : 1 ≤ limit) {e : Expr} {imports : Dict String String}
    {f : Formula} (h : e.formula? imports limit = some f) : f.length ≤ limit := by
  fun_induction Expr.formula? imports limit e generalizing f with
  | case1 value =>
    rw [← Option.some.inj h]
    exact Nat.le_trans (length_constant_le value) hlimit
  | case2 left right ihl ihr =>
    obtain ⟨fl, hl, h⟩ := Option.bind_eq_some_iff.1 h
    obtain ⟨fr, hr, h⟩ := Option.bind_eq_some_iff.1 h
    exact length_and?_le h
  | case3 left right ihl ihr =>
    obtain ⟨fl, hl, h⟩ := Option.bind_eq_some_iff.1 h
    obtain ⟨fr, hr, h⟩ := Option.bind_eq_some_iff.1 h
    exact length_or?_le h
  | case4 operand ih =>
    obtain ⟨fo, ho, h⟩ := Option.bind_eq_some_iff.1 h
    exact length_andNot?_le h (Nat.le_trans (length_constant_le true) hlimit)
  | case5 e hbool hand hor hnot =>
    rw [← Option.some.inj h]
    exact Nat.le_trans (length_literal_le _) hlimit

theorem length_normalize_le (hlimit : 1 ≤ limit) (target : Expr) (imports : Dict String String) :
    (target.normalize imports limit).length ≤ limit := by
  unfold normalize
  cases hf : target.formula? imports limit with
  | some f => exact length_formula?_le hlimit hf
  | none => exact Nat.le_trans (length_literal_le _) hlimit

end Expr

/-! ## What can be made -/

mutual

/-- **The clauses that can be made**: from literals, from two clauses, or as a part of a formula. -/
inductive Clause.Made : Clause → Prop where
  | ofList (ls : List Literal) : Clause.Made (Clause.ofList ls)
  | and {c d : Clause} : Clause.Made c → Clause.Made d → Clause.Made (c.and d)
  | part {f : Formula} {c : Clause} : Formula.Made f → c ∈ f.clauses → Clause.Made c

/-- **The formulas that can be made**, from clauses, with the connectives and from targets. -/
inductive Formula.Made : Formula → Prop where
  | ofClauses {cs : List Clause} : (∀ c ∈ cs, Clause.Made c) → Formula.Made (Formula.ofClauses cs)
  | constant (value : Bool) : Formula.Made (Formula.constant value)
  | literal (l : Literal) : Formula.Made (Formula.literal l)
  | or {f g r : Formula} {limit : Nat} : Formula.Made f → Formula.Made g →
      f.or? g limit = some r → Formula.Made r
  | and {f g r : Formula} {limit : Nat} : Formula.Made f → Formula.Made g →
      f.and? g limit = some r → Formula.Made r
  | negate {f r : Formula} {limit : Nat} : Formula.Made f → f.negate? limit = some r →
      Formula.Made r
  | normalize (target : Expr) (imports : Dict String String) (limit : Nat) :
      Formula.Made (target.normalize imports limit)

end

mutual

theorem Clause.Made.nodup : {c : Clause} → c.Made → c.literals.Nodup
  | _, .ofList ls => Clause.nodup_ofList ls
  | _, .and hc _ => Clause.nodup_and hc.nodup _
  | _, .part hf hc => (hf.reduced.clauses _ hc).listedOnce

theorem Formula.Made.reduced : {f : Formula} → f.Made → f.Reduced
  | _, .ofClauses hcs => Formula.reduced_ofClauses fun c hc => (hcs c hc).nodup
  | _, .constant value => Formula.reduced_constant value
  | _, .literal l => Formula.reduced_literal l
  | _, .or hf hg h => Formula.reduced_or? h hf.reduced hg.reduced
  | _, .and hf _ h => Formula.reduced_and? h hf.reduced
  | _, .negate _ h => Formula.reduced_negate? h
  | _, .normalize target imports limit => target.reduced_normalize imports limit

end

/-- **What a limit guarantees** of the connectives and of the formulas of targets: they have no more
clauses than the limit allows, and neither has any product that is expanded on the way to them. -/
structure Formula.Capped (limit : Nat) : Prop where
  or? : ∀ {f g r}, Formula.or? f g limit = some r → r.length ≤ limit
  and? : ∀ {f g r}, Formula.and? f g limit = some r → r.length ≤ limit
  negate? : ∀ {f r}, Formula.negate? f limit = some r → r.length ≤ limit
  normalize : ∀ target imports, (Expr.normalize target imports limit).length ≤ limit
  expandAnd : ∀ f g, (Formula.expandAnd f g limit).Within limit (f.and? g limit)
  expandNegation : ∀ f, (Formula.expandNegation f limit).Within limit (f.negate? limit)
  expand : ∀ target imports,
    (Expr.expand imports limit target).Within limit (target.formula? imports limit)

/-- **Formulas are reduced and capped.** Whatever is made is reduced, within any limits, and every
limit of at least one clause caps all formulas that are made within it. -/
theorem Formula.reduced_and_capped :
    (∀ f, Formula.Made f → f.Reduced) ∧ ∀ limit, 1 ≤ limit → Formula.Capped limit := by
  refine ⟨fun f hf => hf.reduced, fun limit hlimit => ?_⟩
  exact
    { or? := length_or?_le
      and? := length_and?_le
      negate? := fun h => length_andNot?_le h (Nat.le_trans (length_constant_le true) hlimit)
      normalize := Expr.length_normalize_le hlimit
      expandAnd := fun f g => within_expandAnd f g limit
      expandNegation := fun f => within_expandAndNot _ f.clauses
      expand := Expr.within_expand }

end AccessPolicy
