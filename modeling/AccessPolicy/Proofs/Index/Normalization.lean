import AccessPolicy.Proofs.Index.Formula

/-!
# The formula of a target

A target is taken apart at its operators `&`, `|` and `!`, and put together again as a formula,
unless the clauses become too many on the way. What the formula says is what the target reads as;
that is so for each of the connectives and does not depend on the limit. The limit only decides
whether there is a formula: a conjunction takes as many clauses as there are pairs, a disjunction as
many as there are clauses, and a formula that is found within a limit is found within every larger
one, unchanged. For every target some limit is large enough.

Where the limit is too small, the target is not taken apart at all. It is a single literal then, and
read as a predicate.
-/

namespace AccessPolicy

namespace Formula

/-! ## What the limit decides -/

theorem or?_isSome {f g : Formula} {limit : Nat} :
    (f.or? g limit).isSome ↔ f.length + g.length ≤ limit := by
  unfold or?
  split
  · next h => simpa using h
  · next h => simpa using h

theorem and?_isSome {f g : Formula} {limit : Nat} :
    (f.and? g limit).isSome ↔ f.length * g.length ≤ limit := by
  unfold and?
  split
  · next h => simpa using h
  · next h => simpa using h

section Limits

variable {limit limit' : Nat} (hle : limit ≤ limit')
include hle

theorem or?_of_le {f g r : Formula} (h : f.or? g limit = some r) : f.or? g limit' = some r := by
  have hfits := or?_isSome.1 (Option.isSome_of_eq_some h)
  unfold or? at h ⊢
  rw [if_neg (by omega)] at h ⊢
  exact h

theorem and?_of_le {f g r : Formula} (h : f.and? g limit = some r) : f.and? g limit' = some r := by
  have hfits := and?_isSome.1 (Option.isSome_of_eq_some h)
  unfold and? at h ⊢
  rw [if_neg (by omega)] at h ⊢
  exact h

theorem andNot?_of_le {f r : Formula} {cs : List Clause} (h : andNot? limit f cs = some r) :
    andNot? limit' f cs = some r := by
  fun_induction andNot? limit f cs with
  | case1 f => exact h
  | case2 f c cs g hg ih =>
    rw [andNot?, and?_of_le hle hg]
    exact ih h
  | case3 => cases h

theorem negate?_of_le {f r : Formula} (h : f.negate? limit = some r) :
    f.negate? limit' = some r := andNot?_of_le hle h

end Limits

theorem exists_or? (f g : Formula) : ∃ limit r, f.or? g limit = some r :=
  ⟨_, Option.isSome_iff_exists.1 (or?_isSome.2 (Nat.le_refl _))⟩

theorem exists_and? (f g : Formula) : ∃ limit r, f.and? g limit = some r :=
  ⟨_, Option.isSome_iff_exists.1 (and?_isSome.2 (Nat.le_refl _))⟩

theorem exists_andNot? (f : Formula) (cs : List Clause) :
    ∃ limit r, andNot? limit f cs = some r := by
  induction cs generalizing f with
  | nil => exact ⟨0, f, rfl⟩
  | cons c cs ih =>
    obtain ⟨limit, g, hg⟩ := f.exists_and? (negateClause c)
    obtain ⟨limit', r, hr⟩ := ih g
    refine ⟨max limit limit', r, ?_⟩
    rw [andNot?, and?_of_le (Nat.le_max_left ..) hg]
    exact andNot?_of_le (Nat.le_max_right ..) hr

/-! ## One literal -/

/-- A literal that is no constant makes one clause, in which it stands alone. -/
theorem clauses_literal {l : Literal} (h : l.constant? = none) : (literal l).clauses = [⟨[l]⟩] := by
  have hkept : candidates [Clause.ofList [l]] = [⟨[l]⟩] := by
    have hclause : Clause.ofList [l] = ⟨[l]⟩ := rfl
    have hrest : Clause.withoutConstants? [l] = some [l] := by
      rw [Clause.withoutConstants?, h]
      rfl
    rw [hclause, candidates, List.filterMap_cons, hrest]
    rfl
  rw [literal, ofClauses, hkept, List.mergeSort_singleton]
  rfl

end Formula

namespace Expr

variable {imports : Dict String String} {limit : Nat}

theorem formula?_of_le {limit' : Nat} (hle : limit ≤ limit') {e : Expr} {f : Formula}
    (h : e.formula? imports limit = some f) : e.formula? imports limit' = some f := by
  fun_induction Expr.formula? imports limit e generalizing f with
  | case1 value => exact h
  | case2 left right ihl ihr =>
    obtain ⟨fl, hl, h⟩ := Option.bind_eq_some_iff.1 h
    obtain ⟨fr, hr, h⟩ := Option.bind_eq_some_iff.1 h
    rw [formula?, ihl hl, ihr hr]
    exact Formula.and?_of_le hle h
  | case3 left right ihl ihr =>
    obtain ⟨fl, hl, h⟩ := Option.bind_eq_some_iff.1 h
    obtain ⟨fr, hr, h⟩ := Option.bind_eq_some_iff.1 h
    rw [formula?, ihl hl, ihr hr]
    exact Formula.or?_of_le hle h
  | case4 operand ih =>
    obtain ⟨fo, ho, h⟩ := Option.bind_eq_some_iff.1 h
    rw [formula?, ih ho]
    exact Formula.negate?_of_le hle h
  | case5 e hbool hand hor hnot =>
    rw [formula?]
    · exact h
    all_goals assumption

/-- **Every target has a formula** if the limit is large enough. -/
theorem exists_formula? (e : Expr) (imports : Dict String String) :
    ∃ enough f, e.formula? imports enough = some f := by
  induction e using Expr.formula?.induct with
  | case1 value => exact ⟨0, _, rfl⟩
  | case2 left right ihl ihr =>
    obtain ⟨limitl, fl, hl⟩ := ihl
    obtain ⟨limitr, fr, hr⟩ := ihr
    obtain ⟨limit, r, h⟩ := fl.exists_and? fr
    refine ⟨max limit (max limitl limitr), r, ?_⟩
    rw [formula?, formula?_of_le (by omega) hl, formula?_of_le (by omega) hr]
    exact Formula.and?_of_le (by omega) h
  | case3 left right ihl ihr =>
    obtain ⟨limitl, fl, hl⟩ := ihl
    obtain ⟨limitr, fr, hr⟩ := ihr
    obtain ⟨limit, r, h⟩ := fl.exists_or? fr
    refine ⟨max limit (max limitl limitr), r, ?_⟩
    rw [formula?, formula?_of_le (by omega) hl, formula?_of_le (by omega) hr]
    exact Formula.or?_of_le (by omega) h
  | case4 operand ih =>
    obtain ⟨limito, fo, ho⟩ := ih
    obtain ⟨limit, r, h⟩ := Formula.exists_andNot? (Formula.constant true) fo.clauses
    refine ⟨max limit limito, r, ?_⟩
    rw [formula?, formula?_of_le (by omega) ho]
    exact Formula.andNot?_of_le (by omega) h
  | case5 e hbool hand hor hnot =>
    refine ⟨0, Formula.literal (e.asLiteral imports), ?_⟩
    rw [formula?]
    all_goals assumption

end Expr

/-! ## What a target is indexed as -/

/-- The connectives of formulas are those of truth values, under an assignment. -/
structure Formula.Connectives (σ : Assignment) : Prop where
  ofClauses : ∀ cs, (Formula.ofClauses cs).Holds σ ↔ ∃ c ∈ cs, c.Holds σ
  or? : ∀ {f g r limit}, Formula.or? f g limit = some r → (r.Holds σ ↔ f.Holds σ ∨ g.Holds σ)
  and? : ∀ {f g r limit}, Formula.and? f g limit = some r → (r.Holds σ ↔ f.Holds σ ∧ g.Holds σ)
  negate? : ∀ {f r limit}, Formula.negate? f limit = some r → (r.Holds σ ↔ ¬ f.Holds σ)

/-- **Normalisation preserves what a target says.** The formula of a target that can be taken apart
within the limit holds under exactly those assignments under which the target reads as true, and so
do the connectives it is made with, for all formulas. Otherwise it is the literal of the whole
target. Every target can be taken apart within some limit and every larger one. -/
theorem Expr.normalize_preserves_reading (target : Expr) (imports : Dict String String)
    (limit : Nat) :
    (∀ f, target.formula? imports limit = some f →
      target.normalize imports limit = f
        ∧ ∀ σ, f.Holds σ ↔ target.reading σ imports = true)
    ∧ (target.formula? imports limit = none →
      target.normalize imports limit = ⟨[⟨[⟨.expression target imports, false⟩]⟩]⟩)
    ∧ (∀ σ, Formula.Connectives σ)
    ∧ ∃ enough, ∀ limit', enough ≤ limit' → (target.formula? imports limit').isSome := by
  refine ⟨fun f hf => ⟨?_, fun σ => holds_formula? hf⟩, fun hnone => ?_, fun σ => ?_, ?_⟩
  · rw [normalize, hf]
    rfl
  · rw [normalize, hnone]
    exact congrArg Formula.mk (Formula.clauses_literal rfl)
  · exact ⟨fun _ => Formula.holds_ofClauses, Formula.holds_or?, Formula.holds_and?,
      Formula.holds_negate?⟩
  · obtain ⟨enough, f, hf⟩ := target.exists_formula? imports
    exact ⟨enough, fun limit' hle => Option.isSome_of_eq_some (formula?_of_le hle hf)⟩

end AccessPolicy
