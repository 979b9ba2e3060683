import AccessPolicy.Proofs.Index.Formula
import Mathlib.Data.Bool.Basic
import Mathlib.Data.List.Nodup
import Mathlib.Data.List.Pairwise
import Mathlib.Data.List.Perm.Subperm

/-!
# Reduced formulas

A formula is reduced when it is made. Its clauses are: a clause is built up literal by literal, and
none is added twice; the constants go before the clause is kept; and a clause that lists a literal
and its opposite is dropped. The formula as a whole is reduced in one pass over the clauses, the
shorter ones first, which keeps a clause unless it is subsumed by one that is already there.

That nothing is subsumed by a clause that is kept *later* needs an argument of its own, since the
pass never looks back. A clause that comes later is not shorter. As it lists no literal twice, it
can only be contained in an earlier one if both list the same literals, and then the pass has
dropped it.

All connectives reduce what they make, and with them the formula of a document is reduced.
-/

namespace AccessPolicy

/-- **A clause is reduced** if each of its literals says something that the others do not. -/
structure Clause.Reduced (c : Clause) : Prop where
  listedOnce : c.literals.Nodup
  consistent : ∀ l ∈ c.literals, l.negate ∉ c.literals
  undecided : ∀ l ∈ c.literals, l.constant? = none

namespace Literal

theorem contradicts_iff {l l' : Literal} : l.contradicts l' = true ↔ l' = l.negate := by
  obtain ⟨p, negated⟩ := l
  obtain ⟨p', negated'⟩ := l'
  simp only [contradicts, sharesPredicate, sharesNegation, negate, Bool.and_eq_true,
    decide_eq_true_eq, Bool.not_eq_true', beq_eq_false_iff_ne, mk.injEq, Bool.eq_not]
  exact and_congr eq_comm ne_comm

theorem negate_negate (l : Literal) : l.negate.negate = l := by
  obtain ⟨p, negated⟩ := l
  exact congrArg (Literal.mk p) (Bool.not_not negated)

theorem negate_ne (l : Literal) : l.negate ≠ l :=
  fun h => Bool.not_ne_self l.negated (congrArg negated h)

end Literal

namespace Clause

/-! ## Building a clause -/

theorem nodup_add {c : Clause} (h : c.literals.Nodup) (l : Literal) :
    (c.add l).literals.Nodup := by
  unfold add
  split
  · exact h
  · next hnot =>
    rw [List.contains_iff_mem] at hnot
    exact List.nodup_append.2 ⟨h, List.nodup_singleton l, by grind⟩

theorem nodup_foldl_add {c : Clause} (h : c.literals.Nodup) (ls : List Literal) :
    (ls.foldl add c).literals.Nodup := by
  induction ls generalizing c with
  | nil => exact h
  | cons l ls ih => exact ih (nodup_add h l)

theorem nodup_ofList (ls : List Literal) : (ofList ls).literals.Nodup :=
  nodup_foldl_add .nil ls

theorem nodup_and {c : Clause} (h : c.literals.Nodup) (d : Clause) : (c.and d).literals.Nodup :=
  nodup_foldl_add h d.literals

/-! ## What is dropped -/

theorem subsumes_iff {c d : Clause} : c.subsumes d = true ↔ c.literals ⊆ d.literals := by
  simp only [subsumes, List.all_eq_true, List.contains_iff_mem]
  exact Iff.rfl

theorem withoutConstants?_sublist {ls rest : List Literal} (h : withoutConstants? ls = some rest) :
    rest.Sublist ls := by
  fun_induction withoutConstants? ls generalizing rest with
  | case1 => cases h; exact .slnil
  | case2 => cases h
  | case3 l ls hl ih => exact (ih h).cons l
  | case4 l ls hl ih =>
    obtain ⟨rest, hrest, rfl⟩ := Option.map_eq_some_iff.1 h
    exact (ih hrest).cons_cons l

theorem undecided_withoutConstants? {ls rest : List Literal}
    (h : withoutConstants? ls = some rest) : ∀ l ∈ rest, l.constant? = none := by
  fun_induction withoutConstants? ls generalizing rest with
  | case1 => cases h; rintro _ ⟨⟩
  | case2 => cases h
  | case3 l ls hl ih => exact ih h
  | case4 l ls hl ih =>
    obtain ⟨rest, hrest, rfl⟩ := Option.map_eq_some_iff.1 h
    exact List.forall_mem_cons.2 ⟨hl, ih hrest⟩

theorem pairwise_of_not_opposed {ls : List Literal} (h : opposed ls = false) :
    ls.Pairwise fun l l' => l' ≠ l.negate := by
  induction ls with
  | nil => exact .nil
  | cons l ls ih =>
    rw [opposed, Bool.or_eq_false_iff] at h
    refine .cons (fun l' hl' heq => ?_) (ih h.2)
    exact List.any_eq_false.1 h.1 l' hl' (Literal.contradicts_iff.2 heq)

/-- A clause that is no contradiction has no literal next to its opposite, in either order. -/
theorem consistent_of_not_contradiction {c : Clause} (h : c.isContradiction = false) :
    ∀ l ∈ c.literals, l.negate ∉ c.literals := by
  intro l hl hneg
  have hsymm : Std.Symm fun l l' : Literal => l' ≠ l.negate :=
    ⟨fun l l' hne heq => hne (by rw [heq, Literal.negate_negate])⟩
  exact (pairwise_of_not_opposed h).forall hl hneg l.negate_ne.symm rfl

end Clause

namespace Formula

variable {limit : Nat}

/-- **A formula is reduced** if its clauses are, the shorter ones come first, and the literals of
none of them are all literals of another one. -/
structure Reduced (f : Formula) : Prop where
  clauses : ∀ c ∈ f.clauses, c.Reduced
  ascending : f.clauses.Pairwise fun c d => c.length ≤ d.length
  antichain : f.clauses.Pairwise fun c d => ¬ c.literals ⊆ d.literals ∧ ¬ d.literals ⊆ c.literals

/-! ## The pass over the clauses -/

/-- The pass adds some of the clauses, in the order they come in. -/
theorem exists_kept (kept cs : List Clause) :
    ∃ added, added.Sublist cs ∧ cs.foldl keep kept = kept ++ added := by
  induction cs generalizing kept with
  | nil => exact ⟨[], .slnil, (List.append_nil kept).symm⟩
  | cons c cs ih =>
    obtain ⟨added, hadded, heq⟩ := ih (keep kept c)
    rw [List.foldl_cons, heq, keep]
    split
    · exact ⟨added, hadded.cons c, rfl⟩
    · exact ⟨c :: added, hadded.cons_cons c, List.append_assoc ..⟩

/-- No clause is kept after one that subsumes it. -/
theorem pairwise_kept {kept cs : List Clause}
    (h : kept.Pairwise fun c d => c.subsumes d = false) :
    (cs.foldl keep kept).Pairwise fun c d => c.subsumes d = false := by
  induction cs generalizing kept with
  | nil => exact h
  | cons c cs ih =>
    refine ih ?_
    unfold keep
    split
    · exact h
    · next hnone =>
      rw [Bool.not_eq_true, List.any_eq_false] at hnone
      refine List.pairwise_append.2 ⟨h, List.pairwise_singleton _ _, fun d hd c' hc' => ?_⟩
      rw [List.mem_singleton.1 hc']
      exact Bool.eq_false_iff.2 (hnone d hd)

/-- The clauses that can hold list no literal twice, no constant, and no literal next to its
opposite. -/
theorem reduced_candidates {cs : List Clause} (h : ∀ c ∈ cs, c.literals.Nodup) :
    ∀ c ∈ candidates cs, c.Reduced := by
  intro c hc
  obtain ⟨hmem, hkept⟩ := List.mem_filter.1 hc
  obtain ⟨d, hd, hcd⟩ := List.mem_filterMap.1 hmem
  obtain ⟨rest, hrest, rfl⟩ := Option.map_eq_some_iff.1 hcd
  exact ⟨(Clause.withoutConstants?_sublist hrest).nodup (h d hd),
    Clause.consistent_of_not_contradiction (Bool.not_eq_true' _ ▸ hkept),
    Clause.undecided_withoutConstants? hrest⟩

theorem ascending_ofClauses (cs : List Clause) :
    (ofClauses cs).clauses.Pairwise fun c d => c.length ≤ d.length := by
  obtain ⟨added, hadded, heq⟩ :=
    exists_kept [] ((candidates cs).mergeSort fun c d => c.length ≤ d.length)
  have hsorted : ((candidates cs).mergeSort fun c d => c.length ≤ d.length).Pairwise
      fun c d => decide (c.length ≤ d.length) = true := by
    refine List.pairwise_mergeSort (fun _ _ _ h h' => ?_) (fun c d => ?_) _
    · exact decide_eq_true (Nat.le_trans (of_decide_eq_true h) (of_decide_eq_true h'))
    · simpa using Nat.le_total c.length d.length
  rw [ofClauses, heq, List.nil_append]
  exact (hsorted.sublist hadded).imp of_decide_eq_true

/-- **Formulas of clauses in which no literal is listed twice** are reduced. -/
theorem reduced_ofClauses {cs : List Clause} (h : ∀ c ∈ cs, c.literals.Nodup) :
    (ofClauses cs).Reduced := by
  have hclauses : ∀ c ∈ (ofClauses cs).clauses, c.Reduced := fun c hc =>
    reduced_candidates h c (List.mem_mergeSort.1 (mem_keep hc))
  have hascending := ascending_ofClauses cs
  refine ⟨hclauses, hascending, ?_⟩
  have hsubsumes : (ofClauses cs).clauses.Pairwise fun c d => c.subsumes d = false :=
    pairwise_kept .nil
  refine (hsubsumes.and hascending).imp_of_mem fun {c d} hc hd ⟨hnot, hle⟩ => ?_
  have hcd : ¬ c.literals ⊆ d.literals := fun hsub => by
    rw [Clause.subsumes_iff.2 hsub] at hnot
    cases hnot
  refine ⟨hcd, fun hdc => hcd ?_⟩
  -- the later clause is not shorter, so if it is contained in the earlier one they are the same
  exact (((hclauses d hd).listedOnce.subperm hdc).perm_of_length_le hle).symm.subset

theorem reduced_constant (value : Bool) : (constant value).Reduced := by
  cases value with
  | true =>
    refine ⟨fun c hc => ?_, List.pairwise_singleton _ _, List.pairwise_singleton _ _⟩
    obtain rfl := List.mem_singleton.1 hc
    exact ⟨.nil, by rintro _ ⟨⟩, by rintro _ ⟨⟩⟩
  | false => exact ⟨by rintro _ ⟨⟩, .nil, .nil⟩

theorem reduced_literal (l : Literal) : (literal l).Reduced := by
  refine reduced_ofClauses fun c hc => ?_
  rw [List.mem_singleton.1 hc]
  exact Clause.nodup_ofList [l]

theorem reduced_or? {f g r : Formula} (h : f.or? g limit = some r)
    (hf : f.Reduced) (hg : g.Reduced) : r.Reduced := by
  unfold or? at h
  split at h
  · cases h
  · obtain rfl := Option.some.inj h
    refine reduced_ofClauses fun c hc => ?_
    exact (List.mem_append.1 hc).elim (fun hc => (hf.clauses c hc).listedOnce) fun hc =>
      (hg.clauses c hc).listedOnce

theorem reduced_and? {f g r : Formula} (h : f.and? g limit = some r) (hf : f.Reduced) :
    r.Reduced := by
  unfold and? at h
  split at h
  · cases h
  · obtain rfl := Option.some.inj h
    refine reduced_ofClauses fun b hb => ?_
    obtain ⟨c, hc, hb⟩ := List.mem_flatMap.1 hb
    obtain ⟨d, -, rfl⟩ := List.mem_map.1 hb
    exact Clause.nodup_and (hf.clauses c hc).listedOnce d

theorem reduced_andNot? {f r : Formula} {cs : List Clause} (h : andNot? limit f cs = some r)
    (hf : f.Reduced) : r.Reduced := by
  fun_induction andNot? limit f cs with
  | case1 f => rwa [← Option.some.inj h]
  | case2 f c cs g hg ih => exact ih h (reduced_and? hg hf)
  | case3 => cases h

theorem reduced_negate? {f r : Formula} (h : f.negate? limit = some r) : r.Reduced :=
  reduced_andNot? h (reduced_constant true)

end Formula

/-! ## Targets -/

theorem Expr.reduced_formula? {e : Expr} {imports : Dict String String} {limit : Nat} {f : Formula}
    (h : e.formula? imports limit = some f) : f.Reduced := by
  fun_induction Expr.formula? imports limit e generalizing f with
  | case1 value =>
    rw [← Option.some.inj h]
    exact Formula.reduced_constant value
  | case2 left right ihl ihr =>
    obtain ⟨fl, hl, h⟩ := Option.bind_eq_some_iff.1 h
    obtain ⟨fr, hr, h⟩ := Option.bind_eq_some_iff.1 h
    exact Formula.reduced_and? h (ihl hl)
  | case3 left right ihl ihr =>
    obtain ⟨fl, hl, h⟩ := Option.bind_eq_some_iff.1 h
    obtain ⟨fr, hr, h⟩ := Option.bind_eq_some_iff.1 h
    exact Formula.reduced_or? h (ihl hl) (ihr hr)
  | case4 operand ih =>
    obtain ⟨fo, ho, h⟩ := Option.bind_eq_some_iff.1 h
    exact Formula.reduced_negate? h
  | case5 e hbool hand hor hnot =>
    rw [← Option.some.inj h]
    exact Formula.reduced_literal _

theorem Expr.reduced_normalize (target : Expr) (imports : Dict String String) (limit : Nat) :
    (target.normalize imports limit).Reduced := by
  unfold normalize
  cases hf : target.formula? imports limit with
  | some f => exact reduced_formula? hf
  | none => exact Formula.reduced_literal _

/-- **The formula of a document** is reduced. -/
theorem Document.reduced_formula (d : Document) (limit : Nat) : (d.formula limit).Reduced := by
  unfold Document.formula
  split
  · next target _ => exact target.reduced_normalize d.imports limit
  · exact Formula.reduced_constant true

end AccessPolicy
