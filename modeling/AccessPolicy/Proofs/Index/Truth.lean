import AccessPolicy.Proofs.Index.Formula
import AccessPolicy.Proofs.Policy.Target

/-!
# Formulas and the targets they stand for

A retrieval evaluates the predicates of a formula one by one, while a target is evaluated as a
whole. The operators `&`, `|` and `!` are strict: if a target has a truth value then so has each
of the expressions that its formula is made of, and it is what the target reads as under those
truth values.

The converse fails, since a formula may lose a predicate on the way: `a & !a` is reduced to the
formula that never holds, however `a` is evaluated.
-/

namespace AccessPolicy

/-! ## Strict operators -/

variable {lib : Libraries}

/-- A negation has a truth value if its operand has one. -/
theorem UnaryOperator.bool?_not (v : Value) :
    (UnaryOperator.not.apply lib v).bool? = v.bool?.map (!·) := by
  unfold apply
  rw [Value.bool?_recordedAs, compute]
  obtain ⟨b, hb, hv⟩ | ⟨hb, e, he, hv⟩ := v.requireBool_cases
  · rw [hv, hb]; rfl
  · rw [hv, hb]; exact Value.bool?_of_isError he

/-- An operator on truth values that is not lazy has a truth value only if both operands do. -/
theorem BinaryOperator.bool?_apply {op : BinaryOperator} {f : Bool → Bool → Bool}
    (hop : ∀ left right, op.compute lib left right = onBools left right f) (left right : Value) :
    (op.apply lib left right).bool? = left.bool?.bind fun a => right.bool?.map (f a) := by
  unfold apply
  rw [Value.bool?_recordedAs]
  split
  · next h => rw [Value.bool?_of_isError h]; rfl
  · split
    · next h =>
      rw [Value.bool?_of_isError h]
      cases left.bool? <;> rfl
    · rw [hop, onBools]
      obtain ⟨a, ha, hl⟩ | ⟨ha, e, he, hl⟩ := left.requireBool_cases
      · obtain ⟨b, hb, hr⟩ | ⟨hb, e, he, hr⟩ := right.requireBool_cases
        · rw [hl, hr, ha, hb]; rfl
        · rw [hl, hr, ha, hb]; exact Value.bool?_of_isError he
      · rw [hl, ha]; exact Value.bool?_of_isError he

/-! ## Truth values in a context -/

/-- The truth value of a target in a context, if it has one. -/
def Expr.truth? (e : Expr) (ctx : Context) : Option Bool :=
  (e.meaning (fun _ _ => Value.undefined) (ctx.inMode .target).bare).bool?

/-- The truth value of a predicate in a context, if it has one. -/
def Predicate.truth? (p : Predicate) (ctx : Context) : Option Bool := (p.evaluate ctx).1.bool?

/-- The truth value of the target of a document in a context, if it has one. -/
def Document.truth? (d : Document) (ctx : Context) : Option Bool := (d.answer ctx).1.bool?

/-- A target that is not evaluated to an error has a truth value. -/
theorem Document.isSome_truth? {ctx : Context} (hp : ctx.functions.Pure) {d : Document}
    (h : (d.answer ctx).1.isError = false) : (d.truth? ctx).isSome = true := by
  rw [truth?, Value.bool?_of_bare (Document.bare_answer hp d)]
  rw [← Value.isError_bare, Document.bare_answer hp d] at h
  cases htarget : d.target with
  | none => rfl
  | some target =>
    rw [htarget] at h
    exact Value.isSome_bool?_asTarget h

/-- The assignment that a context makes: what has no truth value counts as false. -/
def Context.assignment (ctx : Context) : Assignment := fun e imports =>
  ((Predicate.expression e imports).truth? ctx).getD false

theorem Predicate.truth?_expression {ctx : Context} (hp : ctx.functions.Pure) (e : Expr)
    (imports : Dict String String) :
    (Predicate.expression e imports).truth? ctx = e.truth? (ctx.importing imports) := by
  have hbare := bare_evaluateTarget (ctx.importing imports) hp (some e)
  exact (Value.bool?_of_bare hbare).trans (Value.bool?_asTarget _)

theorem Context.assignment_of_truth? {ctx : Context} {e : Expr} {imports : Dict String String}
    {b : Bool} (h : (Predicate.expression e imports).truth? ctx = some b) :
    ctx.assignment e imports = b := by
  rw [assignment, h]
  rfl

/-! ## Formulas in a context -/

/-- A clause is met if each of its predicates has the truth value that it asks for. -/
def Clause.Met (ctx : Context) (c : Clause) : Prop :=
  ∀ l ∈ c.literals, l.predicate.truth? ctx = some !l.negated

/-- A formula is met if one of its clauses is. -/
def Formula.Met (ctx : Context) (f : Formula) : Prop := ∃ c ∈ f.clauses, c.Met ctx

/-- All predicates of a formula have truth values. -/
def Formula.Answered (ctx : Context) (f : Formula) : Prop :=
  f.Over fun p => (p.truth? ctx).isSome = true

theorem Predicate.value_of_truth? {ctx : Context} {p : Predicate} {b : Bool}
    (h : p.truth? ctx = some b) : p.value ctx.assignment = b := by
  cases p with
  | constant value => exact Option.some.inj h
  | expression e imports => exact Context.assignment_of_truth? h

/-- A formula whose predicates have truth values is met if it holds under the assignment of the
context. -/
theorem Formula.Answered.met_iff {ctx : Context} {f : Formula} (h : f.Answered ctx) :
    f.Met ctx ↔ f.Holds ctx.assignment := by
  refine exists_congr fun c => and_congr_right fun hc => forall₂_congr fun l hl => ?_
  obtain ⟨b, hb⟩ := Option.isSome_iff_exists.1 (h c hc l hl)
  rw [Literal.Holds, Literal.apply, Predicate.value_of_truth? hb, hb, bne_iff_ne,
    Option.some_inj, Bool.eq_not]

namespace Expr

variable {ctx : Context}

theorem truth?_not (e : Expr) :
    (Expr.unary .not e).truth? ctx = (e.truth? ctx).map (!·) := by
  unfold truth?
  rw [meaning, Value.bool?_bare, UnaryOperator.bool?_not]

theorem truth?_eagerAnd (left right : Expr) :
    (Expr.binary .eagerAnd left right).truth? ctx
      = (left.truth? ctx).bind fun a => (right.truth? ctx).map (a && ·) := by
  unfold truth?
  rw [meaning, if_neg (by decide), Value.bool?_bare]
  exact BinaryOperator.bool?_apply (fun _ _ => rfl) _ _

theorem truth?_eagerOr (left right : Expr) :
    (Expr.binary .eagerOr left right).truth? ctx
      = (left.truth? ctx).bind fun a => (right.truth? ctx).map (a || ·) := by
  unfold truth?
  rw [meaning, if_neg (by decide), Value.bool?_bare]
  exact BinaryOperator.bool?_apply (fun _ _ => rfl) _ _

/-- **Strictness**: if a target has a truth value then so have the predicates of its formula, and
the target reads as that truth value under the assignment of the context. -/
theorem answered_formula? (hp : ctx.functions.Pure) {e : Expr} {imports : Dict String String}
    {limit : Nat} {f : Formula} {b : Bool} (h : e.formula? imports limit = some f)
    (hb : e.truth? (ctx.importing imports) = some b) :
    f.Answered ctx ∧ e.reading ctx.assignment imports = b := by
  fun_induction Expr.formula? imports limit e generalizing f b with
  | case1 value =>
    rw [← Option.some.inj h]
    exact ⟨Formula.over_constant value, Option.some.inj hb⟩
  | case2 left right ihl ihr =>
    obtain ⟨fl, hl, h⟩ := Option.bind_eq_some_iff.1 h
    obtain ⟨fr, hr, h⟩ := Option.bind_eq_some_iff.1 h
    rw [truth?_eagerAnd] at hb
    -- both operands have truth values, since the operator is strict
    obtain ⟨a, ha, hb⟩ := Option.bind_eq_some_iff.1 hb
    obtain ⟨c, hc, rfl⟩ := Option.map_eq_some_iff.1 hb
    obtain ⟨hover, hread⟩ := ihl hl ha
    obtain ⟨hover', hread'⟩ := ihr hr hc
    exact ⟨Formula.over_and? h hover hover', by rw [reading, hread, hread']⟩
  | case3 left right ihl ihr =>
    obtain ⟨fl, hl, h⟩ := Option.bind_eq_some_iff.1 h
    obtain ⟨fr, hr, h⟩ := Option.bind_eq_some_iff.1 h
    rw [truth?_eagerOr] at hb
    obtain ⟨a, ha, hb⟩ := Option.bind_eq_some_iff.1 hb
    obtain ⟨c, hc, rfl⟩ := Option.map_eq_some_iff.1 hb
    obtain ⟨hover, hread⟩ := ihl hl ha
    obtain ⟨hover', hread'⟩ := ihr hr hc
    exact ⟨Formula.over_or? h hover hover', by rw [reading, hread, hread']⟩
  | case4 operand ih =>
    obtain ⟨fo, ho, h⟩ := Option.bind_eq_some_iff.1 h
    rw [truth?_not] at hb
    obtain ⟨a, ha, rfl⟩ := Option.map_eq_some_iff.1 hb
    obtain ⟨hover, hread⟩ := ih ho ha
    exact ⟨Formula.over_negate? h hover, by rw [reading, hread]⟩
  | case5 e hbool hand hor hnot =>
    rw [← Predicate.truth?_expression hp] at hb
    rw [← Option.some.inj h, reading]
    · exact ⟨Formula.over_literal (Option.isSome_of_eq_some hb), Context.assignment_of_truth? hb⟩
    all_goals assumption

/-- The same for the formula that the target is stored with, be it a single literal. -/
theorem answered_normalize (hp : ctx.functions.Pure) {target : Expr} {imports : Dict String String}
    {b : Bool} (hb : target.truth? (ctx.importing imports) = some b) (limit : Nat) :
    (target.normalize imports limit).Answered ctx
      ∧ ((target.normalize imports limit).Holds ctx.assignment ↔ b = true) := by
  unfold normalize
  cases hf : target.formula? imports limit with
  | none =>
    -- more clauses than the limit allows: the target as a whole is the only predicate
    rw [← Predicate.truth?_expression hp] at hb
    refine ⟨Formula.over_literal (Option.isSome_of_eq_some hb), ?_⟩
    show (Formula.literal (target.asLiteral imports)).Holds _ ↔ _
    rw [Formula.holds_literal, ← Context.assignment_of_truth? hb]
    show (ctx.assignment target imports != false) = true ↔ _
    rw [Bool.bne_false]
  | some f =>
    obtain ⟨hover, hread⟩ := answered_formula? hp hf hb
    exact ⟨hover, (holds_formula? hf).trans (by rw [hread])⟩

end Expr

/-- **The formula of a document** whose target has a truth value has only predicates that have
one, and it is met if the target is true. -/
theorem Document.answered_formula {ctx : Context} (hp : ctx.functions.Pure) {d : Document}
    {b : Bool} (hb : d.truth? ctx = some b) (limit : Nat) :
    (d.formula limit).Answered ctx ∧ ((d.formula limit).Met ctx ↔ b = true) := by
  suffices h : (d.formula limit).Answered ctx
      ∧ ((d.formula limit).Holds ctx.assignment ↔ b = true) from ⟨h.1, h.1.met_iff.trans h.2⟩
  have hmeans : (targetMeaning d.target (ctx.importing d.imports)).bool? = some b :=
    (Value.bool?_of_bare (Document.bare_answer hp d)).symm.trans hb
  unfold formula
  cases htarget : d.target with
  | none =>
    rw [htarget] at hmeans
    exact ⟨Formula.over_constant true,
      Formula.holds_constant.trans (by rw [← Option.some.inj hmeans])⟩
  | some target =>
    rw [htarget] at hmeans
    exact Expr.answered_normalize hp ((Value.bool?_asTarget _).symm.trans hmeans) limit

end AccessPolicy
