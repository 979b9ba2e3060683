import AccessPolicy.Path.Selector
import AccessPolicy.Value.Operator

/-!
# Expressions

An expression computes a value from the variables in scope, from the value that `@` stands
for, from functions and from attribute finders. A path takes a value apart step by step. A
filter edits a value in place: each of its edits addresses parts of the value by steps and
removes them or replaces them by the result of a function. A template is evaluated once for
each item of an array.

Expressions are compared as trees. `same` decides that comparison, so that expressions may
serve as keys.
-/

namespace AccessPolicy

mutual

/-- An expression. -/
inductive Expr where
  | literal (document : Json)
  | undefined
  | var (name : String)
  | relative
  | object (members : List (String × Expr))
  | array (items : List Expr)
  | unary (op : UnaryOperator) (operand : Expr)
  | binary (op : BinaryOperator) (left right : Expr)
  | call (name : String) (arguments : List Expr)
  | finder (name : String) (arguments : List Expr) (head : Bool)
  | path (base : Expr) (steps : List Step)
  | filter (base : Expr) (edits : List Edit)
  | template (base body : Expr)

/-- A step of a path. -/
inductive Step where
  | select (selector : Selector)
  | computed (selector : Expr)
  | condition (test : Expr)
  | finder (name : String) (arguments : List Expr) (head : Bool)

/-- An edit of a filter: the steps to the parts that it addresses, whether they start at each
item of an array, and what becomes of the parts. -/
inductive Edit where
  | remove (each : Bool) (target : List Step)
  | apply (each : Bool) (target : List Step) (name : String) (arguments : List Expr)

end

instance : Inhabited Expr := ⟨.undefined⟩

namespace Step

/-- Whether a step is an attribute finder. -/
def isFinder : Step → Bool
  | finder _ _ _ => true
  | _ => false

end Step

namespace Edit

/-- The steps to the parts that an edit addresses. -/
def target : Edit → List Step
  | remove _ target => target
  | apply _ target _ _ => target

/-- Whether the steps of an edit start at each item of an array. -/
def each : Edit → Bool
  | remove each _ => each
  | apply each _ _ _ => each

end Edit

/-! ## Equality of trees -/

mutual

/-- Whether two expressions are the same tree. -/
def Expr.same : Expr → Expr → Bool
  | .literal a, .literal b => decide (a = b)
  | .undefined, .undefined => true
  | .var a, .var b => decide (a = b)
  | .relative, .relative => true
  | .object as, .object bs => Expr.sameMembers as bs
  | .array as, .array bs => Expr.sameAll as bs
  | .unary op a, .unary op' b => decide (op = op') && a.same b
  | .binary op a a', .binary op' b b' => decide (op = op') && a.same b && a'.same b'
  | .call n as, .call n' bs => decide (n = n') && Expr.sameAll as bs
  | .finder n as h, .finder n' bs h' =>
    decide (n = n') && Expr.sameAll as bs && decide (h = h')
  | .path a ss, .path b ts => a.same b && Step.sameAll ss ts
  | .filter a es, .filter b fs => a.same b && Edit.sameAll es fs
  | .template a a', .template b b' => a.same b && a'.same b'
  | _, _ => false

/-- Whether two lists of expressions are the same. -/
def Expr.sameAll : List Expr → List Expr → Bool
  | [], [] => true
  | a :: as, b :: bs => a.same b && Expr.sameAll as bs
  | _, _ => false

/-- Whether two lists of members are the same. -/
def Expr.sameMembers : List (String × Expr) → List (String × Expr) → Bool
  | [], [] => true
  | (k, a) :: as, (l, b) :: bs => decide (k = l) && a.same b && Expr.sameMembers as bs
  | _, _ => false

/-- Whether two steps are the same. -/
def Step.same : Step → Step → Bool
  | .select s, .select t => decide (s = t)
  | .computed a, .computed b => a.same b
  | .condition a, .condition b => a.same b
  | .finder n as h, .finder n' bs h' =>
    decide (n = n') && Expr.sameAll as bs && decide (h = h')
  | _, _ => false

/-- Whether two lists of steps are the same. -/
def Step.sameAll : List Step → List Step → Bool
  | [], [] => true
  | s :: ss, t :: ts => s.same t && Step.sameAll ss ts
  | _, _ => false

/-- Whether two edits are the same. -/
def Edit.same : Edit → Edit → Bool
  | .remove e ss, .remove f ts => decide (e = f) && Step.sameAll ss ts
  | .apply e ss n as, .apply f ts n' bs =>
    decide (e = f) && Step.sameAll ss ts && decide (n = n') && Expr.sameAll as bs
  | _, _ => false

/-- Whether two lists of edits are the same. -/
def Edit.sameAll : List Edit → List Edit → Bool
  | [], [] => true
  | e :: es, f :: fs => e.same f && Edit.sameAll es fs
  | _, _ => false

end

mutual

theorem Expr.same_self : (a : Expr) → a.same a = true
  | .literal _ => by simp [Expr.same]
  | .undefined => by simp [Expr.same]
  | .var _ => by simp [Expr.same]
  | .relative => by simp [Expr.same]
  | .object as => by simp [Expr.same, Expr.sameMembers_self as]
  | .array as => by simp [Expr.same, Expr.sameAll_self as]
  | .unary _ a => by simp [Expr.same, a.same_self]
  | .binary _ a b => by simp [Expr.same, a.same_self, b.same_self]
  | .call _ as => by simp [Expr.same, Expr.sameAll_self as]
  | .finder _ as _ => by simp [Expr.same, Expr.sameAll_self as]
  | .path a ss => by simp [Expr.same, a.same_self, Step.sameAll_self ss]
  | .filter a es => by simp [Expr.same, a.same_self, Edit.sameAll_self es]
  | .template a b => by simp [Expr.same, a.same_self, b.same_self]

theorem Expr.sameAll_self : (as : List Expr) → Expr.sameAll as as = true
  | [] => by simp [Expr.sameAll]
  | a :: as => by simp [Expr.sameAll, a.same_self, Expr.sameAll_self as]

theorem Expr.sameMembers_self : (as : List (String × Expr)) → Expr.sameMembers as as = true
  | [] => by simp [Expr.sameMembers]
  | (_, a) :: as => by simp [Expr.sameMembers, a.same_self, Expr.sameMembers_self as]

theorem Step.same_self : (s : Step) → s.same s = true
  | .select _ => by simp [Step.same]
  | .computed a => by simp [Step.same, a.same_self]
  | .condition a => by simp [Step.same, a.same_self]
  | .finder _ as _ => by simp [Step.same, Expr.sameAll_self as]

theorem Step.sameAll_self : (ss : List Step) → Step.sameAll ss ss = true
  | [] => by simp [Step.sameAll]
  | s :: ss => by simp [Step.sameAll, s.same_self, Step.sameAll_self ss]

theorem Edit.same_self : (e : Edit) → e.same e = true
  | .remove _ ss => by simp [Edit.same, Step.sameAll_self ss]
  | .apply _ ss _ as => by simp [Edit.same, Step.sameAll_self ss, Expr.sameAll_self as]

theorem Edit.sameAll_self : (es : List Edit) → Edit.sameAll es es = true
  | [] => by simp [Edit.sameAll]
  | e :: es => by simp [Edit.sameAll, e.same_self, Edit.sameAll_self es]

end

mutual

theorem Expr.eq_of_same : (a b : Expr) → a.same b = true → a = b
  | .literal _, b, h => by cases b <;> simp_all [Expr.same]
  | .undefined, b, h => by cases b <;> simp_all [Expr.same]
  | .var _, b, h => by cases b <;> simp_all [Expr.same]
  | .relative, b, h => by cases b <;> simp_all [Expr.same]
  | .object as, b, h => by
    cases b with
    | object bs => rw [Expr.eq_of_sameMembers as bs (by simpa [Expr.same] using h)]
    | _ => simp [Expr.same] at h
  | .array as, b, h => by
    cases b with
    | array bs => rw [Expr.eq_of_sameAll as bs (by simpa [Expr.same] using h)]
    | _ => simp [Expr.same] at h
  | .unary _ a, b, h => by
    cases b with
    | unary _ b =>
      simp only [Expr.same, Bool.and_eq_true, decide_eq_true_eq] at h
      rw [h.1, a.eq_of_same b h.2]
    | _ => simp [Expr.same] at h
  | .binary _ a a', b, h => by
    cases b with
    | binary _ b b' =>
      simp only [Expr.same, Bool.and_eq_true, decide_eq_true_eq] at h
      rw [h.1.1, a.eq_of_same b h.1.2, a'.eq_of_same b' h.2]
    | _ => simp [Expr.same] at h
  | .call _ as, b, h => by
    cases b with
    | call _ bs =>
      simp only [Expr.same, Bool.and_eq_true, decide_eq_true_eq] at h
      rw [h.1, Expr.eq_of_sameAll as bs h.2]
    | _ => simp [Expr.same] at h
  | .finder _ as _, b, h => by
    cases b with
    | finder _ bs _ =>
      simp only [Expr.same, Bool.and_eq_true, decide_eq_true_eq] at h
      rw [h.1.1, Expr.eq_of_sameAll as bs h.1.2, h.2]
    | _ => simp [Expr.same] at h
  | .path a ss, b, h => by
    cases b with
    | path b ts =>
      simp only [Expr.same, Bool.and_eq_true] at h
      rw [a.eq_of_same b h.1, Step.eq_of_sameAll ss ts h.2]
    | _ => simp [Expr.same] at h
  | .filter a es, b, h => by
    cases b with
    | filter b fs =>
      simp only [Expr.same, Bool.and_eq_true] at h
      rw [a.eq_of_same b h.1, Edit.eq_of_sameAll es fs h.2]
    | _ => simp [Expr.same] at h
  | .template a a', b, h => by
    cases b with
    | template b b' =>
      simp only [Expr.same, Bool.and_eq_true] at h
      rw [a.eq_of_same b h.1, a'.eq_of_same b' h.2]
    | _ => simp [Expr.same] at h

theorem Expr.eq_of_sameAll : (as bs : List Expr) → Expr.sameAll as bs = true → as = bs
  | [], bs, h => by cases bs <;> simp_all [Expr.sameAll]
  | a :: as, bs, h => by
    cases bs with
    | nil => simp [Expr.sameAll] at h
    | cons b bs =>
      simp only [Expr.sameAll, Bool.and_eq_true] at h
      rw [a.eq_of_same b h.1, Expr.eq_of_sameAll as bs h.2]

theorem Expr.eq_of_sameMembers :
    (as bs : List (String × Expr)) → Expr.sameMembers as bs = true → as = bs
  | [], bs, h => by cases bs <;> simp_all [Expr.sameMembers]
  | (k, a) :: as, bs, h => by
    cases bs with
    | nil => simp [Expr.sameMembers] at h
    | cons b bs =>
      obtain ⟨l, b⟩ := b
      simp only [Expr.sameMembers, Bool.and_eq_true, decide_eq_true_eq] at h
      rw [h.1.1, a.eq_of_same b h.1.2, Expr.eq_of_sameMembers as bs h.2]

theorem Step.eq_of_same : (s t : Step) → s.same t = true → s = t
  | .select _, t, h => by cases t <;> simp_all [Step.same]
  | .computed a, t, h => by
    cases t with
    | computed b => rw [a.eq_of_same b (by simpa [Step.same] using h)]
    | _ => simp [Step.same] at h
  | .condition a, t, h => by
    cases t with
    | condition b => rw [a.eq_of_same b (by simpa [Step.same] using h)]
    | _ => simp [Step.same] at h
  | .finder _ as _, t, h => by
    cases t with
    | finder _ bs _ =>
      simp only [Step.same, Bool.and_eq_true, decide_eq_true_eq] at h
      rw [h.1.1, Expr.eq_of_sameAll as bs h.1.2, h.2]
    | _ => simp [Step.same] at h

theorem Step.eq_of_sameAll : (ss ts : List Step) → Step.sameAll ss ts = true → ss = ts
  | [], ts, h => by cases ts <;> simp_all [Step.sameAll]
  | s :: ss, ts, h => by
    cases ts with
    | nil => simp [Step.sameAll] at h
    | cons t ts =>
      simp only [Step.sameAll, Bool.and_eq_true] at h
      rw [s.eq_of_same t h.1, Step.eq_of_sameAll ss ts h.2]

theorem Edit.eq_of_same : (e f : Edit) → e.same f = true → e = f
  | .remove _ ss, f, h => by
    cases f with
    | remove _ ts =>
      simp only [Edit.same, Bool.and_eq_true, decide_eq_true_eq] at h
      rw [h.1, Step.eq_of_sameAll ss ts h.2]
    | apply _ _ _ _ => simp [Edit.same] at h
  | .apply _ ss _ as, f, h => by
    cases f with
    | remove _ _ => simp [Edit.same] at h
    | apply _ ts _ bs =>
      simp only [Edit.same, Bool.and_eq_true, decide_eq_true_eq] at h
      rw [h.1.1.1, Step.eq_of_sameAll ss ts h.1.1.2, h.1.2, Expr.eq_of_sameAll as bs h.2]

theorem Edit.eq_of_sameAll : (es fs : List Edit) → Edit.sameAll es fs = true → es = fs
  | [], fs, h => by cases fs <;> simp_all [Edit.sameAll]
  | e :: es, fs, h => by
    cases fs with
    | nil => simp [Edit.sameAll] at h
    | cons f fs =>
      simp only [Edit.sameAll, Bool.and_eq_true] at h
      rw [e.eq_of_same f h.1, Edit.eq_of_sameAll es fs h.2]

end

/-- The test for the same tree decides equality. -/
theorem Expr.same_iff (a b : Expr) : a.same b = true ↔ a = b :=
  ⟨a.eq_of_same b, fun h => h ▸ a.same_self⟩

instance : DecidableEq Expr := fun a b => decidable_of_iff _ (a.same_iff b)

end AccessPolicy
