import AccessPolicy.Expr.Traversal

/-!
# The attribute finders of an expression

A finder stands on its own, as a step of a path, or as a step to what an edit addresses. The
finders of an expression are those of all the expressions inside it, the steps included; each
comes with the name that it looks up and with whether it stays with the first value, as a
*head* finder does. The finders of a whole are those of its parts and its own.
-/

namespace AccessPolicy

/-- The name of a finder, and whether it is a head finder. -/
abbrev FinderUse := String × Bool

/-- The finder that a step is. -/
def Step.finder? : Step → Option FinderUse
  | .finder name _ head => some (name, head)
  | _ => none

/-- The finders that stand in an expression itself and not in an expression inside it. -/
def Expr.ownFinders : Expr → List FinderUse
  | .finder name _ head => [(name, head)]
  | .path _ steps => steps.filterMap Step.finder?
  | .filter _ edits => edits.flatMap fun e => e.target.filterMap Step.finder?
  | _ => []

/-- The finders of an expression. -/
def Expr.finders (e : Expr) : List FinderUse := e.nodes.flatMap Expr.ownFinders

/-- An expression without head finders. -/
def Expr.Headless (e : Expr) : Prop := ∀ f ∈ e.finders, f.2 = false

/-- The finders of some expressions. -/
def Expr.findersOfAll (es : List Expr) : List FinderUse :=
  (Expr.nodesOfAll es).flatMap Expr.ownFinders

/-- The finders of some members. -/
def Expr.findersOfMembers (members : List (String × Expr)) : List FinderUse :=
  (Expr.nodesOfMembers members).flatMap Expr.ownFinders

/-- The finders of a step, which may be one itself. -/
def Step.finders (s : Step) : List FinderUse :=
  s.finder?.toList ++ s.nodes.flatMap Expr.ownFinders

/-- The finders of some steps. -/
def Step.findersOfAll (ss : List Step) : List FinderUse :=
  ss.filterMap Step.finder? ++ (Step.nodesOfAll ss).flatMap Expr.ownFinders

/-- The finders of an edit. -/
def Edit.finders (e : Edit) : List FinderUse :=
  e.target.filterMap Step.finder? ++ e.nodes.flatMap Expr.ownFinders

/-- The finders of some edits. -/
def Edit.findersOfAll (es : List Edit) : List FinderUse :=
  (es.flatMap fun e => e.target.filterMap Step.finder?)
    ++ (Edit.nodesOfAll es).flatMap Expr.ownFinders

/-! ## The finders of a whole -/

section Parts

variable {f : FinderUse}

/-- The finders among the nodes of two parts. -/
theorem mem_flatMap_ownFinders {xs ys : List Expr} :
    f ∈ (xs ++ ys).flatMap Expr.ownFinders
      ↔ f ∈ xs.flatMap Expr.ownFinders ∨ f ∈ ys.flatMap Expr.ownFinders := by
  rw [List.flatMap_append, List.mem_append]

namespace Expr

theorem mem_finders_object {members : List (String × Expr)} :
    f ∈ (object members).finders ↔ f ∈ findersOfMembers members := Iff.rfl

theorem mem_finders_array {items : List Expr} :
    f ∈ (array items).finders ↔ f ∈ findersOfAll items := Iff.rfl

theorem mem_finders_unary {op : UnaryOperator} {operand : Expr} :
    f ∈ (unary op operand).finders ↔ f ∈ operand.finders := Iff.rfl

theorem mem_finders_binary {op : BinaryOperator} {left right : Expr} :
    f ∈ (binary op left right).finders ↔ f ∈ left.finders ∨ f ∈ right.finders :=
  mem_flatMap_ownFinders

theorem mem_finders_call {name : String} {arguments : List Expr} :
    f ∈ (call name arguments).finders ↔ f ∈ findersOfAll arguments := Iff.rfl

theorem mem_finders_finder {name : String} {arguments : List Expr} {head : Bool} :
    f ∈ (finder name arguments head).finders ↔ f = (name, head) ∨ f ∈ findersOfAll arguments :=
  List.mem_cons

theorem mem_finders_path {base : Expr} {steps : List Step} :
    f ∈ (path base steps).finders ↔ f ∈ base.finders ∨ f ∈ Step.findersOfAll steps := by
  show f ∈ steps.filterMap Step.finder? ++ (base.nodes ++ Step.nodesOfAll steps).flatMap _ ↔ _
  rw [List.mem_append, mem_flatMap_ownFinders, or_left_comm, Step.findersOfAll, List.mem_append]
  rfl

theorem mem_finders_filter {base : Expr} {edits : List Edit} :
    f ∈ (filter base edits).finders ↔ f ∈ base.finders ∨ f ∈ Edit.findersOfAll edits := by
  show f ∈ (edits.flatMap fun e => e.target.filterMap Step.finder?)
    ++ (base.nodes ++ Edit.nodesOfAll edits).flatMap _ ↔ _
  rw [List.mem_append, mem_flatMap_ownFinders, or_left_comm, Edit.findersOfAll, List.mem_append]
  rfl

theorem mem_finders_template {base body : Expr} :
    f ∈ (template base body).finders ↔ f ∈ base.finders ∨ f ∈ body.finders :=
  mem_flatMap_ownFinders

theorem mem_findersOfAll_cons {e : Expr} {es : List Expr} :
    f ∈ findersOfAll (e :: es) ↔ f ∈ e.finders ∨ f ∈ findersOfAll es := mem_flatMap_ownFinders

theorem mem_findersOfMembers_cons {key : String} {e : Expr} {members : List (String × Expr)} :
    f ∈ findersOfMembers ((key, e) :: members) ↔
      f ∈ e.finders ∨ f ∈ findersOfMembers members := mem_flatMap_ownFinders

end Expr

namespace Step

theorem mem_finders_computed {selector : Expr} :
    f ∈ (computed selector).finders ↔ f ∈ selector.finders := Iff.rfl

theorem mem_finders_condition {test : Expr} :
    f ∈ (condition test).finders ↔ f ∈ test.finders := Iff.rfl

theorem mem_finders_finder {name : String} {arguments : List Expr} {head : Bool} :
    f ∈ (finder name arguments head).finders ↔
      f = (name, head) ∨ f ∈ Expr.findersOfAll arguments := List.mem_cons

theorem mem_findersOfAll_cons {s : Step} {ss : List Step} :
    f ∈ findersOfAll (s :: ss) ↔ f ∈ s.finders ∨ f ∈ findersOfAll ss := by
  have hown : f ∈ (s :: ss).filterMap finder? ↔
      f ∈ s.finder?.toList ∨ f ∈ ss.filterMap finder? := by
    cases h : s.finder? <;> simp [h]
  show f ∈ (s :: ss).filterMap finder? ++ (s.nodes ++ nodesOfAll ss).flatMap _ ↔ _
  rw [List.mem_append, hown, mem_flatMap_ownFinders, or_or_or_comm, finders, findersOfAll,
    List.mem_append, List.mem_append]

end Step

namespace Edit

theorem mem_finders_remove {each : Bool} {target : List Step} :
    f ∈ (remove each target).finders ↔ f ∈ Step.findersOfAll target := Iff.rfl

theorem mem_finders_apply {each : Bool} {target : List Step} {name : String}
    {arguments : List Expr} :
    f ∈ (apply each target name arguments).finders ↔
      f ∈ Step.findersOfAll target ∨ f ∈ Expr.findersOfAll arguments := by
  show f ∈ target.filterMap Step.finder?
    ++ (Step.nodesOfAll target ++ Expr.nodesOfAll arguments).flatMap _ ↔ _
  rw [List.mem_append, mem_flatMap_ownFinders, ← or_assoc, Step.findersOfAll, List.mem_append]
  rfl

theorem mem_findersOfAll_cons {e : Edit} {es : List Edit} :
    f ∈ findersOfAll (e :: es) ↔ f ∈ e.finders ∨ f ∈ findersOfAll es := by
  show f ∈ (e.target.filterMap Step.finder? ++ es.flatMap fun e => e.target.filterMap Step.finder?)
    ++ (e.nodes ++ nodesOfAll es).flatMap _ ↔ _
  rw [List.mem_append, List.mem_append, mem_flatMap_ownFinders, or_or_or_comm, finders,
    findersOfAll, List.mem_append, List.mem_append]

end Edit

end Parts

end AccessPolicy
