import AccessPolicy.Expr.Traversal
import Mathlib.Logic.Relation

/-!
# What occurs in an expression

The parts of an expression are the expressions that it is put together from: operands, items,
members and arguments, a base and the body of a template, and whatever stands in the steps of a path
or in the edits of a filter. An expression *occurs* in another one if it is that one or a part of a
part of it, at any depth.

This is said without the traversal. The traversal lists the nodes of an expression level by level,
along lists of arguments, steps and edits, and leaves out nothing: its nodes are exactly the
expressions that occur.
-/

namespace AccessPolicy

/-! ## Parts -/

/-- An expression stands in a step. -/
inductive Step.Holds : Step → Expr → Prop where
  | computed (selector : Expr) : Holds (.computed selector) selector
  | condition (test : Expr) : Holds (.condition test) test
  | argument {name : String} {arguments : List Expr} {head : Bool} {x : Expr} :
      x ∈ arguments → Holds (.finder name arguments head) x

/-- An expression stands in an edit, in one of the steps to what it addresses or as an argument of
the function that it applies. -/
inductive Edit.Holds : Edit → Expr → Prop where
  | target {edit : Edit} {s : Step} {x : Expr} : s ∈ edit.target → s.Holds x → Holds edit x
  | argument {each : Bool} {target : List Step} {name : String} {arguments : List Expr} {x : Expr} :
      x ∈ arguments → Holds (.apply each target name arguments) x

namespace Expr

/-- **A part** of an expression, one level down. -/
inductive Part : Expr → Expr → Prop where
  | member {key : String} {x : Expr} {members : List (String × Expr)} :
      (key, x) ∈ members → Part x (.object members)
  | item {x : Expr} {items : List Expr} : x ∈ items → Part x (.array items)
  | operand (op : UnaryOperator) (x : Expr) : Part x (.unary op x)
  | left (op : BinaryOperator) (x right : Expr) : Part x (.binary op x right)
  | right (op : BinaryOperator) (left x : Expr) : Part x (.binary op left x)
  | argument {name : String} {x : Expr} {arguments : List Expr} :
      x ∈ arguments → Part x (.call name arguments)
  | asked {name : String} {x : Expr} {arguments : List Expr} {head : Bool} :
      x ∈ arguments → Part x (.finder name arguments head)
  | pathBase (x : Expr) (steps : List Step) : Part x (.path x steps)
  | step {x base : Expr} {s : Step} {steps : List Step} :
      s ∈ steps → s.Holds x → Part x (.path base steps)
  | filterBase (x : Expr) (edits : List Edit) : Part x (.filter x edits)
  | edit {x base : Expr} {edit : Edit} {edits : List Edit} :
      edit ∈ edits → edit.Holds x → Part x (.filter base edits)
  | templateBase (x body : Expr) : Part x (.template x body)
  | templateBody (base x : Expr) : Part x (.template base x)

/-- **An expression occurs** in an expression, at any depth. -/
def OccursIn : Expr → Expr → Prop := Relation.ReflTransGen Part

end Expr

/-! ## Parts are smaller -/

theorem Step.Holds.sizeOf_lt {s : Step} {x : Expr} (h : s.Holds x) : sizeOf x < sizeOf s := by
  cases h with
  | computed => simp
  | condition => simp
  | argument hx =>
    have := List.sizeOf_lt_of_mem hx
    simp only [Step.finder.sizeOf_spec]
    omega

theorem Edit.Holds.sizeOf_lt {edit : Edit} {x : Expr} (h : edit.Holds x) :
    sizeOf x < sizeOf edit := by
  cases h with
  | argument hx =>
    have := List.sizeOf_lt_of_mem hx
    simp only [Edit.apply.sizeOf_spec]
    omega
  | target hs hx =>
    have hstep := hx.sizeOf_lt
    have htarget := List.sizeOf_lt_of_mem hs
    cases edit with
    | remove each target =>
      simp only [Edit.target] at htarget
      simp only [Edit.remove.sizeOf_spec]
      omega
    | apply each target name arguments =>
      simp only [Edit.target] at htarget
      simp only [Edit.apply.sizeOf_spec]
      omega

theorem Expr.Part.sizeOf_lt {x e : Expr} (h : x.Part e) : sizeOf x < sizeOf e := by
  cases h with
  | member hx =>
    have hmember := List.sizeOf_lt_of_mem hx
    simp only [Prod.mk.sizeOf_spec] at hmember
    simp only [object.sizeOf_spec]
    omega
  | item hx | argument hx | asked hx =>
    have hitem := List.sizeOf_lt_of_mem hx
    simp only [array.sizeOf_spec, call.sizeOf_spec, finder.sizeOf_spec]
    omega
  | step hs hx =>
    have hstep := hx.sizeOf_lt
    have hsteps := List.sizeOf_lt_of_mem hs
    simp only [Expr.path.sizeOf_spec]
    omega
  | edit he hx =>
    have hedit := hx.sizeOf_lt
    have hedits := List.sizeOf_lt_of_mem he
    simp only [Expr.filter.sizeOf_spec]
    omega
  | operand | left | right | pathBase | filterBase | templateBase | templateBody =>
    simp only [unary.sizeOf_spec, binary.sizeOf_spec, path.sizeOf_spec, filter.sizeOf_spec,
      template.sizeOf_spec]
    omega

/-! ## The traversal -/

namespace Expr

theorem mem_nodesOfAll {n : Expr} {es : List Expr} :
    n ∈ nodesOfAll es ↔ ∃ x ∈ es, n ∈ x.nodes := by
  induction es with
  | nil => simp [nodesOfAll]
  | cons e es ih => simp [nodesOfAll, ih]

theorem mem_nodesOfMembers {n : Expr} {members : List (String × Expr)} :
    n ∈ nodesOfMembers members ↔ ∃ entry ∈ members, n ∈ entry.2.nodes := by
  induction members with
  | nil => simp [nodesOfMembers]
  | cons entry members ih => simp [nodesOfMembers, ih]

end Expr

theorem Step.mem_nodes {n : Expr} {s : Step} : n ∈ s.nodes ↔ ∃ x, s.Holds x ∧ n ∈ x.nodes := by
  cases s with
  | select selector => exact ⟨by rintro ⟨⟩, by rintro ⟨_, ⟨⟩, _⟩⟩
  | computed x =>
    refine ⟨fun h => ⟨x, .computed x, h⟩, ?_⟩
    rintro ⟨_, ⟨⟩, h⟩
    exact h
  | condition x =>
    refine ⟨fun h => ⟨x, .condition x, h⟩, ?_⟩
    rintro ⟨_, ⟨⟩, h⟩
    exact h
  | finder name arguments head =>
    show n ∈ Expr.nodesOfAll arguments ↔ _
    rw [Expr.mem_nodesOfAll]
    constructor
    · rintro ⟨x, hx, h⟩
      exact ⟨x, .argument hx, h⟩
    · rintro ⟨x, hholds, h⟩
      cases hholds with
      | argument hx => exact ⟨x, hx, h⟩

theorem Step.mem_nodesOfAll {n : Expr} {ss : List Step} :
    n ∈ nodesOfAll ss ↔ ∃ s ∈ ss, ∃ x, s.Holds x ∧ n ∈ x.nodes := by
  induction ss with
  | nil => simp [nodesOfAll]
  | cons s ss ih => simp [nodesOfAll, ih, mem_nodes]

theorem Edit.mem_nodes {n : Expr} {edit : Edit} :
    n ∈ edit.nodes ↔ ∃ x, edit.Holds x ∧ n ∈ x.nodes := by
  have htarget : n ∈ Step.nodesOfAll edit.target → ∃ x, edit.Holds x ∧ n ∈ x.nodes := by
    rw [Step.mem_nodesOfAll]
    rintro ⟨s, hs, x, hx, h⟩
    exact ⟨x, .target hs hx, h⟩
  cases edit with
  | remove each target =>
    refine ⟨htarget, ?_⟩
    rintro ⟨x, ⟨hs, hx⟩, h⟩
    exact Step.mem_nodesOfAll.2 ⟨_, hs, x, hx, h⟩
  | apply each target name arguments =>
    constructor
    · intro h
      rcases List.mem_append.1 h with h | h
      · exact htarget h
      · obtain ⟨x, hx, h⟩ := Expr.mem_nodesOfAll.1 h
        exact ⟨x, .argument hx, h⟩
    · rintro ⟨x, hholds, h⟩
      cases hholds with
      | target hs hx =>
        exact List.mem_append_left _ (Step.mem_nodesOfAll.2 ⟨_, hs, x, hx, h⟩)
      | argument hx => exact List.mem_append_right _ (Expr.mem_nodesOfAll.2 ⟨x, hx, h⟩)

theorem Edit.mem_nodesOfAll {n : Expr} {edits : List Edit} :
    n ∈ nodesOfAll edits ↔ ∃ edit ∈ edits, ∃ x, edit.Holds x ∧ n ∈ x.nodes := by
  induction edits with
  | nil => simp [nodesOfAll]
  | cons edit edits ih => simp [nodesOfAll, ih, mem_nodes]

namespace Expr

variable {n x e : Expr}

theorem self_mem_nodes (e : Expr) : e ∈ e.nodes := by
  cases e <;> simp [nodes]

/-- The nodes of a part are nodes of the whole. -/
theorem Part.mem_nodes (hpart : x.Part e) (h : n ∈ x.nodes) : n ∈ e.nodes := by
  cases hpart with
  | member hx => exact List.mem_cons_of_mem _ (mem_nodesOfMembers.2 ⟨_, hx, h⟩)
  | item hx => exact List.mem_cons_of_mem _ (mem_nodesOfAll.2 ⟨_, hx, h⟩)
  | operand => exact List.mem_cons_of_mem _ h
  | left => exact List.mem_cons_of_mem _ (List.mem_append_left _ h)
  | right => exact List.mem_cons_of_mem _ (List.mem_append_right _ h)
  | argument hx => exact List.mem_cons_of_mem _ (mem_nodesOfAll.2 ⟨_, hx, h⟩)
  | asked hx => exact List.mem_cons_of_mem _ (mem_nodesOfAll.2 ⟨_, hx, h⟩)
  | pathBase => exact List.mem_cons_of_mem _ (List.mem_append_left _ h)
  | step hs hx =>
    exact List.mem_cons_of_mem _
      (List.mem_append_right _ (Step.mem_nodesOfAll.2 ⟨_, hs, _, hx, h⟩))
  | filterBase => exact List.mem_cons_of_mem _ (List.mem_append_left _ h)
  | edit he hx =>
    exact List.mem_cons_of_mem _
      (List.mem_append_right _ (Edit.mem_nodesOfAll.2 ⟨_, he, _, hx, h⟩))
  | templateBase => exact List.mem_cons_of_mem _ (List.mem_append_left _ h)
  | templateBody => exact List.mem_cons_of_mem _ (List.mem_append_right _ h)

/-- A node of an expression is the expression itself or a node of a part of it. -/
theorem eq_or_part_of_mem_nodes (h : n ∈ e.nodes) : n = e ∨ ∃ x : Expr, x.Part e ∧ n ∈ x.nodes := by
  cases e with
  | literal _ | undefined | var _ | relative => exact .inl (List.mem_singleton.1 h)
  | object members =>
    refine (List.mem_cons.1 h).imp id fun h => ?_
    obtain ⟨⟨key, x⟩, hx, h⟩ := mem_nodesOfMembers.1 h
    exact ⟨x, .member hx, h⟩
  | array items =>
    refine (List.mem_cons.1 h).imp id fun h => ?_
    obtain ⟨x, hx, h⟩ := mem_nodesOfAll.1 h
    exact ⟨x, .item hx, h⟩
  | unary op x => exact (List.mem_cons.1 h).imp id fun h => ⟨x, .operand op x, h⟩
  | binary op left right =>
    refine (List.mem_cons.1 h).imp id fun h => ?_
    rcases List.mem_append.1 h with h | h
    · exact ⟨left, .left op left right, h⟩
    · exact ⟨right, .right op left right, h⟩
  | call name arguments =>
    refine (List.mem_cons.1 h).imp id fun h => ?_
    obtain ⟨x, hx, h⟩ := mem_nodesOfAll.1 h
    exact ⟨x, .argument hx, h⟩
  | finder name arguments head =>
    refine (List.mem_cons.1 h).imp id fun h => ?_
    obtain ⟨x, hx, h⟩ := mem_nodesOfAll.1 h
    exact ⟨x, .asked hx, h⟩
  | path base steps =>
    refine (List.mem_cons.1 h).imp id fun h => ?_
    rcases List.mem_append.1 h with h | h
    · exact ⟨base, .pathBase base steps, h⟩
    · obtain ⟨s, hs, x, hx, h⟩ := Step.mem_nodesOfAll.1 h
      exact ⟨x, .step hs hx, h⟩
  | filter base edits =>
    refine (List.mem_cons.1 h).imp id fun h => ?_
    rcases List.mem_append.1 h with h | h
    · exact ⟨base, .filterBase base edits, h⟩
    · obtain ⟨edit, he, x, hx, h⟩ := Edit.mem_nodesOfAll.1 h
      exact ⟨x, .edit he hx, h⟩
  | template base body =>
    refine (List.mem_cons.1 h).imp id fun h => ?_
    rcases List.mem_append.1 h with h | h
    · exact ⟨base, .templateBase base body, h⟩
    · exact ⟨body, .templateBody base body, h⟩

theorem occursIn_of_mem_nodes {e : Expr} (h : n ∈ e.nodes) : n.OccursIn e := by
  rcases eq_or_part_of_mem_nodes h with rfl | ⟨x, hpart, h⟩
  · exact .refl
  · exact .tail (occursIn_of_mem_nodes h) hpart
termination_by sizeOf e
decreasing_by exact hpart.sizeOf_lt

/-- **The traversal is complete**: its nodes are exactly the expressions that occur. -/
theorem mem_nodes_iff : n ∈ e.nodes ↔ n.OccursIn e := by
  refine ⟨occursIn_of_mem_nodes, fun h => ?_⟩
  induction h with
  | refl => exact n.self_mem_nodes
  | tail _ hpart ih => exact hpart.mem_nodes ih

end Expr

end AccessPolicy
