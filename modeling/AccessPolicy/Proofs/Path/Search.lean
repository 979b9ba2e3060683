import AccessPolicy.Path.Search
import AccessPolicy.Proofs.Dict

/-!
# What a search finds

The children of a document are the items of an array and the members of an object; a member has a
label, its name. A search at every depth goes from child to child, and it finds nothing but what is
there: each of its hits is a child of something below the document, under the name that is searched
for.
-/

namespace AccessPolicy.Json

/-! ## Children -/

/-- **A child** of a container, with its name if the container is an object. -/
inductive Child : Json → Option String → Json → Prop where
  | item {items : List Json} {x : Json} : x ∈ items → Child (.array items) none x
  | member {members : List (String × Json)} {name : String} {x : Json} :
      (name, x) ∈ members → Child (.object members) (some name) x

theorem Child.sizeOf_lt {d x : Json} {label : Option String} (h : d.Child label x) :
    sizeOf x < sizeOf d := by
  cases h with
  | item hx =>
    have := List.sizeOf_lt_of_mem hx
    simp only [array.sizeOf_spec]
    omega
  | member hx =>
    have := List.sizeOf_lt_of_mem hx
    simp only [Prod.mk.sizeOf_spec] at this
    simp only [object.sizeOf_spec]
    omega

/-- Induction on a document from its children. -/
@[elab_as_elim]
theorem child_induction {motive : Json → Prop}
    (h : ∀ d, (∀ label x, d.Child label x → motive x) → motive d) (d : Json) : motive d :=
  h d fun _ x _ => child_induction h x
termination_by sizeOf d
decreasing_by
  rename_i hx
  exact hx.sizeOf_lt

/-! ## Members at every depth -/

/-- **A member of some name** in a document, at any depth. -/
inductive Named (name : String) : Json → Json → Prop where
  | here {d hit : Json} : d.Child (some name) hit → Named name d hit
  | deeper {d x hit : Json} {label : Option String} :
      d.Child label x → Named name x hit → Named name d hit

variable {name other : String} {d x hit : Json}

/-- What is found below a hit lies in the document. -/
theorem Named.trans (h : Named name d x) (h' : Named other x hit) : Named other d hit := by
  induction h with
  | here hx => exact .deeper hx h'
  | deeper hx _ ih => exact .deeper hx (ih h')

theorem named_object_iff {members : List (String × Json)} :
    Named name (.object members) hit
      ↔ ∃ m ∈ members, m.1 = name ∧ m.2 = hit ∨ Named name m.2 hit := by
  constructor
  · intro h
    cases h with
    | here hx =>
      cases hx with
      | member hx => exact ⟨_, hx, .inl ⟨rfl, rfl⟩⟩
    | deeper hx hbelow =>
      cases hx with
      | member hx => exact ⟨_, hx, .inr hbelow⟩
  · rintro ⟨⟨label, x⟩, hx, ⟨rfl, rfl⟩ | hbelow⟩
    · exact .here (.member hx)
    · exact .deeper (.member hx) hbelow

/-- There is nothing to be found in what has no children. -/
theorem not_named_of_childless (h : d.children? = none) : ¬ Named name d hit := by
  rintro (hx | ⟨hx, -⟩) <;> cases hx <;> cases h

theorem membersNamedInItems_eq (name : String) (items : List Json) :
    membersNamedInItems name items = items.flatMap (membersNamed name) := by
  induction items with
  | nil => rfl
  | cons item items ih => rw [membersNamedInItems, ih, List.flatMap_cons]

theorem membersNamedInMembers_eq (name : String) (members : List (String × Json)) :
    membersNamedInMembers name members = members.flatMap fun m => membersNamed name m.2 := by
  induction members with
  | nil => rfl
  | cons m members ih => rw [membersNamedInMembers, ih, List.flatMap_cons]

/-- **A search by name** finds members of that name. -/
theorem named_of_mem (h : hit ∈ membersNamed name d) : Named name d hit := by
  induction d using child_induction with
  | h d ih =>
    cases d with
    | object members =>
      rw [membersNamed, membersNamedInMembers_eq, List.mem_append, List.mem_flatMap] at h
      rcases h with h | ⟨m, hm, h⟩
      · exact .here (.member (Dict.mem_of_get? (Option.mem_toList.1 h)))
      · exact .deeper (.member hm) (ih _ _ (.member hm) h)
    | array items =>
      rw [membersNamed, membersNamedInItems_eq, List.mem_flatMap] at h
      obtain ⟨x, hx, h⟩ := h
      exact .deeper (.item hx) (ih _ _ (.item hx) h)
    | _ =>
      rw [membersNamed] at h
      · cases h
      all_goals (intros; contradiction)

/-- A member of a document that has that member is a child of the document. -/
theorem child_of_member? (h : d.member? name = some x) : d.Child (some name) x := by
  cases d with
  | object members => exact .member (Dict.mem_of_get? h)
  | _ => cases h

end AccessPolicy.Json
