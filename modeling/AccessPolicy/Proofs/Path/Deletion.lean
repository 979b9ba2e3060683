import AccessPolicy.Proofs.Json.Canonical

/-!
# A document without a name

To take a name out of a document is to drop every member of that name from every object, at any
depth, and to leave everything else where it is. A **place** in a document is a way down to it, by
the names of members and the positions of items. What stands at a place after a name has been taken
out is told by the place alone: nothing if the way goes through the name, and otherwise what stood
there before, itself without the name.
-/

namespace AccessPolicy.Json

/-! ## Places -/

/-- A turn on the way down a document. -/
inductive Turn where
  | member (name : String)
  | item (position : Nat)
deriving DecidableEq

/-- The child that a turn leads to. -/
def turn? (d : Json) : Turn → Option Json
  | .member name => d.member? name
  | .item i =>
    match d with
    | array items => items[i]?
    | _ => none

/-- **What stands at a place** of a document. -/
def at? (d : Json) : List Turn → Option Json
  | [] => some d
  | t :: place => (d.turn? t).bind fun x => x.at? place

/-! ## Taking out a name -/

mutual

/-- **The document without a name**: every member of that name is dropped, at every depth. -/
def without (name : String) : Json → Json
  | object members => object (withoutInMembers name members)
  | array items => array (withoutInItems name items)
  | d => d

/-- Some items, each without a name. -/
def withoutInItems (name : String) : List Json → List Json
  | [] => []
  | item :: items => without name item :: withoutInItems name items

/-- The members that have another name, each without that name. -/
def withoutInMembers (name : String) : List (String × Json) → List (String × Json)
  | [] => []
  | (key, value) :: members =>
    if name = key then withoutInMembers name members
    else (key, without name value) :: withoutInMembers name members

end

variable (name : String)

theorem withoutInItems_eq (items : List Json) :
    withoutInItems name items = items.map (without name) := by
  induction items with
  | nil => rfl
  | cons item items ih => rw [withoutInItems, ih, List.map_cons]

theorem withoutInMembers_eq (members : List (String × Json)) :
    withoutInMembers name members
      = Dict.erase (members.map fun m => (m.1, m.2.without name)) name := by
  induction members with
  | nil => rfl
  | cons m members ih =>
    obtain ⟨key, value⟩ := m
    rw [withoutInMembers, ih]
    by_cases hkey : key = name
    · simp [hkey, Dict.erase]
    · simp [hkey, Ne.symm hkey, Dict.erase]

theorem without_scalar {d : Json} (h : d.children? = none) : d.without name = d := by
  cases d <;> first | rfl | cases h

/-- A turn down a document without a name. -/
theorem turn?_without (d : Json) (t : Turn) :
    (d.without name).turn? t
      = if t = .member name then none else (d.turn? t).map (without name) := by
  cases d with
  | array items =>
    cases t with
    | member key => simp [turn?, without, member?]
    | item i =>
      rw [without, withoutInItems_eq, if_neg (by rintro ⟨⟩)]
      exact List.getElem?_map
  | object members =>
    cases t with
    | member key =>
      rw [without, withoutInMembers_eq]
      show Dict.get? _ key = _
      rw [Dict.get?_erase, Dict.get?_map fun _ value => without name value]
      simp only [Turn.member.injEq]
      rfl
    | item i => simp [turn?, without]
  | _ =>
    rw [without_scalar _ rfl]
    cases t <;> simp [turn?, member?]

/-- **At every place** there is what was there before, itself without the name, unless the way
there goes through the name. -/
theorem at?_without (d : Json) (place : List Turn) :
    (d.without name).at? place
      = if .member name ∈ place then none else (d.at? place).map (without name) := by
  induction place generalizing d with
  | nil => simp [at?]
  | cons t place ih =>
    rw [at?, turn?_without, at?]
    by_cases ht : t = .member name
    · rw [if_pos ht, if_pos (ht ▸ List.mem_cons_self), Option.bind_none]
    · have hplace : .member name ∈ t :: place ↔ .member name ∈ place := by
        rw [List.mem_cons, or_iff_right (Ne.symm ht)]
      simp only [if_neg ht, hplace]
      cases d.turn? t with
      | none => simp
      | some x => simp [ih]

/-- The name is nowhere left. -/
theorem not_named_without (d x : Json) : ¬ Named name (d.without name) x := by
  induction d using child_induction with
  | h d ih =>
    cases d with
    | array items =>
      rw [without, withoutInItems_eq]
      rintro (hx | ⟨hx, hbelow⟩)
      · cases hx
      · cases hx with
        | item hx =>
          obtain ⟨item, hitem, rfl⟩ := List.mem_map.1 hx
          exact ih none item (.item hitem) hbelow
    | object members =>
      rw [without, withoutInMembers_eq, named_object_iff]
      rintro ⟨m, hm, h⟩
      obtain ⟨hm, hkey⟩ := List.mem_filter.1 hm
      obtain ⟨m, hmem, rfl⟩ := List.mem_map.1 hm
      rcases h with ⟨hname, -⟩ | hbelow
      · exact absurd hname (by simpa using hkey)
      · exact ih _ m.2 (.member hmem) hbelow
    | _ =>
      rw [without_scalar _ rfl]
      exact not_named_of_childless rfl

/-- Where the name does not occur there is nothing to take out. -/
theorem without_of_not_named {d : Json} (h : ∀ x, ¬ Named name d x) : d.without name = d := by
  induction d using child_induction with
  | h d ih =>
    cases d with
    | array items =>
      rw [without, withoutInItems_eq]
      congr 1
      refine (List.map_congr_left fun item hitem => ?_).trans (List.map_id items)
      exact ih none item (.item hitem) fun x hx => h x (.deeper (.item hitem) hx)
    | object members =>
      have hsame : (members.map fun m => (m.1, m.2.without name)) = members := by
        refine (List.map_congr_left fun m hm => ?_).trans (List.map_id members)
        rw [ih _ m.2 (.member hm) fun x hx => h x (.deeper (.member hm) hx)]
        rfl
      rw [without, withoutInMembers_eq, hsame, Dict.erase_of_absent]
      cases hget : Dict.get? members name with
      | none => rfl
      | some x => exact absurd (.here (.member (Dict.mem_of_get? hget))) (h x)
    | _ => exact without_scalar _ rfl

end AccessPolicy.Json
