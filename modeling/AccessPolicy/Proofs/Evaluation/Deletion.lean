import AccessPolicy.Proofs.Evaluation.Redaction
import AccessPolicy.Proofs.Path.Deletion

/-!
# Removing a name at every depth

A filter that removes the members of a name at every depth takes the whole document apart: each
object and each array on the way is built again from what its parts have come to, a removed member
being one of them that came to nothing. What comes out is the document without the name. No array
loses an item and no object another member, since only a removed member comes to nothing, and an
object whose members stood in order before finds them in order again.
-/

namespace AccessPolicy

open Machine

namespace RevisionStep

/-- A member that is removed comes to nothing, and any other one to a document. -/
theorem documents_of_members (name : String) (members : List (String × Json)) :
    (members.map fun m =>
        (m.1, if m.1 = name then Value.undefined else Value.of (m.2.without name))).filterMap
          (fun m => m.2.document?.map fun document => (m.1, document))
      = Json.withoutInMembers name members := by
  induction members with
  | nil => rfl
  | cons m members ih =>
    obtain ⟨key, value⟩ := m
    rw [List.map_cons, Json.withoutInMembers]
    by_cases hkey : key = name
    · rw [List.filterMap_cons_none (by rw [if_pos hkey]; rfl), if_pos hkey.symm, ih]
    · rw [List.filterMap_cons_some (b := (key, value.without name)) (by rw [if_neg hkey]; rfl),
        if_neg (Ne.symm hkey), ih]

/-- **To remove a name everywhere** is to take it out of the document. -/
theorem reviseEverywhere_undefined (name : String) {d : Json} (hd : d.Canonical) :
    reviseEverywhere name (fun _ => Value.undefined) d = Value.of (d.without name) := by
  induction d using Json.child_induction with
  | h d ih =>
    cases d with
    | array items =>
      have hitems : items.map (reviseEverywhere name fun _ => Value.undefined)
          = (items.map (Json.without name)).map Value.of := by
        rw [List.map_map]
        exact List.map_congr_left fun x hx => ih none x (.item hx) (hd.items x hx)
      have hdocuments : Value.documents ((items.map (Json.without name)).map Value.of)
          = items.map (Json.without name) := by
        rw [Value.documents, List.filterMap_map]
        exact List.filterMap_some
      rw [reviseEverywhere, Hop.reviseEverywhereInItems_eq, hitems, Value.arrayOf_eq, hdocuments,
        Json.without, Json.withoutInItems_eq]
      intro v hv
      obtain ⟨x, -, rfl⟩ := List.mem_map.1 hv
      rfl
    | object members =>
      obtain ⟨hsorted, hvalues⟩ := hd.members
      have hmembers : (members.map fun m => (m.1, if m.1 = name then Value.undefined
            else reviseEverywhere name (fun _ => Value.undefined) m.2))
          = members.map fun m =>
              (m.1, if m.1 = name then Value.undefined else Value.of (m.2.without name)) :=
        List.map_congr_left fun m hm => by rw [ih _ m.2 (.member hm) (hvalues m hm)]
      have hleft : Dict.Sorted (Json.withoutInMembers name members) := by
        rw [Json.withoutInMembers_eq]
        exact (hsorted.map_values fun _ value => value.without name).erase name
      rw [reviseEverywhere, Hop.reviseEverywhereInMembers_eq, hmembers, objectOf_eq,
        documents_of_members, hleft.ofEntries_eq, Json.without]
      intro entry hentry
      obtain ⟨m, -, rfl⟩ := List.mem_map.1 hentry
      dsimp only
      split <;> rfl
    | _ => rfl

end RevisionStep

namespace Expr

variable {base : Expr} {ctx : Context} {v : Value} {d : Json}

/-- **Removing a name everywhere is exact.** For any document and any name the filter comes to a
document: the one without the name. The name is nowhere left in it. At each place there is what was
there before, itself without the name, unless the way there goes through the name. And a document in
which the name does not occur comes back as it was. -/
theorem gives_without (hbase : (base.evaluate ctx).Gives v) (hv : v.outcome = .defined d)
    (hd : d.Canonical) (name : String) :
    ∃ r, ((Expr.filter base [.remove false [.select (.recursiveKey name)]]).evaluate ctx).Gives r
      ∧ r.outcome = .defined (d.without name)
      ∧ (∀ x, ¬ Json.Named name (d.without name) x)
      ∧ (∀ place, (d.without name).at? place
          = if .member name ∈ place then none else (d.at? place).map (Json.without name))
      ∧ ((∀ x, ¬ Json.Named name d x) → r.outcome = v.outcome) := by
  obtain ⟨r, hr, hremoving⟩ := gives_removing hbase hv [.everywhere name]
  have hbare : r.bare = Value.of (d.without name) :=
    hremoving.trans (RevisionStep.reviseEverywhere_undefined name hd)
  have houtcome : r.outcome = .defined (d.without name) := by
    rw [← Value.outcome_bare, hbare]
    rfl
  refine ⟨r, hr, houtcome, Json.not_named_without name d, Json.at?_without name d, fun hfree => ?_⟩
  rw [houtcome, hv, Json.without_of_not_named name hfree]

/-- A password in an object that lies in an array, and one within the other. -/
theorem gives_without_passwords :
    let document : Json := .array [.bool true, .object [("name", .string "ann"),
      ("password", .object [("password", .null)])]]
    let left : Json := .array [.bool true, .object [("name", .string "ann")]]
    ((Expr.literal document).evaluate {}).Gives (Value.of document)
      ∧ (Value.of document).outcome = .defined document
      ∧ document.Canonical
      ∧ document.without "password" = left
      ∧ ∃ r, ((Expr.filter (.literal document)
            [.remove false [.select (.recursiveKey "password")]]).evaluate {}).Gives r
          ∧ r.outcome = .defined left := by
  intro document left
  have hbase : ((Expr.literal document).evaluate {}).Gives (Value.of document) := gives_just _
  have hcanonical : document.Canonical := Json.canonical_of_canonical? document rfl
  have hleft : document.without "password" = left := rfl
  obtain ⟨r, hr, houtcome, -⟩ := gives_without hbase rfl hcanonical "password"
  exact ⟨hbase, rfl, hcanonical, hleft, r, hr, houtcome.trans (congrArg _ hleft)⟩

end Expr

end AccessPolicy
