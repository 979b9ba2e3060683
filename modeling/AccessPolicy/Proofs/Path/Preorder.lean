import AccessPolicy.Path.Selector
import AccessPolicy.Proofs.Path.Search
import Mathlib.Data.List.Lex

/-!
# Searches in pre-order

A **way** down a document counts children: its first number says which child of the document to go
to, the second one which child of that, and so on. Documents at different places may well be equal,
so it is the ways, and not what they lead to, that tell whether anything is listed twice. Ways are
ordered like the entries of a table of contents: a way comes before all that go on from it, and
children come in the order they stand in.

There are three searches at every depth, for a name, for a position and for everything, and each has
a recursion of its own. What they have in common is said once: a search that takes something from a
document and then searches its children takes it from the document and from everything below it, in
pre-order.
-/

namespace AccessPolicy

namespace Json

/-! ## Ways down a document -/

/-- The children of a document. What is no container has none. -/
def kids (d : Json) : List Json := d.children?.getD []

/-- **What a way leads to.** -/
def down? (d : Json) : List Nat → Option Json
  | [] => some d
  | i :: way => d.kids[i]?.bind fun x => x.down? way

/-- What a way leads to below a document. The empty way stays where it is. -/
def below? (d : Json) : List Nat → Option Json
  | [] => none
  | i :: way => d.down? (i :: way)

/-- What a way leads to that starts at one of some documents in a row; the first of them has the
number `first`. -/
def along? (first : Nat) (ds : List Json) : List Nat → Option Json
  | [] => none
  | i :: way => if i < first then none else ds[i - first]?.bind fun x => x.down? way

/-- **A listing in pre-order**: the ways that lead somewhere, each once and in their order, and what
they lead to. -/
structure Listing (lookup : List Nat → Option Json) (ways : List (List Nat)) (found : List Json) :
    Prop where
  ascending : ways.Pairwise (· < ·)
  complete : ∀ way, way ∈ ways ↔ (lookup way).isSome
  leads : ways.map lookup = found.map some

variable {d : Json} {ds : List Json} {first : Nat} {ways : List (List Nat)} {found : List Json}

theorem along?_kids (d : Json) : along? 0 d.kids = d.below? := by
  funext way
  cases way with
  | nil => rfl
  | cons i way => rw [along?, if_neg (Nat.not_lt_zero i), below?, down?, Nat.sub_zero]

/-- A way from some documents in a row starts at the first one or at a later one. -/
theorem along?_cons (i : Nat) (way : List Nat) :
    along? first (d :: ds) (i :: way)
      = if i = first then d.down? way else along? (first + 1) ds (i :: way) := by
  rcases Nat.lt_trichotomy i first with hlt | rfl | hgt
  · rw [along?, along?, if_pos hlt, if_neg (by omega), if_pos (by omega)]
  · rw [along?, if_neg (by omega), if_pos rfl, Nat.sub_self]
    rfl
  · rw [along?, along?, if_neg (by omega), if_neg (by omega), if_neg (by omega),
      show i - first = i - (first + 1) + 1 by omega, List.getElem?_cons_succ]

/-- A way that leads somewhere does not start before the first document. -/
theorem le_of_along? {i : Nat} {way : List Nat} (h : (along? first ds (i :: way)).isSome) :
    first ≤ i := by
  rw [along?] at h
  split at h
  · cases h
  · omega

/-- The first of some documents and everything below it come before the others. -/
theorem Listing.cons {below : List Json} {rest : List (List Nat)}
    (hd : Listing d.below? ways below) (hrest : Listing (along? (first + 1) ds) rest found) :
    Listing (along? first (d :: ds)) (([] :: ways).map (first :: ·) ++ rest)
      (d :: below ++ found) where
  ascending := by
    have hways : ([] :: ways).Pairwise (· < ·) := by
      refine .cons (fun way hway => ?_) hd.ascending
      cases way with
      | nil => cases (hd.complete []).1 hway
      | cons i way => exact .nil
    refine List.pairwise_append.2
      ⟨List.pairwise_map.2 (hways.imp .cons), hrest.ascending, fun way hway way' hway' => ?_⟩
    obtain ⟨way, -, rfl⟩ := List.mem_map.1 hway
    have hsome := (hrest.complete way').1 hway'
    cases way' with
    | nil => cases hsome
    | cons i way' => exact .rel (le_of_along? hsome)
  complete way := by
    rw [List.mem_append, hrest.complete, List.mem_map]
    cases way with
    | nil => simp [along?]
    | cons i way =>
      rw [along?_cons]
      by_cases hi : i = first
      · -- a way to the first document itself, or to something below it
        have hway : (d.down? way).isSome ↔ way ∈ [] :: ways := by
          rw [List.mem_cons, hd.complete]
          cases way with
          | nil => exact ⟨fun _ => .inl rfl, fun _ => rfl⟩
          | cons j way => simp [below?]
        have hother : ¬ (along? (first + 1) ds (i :: way)).isSome := fun h => by
          have := le_of_along? h
          omega
        rw [if_pos hi, hway, hi]
        grind
      · rw [if_neg hi]
        grind
  leads := by
    have hways : ways.map d.down? = below.map some := by
      rw [← hd.leads]
      refine List.map_congr_left fun way hway => ?_
      cases way with
      | nil => cases (hd.complete []).1 hway
      | cons i way => rfl
    have hothers : rest.map (along? first (d :: ds)) = found.map some := by
      rw [← hrest.leads]
      refine List.map_congr_left fun way hway => ?_
      have hsome := (hrest.complete way).1 hway
      cases way with
      | nil => cases hsome
      | cons i way =>
        have := le_of_along? hsome
        rw [along?_cons, if_neg (by omega)]
    have hfirst : along? first (d :: ds) ∘ (first :: ·) = d.down? := by
      funext way
      rw [Function.comp_apply, along?_cons, if_pos rfl]
    rw [List.map_append, hothers, List.map_map, hfirst, List.map_cons, hways, List.map_append]
    rfl

/-- Everything below the documents of a row is listed if everything below each of them is. -/
theorem exists_listing_along (find : Json → List Json)
    (h : ∀ d ∈ ds, ∃ ways, Listing d.below? ways (find d)) (first : Nat) :
    ∃ ways, Listing (along? first ds) ways (ds.flatMap fun d => d :: find d) := by
  induction ds generalizing first with
  | nil =>
    refine ⟨[], .nil, fun way => ?_, rfl⟩
    cases way with
    | nil => simp [along?]
    | cons i way => simp [along?]
  | cons d ds ih =>
    obtain ⟨hd, hds⟩ := List.forall_mem_cons.1 h
    obtain ⟨ways, hways⟩ := hd
    obtain ⟨rest, hrest⟩ := ih hds (first + 1)
    exact ⟨_, hways.cons hrest⟩

/-! ## The searches -/

theorem descendantsOfItems_eq (items : List Json) :
    descendantsOfItems items = items.flatMap fun x => x :: x.descendants := by
  induction items with
  | nil => rfl
  | cons item items ih => rw [descendantsOfItems, ih, List.flatMap_cons]

theorem descendantsOfMembers_eq (members : List (String × Json)) :
    descendantsOfMembers members = (Dict.values members).flatMap fun x => x :: x.descendants := by
  induction members with
  | nil => rfl
  | cons m members ih => rw [descendantsOfMembers, ih]; rfl

/-- What is below a document is each of its children and what is below that. -/
theorem descendants_eq (d : Json) :
    d.descendants = d.kids.flatMap fun x => x :: x.descendants := by
  cases d with
  | array items => exact descendantsOfItems_eq items
  | object members => exact descendantsOfMembers_eq members
  | _ => rfl

theorem child_of_mem_kids {x : Json} (h : x ∈ d.kids) : ∃ label, d.Child label x := by
  cases d with
  | array items => exact ⟨none, .item h⟩
  | object members =>
    obtain ⟨m, hm, rfl⟩ := List.mem_map.1 h
    exact ⟨some m.1, .member hm⟩
  | _ => cases h

/-- **What a search for everything finds** is listed in pre-order. -/
theorem exists_listing_descendants (d : Json) : ∃ ways, Listing d.below? ways d.descendants := by
  induction d using child_induction with
  | h d ih =>
    rw [descendants_eq, ← along?_kids]
    refine exists_listing_along descendants (fun x hx => ?_) 0
    obtain ⟨label, hx⟩ := child_of_mem_kids hx
    exact ih label x hx

/-- **A search takes what it finds in pre-order**, if it takes something from a document and then
searches its children. -/
theorem search_eq {search : Json → List Json} {take? : Json → Option Json}
    (h : ∀ d, search d = (take? d).toList ++ d.kids.flatMap search) (d : Json) :
    search d = (d :: d.descendants).filterMap take? := by
  induction d using child_induction with
  | h d ih =>
    have hkids : d.kids.flatMap search = d.descendants.filterMap take? := by
      rw [descendants_eq, List.filterMap_flatMap]
      refine List.flatMap_congr fun x hx => ?_
      obtain ⟨label, hx⟩ := child_of_mem_kids hx
      exact ih label x hx
    rw [h, hkids, List.filterMap_cons]
    cases take? d <;> rfl

/-- The item at a position of an array. A negative position counts from the end. -/
def item? (d : Json) (position : Int) : Option Json :=
  match d, position with
  | array items, .ofNat i => items[i]?
  | array items, .negSucc i => items.reverse[i]?
  | _, _ => none

/-- The item at a position stands at the place that the position denotes. -/
theorem item?_array (items : List Json) (position : Int) :
    (array items).item? position
      = (Position.resolve? position items.length).bind fun i => items[i]? := by
  unfold Position.resolve?
  dsimp only
  cases position with
  | ofNat i =>
    have hfront : ¬ Int.ofNat i < 0 := Int.not_lt.2 (Int.natCast_nonneg i)
    rw [if_neg hfront]
    show items[i]? = _
    by_cases hi : i < items.length
    · rw [if_pos ⟨Int.natCast_nonneg i, Int.ofNat_lt.2 hi⟩]
      rfl
    · rw [if_neg fun h => hi (Int.ofNat_lt.1 h.2), List.getElem?_eq_none (Nat.not_lt.1 hi)]
      rfl
  | negSucc i =>
    rw [if_pos (Int.negSucc_lt_zero i)]
    show items.reverse[i]? = _
    by_cases hi : i < items.length
    · rw [if_pos (by omega), List.getElem?_reverse hi]
      show _ = items[_]?
      congr 1
      omega
    · rw [if_neg (by omega), List.getElem?_eq_none (by simpa using hi)]
      rfl

theorem itemsAtInItems_eq (position : Int) (items : List Json) :
    itemsAtInItems position items = items.flatMap (itemsAt position) := by
  induction items with
  | nil => rfl
  | cons item items ih => rw [itemsAtInItems, ih, List.flatMap_cons]

theorem itemsAtInMembers_eq (position : Int) (members : List (String × Json)) :
    itemsAtInMembers position members = members.flatMap fun m => itemsAt position m.2 := by
  induction members with
  | nil => rfl
  | cons m members ih => rw [itemsAtInMembers, ih, List.flatMap_cons]

/-- **A search by name** takes the members of that name. -/
theorem membersNamed_eq (name : String) (d : Json) :
    membersNamed name d = (d :: d.descendants).filterMap fun x => x.member? name := by
  refine search_eq (fun d => ?_) d
  cases d with
  | array items => exact membersNamedInItems_eq name items
  | object members =>
    rw [membersNamed, membersNamedInMembers_eq, ← List.flatMap_map]
    rfl
  | _ => rfl

/-- **A search by position** takes the items at that position. -/
theorem itemsAt_eq (position : Int) (d : Json) :
    itemsAt position d = (d :: d.descendants).filterMap fun x => x.item? position := by
  refine search_eq (fun d => ?_) d
  cases d with
  | array items =>
    rw [itemsAt, itemsAtInItems_eq, item?_array]
    rfl
  | object members =>
    rw [itemsAt, itemsAtInMembers_eq, ← List.flatMap_map]
    rfl
  | _ => rfl

/-- A hit is searched like everything else. -/
example : membersNamed "k"
      (.object [("a", .object [("k", .bool true)]), ("k", .object [("k", .null)])])
    = [.object [("k", .null)], .bool true, .null] := by decide +kernel

end Json

/-- **The searches at every depth agree** about what a document contains. The search for everything
lists, in pre-order, all that is below the document. The searches for a name and for a position find
the members of that name and the items at that position, of the document itself and of all that the
first search has listed, in the same order. -/
theorem Selector.searches_agree (d : Json) (trace : Trace) :
    ∃ ways below, Json.Listing d.below? ways below
      ∧ select .recursiveWildcard ⟨.defined d, trace⟩ = Value.of (.array below)
      ∧ (∀ name, select (.recursiveKey name) ⟨.defined d, trace⟩
          = Value.of (.array ((d :: below).filterMap fun x => x.member? name)))
      ∧ ∀ position, select (.recursiveIndex position) ⟨.defined d, trace⟩
          = Value.of (.array ((d :: below).filterMap fun x => x.item? position)) := by
  obtain ⟨ways, hways⟩ := d.exists_listing_descendants
  refine ⟨ways, d.descendants, hways, rfl, fun name => ?_, fun position => ?_⟩
  · rw [← Json.membersNamed_eq]
    rfl
  · rw [← Json.itemsAt_eq]
    rfl

end AccessPolicy
