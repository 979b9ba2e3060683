import AccessPolicy.Proofs.Evaluation.Compositional
import AccessPolicy.Proofs.Evaluation.Removal
import AccessPolicy.Proofs.Json.Canonical

/-!
# Containers that are taken apart and put together again

An edit has many ways down a document, and all of them take containers apart: a stream for each
child, be it the child itself or what is made of it, and the container of what the streams come to.
Whichever way the edit takes, this is **lossless**: if each child comes out as it was, or as an
error, then so does the container.

An undefined result leaves a gap, and so it matters that no child comes to one; and the members of
an object must stand in order, since they are put together in order. A combination waits for each of
its parts, and so every stream must have a value.
-/

namespace AccessPolicy

open Machine Reading

/-! ## The ways down as maps -/

namespace EditStep

theorem editKeyOfItems_eq (name : String) (next : Json → Machine Value) (items : List Json) :
    editKeyOfItems name next items = items.map (editKey name next) := by
  induction items with
  | nil => rfl
  | cons item items ih => rw [editKeyOfItems, ih, List.map_cons]

theorem editEverywhereInItems_eq (name : String) (next : Json → Machine Value)
    (items : List Json) :
    editEverywhereInItems name next items = items.map (editEverywhere name next) := by
  induction items with
  | nil => rfl
  | cons item items ih => rw [editEverywhereInItems, ih, List.map_cons]

theorem editEverywhereInMembers_eq (name : String) (next : Json → Machine Value)
    (members : List (String × Json)) :
    editEverywhereInMembers name next members = members.map fun m =>
      (m.1, if m.1 = name then next m.2 else editEverywhere name next m.2) := by
  induction members with
  | nil => rfl
  | cons m members ih => rw [editEverywhereInMembers, ih, List.map_cons]

end EditStep

/-! ## Lossless -/

/-- **A value spares a document** if it is the document or an error. -/
def Value.Spares (v : Value) (d : Json) : Prop := v.isError = true ∨ v.outcome = .defined d

namespace Value

theorem spares_of (d : Json) : (of d).Spares d := .inr rfl

/-- A value that spares a document and is no error has that document. -/
theorem Spares.document? {v : Value} {d : Json} (h : v.Spares d) (hv : v.isError = false) :
    v.document? = some d := by
  rcases h with h | h
  · rw [hv] at h; cases h
  · rw [Value.document?, h]

/-- Either there is a first error, or there is none. -/
theorem firstError?_cases (vs : List Value) :
    (∃ e, firstError? vs = some e ∧ e.isError = true) ∨ ∀ v ∈ vs, v.isError = false := by
  cases h : firstError? vs with
  | some e => exact .inl ⟨e, rfl, List.find?_some h⟩
  | none => exact .inr fun v hv => Bool.eq_false_iff.2 (List.find?_eq_none.1 h v hv)

/-- Results that spare the items make an array that is spared. -/
theorem spares_arrayOf {vs : List Value} {items : List Json}
    (h : List.Forall₂ Spares vs items) : (arrayOf vs).Spares (.array items) := by
  rcases firstError?_cases vs with ⟨e, he, herror⟩ | hfine
  · rw [arrayOf, he]
    exact .inl herror
  · have hdocuments : documents vs = items := by
      induction h with
      | nil => rfl
      | @cons v x vs items hv _ ih =>
        obtain ⟨hv', hvs⟩ := List.forall_mem_cons.1 hfine
        exact (List.filterMap_cons_some (hv.document? hv')).trans (congrArg _ (ih hvs))
    rw [arrayOf_eq hfine, hdocuments]
    exact spares_of _

/-- Results that spare the members make an object that is spared. -/
theorem spares_objectOf {vs : List Value} {members : List (String × Json)}
    (h : List.Forall₂ Spares vs (members.map Prod.snd)) (hsorted : Dict.Sorted members) :
    (objectOf (members.map Prod.fst) vs).Spares (.object members) := by
  rcases firstError?_cases vs with ⟨e, he, herror⟩ | hfine
  · rw [objectOf, he]
    exact .inl herror
  · have hentries : ((members.map Prod.fst).zip vs).filterMap
        (fun entry => entry.2.document?.map fun document => (entry.1, document)) = members := by
      clear hsorted
      induction members generalizing vs with
      | nil => rfl
      | cons m members ih =>
        cases h with
        | @cons v _ vs _ hv h =>
          obtain ⟨hv', hvs⟩ := List.forall_mem_cons.1 hfine
          refine (List.filterMap_cons_some (b := m) ?_).trans (congrArg _ (ih h hvs))
          show v.document?.map (fun document => (m.1, document)) = some m
          rw [hv.document? hv']
          rfl
    rw [objectOf, firstError?_eq_none hfine]
    show (of (.object (Dict.ofEntries (((members.map Prod.fst).zip vs).filterMap
      fun entry => entry.2.document?.map fun document => (entry.1, document))))).Spares _
    rw [hentries, hsorted.ofEntries_eq]
    exact spares_of _

end Value

/-- **A stream spares a document** if its single value does. -/
def Machine.Spares (m : Machine Value) (d : Json) : Prop := ∃ v, m.Gives v ∧ v.Spares d

namespace EditStep

variable {next : Json → Machine Value}

theorem spares_keep (d : Json) : (keep d).Spares d := ⟨_, gives_just _, Value.spares_of d⟩

/-- The values of streams that spare some documents. -/
theorem gives_spared {α : Type} {f : α → Machine Value} {g : α → Json} {as : List α}
    (h : ∀ a ∈ as, (f a).Spares (g a)) :
    ∃ vs, (combineLatest (as.map f)).Gives vs ∧ List.Forall₂ Value.Spares vs (as.map g) := by
  have hvalues : ∃ vs, List.Forall₂ (fun a v => (f a).Gives v ∧ v.Spares (g a)) as vs :=
    exists_forall₂ h
  obtain ⟨vs, hvs⟩ := hvalues
  refine ⟨vs, gives_combineLatest ?_, ?_⟩
  · rw [List.forall₂_map_left_iff]
    exact hvs.imp fun _ _ => And.left
  · rw [List.forall₂_map_right_iff]
    exact hvs.flip.imp fun _ _ => And.right

/-- An array that is built from a list with a document for each entry. -/
theorem spares_rebuildArray {α : Type} {f : α → Machine Value} {g : α → Json} {as : List α}
    (h : ∀ a ∈ as, (f a).Spares (g a)) :
    (rebuildArray (as.map f)).Spares (.array (as.map g)) := by
  obtain ⟨vs, hgives, hspares⟩ := gives_spared h
  exact ⟨_, hgives.mapReporting _, Value.spares_arrayOf hspares⟩

/-- An array that is built item by item. -/
theorem spares_rebuildItems {f : Json → Machine Value} {items : List Json}
    (h : ∀ x ∈ items, (f x).Spares x) : (rebuildArray (items.map f)).Spares (.array items) := by
  have hwhole := spares_rebuildArray (g := id) h
  rwa [List.map_id] at hwhole

/-- An object that is built member by member. -/
theorem spares_rebuildObject {f : String × Json → Machine Value} {members : List (String × Json)}
    (h : ∀ m ∈ members, (f m).Spares m.2) (hsorted : Dict.Sorted members) :
    (rebuildObject (members.map fun m => (m.1, f m))).Spares (.object members) := by
  obtain ⟨vs, hgives, hspares⟩ := gives_spared h
  have hstreams : (members.map fun m => (m.1, f m)).map Prod.snd = members.map f := List.map_map
  have hkeys : (members.map fun m => (m.1, f m)).map Prod.fst = members.map Prod.fst :=
    List.map_map
  unfold rebuildObject
  rw [hstreams, hkeys]
  exact ⟨_, hgives.mapReporting _, Value.spares_objectOf hspares hsorted⟩

theorem spares_editAt {items : List Json} (h : ∀ x ∈ items, (next x).Spares x)
    (chosen : List Nat) : (editAt next chosen items).Spares (.array items) := by
  have hwhole : (editAt next chosen items).Spares (.array (items.zipIdx.map Prod.fst)) := by
    refine spares_rebuildArray ?_
    rintro ⟨item, i⟩ hp
    show (if chosen.contains i then next item else keep item).Spares item
    split
    · exact h item (List.fst_mem_of_mem_zipIdx hp)
    · exact spares_keep item
  rwa [List.zipIdx_map_fst] at hwhole

theorem spares_editNamed {members : List (String × Json)}
    (h : ∀ m ∈ members, (next m.2).Spares m.2) (hsorted : Dict.Sorted members)
    (names : List String) : (editNamed next names members).Spares (.object members) := by
  refine spares_rebuildObject (f := fun m => if names.contains m.1 then next m.2 else keep m.2)
    (fun m hm => ?_) hsorted
  split
  · exact h m hm
  · exact spares_keep m.2

variable (hnext : ∀ x, x.Canonical → (next x).Spares x)

include hnext

theorem spares_editKey (name : String) {d : Json} (hd : d.Canonical) :
    (editKey name next d).Spares d := by
  induction d using Json.child_induction with
  | h d ih =>
    cases d with
    | array items =>
      rw [editKey, editKeyOfItems_eq]
      exact spares_rebuildItems fun x hx => ih none x (.item hx) (hd.items x hx)
    | object members =>
      rw [editKey]
      split
      · exact spares_editNamed (fun m hm => hnext _ (hd.members.2 m hm)) hd.members.1 [name]
      · exact spares_keep _
    | _ => exact spares_keep _

theorem spares_editEverywhere (name : String) {d : Json} (hd : d.Canonical) :
    (editEverywhere name next d).Spares d := by
  induction d using Json.child_induction with
  | h d ih =>
    cases d with
    | array items =>
      rw [editEverywhere, editEverywhereInItems_eq]
      exact spares_rebuildItems fun x hx => ih none x (.item hx) (hd.items x hx)
    | object members =>
      rw [editEverywhere, editEverywhereInMembers_eq]
      refine spares_rebuildObject (fun m hm => ?_) hd.members.1
      split
      · exact hnext m.2 (hd.members.2 m hm)
      · exact ih _ m.2 (.member hm) (hd.members.2 m hm)
    | _ => exact spares_keep _

theorem spares_editSelected (s : Selector) {d : Json} (hd : d.Canonical) :
    (editSelected s next d).Spares d := by
  have hitems : ∀ {items : List Json}, (Json.array items).Canonical →
      ∀ x ∈ items, (next x).Spares x := fun hd x hx => hnext x (hd.items x hx)
  have hmembers : ∀ {members : List (String × Json)}, (Json.object members).Canonical →
      ∀ m ∈ members, (next m.2).Spares m.2 := fun hd m hm => hnext m.2 (hd.members.2 m hm)
  fun_cases editSelected s next d with
  | case1 name d => exact spares_editKey hnext name hd
  | case2 name d => exact spares_editEverywhere hnext name hd
  | case3 position items i => exact spares_editAt (hitems hd) [i]
  | case5 first last stride items places => exact spares_editAt (hitems hd) places
  | case7 positions items => exact spares_editAt (hitems hd) _
  | case8 items => exact spares_rebuildItems (hitems hd)
  | case9 members => exact spares_rebuildObject (hmembers hd) hd.members.1
  | case10 names members => exact spares_editNamed (hmembers hd) hd.members.1 names
  | _ => exact ⟨_, gives_just _, .inl rfl⟩

/-- A child that is edited if a condition holds. -/
theorem spares_editIf {test : Json → Machine Value} (htest : ∀ x, (test x).Single) {x : Json}
    (hx : x.Canonical) : (editIf test next x).Spares x := by
  obtain ⟨check, hcheck⟩ := htest x
  rcases check.requireBool_cases with ⟨b, -, hb⟩ | ⟨-, e, he, hb⟩
  · cases b with
    | true =>
      obtain ⟨v, hv, hspares⟩ := hnext x hx
      refine ⟨v, hcheck.switchMap ?_, hspares⟩
      rwa [hb]
    | false =>
      refine ⟨_, hcheck.switchMap ?_, Value.spares_of x⟩
      rw [hb]
      exact gives_just _
  · refine ⟨e, hcheck.switchMap ?_, .inl he⟩
    rw [hb]
    exact gives_just e

theorem spares_edit {step : EditStep} (hstep : Compositional.Tested Single [step]) {d : Json}
    (hd : d.Canonical) : (step.edit next d).Spares d := by
  fun_cases edit step next d with
  | case1 s d => exact spares_editSelected hnext s hd
  | case2 test items =>
    exact spares_rebuildItems fun x hx =>
      spares_editIf hnext (hstep test List.mem_cons_self) (hd.items x hx)
  | case3 test members =>
    exact spares_rebuildObject (fun m hm =>
      spares_editIf hnext (hstep test List.mem_cons_self) (hd.members.2 m hm)) hd.members.1
  | case4 => exact ⟨_, gives_just _, .inl rfl⟩
  | case5 => exact ⟨_, gives_just _, .inl rfl⟩

omit hnext in
/-- **Lossless, down any steps**: an edit whose action spares every part spares the document. -/
theorem spares_editAlong {action : Json → Machine Value} (haction : ∀ x, (action x).Spares x)
    {steps : List EditStep} (hsteps : Compositional.Tested Single steps) {d : Json}
    (hd : d.Canonical) : (editAlong action steps d).Spares d := by
  induction steps generalizing d with
  | nil => exact haction d
  | cons step steps ih =>
    obtain ⟨hstep, hsteps⟩ := Compositional.tested_cons.1 hsteps
    exact spares_edit (fun x hx => ih hsteps hx) hstep hd

omit hnext in
theorem spares_editDocument {action : (root part : Json) → Machine Value}
    (haction : ∀ root part, (action root part).Spares part) {steps : List EditStep}
    (hsteps : Compositional.Tested Single steps) (each : Bool) {d : Json} (hd : d.Canonical) :
    (editDocument each steps action d).Spares d := by
  fun_cases editDocument each steps action d with
  | case1 _ items =>
    exact spares_rebuildItems fun x hx => spares_editAlong (haction x) hsteps (hd.items x hx)
  | case2 => exact ⟨_, gives_just _, .inl rfl⟩
  | case3 => exact spares_editAlong (haction d) hsteps hd

end EditStep

end AccessPolicy
