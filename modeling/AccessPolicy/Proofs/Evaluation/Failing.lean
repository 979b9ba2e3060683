import AccessPolicy.Proofs.Evaluation.Rebuilding

/-!
# Failures on the way down

An edit evaluates its conditions and its action at some parts of a document and nowhere else. Which
parts these are is told step by step: a selector **addresses** some parts of what it is applied to,
and a condition lets an edit pass to the children for which it holds. An edit **fails along** its
steps if it comes to a child for which a condition has no truth value, or to a part for which the
action is an error.

Such a failure is never made up for. The container that it occurs in is an error as a whole, and so
is the one around it, up to the root: whatever the other parts have come to, nothing of it is left.
-/

namespace AccessPolicy

open Machine

/-! ## What a selector addresses -/

/-- **A selector addresses** those parts of a document that an edit hands over to its next steps.
What is below a hit of a search is not searched again. -/
inductive Selector.Addresses : Selector → Json → Json → Prop where
  | key {name : String} {members : List (String × Json)} {x : Json} :
      (name, x) ∈ members → Addresses (.key name) (.object members) x
  | keyOfItem {name : String} {items : List Json} {item x : Json} :
      item ∈ items → Addresses (.key name) item x → Addresses (.key name) (.array items) x
  | hit {name : String} {members : List (String × Json)} {x : Json} :
      (name, x) ∈ members → Addresses (.recursiveKey name) (.object members) x
  | deeper {name : String} {d child x : Json} {label : Option String} :
      d.Child label child → label ≠ some name → Addresses (.recursiveKey name) child x →
        Addresses (.recursiveKey name) d x
  | index {position : Int} {items : List Json} {i : Nat} {x : Json} :
      Position.resolve? position items.length = some i → items[i]? = some x →
        Addresses (.index position) (.array items) x
  | slice {first last stride : Option Int} {items : List Json} {places : List Nat} {i : Nat}
      {x : Json} : Position.slice? items.length first last stride = some places → i ∈ places →
        items[i]? = some x → Addresses (.slice first last stride) (.array items) x
  | indices {positions : List Int} {items : List Json} {i : Nat} {x : Json} :
      i ∈ Selector.places positions items.length → items[i]? = some x →
        Addresses (.indices positions) (.array items) x
  | wildcard {d x : Json} {label : Option String} : d.Child label x → Addresses .wildcard d x
  | keys {names : List String} {name : String} {members : List (String × Json)} {x : Json} :
      name ∈ names → (name, x) ∈ members → Addresses (.keys names) (.object members) x

/-! ## Streams that err -/

/-- **A stream errs** if its single value is an error. -/
def Machine.Errs (m : Machine Value) : Prop := ∃ v, m.Gives v ∧ v.isError = true

namespace Value

theorem isError_arrayOf {vs : List Value} {v : Value} (hv : v ∈ vs) (h : v.isError = true) :
    (arrayOf vs).isError = true := by
  rcases firstError?_cases vs with ⟨e, he, herror⟩ | hfine
  · rwa [arrayOf, he]
  · rw [hfine v hv] at h
    cases h

theorem isError_objectOf (keys : List String) {vs : List Value} {v : Value} (hv : v ∈ vs)
    (h : v.isError = true) : (objectOf keys vs).isError = true := by
  rcases firstError?_cases vs with ⟨e, he, herror⟩ | hfine
  · rwa [objectOf, he]
  · rw [hfine v hv] at h
    cases h

end Value

namespace EditStep

/-- One stream that errs among others that have values. -/
theorem gives_failed {ms : List (Machine Value)} (hms : ∀ m ∈ ms, m.Single) {m : Machine Value}
    (hm : m ∈ ms) (h : m.Errs) :
    ∃ vs, (combineLatest ms).Gives vs ∧ ∃ v ∈ vs, v.isError = true := by
  obtain ⟨vs, hvs⟩ := exists_forall₂ hms
  obtain ⟨v, hv, hgives⟩ := forall₂_mem_left hvs hm
  obtain ⟨w, hw, herror⟩ := h
  rw [hw.unique hgives] at herror
  exact ⟨vs, gives_combineLatest hvs, v, hv, herror⟩

theorem errs_rebuildArray {ms : List (Machine Value)} (hms : ∀ m ∈ ms, m.Single)
    {m : Machine Value} (hm : m ∈ ms) (h : m.Errs) : (rebuildArray ms).Errs := by
  obtain ⟨vs, hgives, v, hv, herror⟩ := gives_failed hms hm h
  exact ⟨_, hgives.mapReporting _, Value.isError_arrayOf hv herror⟩

theorem errs_rebuildObject {members : List (String × Machine Value)}
    (hms : ∀ m ∈ members, m.2.Single) {m : String × Machine Value} (hm : m ∈ members)
    (h : m.2.Errs) : (rebuildObject members).Errs := by
  obtain ⟨vs, hgives, v, hv, herror⟩ :=
    gives_failed (List.forall_mem_map.2 hms) (List.mem_map_of_mem hm) h
  exact ⟨_, hgives.mapReporting _, Value.isError_objectOf _ hv herror⟩

/-- A container that is built child by child. -/
theorem errs_rebuildItems {f : Json → Machine Value} (hf : ∀ x, (f x).Single)
    {items : List Json} {x : Json} (hx : x ∈ items) (h : (f x).Errs) :
    (rebuildArray (items.map f)).Errs :=
  errs_rebuildArray (List.forall_mem_map.2 fun x _ => hf x) (List.mem_map_of_mem hx) h

theorem errs_rebuildMembers {f : String × Json → Machine Value} (hf : ∀ m, (f m).Single)
    {members : List (String × Json)} {m : String × Json} (hm : m ∈ members) (h : (f m).Errs) :
    (rebuildObject (members.map fun m => (m.1, f m))).Errs :=
  errs_rebuildObject (List.forall_mem_map.2 fun m _ => hf m)
    (List.mem_map_of_mem (f := fun m => (m.1, f m)) hm) h

variable {next : Json → Machine Value} (hnext : ∀ x, (next x).Single)

include hnext

theorem errs_editAt {chosen : List Nat} {items : List Json} {i : Nat} {x : Json}
    (hi : i ∈ chosen) (hx : items[i]? = some x) (h : (next x).Errs) :
    (editAt next chosen items).Errs := by
  refine errs_rebuildArray (List.forall_mem_map.2 fun p _ => ?_)
    (List.mem_map_of_mem (List.mk_mem_zipIdx_iff_getElem?.2 hx)) ?_
  · dsimp only
    split
    · exact hnext p.1
    · exact ⟨_, gives_just _⟩
  · dsimp only
    rwa [if_pos (List.contains_iff_mem.2 hi)]

theorem errs_editNamed {names : List String} {members : List (String × Json)} {name : String}
    {x : Json} (hname : name ∈ names) (hx : (name, x) ∈ members) (h : (next x).Errs) :
    (editNamed next names members).Errs := by
  refine errs_rebuildMembers (f := fun m => if names.contains m.1 then next m.2 else keep m.2)
    (fun m => ?_) hx ?_
  · split
    · exact hnext m.2
    · exact ⟨_, gives_just _⟩
  · rwa [if_pos (List.contains_iff_mem.2 hname)]

/-- **An addressed part** that errs. -/
theorem errs_editSelected {s : Selector} {d x : Json} (hx : s.Addresses d x) (h : (next x).Errs) :
    (editSelected s next d).Errs := by
  have hkey := compositional_single.editKey hnext
  have heverywhere := compositional_single.editEverywhere hnext
  induction hx with
  | @key name members x hx =>
    show (editKey name next (.object members)).Errs
    rw [editKey, if_pos (Dict.hasKey_iff_mem_keys.2 (List.mem_map_of_mem hx))]
    exact errs_editNamed hnext (List.mem_singleton_self _) hx h
  | @keyOfItem name items item x hitem _ ih =>
    show (editKey name next (.array items)).Errs
    rw [editKey, editKeyOfItems_eq]
    exact errs_rebuildItems (hkey name) hitem (ih h)
  | @hit name members x hx =>
    show (editEverywhere name next (.object members)).Errs
    rw [editEverywhere, editEverywhereInMembers_eq]
    refine errs_rebuildMembers (fun m => ?_) hx ?_
    · split
      · exact hnext m.2
      · exact heverywhere name m.2
    · rwa [if_pos rfl]
  | @deeper name d child x label hchild hlabel _ ih =>
    show (editEverywhere name next d).Errs
    cases hchild with
    | item hitem =>
      rw [editEverywhere, editEverywhereInItems_eq]
      exact errs_rebuildItems (heverywhere name) hitem (ih h)
    | @member members key _ hmember =>
      rw [editEverywhere, editEverywhereInMembers_eq]
      refine errs_rebuildMembers (fun m => ?_) hmember ?_
      · split
        · exact hnext m.2
        · exact heverywhere name m.2
      · rw [if_neg fun hname => hlabel (congrArg some hname)]
        exact ih h
  | index hplace hx =>
    simp only [editSelected, hplace]
    exact errs_editAt hnext (List.mem_singleton_self _) hx h
  | slice hplaces hi hx =>
    simp only [editSelected, hplaces]
    exact errs_editAt hnext hi hx h
  | indices hi hx => exact errs_editAt hnext hi hx h
  | wildcard hchild =>
    cases hchild with
    | item hx => exact errs_rebuildItems hnext hx h
    | member hx => exact errs_rebuildMembers (fun m => hnext m.2) hx h
  | keys hname hx => exact errs_editNamed hnext hname hx h

omit hnext in
/-- A condition that has no truth value. -/
theorem errs_editIf_of_check {test : Json → Machine Value} {x : Json} {check : Value}
    (hcheck : (test x).Gives check) (h : check.bool? = none) : (editIf test next x).Errs := by
  rcases check.requireBool_cases with ⟨b, hb, -⟩ | ⟨-, e, herror, he⟩
  · cases hb.symm.trans h
  · refine ⟨e, hcheck.switchMap ?_, herror⟩
    rw [he]
    exact gives_just e

omit hnext in
theorem errs_editIf_of_next {test : Json → Machine Value} {x : Json} {check : Value}
    (hcheck : (test x).Gives check) (hholds : check.bool? = some true) (h : (next x).Errs) :
    (editIf test next x).Errs := by
  rcases check.requireBool_cases with ⟨b, hb, hrequire⟩ | ⟨hb, -⟩
  · cases hb.symm.trans hholds
    obtain ⟨v, hv, herror⟩ := h
    refine ⟨v, hcheck.switchMap ?_, herror⟩
    rw [hrequire]
    exact hv
  · cases hb.symm.trans hholds

/-- A child for which a conditional edit errs. -/
theorem errs_edit_condition {test : Json → Machine Value} (htest : ∀ x, (test x).Single)
    {d x : Json} {label : Option String} (hx : d.Child label x) (h : (editIf test next x).Errs) :
    ((condition test).edit next d).Errs := by
  have hchild := compositional_single.editIf htest hnext
  cases hx with
  | item hx => exact errs_rebuildItems hchild hx h
  | member hx => exact errs_rebuildMembers (fun m => hchild m.2) hx h

end EditStep

/-! ## Down any steps -/

/-- **An edit fails along its steps**: at a part that they lead to the action is an error, or at a
child on the way there a condition has no truth value. -/
inductive EditStep.FailsAlong (action : Json → Machine Value) : List EditStep → Json → Prop where
  | action {part : Json} : (action part).Errs → FailsAlong action [] part
  | selected {s : Selector} {steps : List EditStep} {d x : Json} :
      s.Addresses d x → FailsAlong action steps x → FailsAlong action (.select s :: steps) d
  | condition {test : Json → Machine Value} {steps : List EditStep} {d x : Json}
      {label : Option String} {check : Value} : d.Child label x → (test x).Gives check →
        check.bool? = none → FailsAlong action (.condition test :: steps) d
  | passed {test : Json → Machine Value} {steps : List EditStep} {d x : Json}
      {label : Option String} {check : Value} : d.Child label x → (test x).Gives check →
        check.bool? = some true → FailsAlong action steps x →
          FailsAlong action (.condition test :: steps) d

/-- The documents that an edit starts at: the whole one, or each item of an array. -/
def EditStep.roots (each : Bool) (d : Json) : List Json :=
  if each then
    match d with
    | .array items => items
    | _ => []
  else [d]

namespace EditStep

/-- **Closed under failure, down any steps.** -/
theorem errs_editAlong {action : Json → Machine Value} (haction : ∀ x, (action x).Single)
    {steps : List EditStep} (hsteps : Compositional.Tested Single steps) {d : Json}
    (h : FailsAlong action steps d) : (editAlong action steps d).Errs := by
  induction h with
  | action herrs => exact herrs
  | selected hx _ ih =>
    obtain ⟨-, hsteps⟩ := Compositional.tested_cons.1 hsteps
    exact errs_editSelected (compositional_single.editAlong haction hsteps) hx (ih hsteps)
  | @condition test steps d x label check hx hcheck hnone =>
    obtain ⟨hstep, hsteps⟩ := Compositional.tested_cons.1 hsteps
    exact errs_edit_condition (compositional_single.editAlong haction hsteps)
      (hstep test List.mem_cons_self) hx (errs_editIf_of_check hcheck hnone)
  | @passed test steps d x label check hx hcheck hholds _ ih =>
    obtain ⟨hstep, hsteps⟩ := Compositional.tested_cons.1 hsteps
    exact errs_edit_condition (compositional_single.editAlong haction hsteps)
      (hstep test List.mem_cons_self) hx (errs_editIf_of_next hcheck hholds (ih hsteps))

theorem errs_editDocument {action : (root part : Json) → Machine Value}
    (haction : ∀ root part, (action root part).Single) {steps : List EditStep}
    (hsteps : Compositional.Tested Single steps) {each : Bool} {d root : Json}
    (hroot : root ∈ roots each d) (h : FailsAlong (action root) steps root) :
    (editDocument each steps action d).Errs := by
  cases each with
  | false =>
    obtain rfl := List.mem_singleton.1 hroot
    exact errs_editAlong (haction root) hsteps h
  | true =>
    cases d with
    | array items =>
      exact errs_rebuildItems (fun x => compositional_single.editAlong (haction x) hsteps x) hroot
        (errs_editAlong (haction root) hsteps h)
    | _ => cases hroot

end EditStep

end AccessPolicy
