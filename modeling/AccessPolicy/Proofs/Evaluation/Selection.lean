import AccessPolicy.Proofs.Evaluation.Removal
import AccessPolicy.Proofs.Path.Places
import AccessPolicy.Proofs.Policy.OneShot

/-!
# Reading and removing address the same parts

Which parts of a container a step addresses is worked out twice. A path that reads collects them,
and a filter that removes puts together what is left without them. Here it is said once which
places of an array and which names of an object a step selects. What is read are the items at
those places and the members of those names, and what a removal leaves are all others, in order.
Where a step does not fit the value, both come to the same error.
-/

namespace AccessPolicy

open Machine Reading

/-! ## What a step selects -/

namespace Step

/-- The places that a step selects in an array, as they are listed. There are none to speak of if
the step is not for arrays, or not for this one. -/
def placesIn? (holds : Json → Bool) (items : List Json) : Step → Option (List Nat)
  | .select (.index position) => (Position.resolve? position items.length).map fun i => [i]
  | .select (.slice first last stride) => Position.slice? items.length first last stride
  | .select (.indices positions) =>
    some ((List.range items.length).filter (Selector.places positions items.length).contains)
  | .select .wildcard => some (List.range items.length)
  | .condition _ => some ((List.range items.length).filter fun i => items[i]?.any holds)
  | _ => none

/-- The names that a step selects in an object, as they are listed. There are none to speak of if
the step is not for objects. -/
def namesIn? (holds : Json → Bool) (members : List (String × Json)) :
    Step → Option (List String)
  | .select (.keys names) => some (names.filter (Dict.hasKey members))
  | .select .wildcard => some (Dict.keys members)
  | .condition _ => some (Dict.keys (members.filter fun m => holds m.2))
  | _ => none

/-- What a step reads of the items that it selects: a position reads the item itself, and any
other step reads an array of them. -/
def read? : Step → List Json → Option Json
  | .select (.index _), selected => selected.head?
  | _, selected => some (.array selected)

/-- Whether a step lists the places that it selects downwards. -/
def listsDownwards : Step → Bool
  | .select (.slice _ _ stride) => decide (stride.getD 1 < 0)
  | _ => false

/-- **The steps that address parts of one container**: by position, by name, or by a condition.
The names are different ones. The condition looks up no attribute, and it is a truth value for
each child. -/
inductive Addresses (ctx : Context) (document : Json) (holds : Json → Bool) : Step → Prop where
  | index (position : Int) : Addresses ctx document holds (.select (.index position))
  | slice (first last stride : Option Int) :
      Addresses ctx document holds (.select (.slice first last stride))
  | indices (positions : List Int) : Addresses ctx document holds (.select (.indices positions))
  | wildcard : Addresses ctx document holds (.select .wildcard)
  | keys {names : List String} (hdistinct : names.Nodup) :
      Addresses ctx document holds (.select (.keys names))
  | condition {test : Expr} (hfree : test.finders = [])
      (htruth : ∀ children, document.children? = some children → ∀ child ∈ children, ∃ v,
        (test.evaluate (ctx.about (Value.of child))).Gives v ∧ v.bool? = some (holds child)) :
      Addresses ctx document holds (.condition test)

/-- **A step reads what it removes**: of a document, the outcome of reading the step and that of
removing it. Both are the same error, or they share the document between them. -/
inductive Shares (s : Step) (holds : Json → Bool) : Json → (read left : Outcome) → Prop where
  | refused (document : Json) (message : String) (causes : List String) :
      Shares s holds document (.error message causes) (.error message causes)
  | items {items : List Json} {places : List Nat} {selected : Json}
      (hplaces : s.placesIn? holds items = some places)
      (hinside : ∀ i ∈ places, i < items.length)
      (horder : if s.listsDownwards then places.Pairwise (· > ·) else places.Pairwise (· < ·))
      (hread : s.read? (Position.pick items places) = some selected) :
      Shares s holds (.array items) (.defined selected)
        (.defined (.array (Position.pick items (Position.others items.length places))))
  | members {members : List (String × Json)} {names : List String}
      (hnames : s.namesIn? holds members = some names) (hdistinct : names.Nodup) :
      Shares s holds (.object members)
        (.defined (.array (names.filterMap (Dict.get? members))))
        (.defined (.object (members.filter fun m => !names.contains m.1)))

end Step

/-! ## What a removal leaves -/

/-- Results that are left out do not count towards an array. -/
theorem Value.arrayOf_leftOut {α : Type} (drops : α → Bool) (document : α → Json) (xs : List α) :
    arrayOf (xs.map fun x => if drops x then undefined else of (document x))
      = of (.array ((xs.filter fun x => !drops x).map document)) := by
  rw [arrayOf_eq]
  · congr 2
    induction xs with
    | nil => rfl
    | cons x xs ih =>
      rw [documents, List.filterMap_map] at ih ⊢
      cases h : drops x with
      | true => simpa [h, undefined, document?] using ih
      | false => simpa [h, of, document?] using ih
  · intro v hv
    obtain ⟨x, -, rfl⟩ := List.mem_map.1 hv
    cases drops x <;> rfl

namespace RevisionStep

/-- Results that are left out do not count towards an object. -/
theorem objectOf_leftOut {members : Dict String Json} (hsorted : Dict.Sorted members)
    (drops : String × Json → Bool) :
    objectOf (members.map fun m => (m.1, if drops m then Value.undefined else Value.of m.2))
      = Value.of (.object (members.filter fun m => !drops m)) := by
  have hleft : (members.map fun m =>
      (m.1, if drops m then Value.undefined else Value.of m.2)).filterMap
        (fun m => m.2.document?.map fun document => (m.1, document))
      = members.filter fun m => !drops m := by
    clear hsorted
    induction members with
    | nil => rfl
    | cons m members ih =>
      cases h : drops m with
      | true => simpa [h, Value.undefined, Value.document?] using ih
      | false => simpa [h, Value.of, Value.document?] using ih
  rw [objectOf_eq, hleft, Dict.Sorted.ofEntries_eq]
  · exact List.Pairwise.filter _ hsorted
  · intro m hm
    obtain ⟨m, -, rfl⟩ := List.mem_map.1 hm
    cases drops m <;> rfl

/-- Removing the items at some places leaves those at the others. -/
theorem reviseAt_removing (chosen : List Nat) (items : List Json) :
    reviseAt (fun _ => Value.undefined) chosen items
      = Value.of (.array (Position.pick items (Position.others items.length chosen))) := by
  rw [Position.others, Position.pick_filter_range items fun i => !chosen.contains i]
  exact Value.arrayOf_leftOut (fun entry : Json × Nat => chosen.contains entry.2) Prod.fst _

/-- Removing the members of some names leaves those of the others. -/
theorem reviseNamed_removing {members : Dict String Json} (hsorted : Dict.Sorted members)
    (names : List String) :
    reviseNamed (fun _ => Value.undefined) names members
      = Value.of (.object (members.filter fun m => !names.contains m.1)) :=
  objectOf_leftOut hsorted fun m => names.contains m.1

/-- Where a condition has a truth value it decides on its child alone. -/
theorem reviseIf_removing {check : Json → Value} {holds : Json → Bool} {child : Json}
    (h : (check child).bool? = some (holds child)) :
    reviseIf check (fun _ => Value.undefined) child
      = if holds child then Value.undefined else Value.of child := by
  rcases Value.requireBool_cases (check child) with ⟨b, hb, hrequire⟩ | ⟨hnone, -⟩
  · obtain rfl := Option.some.inj (hb.symm.trans h)
    rw [reviseIf, hrequire]
    cases holds child <;> rfl
  · rw [hnone] at h
    cases h

end RevisionStep

/-! ## What is read -/

/-- The children of a container whose check is true, given the check of each. -/
def Value.childrenWhere (check : Json → Value) (v : Value) : Value :=
  match v.children? with
  | some elements => arrayWhere elements (elements.map check)
  | none => mismatch .container v

theorem Value.bare_childrenWhere (check : Json → Value) (v : Value) :
    (v.childrenWhere check).bare = v.bare.childrenWhere fun x => (check x).bare := by
  unfold childrenWhere
  rw [children?_bare]
  cases v.children? with
  | none => rfl
  | some elements =>
    rw [bare_arrayWhere, List.map_map]
    rfl

/-- Conditions that have truth values keep the elements that meet them. -/
theorem Value.arrayWhere_eq {check : Json → Value} {holds : Json → Bool} {elements : List Json}
    (h : ∀ x ∈ elements, (check x).bool? = some (holds x)) :
    arrayWhere elements (elements.map check) = of (.array (elements.filter holds)) := by
  have hwhere : elementsWhere elements (elements.map check) = .ok (elements.filter holds) := by
    induction elements with
    | nil => rfl
    | cons x elements ih =>
      obtain ⟨hx, helements⟩ := List.forall_mem_cons.1 h
      have hnoError : (check x).isError = false := by
        cases hc : (check x).isError with
        | false => rfl
        | true =>
          rw [bool?_of_isError hc] at hx
          cases hx
      have hrequire : require .conditionResult bool? (check x) = .ok (holds x) := by
        rw [require, hnoError, hx]
        rfl
      rw [List.map_cons, elementsWhere, hrequire, ih helements]
      cases hk : holds x <;> simp [hk, Except.map]
  rw [arrayWhere, hwhere]

namespace Dict

variable {members : Dict String Json}

/-- The members of the names of some entries are the values of these. -/
theorem Sorted.filterMap_get?_keys (hsorted : Sorted members) (p : String × Json → Bool) :
    (keys (members.filter p)).filterMap (get? members) = values (members.filter p) := by
  rw [keys, List.filterMap_map, values, ← List.filterMap_eq_map]
  refine List.filterMap_congr fun m hm => ?_
  exact hsorted.mem_iff.1 (List.mem_filter.1 hm).1

/-- The names of some entries are not those of others. -/
theorem Sorted.contains_keys_filter (hsorted : Sorted members) (p : String × Json → Bool)
    {m : String × Json} (hm : m ∈ members) : (keys (members.filter p)).contains m.1 = p m := by
  rw [Bool.eq_iff_iff, List.contains_iff_mem, keys, List.mem_map]
  constructor
  · rintro ⟨m', hm', hname⟩
    obtain ⟨hm', hp⟩ := List.mem_filter.1 hm'
    -- an entry is determined by its name
    have hvalue := hsorted.mem_iff.1 hm
    rw [← hname, hsorted.mem_iff.1 hm'] at hvalue
    rwa [Prod.ext hname (Option.some.inj hvalue)] at hp
  · exact fun hp => ⟨m, List.mem_filter.2 ⟨hm, hp⟩, rfl⟩

end Dict

/-! ## One step into one document -/

namespace Step

variable {holds : Json → Bool}

open RevisionStep

theorem shares_index (position : Int) (document : Json) :
    (Step.select (.index position)).Shares holds document
      ((Selector.index position).select (Value.of document)).outcome
      (reviseSelected (.index position) (fun _ => Value.undefined) document).outcome := by
  cases document with
  | array items =>
    show Shares _ _ _ (Selector.selectIndex position (Value.of (.array items))).outcome _
    unfold Selector.selectIndex reviseSelected
    dsimp only [Value.items?, Value.of]
    cases hi : Position.resolve? position items.length with
    | none => exact .refused _ _ _
    | some i =>
      have hlt := Position.lt_of_resolve? hi
      dsimp only [Option.bind_some]
      rw [List.getElem?_eq_getElem hlt, reviseAt_removing]
      refine .items (by rw [placesIn?, hi]; rfl) (by simpa using hlt)
        (List.pairwise_singleton _ _) ?_
      simp [read?, Position.pick, List.getElem?_eq_getElem hlt]
  | _ => exact .refused _ _ _

theorem shares_slice (first last stride : Option Int) (document : Json) :
    (Step.select (.slice first last stride)).Shares holds document
      ((Selector.slice first last stride).select (Value.of document)).outcome
      (reviseSelected (.slice first last stride) (fun _ => Value.undefined) document).outcome := by
  cases document with
  | array items =>
    show Shares _ _ _ (Selector.selectSlice first last stride (Value.of (.array items))).outcome _
    unfold Selector.selectSlice reviseSelected
    dsimp only [Value.items?, Value.of]
    cases hplaces : Position.slice? items.length first last stride with
    | none => exact .refused _ _ _
    | some places =>
      obtain ⟨hinside, hup, hdown⟩ := Position.slice?_spec hplaces
      dsimp only
      rw [reviseAt_removing]
      refine .items hplaces hinside ?_ rfl
      rw [listsDownwards]
      split
      · next h => exact hdown (of_decide_eq_true h)
      · next h =>
        refine hup ?_
        have hnonzero : stride.getD 1 ≠ 0 := by
          intro hzero
          rw [Position.slice?, if_pos hzero] at hplaces
          cases hplaces
        have := of_decide_eq_false (Bool.not_eq_true _ ▸ h)
        omega
  | _ => exact .refused _ _ _

theorem shares_indices (positions : List Int) (document : Json) :
    (Step.select (.indices positions)).Shares holds document
      ((Selector.indices positions).select (Value.of document)).outcome
      (reviseSelected (.indices positions) (fun _ => Value.undefined) document).outcome := by
  cases document with
  | array items =>
    have hothers := Position.others_filter items.length
      (Selector.places positions items.length).contains
    obtain ⟨hinside, horder⟩ := Position.range_filter_inside items.length
      (Selector.places positions items.length).contains
    show Shares _ _ _ _ (reviseAt (fun _ => Value.undefined)
      (Selector.places positions items.length) items).outcome
    rw [reviseAt_removing, Position.others, ← hothers]
    exact .items rfl hinside horder rfl
  | _ => exact .refused _ _ _

theorem shares_keys {names : List String} (hdistinct : names.Nodup) {document : Json}
    (hsorted : ∀ members, document = .object members → Dict.Sorted members) :
    (Step.select (.keys names)).Shares holds document
      ((Selector.keys names).select (Value.of document)).outcome
      (reviseSelected (.keys names) (fun _ => Value.undefined) document).outcome := by
  cases document with
  | object members =>
    have hread : names.filterMap (Dict.get? members)
        = (names.filter (Dict.hasKey members)).filterMap (Dict.get? members) := by
      rw [List.filterMap_filter]
      refine List.filterMap_congr fun name _ => ?_
      unfold Dict.hasKey
      cases Dict.get? members name <;> rfl
    have hleft : (members.filter fun m => !names.contains m.1)
        = members.filter fun m => !(names.filter (Dict.hasKey members)).contains m.1 := by
      refine List.filter_congr fun m hm => ?_
      have hkey : Dict.hasKey members m.1 = true :=
        Dict.hasKey_iff_mem_keys.2 (List.mem_map_of_mem hm)
      rw [Bool.eq_iff_iff]
      simp [hkey]
    show Shares _ _ _ (.defined (.array (names.filterMap (Dict.get? members))))
      (reviseNamed (fun _ => Value.undefined) names members).outcome
    rw [reviseNamed_removing (hsorted members rfl), hread, hleft]
    exact .members rfl (hdistinct.filter _)
  | _ => exact .refused _ _ _

theorem shares_itemsWhere {s : Step} {items : List Json} (p : Json → Bool)
    (hplaces : s.placesIn? holds items
      = some ((List.range items.length).filter fun i => items[i]?.any p))
    (hdown : s.listsDownwards = false)
    (hread : ∀ selected, s.read? selected = some (.array selected)) :
    s.Shares holds (.array items) (.defined (.array (items.filter p)))
      (Value.arrayOf (items.map fun x => if p x then Value.undefined else Value.of x)).outcome := by
  obtain ⟨hinside, horder⟩ := Position.range_filter_inside items.length fun i => items[i]?.any p
  have hleft : Value.arrayOf (items.map fun x => if p x then Value.undefined else Value.of x)
      = Value.of (.array (items.filter fun x => !p x)) :=
    (Value.arrayOf_leftOut p id items).trans (by rw [List.map_id])
  rw [hleft, ← Position.pick_filter_where items fun x => !p x,
    ← Position.pick_filter_where items p, ← Position.others_filter_where]
  refine .items hplaces hinside ?_ (hread _)
  rw [hdown]
  exact horder

theorem shares_membersWhere {s : Step} {members : Dict String Json}
    (hsorted : Dict.Sorted members) (p : Json → Bool)
    (hnames : s.namesIn? holds members = some (Dict.keys (members.filter fun m => p m.2))) :
    s.Shares holds (.object members) (.defined (.array ((Dict.values members).filter p)))
      (objectOf (members.map fun m =>
        (m.1, if p m.2 then Value.undefined else Value.of m.2))).outcome := by
  have hread : (Dict.values members).filter p
      = (Dict.keys (members.filter fun m => p m.2)).filterMap (Dict.get? members) := by
    rw [hsorted.filterMap_get?_keys, Dict.values, List.filter_map]
    rfl
  have hleft : (members.filter fun m => !p m.2)
      = members.filter fun m => !(Dict.keys (members.filter fun m => p m.2)).contains m.1 :=
    List.filter_congr fun m hm => by rw [hsorted.contains_keys_filter _ hm]
  rw [objectOf_leftOut hsorted fun m => p m.2, hread, hleft]
  exact .members hnames (Dict.Sorted.keys_nodup (List.Pairwise.filter _ hsorted))

theorem shares_wildcard {document : Json}
    (hsorted : ∀ members, document = .object members → Dict.Sorted members) :
    (Step.select .wildcard).Shares holds document
      (Selector.wildcard.select (Value.of document)).outcome
      (reviseSelected .wildcard (fun _ => Value.undefined) document).outcome := by
  cases document with
  | array items =>
    have h : (Step.select .wildcard).Shares holds (.array items) _ _ :=
      shares_itemsWhere (fun _ => true) (congrArg some (Position.range_filter_any items).symm) rfl
        fun _ => rfl
    rwa [List.filter_true] at h
  | object members =>
    have h : (Step.select .wildcard).Shares holds (.object members) _ _ :=
      shares_membersWhere (hsorted members rfl) (fun _ => true) (by rw [List.filter_true]; rfl)
    rwa [List.filter_true] at h
  | _ => exact .refused _ _ _

theorem shares_condition {test : Expr} {check : Json → Value} {document : Json}
    (hsorted : ∀ members, document = .object members → Dict.Sorted members)
    (htruth : ∀ children, document.children? = some children → ∀ x ∈ children,
      (check x).bool? = some (holds x)) :
    (Step.condition test).Shares holds document
      ((Value.of document).childrenWhere check).outcome
      ((RevisionStep.condition check).revise (fun _ => Value.undefined) document).outcome := by
  cases document with
  | array items =>
    have hitems : ∀ x ∈ items, (check x).bool? = some (holds x) := htruth items rfl
    show Shares _ _ _ (Value.arrayWhere items (items.map check)).outcome
      (Value.arrayOf (items.map (reviseIf check fun _ => Value.undefined))).outcome
    rw [Value.arrayWhere_eq hitems,
      List.map_congr_left fun x hx => reviseIf_removing (hitems x hx)]
    exact shares_itemsWhere holds rfl rfl fun _ => rfl
  | object members =>
    have hmembers : ∀ m ∈ members, (check m.2).bool? = some (holds m.2) :=
      fun m hm => htruth _ rfl m.2 (List.mem_map_of_mem hm)
    have hrevised : (members.map fun m =>
        (m.1, reviseIf check (fun _ => Value.undefined) m.2))
        = members.map fun m => (m.1, if holds m.2 then Value.undefined else Value.of m.2) :=
      List.map_congr_left fun m hm => by rw [reviseIf_removing (hmembers m hm)]
    show Shares _ _ _ (Value.arrayWhere (Dict.values members)
        ((Dict.values members).map check)).outcome
      (objectOf (members.map fun m => (m.1, reviseIf check (fun _ => Value.undefined) m.2))).outcome
    rw [Value.arrayWhere_eq (htruth _ rfl), hrevised]
    exact shares_membersWhere (hsorted members rfl) holds rfl
  | _ => exact .refused _ _ _

end Step

/-! ## Streams -/

namespace Expr

variable {base : Expr} {ctx : Context} {v : Value} {document : Json} {holds : Json → Bool}

/-- What a condition that gives a value for everything reads. -/
theorem gives_condition {test : Expr} {check : Json → Value}
    (hcheck : ∀ x, (test.evaluate (ctx.about (Value.of x))).Gives (check x))
    (hv : v.isError = false) :
    ((Step.condition test).follow ctx v).Gives (v.childrenWhere check) := by
  unfold Step.follow Value.childrenWhere
  rw [hv]
  cases v.children? with
  | none => exact gives_just _
  | some elements =>
    refine Gives.mapReporting (gives_combineLatest ?_) _
    rw [List.forall₂_map_left_iff, List.forall₂_map_right_iff]
    exact List.forall₂_same.2 fun x _ => hcheck x

/-- A condition that asks no finder has a value for everything, which is the truth value that it has
for a child. -/
theorem exists_check {test : Expr} (hfree : test.finders = [])
    (htruth : ∀ children, document.children? = some children → ∀ child ∈ children, ∃ v,
      (test.evaluate (ctx.about (Value.of child))).Gives v ∧ v.bool? = some (holds child)) :
    ∃ check : Json → Value, (∀ x, (test.evaluate (ctx.about (Value.of x))).Gives (check x))
      ∧ ∀ children, document.children? = some children → ∀ x ∈ children,
        (check x).bare.bool? = some (holds x) := by
  have hsingle : ∀ x : Json, (test.evaluate (ctx.about (Value.of x))).Single :=
    fun x => evaluate_unasked compositional_single (.inr hfree)
  choose check hcheck using hsingle
  refine ⟨check, hcheck, fun children hchildren x hx => ?_⟩
  obtain ⟨b, hb, hbool⟩ := htruth children hchildren x hx
  rw [Value.bool?_bare, (hcheck x).unique hb, hbool]

/-- It is enough to know what the step makes of the value, and to compute what its removal makes of
the document. -/
theorem exists_shares {s : Step} {step : RevisionStep} {r : Value}
    (hbase : (base.evaluate ctx).Gives v) (hv : v.outcome = .defined document)
    (hr : (s.follow ctx v).Gives r) (hstep : EditStep.Told single (s.toEdit ctx) fun _ => step)
    (hshares : s.Shares holds document r.bare.outcome
      (step.revise (fun _ => Value.undefined) document).outcome) :
    ∃ read left, ((Expr.path base [s]).evaluate ctx).Gives read
      ∧ ((Expr.filter base [.remove false [s]]).evaluate ctx).Gives left
      ∧ s.Shares holds document read.outcome left.outcome := by
  have htold : EditStep.AllTold single (Step.toEdits [s] ctx) fun _ => [step] := .cons hstep .nil
  obtain ⟨left, hleft, hrevised⟩ := gives_remove hbase hv htold
  refine ⟨r, left, gives_step hbase hr, hleft, ?_⟩
  rw [← Value.outcome_bare r, ← Value.outcome_bare left, hrevised]
  exact hshares

/-- **Reading and removing address the same parts**: for a value that is a document and a step that
addresses parts of it, both come to the same error, or what is read is what is not left. The members
of the document are in ascending order of their names, as they are in every canonical document. -/
theorem reads_what_it_removes {s : Step} (hbase : (base.evaluate ctx).Gives v)
    (hv : v.outcome = .defined document)
    (hsorted : ∀ members, document = .object members → Dict.Sorted members)
    (hs : s.Addresses ctx document holds) :
    ∃ read left, ((Expr.path base [s]).evaluate ctx).Gives read
      ∧ ((Expr.filter base [.remove false [s]]).evaluate ctx).Gives left
      ∧ s.Shares holds document read.outcome left.outcome := by
  have hbare : v.bare = Value.of document := by
    rw [Value.bare, hv]
    rfl
  have hselect : ∀ selector : Selector,
      (Step.select selector).Shares holds document
        (selector.select (Value.of document)).outcome
        (RevisionStep.reviseSelected selector (fun _ => Value.undefined) document).outcome →
      ∃ read left, ((Expr.path base [.select selector]).evaluate ctx).Gives read
        ∧ ((Expr.filter base [.remove false [.select selector]]).evaluate ctx).Gives left
        ∧ (Step.select selector).Shares holds document read.outcome left.outcome :=
    fun selector hshares => exists_shares hbase hv (gives_just _) (.select selector) <| by
      rwa [Selector.bare_select, hbare]
  cases hs with
  | index position => exact hselect _ (Step.shares_index position document)
  | slice first last stride => exact hselect _ (Step.shares_slice first last stride document)
  | indices positions => exact hselect _ (Step.shares_indices positions document)
  | wildcard => exact hselect _ (Step.shares_wildcard hsorted)
  | keys hdistinct => exact hselect _ (Step.shares_keys hdistinct hsorted)
  | @condition test hfree htruth =>
    obtain ⟨check, hcheck, htruth⟩ := exists_check hfree htruth
    have hnoError : v.isError = false := by rw [Value.isError, hv]
    refine exists_shares hbase hv (gives_condition hcheck hnoError)
      (.condition fun x => ⟨check x, hcheck x, rfl⟩) ?_
    rw [Value.bare_childrenWhere, hbare]
    exact Step.shares_condition hsorted htruth

/-- Of the members of an object, those that are true. -/
theorem reads_what_it_removes_true :
    let document : Json := .object [("read", .bool true), ("write", .bool false)]
    let s : Step := .condition .relative
    let holds : Json → Bool := fun x => x matches .bool true
    ((Expr.literal document).evaluate {}).Gives (Value.of document)
      ∧ (Value.of document).outcome = .defined document
      ∧ (∀ members, document = .object members → Dict.Sorted members)
      ∧ s.Addresses {} document holds
      ∧ ∃ read left, ((Expr.path (.literal document) [s]).evaluate {}).Gives read
        ∧ ((Expr.filter (.literal document) [.remove false [s]]).evaluate {}).Gives left
        ∧ s.Shares holds document read.outcome left.outcome := by
  intro document s holds
  have hbase : ((Expr.literal document).evaluate {}).Gives (Value.of document) := gives_just _
  have hsorted : ∀ members, document = .object members → Dict.Sorted members := by
    intro members h
    obtain rfl := Json.object.inj h
    unfold Dict.Sorted
    decide
  have hs : s.Addresses {} document holds := by
    refine .condition rfl fun children hchildren child hchild => ⟨_, gives_just _, ?_⟩
    obtain rfl := Option.some.inj hchildren
    rcases List.mem_pair.1 hchild with rfl | rfl <;> rfl
  exact ⟨hbase, rfl, hsorted, hs, reads_what_it_removes hbase rfl hsorted hs⟩

end Expr

end AccessPolicy
