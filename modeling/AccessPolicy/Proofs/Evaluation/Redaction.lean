import AccessPolicy.Proofs.Evaluation.Removal
import AccessPolicy.Proofs.Path.Search

/-!
# Redaction leaves nothing to select

A filter that removes what a path of names leads to should leave nothing that the same path leads
to. The two go down a document differently. A search by name goes on below its hits; an edit that
searches hands each hit over to the steps that come next, and what those leave alone it does not
search again. If the next step searches as well nothing is missed, since a search from a hit finds
whatever a search from further down would. If it is a single name, a hit inside of another hit
can be missed.

So the condition is that wherever a single name follows a search, the path from that search on leads
nowhere from a hit of the search: it may have hits within hits, but none that the path goes on from.
Under it nothing is left, for documents and paths of any depth.
-/

namespace AccessPolicy

open Machine Reading

/-! ## Paths of names -/

/-- A step of a path that goes by name: one level down, or to every depth. -/
inductive Hop where
  | key (name : String)
  | everywhere (name : String)

namespace Hop

/-- The name that a step goes by. -/
def name : Hop → String
  | key name => name
  | everywhere name => name

/-- The selector of a step. -/
def selector : Hop → Selector
  | key name => .key name
  | everywhere name => .recursiveKey name

/-- The step of a path. -/
def step (hop : Hop) : Step := .select hop.selector

/-- What an edit that goes down makes of a document, given what it makes of the next ones. -/
def revise (hop : Hop) (next : Json → Value) (d : Json) : Value :=
  RevisionStep.reviseSelected hop.selector next d

/-- What an edit that goes down makes of a child with a label. -/
def inside (hop : Hop) (next : Json → Value) : Option String → Json → Value
  | none, x => hop.revise next x
  | some label, x =>
    if label = hop.name then next x
    else
      match hop with
      | key _ => Value.of x
      | everywhere _ => hop.revise next x

end Hop

/-- **A path of names leads** from a document to another one. A single name passes through the
items of arrays. -/
inductive Leads : List Hop → Json → Json → Prop where
  | arrived (d : Json) : Leads [] d d
  | key {name : String} {p : List Hop} {d x w : Json} :
      d.Child (some name) x → Leads p x w → Leads (.key name :: p) d w
  | item {name : String} {p : List Hop} {d x w : Json} :
      d.Child none x → Leads (.key name :: p) x w → Leads (.key name :: p) d w
  | everywhere {name : String} {p : List Hop} {d hit w : Json} :
      Json.Named name d hit → Leads p hit w → Leads (.everywhere name :: p) d w

/-- **A document is clear** for a path of names if, wherever a single name follows a search, the
path from that search on leads nowhere from what the search finds. -/
def Json.Clear (p : List Hop) (d : Json) : Prop :=
  ∀ name next rest, .everywhere name :: .key next :: rest <:+ p →
    ∀ hit, Json.Named name d hit → ∀ w, ¬ Leads (.everywhere name :: .key next :: rest) hit w

/-! ## What an edit that goes down leaves -/

namespace Hop

open RevisionStep

theorem reviseKeyOfItems_eq (name : String) (next : Json → Value) (items : List Json) :
    reviseKeyOfItems name next items = items.map (reviseKey name next) := by
  induction items with
  | nil => rfl
  | cons item items ih => rw [reviseKeyOfItems, ih, List.map_cons]

theorem reviseEverywhereInItems_eq (name : String) (next : Json → Value) (items : List Json) :
    reviseEverywhereInItems name next items = items.map (reviseEverywhere name next) := by
  induction items with
  | nil => rfl
  | cons item items ih => rw [reviseEverywhereInItems, ih, List.map_cons]

theorem reviseEverywhereInMembers_eq (name : String) (next : Json → Value)
    (members : List (String × Json)) :
    reviseEverywhereInMembers name next members = members.map fun m =>
      (m.1, if m.1 = name then next m.2 else reviseEverywhere name next m.2) := by
  induction members with
  | nil => rfl
  | cons m members ih => rw [reviseEverywhereInMembers, ih, List.map_cons]

variable (hop : Hop) (next : Json → Value)

theorem revise_array (items : List Json) :
    hop.revise next (.array items) = Value.arrayOf (items.map (hop.revise next)) := by
  cases hop with
  | key name =>
    show reviseKey name next (.array items) = _
    rw [reviseKey, reviseKeyOfItems_eq]
    rfl
  | everywhere name =>
    show reviseEverywhere name next (.array items) = _
    rw [reviseEverywhere, reviseEverywhereInItems_eq]
    rfl

/-- An object is put together again, or it is left as it is since no member is concerned. -/
theorem revise_object (members : List (String × Json)) :
    hop.revise next (.object members)
        = objectOf (members.map fun m => (m.1, hop.inside next (some m.1) m.2))
      ∨ hop.revise next (.object members) = Value.of (.object members)
        ∧ ∀ m ∈ members, hop.inside next (some m.1) m.2 = Value.of m.2 := by
  cases hop with
  | key name =>
    show reviseKey name next (.object members) = _
      ∨ reviseKey name next (.object members) = _ ∧ _
    rw [reviseKey]
    cases hkey : Dict.hasKey members name with
    | true =>
      refine .inl (congrArg objectOf (List.map_congr_left fun m _ => ?_))
      by_cases hname : m.1 = name <;> simp [inside, Hop.name, hname]
    | false =>
      refine .inr ⟨rfl, fun m hm => if_neg fun hname => ?_⟩
      have hmem : Dict.hasKey members m.1 = true :=
        Dict.hasKey_iff_mem_keys.2 (List.mem_map_of_mem hm)
      rw [hname] at hmem
      exact Bool.false_ne_true (hkey.symm.trans hmem)
  | everywhere name =>
    refine .inl ?_
    show reviseEverywhere name next (.object members) = _
    rw [reviseEverywhere, reviseEverywhereInMembers_eq]
    rfl

theorem revise_scalar {d : Json} (h : d.children? = none) : hop.revise next d = Value.of d := by
  cases hop <;> cases d <;> first | rfl | cases h

/-- Inside of a document an edit hands over what it searches for, goes on, or leaves be. -/
theorem inside_cases (label : Option String) (x : Json) :
    label = some hop.name ∧ hop.inside next label x = next x
      ∨ hop.inside next label x = hop.revise next x
      ∨ hop.inside next label x = Value.of x := by
  cases label with
  | none => exact .inr (.inl rfl)
  | some label =>
    by_cases hname : label = hop.name
    · exact .inl ⟨congrArg some hname, if_pos hname⟩
    · cases hop with
      | key name => exact .inr (.inr (if_neg hname))
      | everywhere name => exact .inr (.inl (if_neg hname))

theorem inside_everywhere_of_ne {name : String} {label : Option String} (h : label ≠ some name)
    (x : Json) :
    (everywhere name).inside next label x = (everywhere name).revise next x := by
  cases label with
  | none => rfl
  | some label => exact if_neg fun hname => h (congrArg some hname)

variable {next} (hnext : ∀ x, (next x).isError = false)

include hnext

theorem isError_inside {label : Option String} {x : Json}
    (hx : (hop.revise next x).isError = false) : (hop.inside next label x).isError = false := by
  rcases hop.inside_cases next label x with ⟨-, h⟩ | h | h
  · rw [h, hnext]
  · rw [h, hx]
  · rw [h]
    rfl

/-- Where the next ones come to no error an edit comes to none. -/
theorem isError_revise (d : Json) : (hop.revise next d).isError = false := by
  induction d using Json.child_induction with
  | h d ih =>
    cases d with
    | array items =>
      rw [revise_array, Value.arrayOf_eq]
      · rfl
      · intro v hv
        obtain ⟨x, hx, rfl⟩ := List.mem_map.1 hv
        exact ih none x (.item hx)
    | object members =>
      rcases hop.revise_object next members with h | ⟨h, -⟩
      · rw [h, objectOf_eq]
        · rfl
        · intro entry hentry
          obtain ⟨m, hm, rfl⟩ := List.mem_map.1 hentry
          exact hop.isError_inside hnext (ih _ m.2 (.member hm))
      · rw [h]
        rfl
    | _ =>
      rw [revise_scalar _ _ rfl]
      rfl

/-- **A child of what is left** is what the edit makes of a child with the same label. -/
theorem child_revise {d left y : Json} {label : Option String}
    (hleft : (hop.revise next d).document? = some left) (hy : left.Child label y) :
    ∃ x, d.Child label x ∧ (hop.inside next label x).document? = some y := by
  cases d with
  | array items =>
    rw [revise_array, Value.arrayOf_eq] at hleft
    · obtain rfl := Option.some.inj hleft
      cases hy with
      | item hy =>
        obtain ⟨v, hv, hvy⟩ := List.mem_filterMap.1 hy
        obtain ⟨x, hx, rfl⟩ := List.mem_map.1 hv
        exact ⟨x, .item hx, hvy⟩
    · intro v hv
      obtain ⟨x, -, rfl⟩ := List.mem_map.1 hv
      exact hop.isError_revise hnext x
  | object members =>
    rcases hop.revise_object next members with h | ⟨h, hinside⟩
    · rw [h, objectOf_eq] at hleft
      · obtain rfl := Option.some.inj hleft
        cases hy with
        | member hy =>
          obtain ⟨entry, hentry, hsome⟩ := List.mem_filterMap.1 (Dict.mem_of_mem_ofEntries hy)
          obtain ⟨m, hm, rfl⟩ := List.mem_map.1 hentry
          obtain ⟨_, hdocument, hpair⟩ := Option.map_eq_some_iff.1 hsome
          obtain ⟨rfl, rfl⟩ := Prod.mk.inj hpair
          exact ⟨m.2, .member hm, hdocument⟩
      · intro entry hentry
        obtain ⟨m, -, rfl⟩ := List.mem_map.1 hentry
        exact hop.isError_inside hnext (hop.isError_revise hnext m.2)
    · rw [h] at hleft
      obtain rfl := Option.some.inj hleft
      cases hy with
      | member hy =>
        refine ⟨y, .member hy, ?_⟩
        rw [hinside _ hy]
        rfl
  | _ =>
    rw [revise_scalar _ _ rfl] at hleft
    obtain rfl := Option.some.inj hleft
    cases hy

/-- A child under the name that the edit goes by is what the next ones leave. -/
theorem child_revise_name {d left y : Json} (hleft : (hop.revise next d).document? = some left)
    (hy : left.Child (some hop.name) y) :
    ∃ x, d.Child (some hop.name) x ∧ (next x).document? = some y := by
  obtain ⟨x, hx, hinside⟩ := hop.child_revise hnext hleft hy
  have hname : hop.inside next (some hop.name) x = next x := if_pos rfl
  exact ⟨x, hx, hname ▸ hinside⟩

/-- **No new ways**: where a path leads somewhere from what is left it does so from the document, if
the same holds of the next ones. -/
theorem leads_of_leads_revise
    (hways : ∀ x y, (next x).document? = some y →
      ∀ q w, Leads q y w → ∃ w, Leads q x w)
    {d left : Json} (hleft : (hop.revise next d).document? = some left) {q : List Hop} {w : Json}
    (hleads : Leads q left w) : ∃ w, Leads q d w := by
  induction d using Json.child_induction generalizing left q w with
  | h d ih =>
    have hchild : ∀ label y, left.Child label y →
        ∃ x, d.Child label x ∧ ∀ q w, Leads q y w → ∃ w, Leads q x w := by
      intro label y hy
      obtain ⟨x, hx, hinside⟩ := hop.child_revise hnext hleft hy
      refine ⟨x, hx, fun q w hleads => ?_⟩
      rcases hop.inside_cases next label x with ⟨-, h⟩ | h | h <;> rw [h] at hinside
      · exact hways x y hinside q w hleads
      · exact ih label x hx hinside hleads
      · obtain rfl := Option.some.inj hinside
        exact ⟨w, hleads⟩
    cases hleads with
    | arrived => exact ⟨d, .arrived d⟩
    | key hy hleads =>
      obtain ⟨x, hx, hback⟩ := hchild _ _ hy
      obtain ⟨w, hleads⟩ := hback _ _ hleads
      exact ⟨w, .key hx hleads⟩
    | item hy hleads =>
      obtain ⟨x, hx, hback⟩ := hchild _ _ hy
      obtain ⟨w, hleads⟩ := hback _ _ hleads
      exact ⟨w, .item hx hleads⟩
    | everywhere hhit hleads =>
      cases hhit with
      | here hy =>
        obtain ⟨x, hx, hback⟩ := hchild _ _ hy
        obtain ⟨w, hleads⟩ := hback _ _ hleads
        exact ⟨w, .everywhere (.here hx) hleads⟩
      | deeper hy hhit =>
        -- the search goes on in the child, so the same path leads somewhere from there
        obtain ⟨x, hx, hback⟩ := hchild _ _ hy
        obtain ⟨w, hleads⟩ := hback _ _ (.everywhere hhit hleads)
        cases hleads with
        | everywhere hhit hleads => exact ⟨w, .everywhere (.deeper hx hhit) hleads⟩

end Hop

/-! ## Removing along a path -/

/-- What is left of a document when everything that a path of names leads to is removed. -/
def Hop.removing (p : List Hop) : Json → Value :=
  RevisionStep.reviseAlong (fun _ => Value.undefined) (p.map fun hop => .select hop.selector)

namespace Json

theorem isError_removing (p : List Hop) (d : Json) : (Hop.removing p d).isError = false := by
  induction p generalizing d with
  | nil => rfl
  | cons hop p ih => exact hop.isError_revise ih d

theorem leads_of_leads_removing (p : List Hop) (d left : Json)
    (hleft : (Hop.removing p d).document? = some left) (q : List Hop) (w : Json)
    (hleads : Leads q left w) : ∃ w, Leads q d w := by
  induction p generalizing d left q w with
  | nil => cases hleft
  | cons hop p ih => exact hop.leads_of_leads_revise (isError_removing p) ih hleft hleads

theorem Clear.child {p : List Hop} {d x : Json} {label : Option String} (h : d.Clear p)
    (hx : d.Child label x) : x.Clear p :=
  fun name next rest hp hit hhit => h name next rest hp hit (.deeper hx hhit)

theorem Clear.tail {hop : Hop} {p : List Hop} {d : Json} (h : d.Clear (hop :: p)) : d.Clear p :=
  fun name next rest hp => h name next rest (hp.trans (List.suffix_cons _ _))

variable {p : List Hop} {name : String} {d x left hit w : Json}

/-- Below a hit that is handed over nothing is left that the next steps lead to: either they search
as well, or nothing they lead to was there. -/
theorem not_leads_handed_over (hclear : d.Clear (.everywhere name :: p))
    (hp : ∀ w, ¬ Leads p left w) (hx : d.Child (some name) x)
    (hleft : (Hop.removing p x).document? = some left) (hhit : Named name left hit) :
    ¬ Leads p hit w := by
  have hback := leads_of_leads_removing p x left hleft
  intro hleads
  cases hleads with
  | arrived => cases hleft
  | everywhere hfurther hleads => exact hp _ (.everywhere (hhit.trans hfurther) hleads)
  | key hy hleads =>
    obtain ⟨w, hw⟩ := hback _ _ (.everywhere hhit (.key hy hleads))
    exact hclear name _ _ (List.suffix_refl _) x (.here hx) w hw
  | item hy hleads =>
    obtain ⟨w, hw⟩ := hback _ _ (.everywhere hhit (.item hy hleads))
    exact hclear name _ _ (List.suffix_refl _) x (.here hx) w hw

theorem not_leads_everywhere (hclear : d.Clear (.everywhere name :: p))
    (hp : ∀ {d left}, d.Clear p → (Hop.removing p d).document? = some left →
      ∀ w, ¬ Leads p left w)
    (hleft : (Hop.removing (.everywhere name :: p) d).document? = some left)
    (hhit : Named name left hit) : ¬ Leads p hit w := by
  have hnext := isError_removing p
  induction d using child_induction generalizing left hit w with
  | h d ih =>
    cases hhit with
    | here hy =>
      obtain ⟨x, hx, hxy⟩ := Hop.child_revise_name (.everywhere name) hnext hleft hy
      exact hp (hclear.child hx).tail hxy w
    | @deeper _ y _ label hy hhit =>
      -- a child of the name is handed over to the next steps, any other one is searched
      by_cases hlabel : label = some name
      · subst hlabel
        obtain ⟨x, hx, hxy⟩ := Hop.child_revise_name (.everywhere name) hnext hleft hy
        exact not_leads_handed_over hclear (hp (hclear.child hx).tail hxy) hx hxy hhit
      · obtain ⟨x, hx, hinside⟩ := Hop.child_revise (.everywhere name) hnext hleft hy
        rw [Hop.inside_everywhere_of_ne _ hlabel] at hinside
        exact ih label x hx (hclear.child hx) hinside hhit

theorem not_leads_key (hclear : d.Clear (.key name :: p))
    (hp : ∀ {d left}, d.Clear p → (Hop.removing p d).document? = some left →
      ∀ w, ¬ Leads p left w)
    (hleft : (Hop.removing (.key name :: p) d).document? = some left) :
    ¬ Leads (.key name :: p) left w := by
  have hnext := isError_removing p
  induction d using child_induction generalizing left w with
  | h d ih =>
    intro hleads
    cases hleads with
    | key hy hleads =>
      obtain ⟨x, hx, hxy⟩ := Hop.child_revise_name (.key name) hnext hleft hy
      exact hp (hclear.child hx).tail hxy w hleads
    | item hy hleads =>
      obtain ⟨x, hx, hinside⟩ := Hop.child_revise (.key name) hnext hleft hy
      exact ih none x hx (hclear.child hx) hinside hleads

/-- **Nothing is left** that the path leads to. -/
theorem not_leads_removing (p : List Hop) (hclear : d.Clear p)
    (hleft : (Hop.removing p d).document? = some left) (w : Json) : ¬ Leads p left w := by
  induction p generalizing d left w with
  | nil => cases hleft
  | cons hop p ih =>
    cases hop with
    | key name => exact not_leads_key hclear (fun hclear hleft => ih hclear hleft) hleft
    | everywhere name =>
      intro hleads
      cases hleads with
      | everywhere hhit hleads =>
        exact not_leads_everywhere hclear (fun hclear hleft => ih hclear hleft) hleft hhit hleads

end Json

/-! ## Reading along a path -/

/-- **A value shows** nothing but some documents: it is undefined, one of them, or an array of
them. -/
def Value.Shows (Of : Json → Prop) (v : Value) : Prop :=
  v.outcome = .undefined ∨ (∃ w, v.outcome = .defined w ∧ Of w)
    ∨ ∃ ws, v.outcome = .defined (.array ws) ∧ ∀ w ∈ ws, Of w

namespace Value.Shows

variable {Of Of' : Json → Prop} {v : Value}

theorem mono (h : v.Shows Of) (himp : ∀ w, Of w → Of' w) : v.Shows Of' :=
  h.imp_right (Or.imp (fun ⟨w, hw, hof⟩ => ⟨w, hw, himp w hof⟩)
    fun ⟨ws, hws, hof⟩ => ⟨ws, hws, fun w hw => himp w (hof w hw)⟩)

/-- A value that shows documents of which there are none shows nothing. -/
theorem nothing (h : v.Shows Of) (hnone : ∀ w, ¬ Of w) :
    v.outcome = .undefined ∨ v.outcome = .defined (.array []) := by
  rcases h with h | ⟨w, -, hof⟩ | ⟨ws, hws, hof⟩
  · exact .inl h
  · exact (hnone w hof).elim
  · rw [List.eq_nil_iff_forall_not_mem.2 fun w hw => hnone w (hof w hw)] at hws
    exact .inr hws

theorem isError_eq (h : v.Shows Of) : v.isError = false := by
  unfold isError
  rcases h with h | ⟨w, h, -⟩ | ⟨ws, h, -⟩ <;> rw [h]

end Value.Shows

/-- A path goes on from where its first step leads. -/
theorem Leads.before {hop : Hop} {p : List Hop} {d x w : Json} (h : Leads [hop] d x)
    (h' : Leads p x w) : Leads (hop :: p) d w := by
  generalize hfirst : [hop] = first at h
  induction h with
  | arrived => cases hfirst
  | key hx hlast =>
    cases hfirst
    cases hlast
    exact .key hx h'
  | item hx _ ih => cases hfirst; exact .item hx (ih h' rfl)
  | everywhere hhit hlast =>
    cases hfirst
    cases hlast
    exact .everywhere hhit h'

namespace Hop

variable {Of : Json → Prop} {v : Value}

theorem shows_selectKey (name : String) (h : v.Shows Of) :
    (Selector.selectKey name v).Shows fun w => ∃ u, Of u ∧ Leads [.key name] u w := by
  unfold Selector.selectKey
  rcases h with h | ⟨d, h, hd⟩ | ⟨ds, h, hds⟩ <;> rw [h]
  · exact .inl rfl
  · cases d with
    | object members =>
      dsimp only
      cases hget : Dict.get? members name with
      | none => exact .inl rfl
      | some x =>
        exact .inr (.inl ⟨x, rfl, _, hd, .key (.member (Dict.mem_of_get? hget)) (.arrived x)⟩)
    | array items =>
      refine .inr (.inr ⟨_, rfl, fun x hx => ⟨_, hd, ?_⟩⟩)
      obtain ⟨item, hitem, hmember⟩ := List.mem_filterMap.1 hx
      exact .item (.item hitem) (.key (Json.child_of_member? hmember) (.arrived x))
    | _ => exact .inl rfl
  · refine .inr (.inr ⟨_, rfl, fun x hx => ?_⟩)
    obtain ⟨d, hd, hmember⟩ := List.mem_filterMap.1 hx
    exact ⟨d, hds d hd, .key (Json.child_of_member? hmember) (.arrived x)⟩

theorem shows_search (name : String) (h : v.Shows Of) :
    (Selector.selectBySearch (Json.membersNamed name) v).Shows
      fun w => ∃ u, Of u ∧ Leads [.everywhere name] u w := by
  unfold Selector.selectBySearch Value.document?
  rcases h with h | ⟨d, h, hd⟩ | ⟨ds, h, hds⟩ <;> rw [h]
  · exact .inl rfl
  · exact .inr (.inr ⟨_, rfl, fun x hx =>
      ⟨d, hd, .everywhere (Json.named_of_mem hx) (.arrived x)⟩⟩)
  · refine .inr (.inr ⟨_, rfl, fun x hx => ?_⟩)
    rw [Json.membersNamed, Json.membersNamedInItems_eq] at hx
    obtain ⟨d, hd, hx⟩ := List.mem_flatMap.1 hx
    exact ⟨d, hds d hd, .everywhere (Json.named_of_mem hx) (.arrived x)⟩

theorem shows_select (hop : Hop) (h : v.Shows Of) :
    (hop.selector.select v).Shows fun w => ∃ u, Of u ∧ Leads [hop] u w := by
  unfold Selector.select
  rw [h.isError_eq]
  cases hop with
  | key name => exact shows_selectKey name h
  | everywhere name => exact shows_search name h

/-- **What is read along a path** is among what the path leads to. -/
theorem shows_read (p : List Hop) (h : v.Shows Of) :
    ((p.map selector).foldl (fun v s => s.select v) v).Shows
      fun w => ∃ u, Of u ∧ Leads p u w := by
  induction p generalizing v Of with
  | nil => exact h.mono fun w hw => ⟨w, hw, .arrived w⟩
  | cons hop p ih =>
    refine (ih (hop.shows_select h)).mono ?_
    rintro w ⟨x, ⟨u, hu, hfirst⟩, hrest⟩
    exact ⟨u, hu, hfirst.before hrest⟩

end Hop

/-! ## Redaction -/

namespace Expr

variable {base : Expr} {ctx : Context} {v : Value} {d : Json}

/-- The value of a filter that removes what a path of names leads to. -/
theorem gives_removing (hbase : (base.evaluate ctx).Gives v) (hv : v.outcome = .defined d)
    (p : List Hop) :
    ∃ left, ((Expr.filter base [.remove false (p.map Hop.step)]).evaluate ctx).Gives left
      ∧ left.bare = Hop.removing p d := by
  refine gives_remove hbase hv ?_
  induction p with
  | nil => exact .nil
  | cons hop p ih => exact .cons (.select hop.selector) ih

/-- **Redaction leaves nothing to select.** -/
theorem redacted (hbase : (base.evaluate ctx).Gives v) (hv : v.outcome = .defined d)
    (p : List Hop) (hclear : d.Clear p) :
    ∃ r, ((Expr.path (.filter base [.remove false (p.map Hop.step)])
        (p.map Hop.step)).evaluate ctx).Gives r
      ∧ (r.outcome = .undefined ∨ r.outcome = .defined (.array [])) := by
  obtain ⟨left, hleft, hremoving⟩ := gives_removing hbase hv p
  have hread := gives_path hleft (p.map Hop.selector)
  rw [List.map_map] at hread
  have hshows : left.Shows fun u => (Hop.removing p d).document? = some u := by
    have hnoError := Json.isError_removing p d
    rw [← hremoving] at hnoError ⊢
    rw [Value.document?_bare]
    unfold Value.isError Value.bare at hnoError
    unfold Value.document?
    cases houtcome : left.outcome with
    | undefined => exact .inl houtcome
    | defined u => exact .inr (.inl ⟨u, houtcome, rfl⟩)
    | error => rw [houtcome] at hnoError; cases hnoError
  refine ⟨_, hread, (Hop.shows_read p hshows).nothing ?_⟩
  rintro w ⟨u, hu, hleads⟩
  exact Json.not_leads_removing p hclear hu w hleads

/-- The passwords of all users, where no user lies within another one. -/
theorem redacted_passwords :
    let document : Json := .object [("user", .object [("password", .bool true)])]
    let p : List Hop := [.everywhere "user", .key "password"]
    ((Expr.literal document).evaluate {}).Gives (Value.of document)
      ∧ (Value.of document).outcome = .defined document
      ∧ document.Clear p
      ∧ ∃ r, ((Expr.path (.filter (.literal document) [.remove false (p.map Hop.step)])
          (p.map Hop.step)).evaluate {}).Gives r
        ∧ (r.outcome = .undefined ∨ r.outcome = .defined (.array [])) := by
  intro document p
  have hbase : ((Expr.literal document).evaluate {}).Gives (Value.of document) := gives_just _
  have hclear : document.Clear p := by
    intro name next rest hp hit hhit w hw
    obtain ⟨rfl, -, -⟩ : name = "user" ∧ next = "password" ∧ rest = [] := by
      simpa [p, List.suffix_cons_iff] using hp
    have hleaf : ∀ w, ¬ Json.Named "user" (.bool true) w :=
      fun _ => Json.not_named_of_childless rfl
    have hflat : ∀ w, ¬ Json.Named "user" (.object [("password", .bool true)]) w := by
      simp [Json.named_object_iff, hleaf]
    have hinner : hit = .object [("password", .bool true)] := by
      simpa [document, Json.named_object_iff, hleaf, eq_comm] using hhit
    cases hw with
    | everywhere hfurther _ => exact hflat _ (hinner ▸ hfurther)
  exact ⟨hbase, rfl, hclear, redacted hbase rfl p hclear⟩

/-- **A hit within a hit** is missed if a single name follows the search: what is left can still be
selected. -/
theorem redacted_nested :
    let document : Json :=
      .object [("k", .object [("x", .object [("k", .object [("k", .bool true)])])])]
    let p : List Hop := [.everywhere "k", .key "k"]
    ∃ r, ((Expr.path (.filter (.literal document) [.remove false (p.map Hop.step)])
        (p.map Hop.step)).evaluate {}).Gives r
      ∧ r.outcome = .defined (.array [.bool true]) := by
  intro document p
  have hbase : ((Expr.literal document).evaluate {}).Gives (Value.of document) := gives_just _
  obtain ⟨left, hleft, hremoving⟩ := gives_removing hbase rfl p
  have hunchanged : left.bare = Value.of document := hremoving.trans rfl
  refine ⟨_, gives_path hleft (p.map Hop.selector), ?_⟩
  show (Selector.select (.key "k") (Selector.select (.recursiveKey "k") left)).outcome = _
  rw [← Value.outcome_bare, Selector.bare_select, Selector.bare_select, hunchanged]
  rfl

end Expr

end AccessPolicy
