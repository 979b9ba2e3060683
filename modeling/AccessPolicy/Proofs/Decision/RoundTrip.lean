import AccessPolicy.Decision.Record
import AccessPolicy.Proofs.Json.Record

/-!
# Decisions are read as they are printed

The members of a printed decision are those fields that are not at their default, and a field that
is missing is read as the default. Verdict, obligations and advice come back in this way. With the
resource it is not so: to have none is the default, and it is left out, but to have the document
`null` is something else, and it is printed, and what is printed is read as having none. The
decision to put `null` in the place of a resource is read as one to let the resource stand.
-/

namespace AccessPolicy.Decision

/-- **A decision is legible** if its documents are, in the containers that the decision leaves: one
around the resource, two around each obligation and each advice. -/
structure Legible (d : Decision) : Prop where
  resource : ∀ r ∈ d.resource, r.Legible (Json.maxNesting - 1)
  obligations : ∀ o ∈ d.obligations, o.Legible (Json.maxNesting - 2)
  advice : ∀ a ∈ d.advice, a.Legible (Json.maxNesting - 2)

/-! ## The fields of the text -/

/-- The field of a list of documents. -/
def listField (items : List Json) : Option Json :=
  if items.isEmpty then none else some (.array items)

theorem get?_members (d : Decision) : fieldNames.map (Dict.get? d.members)
    = [some (.string d.verdict.word), d.resource, listField d.obligations, listField d.advice] := by
  obtain ⟨verdict, resource, obligations, advice⟩ := d
  cases resource <;> cases obligations <;> cases advice <;> rfl

theorem keys_listMember_sublist (key : String) (items : List Json) :
    (Dict.keys (listMember key items)).Sublist [key] := by
  unfold listMember
  split
  · exact List.nil_sublist _
  · exact .refl _

/-- The members of a decision are those of its fields that are there, in their order. -/
theorem keys_members_sublist (d : Decision) : (Dict.keys d.members).Sublist fieldNames := by
  have hresource : (Dict.keys (d.resource.map fun r => ("resource", r)).toList).Sublist
      ["resource"] := by
    cases d.resource with
    | none => exact List.nil_sublist _
    | some r => exact .refl _
  rw [members, Dict.keys, List.map_cons, List.map_append, List.map_append]
  exact (((hresource.append (keys_listMember_sublist _ _)).append
    (keys_listMember_sublist _ _))).cons_cons _

theorem writable_listMember {n : Nat} {items : List Json} (h : ∀ x ∈ items, x.Writable n)
    (key : String) : ∀ m ∈ listMember key items, m.2.Writable (n + 1) := by
  unfold listMember
  split
  · rintro m ⟨⟩
  · exact List.forall_mem_singleton.2 (.array h)

/-- The text of a decision has the fields of the decision if its documents are writable. -/
theorem readFields?_text {d : Decision}
    (hresource : ∀ r ∈ d.resource, r.Writable (Json.maxNesting - 1))
    (hobligations : ∀ o ∈ d.obligations, o.Writable (Json.maxNesting - 2))
    (hadvice : ∀ a ∈ d.advice, a.Writable (Json.maxNesting - 2)) :
    Json.readFields? fieldNames d.text
      = some [some (.string d.verdict.word), d.resource, listField d.obligations,
          listField d.advice] := by
  have hkeys := keys_members_sublist d
  have hwritable : ∀ m ∈ d.members, m.2.Writable (Json.maxNesting - 1) := by
    refine List.forall_mem_cons.2 ⟨.string _, ?_⟩
    intro m hm
    rcases List.mem_append.1 hm with hm | hm
    · rcases List.mem_append.1 hm with hm | hm
      · obtain ⟨r, hr, rfl⟩ := Option.map_eq_some_iff.1 (Option.mem_toList.1 hm)
        exact hresource r hr
      · exact writable_listMember hobligations _ m hm
    · exact writable_listMember hadvice _ m hm
  rw [text, Json.readFields?_text (fun m hm => hkeys.subset (List.mem_map_of_mem hm))
    (hkeys.nodup (by decide)) hwritable, get?_members]

/-! ## The values of the fields -/

theorem choice?_word (v : Verdict) : (Json.string v.word).choice? verdicts = some v := by
  cases v <;> decide

theorem resource?_of_canonical? {r : Json} (h : r.canonical? = some r) :
    resource? r = some ((some r).filter (· ≠ .null)) := by
  cases r <;> simp [resource?, h, Option.filter]

/-- A document is read as the resource that it is if it is its own canonical document and not
`null`. -/
theorem resource?_eq_self_iff {r : Json} :
    resource? r = some (some r) ↔ r.canonical? = some r ∧ r ≠ .null := by
  cases r <;> simp [resource?]

theorem writable_of_resource? {n : Nat} {field resource : Option Json}
    (hfield : ∀ written ∈ field, written.Writable n)
    (h : Json.withDefault resource? none field = some resource) : ∀ r ∈ resource, r.Writable n := by
  rintro r rfl
  cases field with
  | none => cases h
  | some written =>
    change resource? written = some (some r) at h
    unfold resource? at h
    split at h
    · cases h
    · obtain ⟨c, hc, h⟩ := Option.map_eq_some_iff.1 h
      cases h
      exact (hfield written rfl).canonical? hc

theorem documents?_listField {items : List Json} :
    Json.withDefault documents? [] (listField items) = some items
      ↔ ∀ x ∈ items, x.canonical? = some x := by
  cases items with
  | nil => simp [listField, Json.withDefault]
  | cons x xs =>
    rw [← mapM_eq_self_iff, ← Json.canonicalItems?_eq_mapM]
    rfl

theorem writable_of_documents? {n : Nat} {field : Option Json} {items : List Json}
    (hfield : ∀ written ∈ field, written.Writable (n + 1))
    (h : Json.withDefault documents? [] field = some items) : ∀ x ∈ items, x.Writable n := by
  cases field with
  | none =>
    cases h
    rintro x ⟨⟩
  | some written =>
    obtain ⟨writtenItems, hitems, hkept⟩ := Option.bind_eq_some_iff.1 h
    have harray : written.canonical? = some (.array items) := by
      unfold Json.items? at hitems
      split at hitems
      · cases hitems
        rw [Json.canonical?, hkept]
        rfl
      · cases hitems
    cases (hfield written rfl).canonical? harray with
    | array hwritable => exact hwritable

/-! ## The decision that is read -/

/-- A legible decision is read as itself, but for the resource `null`, which is read as none. -/
theorem parse?_text {d : Decision} (h : d.Legible) :
    parse? d.text = some { d with resource := d.resource.filter (· ≠ .null) } := by
  have hfields := readFields?_text (fun r hr => (h.resource r hr).writable)
    (fun o ho => (h.obligations o ho).writable) (fun a ha => (h.advice a ha).writable)
  have hresource : Json.withDefault resource? none d.resource
      = some (d.resource.filter (· ≠ .null)) := by
    cases hr : d.resource with
    | none => rfl
    | some r => exact resource?_of_canonical? (h.resource r hr).canonical?_eq_self
  have hobligations := documents?_listField.2 fun o ho => (h.obligations o ho).canonical?_eq_self
  have hadvice := documents?_listField.2 fun a ha => (h.advice a ha).canonical?_eq_self
  simp only [parse?, hfields, Option.bind_eq_bind, Option.bind_some, choice?_word, hresource,
    hobligations, hadvice]
  rfl

/-- A decision that is read as itself is legible, and its resource is not `null`. -/
theorem legible_of_parse?_text {d : Decision} (h : parse? d.text = some d) :
    d.Legible ∧ d.resource ≠ some .null := by
  obtain ⟨fields, hfields, h⟩ := Option.bind_eq_some_iff.1 h
  have hwritten := Json.writable_of_readFields? hfields
  split at h
  · obtain ⟨_, -, h⟩ := Option.bind_eq_some_iff.1 h
    obtain ⟨resource, hresource, h⟩ := Option.bind_eq_some_iff.1 h
    obtain ⟨obligations, hobligations, h⟩ := Option.bind_eq_some_iff.1 h
    obtain ⟨advice, hadvice, h⟩ := Option.bind_eq_some_iff.1 h
    cases h
    simp only [List.forall_mem_cons] at hwritten
    obtain ⟨-, hwr, hwo, hwa, -⟩ := hwritten
    have hr := writable_of_resource? hwr hresource
    have ho := writable_of_documents? hwo hobligations
    have ha := writable_of_documents? hwa hadvice
    -- all that was read can be written, and so the fields are those that were written
    rw [readFields?_text hr ho ha] at hfields
    cases hfields
    have hself : ∀ r ∈ resource, r.canonical? = some r ∧ r ≠ .null := by
      rintro r rfl
      exact resource?_eq_self_iff.1 hresource
    have hos := documents?_listField.1 hobligations
    have has := documents?_listField.1 hadvice
    exact ⟨⟨fun r h => (hr r h).legible (hself r h).1, fun o h => (ho o h).legible (hos o h),
      fun a h => (ha a h).legible (has a h)⟩, fun hnull => (hself .null hnull).2 rfl⟩
  · cases h

/-- **A decision that is sent as a text** and read again is the same except where its resource is
`null`, which is read as none; it is the same just if it is legible and its resource is not
`null`. -/
theorem read_back (d : Decision) :
    (d.Legible → parse? d.text = some { d with resource := d.resource.filter (· ≠ .null) })
      ∧ (parse? d.text = some d ↔ d.Legible ∧ d.resource ≠ some .null) := by
  refine ⟨parse?_text, legible_of_parse?_text, fun h => ?_⟩
  obtain ⟨hlegible, hnull⟩ := h
  have hkept : d.resource.filter (· ≠ .null) = d.resource := by
    cases hr : d.resource with
    | none => rfl
    | some r => exact Option.filter_some_pos (decide_eq_true fun h => hnull (hr.trans (h ▸ rfl)))
  rw [parse?_text hlegible, hkept]

/-- A permit with a masked resource and the obligation `null` comes back. -/
theorem read_back_masked :
    Legible ⟨.permit, some (.string "masked"), [.null], []⟩
      ∧ parse? (text ⟨.permit, some (.string "masked"), [.null], []⟩)
        = some ⟨.permit, some (.string "masked"), [.null], []⟩ := by
  have hlegible : Legible ⟨.permit, some (.string "masked"), [.null], []⟩ := by
    refine ⟨?_, List.forall_mem_singleton.2 ⟨.null, .null, .null⟩, List.forall_mem_nil _⟩
    rintro r ⟨⟩
    exact ⟨.string _, .string _, .string _⟩
  exact ⟨hlegible, (read_back _).1 hlegible⟩

/-- A resource that is to be replaced by `null` comes back as one that is to be left alone. -/
theorem null_resource_is_lost :
    parse? (text ⟨.permit, some .null, [], []⟩) = some ⟨.permit, none, [], []⟩
      ∧ parse? (text ⟨.permit, some .null, [], []⟩) ≠ some ⟨.permit, some .null, [], []⟩ := by
  have hlegible : Legible ⟨.permit, some .null, [], []⟩ := by
    refine ⟨?_, List.forall_mem_nil _, List.forall_mem_nil _⟩
    rintro r ⟨⟩
    exact ⟨.null, .null, .null⟩
  have hread := parse?_text hlegible
  refine ⟨hread, fun hself => ?_⟩
  cases hread.symm.trans hself

end AccessPolicy.Decision
