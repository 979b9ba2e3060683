import AccessPolicy.Proofs.Index.Lookup
import AccessPolicy.Retrieval.Point
import Mathlib.Data.List.DropRight

/-!
# The last update wins

A retrieval point keeps what it knows of the store in three places: an index of the documents, a
table of those that were refused, and a mark. What it holds after any batches and resets is read
off the updates since the last reset alone. Each name goes by the last update of that name, which
has left either a document in the index, or a reason in the table, or neither.
-/

namespace AccessPolicy

namespace Update

/-- The name of the document that an update is about. -/
def name? : Update → Option String
  | publish (.valid d) => some d.name
  | publish (.invalid name _) => some name
  | unpublish name => some name
  | markInconsistent => none

/-- The document that an update stores. -/
def accepted? : Update → Option Document
  | publish (.valid d) =>
    match d.validate with
    | .ok () => some d
    | .error _ => none
  | _ => none

/-- The reason that an update leaves in place of a document. -/
def refused? : Update → Option String
  | publish (.valid d) =>
    match d.validate with
    | .ok () => none
    | .error refusal => some refusal.message
  | publish (.invalid _ reason) => some reason
  | _ => none

theorem accepted?_eq_some {u : Update} {d : Document} :
    u.accepted? = some d ↔ u = .publish (.valid d) ∧ d.validate = .ok () := by
  unfold accepted?
  split
  · next d' =>
    cases hv : d'.validate with
    | error refusal =>
      refine iff_of_false (by rintro ⟨⟩) ?_
      rintro ⟨⟨rfl⟩, hok⟩
      rw [hv] at hok
      cases hok
    | ok _ =>
      constructor
      · rintro ⟨rfl⟩
        exact ⟨rfl, hv⟩
      · rintro ⟨⟨rfl⟩, -⟩
        rfl
  · next hnot => exact iff_of_false (by rintro ⟨⟩) fun h => hnot d h.1

theorem refused?_eq_some {u : Update} {reason : String} :
    u.refused? = some reason ↔ (∃ name, u = .publish (.invalid name reason))
      ∨ ∃ d refusal, u = .publish (.valid d) ∧ d.validate = .error refusal
        ∧ refusal.message = reason := by
  unfold refused?
  split
  · next d => cases hv : d.validate <;> simp [hv]
  · next name reason' => simp
  · next hvalid hinvalid =>
    refine iff_of_false (by rintro ⟨⟩) ?_
    rintro (⟨name, rfl⟩ | ⟨d, refusal, rfl, -⟩)
    · exact hinvalid name reason rfl
    · exact hvalid d rfl

/-- An update leaves a document or a reason, not both. -/
theorem refused?_of_accepted? {u : Update} {d : Document} (h : u.accepted? = some d) :
    u.refused? = none := by
  obtain ⟨rfl, hok⟩ := accepted?_eq_some.1 h
  simp only [refused?, hok]

end Update

/-! ## One update -/

namespace Holdings

variable {h : Holdings}

/-- Holdings are sound if their index is, and if the refused documents are listed in the order of
their names. -/
structure Sound (h : Holdings) : Prop where
  index : h.index.Sound
  invalid : Dict.Sorted h.invalid

theorem sound_empty (c : Config) : (empty c).Sound :=
  ⟨Index.sound_empty c.index c.maxClauses, Dict.sorted_nil⟩

/-- **What an update can do**: store a document, refuse one, forget one, or set the mark. -/
theorem update_cases (h : Holdings) (u : Update) :
    (∃ d, u.name? = some d.name ∧ u.accepted? = some d ∧ u.refused? = none ∧ h.update u
        = { h with index := h.index.insert d, invalid := Dict.erase h.invalid d.name })
      ∨ (∃ name reason, u.name? = some name ∧ u.accepted? = none ∧ u.refused? = some reason
        ∧ h.update u = h.reject name reason)
      ∨ (∃ name, u.name? = some name ∧ u.accepted? = none ∧ u.refused? = none ∧ h.update u
        = { h with index := h.index.erase name, invalid := Dict.erase h.invalid name })
      ∨ u = .markInconsistent := by
  cases u with
  | publish parsed =>
    cases parsed with
    | valid d =>
      cases hv : d.validate with
      | ok _ =>
        exact .inl ⟨d, rfl, by simp only [Update.accepted?, hv], by simp only [Update.refused?, hv],
          by simp only [update, hv]⟩
      | error refusal =>
        exact .inr <| .inl ⟨d.name, refusal.message, rfl, by simp only [Update.accepted?, hv],
          by simp only [Update.refused?, hv], by simp only [update, hv]⟩
    | invalid name reason => exact .inr <| .inl ⟨name, reason, rfl, rfl, rfl, rfl⟩
  | unpublish name => exact .inr <| .inr <| .inl ⟨name, rfl, rfl, rfl, rfl⟩
  | markInconsistent => exact .inr <| .inr <| .inr rfl

theorem Sound.update (hs : h.Sound) (u : Update) : (h.update u).Sound := by
  obtain ⟨d, -, -, -, heq⟩ | ⟨name, reason, -, -, -, heq⟩ | ⟨name, -, -, -, heq⟩ | rfl :=
    h.update_cases u
  · exact heq ▸ ⟨hs.index.insert d, hs.invalid.erase d.name⟩
  · exact heq ▸ ⟨hs.index.erase name, hs.invalid.insert name reason⟩
  · exact heq ▸ ⟨hs.index.erase name, hs.invalid.erase name⟩
  · exact ⟨hs.index, hs.invalid⟩

/-- **An update in the index** is seen under its name alone, where it leaves the document that it
stores. -/
theorem Sound.get?_update (hs : h.Sound) (u : Update) (name : String) :
    (h.update u).index.get? name
      = if u.name? = some name then u.accepted? else h.index.get? name := by
  obtain ⟨d, hname, haccepted, -, heq⟩ | ⟨name', reason, hname, haccepted, -, heq⟩
    | ⟨name', hname, haccepted, -, heq⟩ | rfl := h.update_cases u
  · rw [heq, hname, haccepted, hs.index.get?_insert]
    simp only [Option.some_inj, eq_comm]
  · rw [heq, hname, haccepted, reject, Index.get?_erase]
    simp only [Option.some_inj, eq_comm]
  · rw [heq, hname, haccepted, Index.get?_erase]
    simp only [Option.some_inj, eq_comm]
  · rfl

/-- **An update in the table of refused documents** is seen under its name alone, where it leaves
the reason that it is refused for. -/
theorem get?_invalid_update (h : Holdings) (u : Update) (name : String) :
    Dict.get? (h.update u).invalid name
      = if u.name? = some name then u.refused? else Dict.get? h.invalid name := by
  obtain ⟨d, hname, -, hrefused, heq⟩ | ⟨name', reason, hname, -, hrefused, heq⟩
    | ⟨name', hname, -, hrefused, heq⟩ | rfl := h.update_cases u
  · rw [heq, hname, hrefused, Dict.get?_erase]
    simp only [Option.some_inj, eq_comm]
  · rw [heq, hname, hrefused, reject, Dict.get?_insert]
    simp only [Option.some_inj, eq_comm]
  · rw [heq, hname, hrefused, Dict.get?_erase]
    simp only [Option.some_inj, eq_comm]
  · rfl

/-- The mark is never taken back. -/
theorem marked_update (h : Holdings) (u : Update) :
    (h.update u).marked = true ↔ h.marked = true ∨ u = .markInconsistent := by
  obtain ⟨d, hname, -, -, heq⟩ | ⟨name, reason, hname, -, -, heq⟩ | ⟨name, hname, -, -, heq⟩
    | rfl := h.update_cases u
  · exact heq ▸ (or_iff_left (by rintro rfl; cases hname)).symm
  · exact heq ▸ (or_iff_left (by rintro rfl; cases hname)).symm
  · exact heq ▸ (or_iff_left (by rintro rfl; cases hname)).symm
  · exact iff_of_true rfl (.inr rfl)

/-! ## All updates -/

/-- The holdings after some updates, one after another. -/
def after (h : Holdings) (updates : List Update) : Holdings := updates.foldl update h

end Holdings

/-- The last update of a name. -/
def lastUpdate? (updates : List Update) (name : String) : Option Update :=
  updates.reverse.find? fun u => u.name? = some name

theorem lastUpdate?_concat (updates : List Update) (u : Update) (name : String) :
    lastUpdate? (updates ++ [u]) name
      = if u.name? = some name then some u else lastUpdate? updates name := by
  unfold lastUpdate?
  rw [List.reverse_concat, List.find?_cons]
  split <;> simp_all

/-- The last update of a name is an update of that name. -/
theorem name?_of_lastUpdate? {updates : List Update} {name : String} {u : Update}
    (h : lastUpdate? updates name = some u) : u.name? = some name :=
  of_decide_eq_true (List.find?_some (p := fun u : Update => decide (u.name? = some name)) h)

namespace Holdings

variable (c : Config) (updates : List Update)

theorem after_concat (h : Holdings) (u : Update) :
    h.after (updates ++ [u]) = (h.after updates).update u := List.foldl_concat ..

theorem sound_after : ((empty c).after updates).Sound := by
  induction updates using List.reverseRecOn with
  | nil => exact sound_empty c
  | append_singleton updates u ih =>
    rw [after_concat]
    exact ih.update u

/-- The document of a name is the one that the last update of the name stored. -/
theorem get?_after (name : String) :
    ((empty c).after updates).index.get? name
      = (lastUpdate? updates name).bind Update.accepted? := by
  induction updates using List.reverseRecOn with
  | nil => exact Index.get?_empty _ _ name
  | append_singleton updates u ih =>
    rw [after_concat, (sound_after c updates).get?_update, lastUpdate?_concat, ih]
    split <;> rfl

/-- The reason for a name is the one that the last update of the name left. -/
theorem get?_invalid_after (name : String) :
    Dict.get? ((empty c).after updates).invalid name
      = (lastUpdate? updates name).bind Update.refused? := by
  induction updates using List.reverseRecOn with
  | nil => rfl
  | append_singleton updates u ih =>
    rw [after_concat, get?_invalid_update, lastUpdate?_concat, ih]
    split <;> rfl

theorem marked_after :
    ((empty c).after updates).marked = true ↔ .markInconsistent ∈ updates := by
  induction updates using List.reverseRecOn with
  | nil => exact iff_of_false (by rintro ⟨⟩) (by rintro ⟨⟩)
  | append_singleton updates u ih =>
    rw [after_concat, marked_update, ih, List.mem_append, List.mem_singleton, eq_comm (a := u)]

/-- A document is stored if it is what the last update of its name published, with targets that
are allowed. -/
theorem stored_iff (d : Document) :
    d ∈ ((empty c).after updates).index.documents
      ↔ lastUpdate? updates d.name = some (.publish (.valid d)) ∧ d.validate = .ok () := by
  rw [(sound_after c updates).index.mem_documents, get?_after, Option.bind_eq_some_iff]
  constructor
  · rintro ⟨u, hu, haccepted⟩
    obtain ⟨rfl, hok⟩ := Update.accepted?_eq_some.1 haccepted
    exact ⟨hu, hok⟩
  · rintro ⟨hu, hok⟩
    exact ⟨_, hu, Update.accepted?_eq_some.2 ⟨rfl, hok⟩⟩

/-- A name is refused if the last update of it published what could not be read, or a document with
a target that is not allowed. -/
theorem refused_iff (name reason : String) :
    Dict.get? ((empty c).after updates).invalid name = some reason
      ↔ lastUpdate? updates name = some (.publish (.invalid name reason))
        ∨ ∃ d refusal, lastUpdate? updates name = some (.publish (.valid d))
          ∧ d.validate = .error refusal ∧ refusal.message = reason := by
  rw [get?_invalid_after, Option.bind_eq_some_iff]
  constructor
  · rintro ⟨u, hu, hreason⟩
    obtain ⟨name', rfl⟩ | ⟨d, refusal, rfl, hrefusal⟩ := Update.refused?_eq_some.1 hreason
    · obtain rfl := Option.some.inj (name?_of_lastUpdate? hu)
      exact .inl hu
    · exact .inr ⟨d, refusal, hu, hrefusal⟩
  · rintro (hu | ⟨d, refusal, hu, hrefusal⟩)
    · exact ⟨_, hu, rfl⟩
    · exact ⟨_, hu, Update.refused?_eq_some.2 (.inr ⟨d, refusal, rfl, hrefusal⟩)⟩

/-- The name of a document that is stored is not refused. -/
theorem refused_of_stored (d : Document) (hd : d ∈ ((empty c).after updates).index.documents) :
    Dict.hasKey ((empty c).after updates).invalid d.name = false := by
  have hd' := (sound_after c updates).index.mem_documents.1 hd
  rw [get?_after] at hd'
  obtain ⟨u, hu, haccepted⟩ := Option.bind_eq_some_iff.1 hd'
  rw [Dict.hasKey, get?_invalid_after, hu, Option.bind_some, Update.refused?_of_accepted? haccepted]
  rfl

end Holdings

/-! ## Batches and resets -/

/-- What can be asked of a retrieval point that changes what it holds. -/
inductive Command where
  | apply (batch : List Update)
  | reset

/-- The updates of a command. -/
def Command.updates : Command → List Update
  | apply batch => batch
  | reset => []

/-- The updates since the last reset, of all batches. -/
def recent (commands : List Command) : List Update :=
  (commands.rtakeWhile (· matches .apply _)).flatMap Command.updates

namespace RetrievalPoint

/-- The retrieval point after a command. -/
def perform (p : RetrievalPoint) : Command → RetrievalPoint
  | .apply batch => (p.apply batch).2
  | .reset => p.reset

/-- The retrieval point after some commands, one after another. -/
def after (p : RetrievalPoint) (commands : List Command) : RetrievalPoint :=
  commands.foldl perform p

/-- A retrieval point holds what the updates since the last reset have left, whatever batches they
came in. -/
theorem holdings_after (c : Config) (commands : List Command) :
    ((new c).after commands).config = c
      ∧ ((new c).after commands).holdings = (Holdings.empty c).after (recent commands) := by
  induction commands using List.reverseRecOn with
  | nil => exact ⟨rfl, rfl⟩
  | append_singleton commands command ih =>
    obtain ⟨hconfig, hholdings⟩ := ih
    rw [after, List.foldl_concat, recent, List.rtakeWhile_concat]
    cases command with
    | apply batch =>
      refine ⟨hconfig, ?_⟩
      rw [if_pos rfl, List.flatMap_append, List.flatMap_singleton, Holdings.after,
        List.foldl_append]
      exact congrArg (batch.foldl Holdings.update) hholdings
    | reset => exact ⟨hconfig, congrArg Holdings.empty hconfig⟩

/-- **A retrieval point reflects** some updates. -/
structure Reflects (p : RetrievalPoint) (updates : List Update) : Prop where
  /-- It holds what the updates leave if they are made one by one, in however many batches they
  came. -/
  holdings : p.holdings = (Holdings.empty p.config).after updates
  /-- A document is available if it is what the last update of its name published and all its
  targets are allowed. -/
  available : ∀ d, d ∈ p.documents
    ↔ lastUpdate? updates d.name = some (.publish (.valid d)) ∧ d.validate = .ok ()
  /-- The documents are in the order of their names. -/
  ascending : p.documents.Pairwise fun d d' => KeyOrder.before d.name d'.name = true
  /-- A name is refused if the last update of it published something that could not be read, with
  the reason of the update, or a document with a target that is not allowed, with the reason
  that says so. -/
  refused : ∀ name reason, Dict.get? p.holdings.invalid name = some reason
    ↔ lastUpdate? updates name = some (.publish (.invalid name reason))
      ∨ ∃ d refusal, lastUpdate? updates name = some (.publish (.valid d))
        ∧ d.validate = .error refusal ∧ refusal.message = reason
  /-- The names refused are in order. -/
  sorted : Dict.Sorted p.holdings.invalid
  /-- No name is both available and refused. -/
  apart : ∀ d ∈ p.documents, Dict.hasKey p.holdings.invalid d.name = false
  /-- It is inconsistent if the store has said so or a name is refused. -/
  inconsistent : p.standing = .inconsistent
    ↔ .markInconsistent ∈ updates ∨ p.holdings.invalid ≠ []
  /-- Otherwise it is empty if there are no documents, -/
  empty : p.standing = .empty ↔ p.standing ≠ .inconsistent ∧ p.documents = []
  /-- and consistent if there are. -/
  consistent : p.standing = .consistent ↔ p.standing ≠ .inconsistent ∧ p.documents ≠ []
  /-- Applying a batch returns the standing that the batch leaves, -/
  returned : ∀ batch, (p.apply batch).1 = (p.apply batch).2.standing
  /-- and it makes no difference where one batch ends and the next one begins. -/
  joined : ∀ batch batch', ((p.apply batch).2.apply batch').1 = (p.apply (batch ++ batch')).1
  /-- While it is inconsistent nothing is retrieved, the result is invalid, and no predicate is
  evaluated for it. -/
  closed : p.standing = .inconsistent → ∀ ctx elapsed,
    (p.retrieve ctx elapsed).1.found.documents = []
      ∧ (p.retrieve ctx elapsed).1.found.valid = false
      ∧ (p.retrieve ctx elapsed).1.evaluations = 0 ∧ (p.retrieve ctx elapsed).1.log = []

/-- The standing, read off what is held. -/
theorem standing_iff (p : RetrievalPoint) :
    (p.standing = .inconsistent ↔ p.holdings.marked = true ∨ p.holdings.invalid ≠ [])
      ∧ (p.standing = .empty ↔ p.standing ≠ .inconsistent ∧ p.documents = [])
      ∧ (p.standing = .consistent ↔ p.standing ≠ .inconsistent ∧ p.documents ≠ []) := by
  have hsize : p.holdings.index.size = 0 ↔ p.documents = [] := List.length_eq_zero_iff
  have hclosed : (p.holdings.marked || !p.holdings.invalid.isEmpty) = true
      ↔ p.holdings.marked = true ∨ p.holdings.invalid ≠ [] := by
    rw [Bool.or_eq_true, Bool.not_eq_true', ← Bool.not_eq_true, List.isEmpty_iff]
  unfold standing Holdings.standing
  rw [← hclosed, ← hsize]
  split
  · next h => simp [h]
  · next h => split <;> simp_all

/-- The standing that is returned after two batches is the one after both at once. -/
theorem apply_append (p : RetrievalPoint) (batch batch' : List Update) :
    ((p.apply batch).2.apply batch').1 = (p.apply (batch ++ batch')).1 := by
  simp only [apply, List.foldl_append]

theorem find_of_inconsistent {p : RetrievalPoint} (h : p.standing = .inconsistent) (ctx : Context) :
    p.find ctx = Retrieval.invalid := by
  rw [find, h]

/-- **The last update wins**: after any batches and resets, a retrieval point reflects the updates
since the last reset. -/
theorem last_update_wins (c : Config) (commands : List Command) :
    ((new c).after commands).Reflects (recent commands) := by
  obtain ⟨hconfig, hholdings⟩ := holdings_after c commands
  have hsound := Holdings.sound_after c (recent commands)
  have hstored := Holdings.stored_iff c (recent commands)
  have hrefused := Holdings.refused_iff c (recent commands)
  have hmarked := Holdings.marked_after c (recent commands)
  have hapart := Holdings.refused_of_stored c (recent commands)
  rw [← hholdings] at hsound hstored hrefused hmarked hapart
  obtain ⟨hinconsistent, hempty, hconsistent⟩ := standing_iff ((new c).after commands)
  refine ⟨by rw [hholdings, hconfig], hstored, hsound.index.ascending, hrefused, hsound.invalid,
    hapart, by rw [hinconsistent, hmarked], hempty, hconsistent, fun batch => rfl,
    fun batch batch' => apply_append _ batch batch', fun h ctx elapsed => ?_⟩
  show (find _ ctx).found.documents = [] ∧ (find _ ctx).found.valid = false
    ∧ (find _ ctx).evaluations = 0 ∧ (find _ ctx).log = []
  rw [find_of_inconsistent h]
  exact ⟨rfl, rfl, rfl, rfl⟩

end RetrievalPoint

end AccessPolicy
