import AccessPolicy.Proofs.Json.Numeral
import AccessPolicy.Proofs.Json.Strings

/-!
# Containers are read as they are joined

Arrays, objects and records are all read by the same reader of lists, each with its own reader of
items. What is said here of lists is said of any such reader: if each item is read back from its
text, so is the list from the joined texts; and whatever the text, what holds of each item that is
read holds of the items of each list that is read.
-/

namespace AccessPolicy.Json

open Numeral (Stops)

/-! ## Blanks -/

/-- **A text starts an item** if there is something in it, and what comes first is neither blank
nor the end of a container. -/
def StartsItem (cs : List Char) : Prop :=
  ∃ c rest, cs = c :: rest ∧ c ∉ [' ', '\t', '\n', '\r', ']', '\x7d']

theorem skipBlanks_cons {c : Char} (h : c ∉ [' ', '\t', '\n', '\r', ']', '\x7d'])
    (rest : List Char) : skipBlanks (c :: rest) = c :: rest := by
  simp only [List.mem_cons, not_or] at h
  rw [skipBlanks, if_neg (by simp [h])]

theorem StartsItem.append {cs : List Char} (h : StartsItem cs) (rest : List Char) :
    StartsItem (cs ++ rest) := by
  obtain ⟨c, cs, rfl, hc⟩ := h
  exact ⟨c, cs ++ rest, rfl, hc⟩

/-- A character closes a container. -/
def Closes (close : Char) : Prop := close = ']' ∨ close = '\x7d'

theorem Closes.stops {close : Char} (h : Closes close) (rest : List Char) :
    Stops (close :: rest) := by
  intro c hc
  obtain rfl : close = c := Option.some.inj hc
  rcases h with rfl | rfl <;> decide

theorem stops_comma (rest : List Char) : Stops (',' :: rest) := by
  intro c hc
  obtain rfl : ',' = c := Option.some.inj hc
  decide

theorem Closes.skipBlanks {close : Char} (h : Closes close) (rest : List Char) :
    skipBlanks (close :: rest) = close :: rest := by
  rcases h with rfl | rfl <;> rfl

theorem Closes.ne_comma {close : Char} (h : Closes close) : close ≠ ',' := by
  rcases h with rfl | rfl <;> decide

/-! ## Lists -/

section Lists

variable {α β : Type} {item : List Char → Option (α × List Char)} {close : Char}

theorem readList?_last (hclose : Closes close) {cs rest : List Char} {x : α} (bound : Nat)
    (h : item cs = some (x, close :: rest)) :
    readList? item close (bound + 1) cs = some ([x], rest) := by
  simp [readList?, h, hclose.skipBlanks]

theorem readList?_comma (hclose : Closes close) {cs rest : List Char} {x : α} (bound : Nat)
    (h : item cs = some (x, ',' :: rest)) :
    readList? item close (bound + 1) cs
      = (readList? item close bound rest).map fun read => (x :: read.1, read.2) := by
  have hcomma : skipBlanks (',' :: rest) = ',' :: rest := rfl
  cases hread : readList? item close bound rest <;>
    simp [readList?, h, hcomma, hclose.ne_comma.symm, hread]

/-- The parts of a joined text are at most as many as its characters and one more. -/
theorem length_le_length_intercalate (parts : List (List Char)) :
    parts.length ≤ ([','].intercalate parts).length + 1 := by
  induction parts with
  | nil => exact Nat.zero_le _
  | cons part parts ih =>
    cases parts with
    | nil => exact Nat.le_add_left 1 _
    | cons next parts =>
      rw [List.intercalate_cons_cons, List.length_append, List.length_append, List.length_cons]
      simp only [List.length_cons, List.length_nil] at ih ⊢
      omega

variable {chars : β → List Char} {value : β → α}

theorem readList?_join (hclose : Closes close) {xs : List β} (hne : xs ≠ [])
    (hitem : ∀ x ∈ xs, ∀ rest, Stops rest → item (chars x ++ rest) = some (value x, rest))
    (rest : List Char) {bound : Nat} (hbound : xs.length ≤ bound) :
    readList? item close bound ([','].intercalate (xs.map chars) ++ close :: rest)
      = some (xs.map value, rest) := by
  induction xs generalizing bound with
  | nil => exact absurd rfl hne
  | cons x xs ih =>
    obtain ⟨bound, rfl⟩ : ∃ b, bound = b + 1 :=
      Nat.exists_eq_add_one_of_ne_zero (Nat.ne_of_gt (Nat.lt_of_lt_of_le (Nat.succ_pos _) hbound))
    obtain ⟨hx, hxs⟩ := List.forall_mem_cons.1 hitem
    cases xs with
    | nil =>
      rw [List.map_cons, List.map_nil, List.intercalate_singleton]
      exact readList?_last hclose bound (hx _ (hclose.stops rest))
    | cons y ys =>
      rw [List.map_cons, List.map_cons, List.intercalate_cons_cons, List.append_assoc,
        List.append_assoc]
      refine (readList?_comma hclose bound (hx _ (stops_comma _))).trans ?_
      show ((readList? item close bound
        ([','].intercalate ((y :: ys).map chars) ++ close :: rest)).map _) = _
      rw [ih (List.cons_ne_nil _ _) hxs (Nat.le_of_succ_le_succ hbound)]
      rfl

theorem startsItem_intercalate {part : List Char} (h : StartsItem part) (parts : List (List Char)) :
    StartsItem ([','].intercalate (part :: parts)) := by
  cases parts with
  | nil => rwa [List.intercalate_singleton]
  | cons next parts =>
    rw [List.intercalate_cons_cons]
    exact (h.append _).append _

/-- **A list is read back** from the joined texts of its items if they are. -/
theorem readItems?_join (hclose : Closes close) {xs : List β}
    (hstarts : ∀ x ∈ xs, StartsItem (chars x))
    (hitem : ∀ x ∈ xs, ∀ rest, Stops rest → item (chars x ++ rest) = some (value x, rest))
    (rest : List Char) :
    readItems? item close ([','].intercalate (xs.map chars) ++ close :: rest)
      = some (xs.map value, rest) := by
  cases xs with
  | nil => simp [readItems?, hclose.skipBlanks]
  | cons x xs =>
    have hbound : (x :: xs).length
        ≤ ([','].intercalate ((x :: xs).map chars) ++ close :: rest).length := by
      have hparts := length_le_length_intercalate ((x :: xs).map chars)
      simp only [List.length_map, List.length_append, List.length_cons] at hparts ⊢
      omega
    have hread := readList?_join hclose (List.cons_ne_nil x xs) hitem rest hbound
    obtain ⟨c, cs, hcs, hc⟩ :=
      (startsItem_intercalate (hstarts x List.mem_cons_self) (xs.map chars)).append (close :: rest)
    rw [← List.map_cons] at hcs
    have hopen : c ≠ close := by
      rintro rfl
      rcases hclose with rfl | rfl <;> exact hc (by decide)
    rw [hcs] at hread ⊢
    rw [readItems?, skipBlanks_cons hc]
    exact (if_neg hopen).trans hread

/-- **What holds of each item that is read** holds of the items of each list that is read. -/
theorem forall_of_readList? {P : α → Prop}
    (hitem : ∀ {cs x rest}, item cs = some (x, rest) → P x) {bound : Nat} {cs : List Char}
    {xs : List α} {rest : List Char} (h : readList? item close bound cs = some (xs, rest)) :
    ∀ x ∈ xs, P x := by
  induction bound generalizing cs xs rest with
  | zero => cases h
  | succ bound ih =>
    rw [readList?] at h
    obtain ⟨⟨first, rest'⟩, hfirst, h⟩ := Option.bind_eq_some_iff.1 h
    dsimp only at h
    split at h
    · split at h
      · cases h
        exact List.forall_mem_singleton.2 (hitem hfirst)
      · split at h
        · obtain ⟨⟨items, rest''⟩, hrest, h⟩ := Option.bind_eq_some_iff.1 h
          cases h
          exact List.forall_mem_cons.2 ⟨hitem hfirst, ih hrest⟩
        · cases h
    · cases h

theorem forall_of_readItems? {P : α → Prop}
    (hitem : ∀ {cs x rest}, item cs = some (x, rest) → P x) {cs : List Char} {xs : List α}
    {rest : List Char} (h : readItems? item close cs = some (xs, rest)) : ∀ x ∈ xs, P x := by
  unfold readItems? at h
  split at h
  · split at h
    · cases h
      exact List.forall_mem_nil P
    · exact forall_of_readList? hitem h
  · cases h

end Lists

/-! ## Members -/

section Members

variable {α : Type} {read : String → List Char → Option (α × List Char)}

theorem readMember?_quote (key : String) (cs : List Char) :
    readMember? read ((quote key).toList ++ ':' :: cs)
      = (read key cs).map fun found => ((key, found.1), found.2) := by
  have hcolon : skipBlanks (':' :: cs) = ':' :: cs := rfl
  have hquote : skipBlanks ('"' :: (key.toList.flatMap escape ++ '"' :: ':' :: cs))
    = '"' :: (key.toList.flatMap escape ++ '"' :: ':' :: cs) := rfl
  rw [toList_quote, List.cons_append, List.append_assoc]
  show readMember? read ('"' :: (key.toList.flatMap escape ++ '"' :: ':' :: cs)) = _
  cases hread : read key cs <;>
    simp [readMember?, hquote, readString?_escaped, hcolon, hread]

theorem of_readMember? {P : α → Prop}
    (hread : ∀ {key cs x rest}, read key cs = some (x, rest) → P x) {cs : List Char}
    {m : String × α} {rest : List Char} (h : readMember? read cs = some (m, rest)) : P m.2 := by
  unfold readMember? at h
  split at h
  · obtain ⟨⟨key, rest'⟩, -, h⟩ := Option.bind_eq_some_iff.1 h
    dsimp only at h
    split at h
    · obtain ⟨⟨found, rest''⟩, hfound, h⟩ := Option.bind_eq_some_iff.1 h
      cases h
      exact hread hfound
    · cases h
  · cases h

end Members

end AccessPolicy.Json
