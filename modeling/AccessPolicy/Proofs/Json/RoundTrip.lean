import AccessPolicy.Proofs.Json.Canonical
import AccessPolicy.Proofs.Json.Containers
import AccessPolicy.Proofs.Lists

/-!
# Documents are read as they are printed

A document is **writable** in some number of containers if its numbers can be spelled and it nests
no deeper. These are the documents that can be read at all, and each of them is read back from its
text, whatever follows that does not go on with a number.

What is read is then made canonical. This leaves a document alone just if it lists the members of
its objects in order and none of its objects would be taken for a number. A document is **legible**
if it is writable and has these two properties as well, and the legible documents are exactly those
that come back from their texts.
-/

namespace AccessPolicy.Json

open Numeral (Stops)

/-- **A document is writable** within some number of containers. -/
inductive Writable : Nat → Json → Prop where
  | null {n : Nat} : Writable n null
  | bool {n : Nat} (b : Bool) : Writable n (bool b)
  | number {n : Nat} {numeral : Numeral} : numeral.Spelled → Writable n (number numeral)
  | string {n : Nat} (s : String) : Writable n (string s)
  | array {n : Nat} {items : List Json} : (∀ x ∈ items, Writable n x) →
      Writable (n + 1) (array items)
  | object {n : Nat} {members : List (String × Json)} : (∀ m ∈ members, Writable n m.2) →
      Writable (n + 1) (object members)

/-! ## The characters of a document -/

/-- The characters of a member of an object. -/
def memberChars (m : String × Json) : List Char := (quote m.1).toList ++ ':' :: m.2.text.toList

theorem itemTexts_eq_map (items : List Json) : itemTexts items = items.map text := by
  induction items with
  | nil => rfl
  | cons item items ih => rw [itemTexts, ih, List.map_cons]

theorem toList_memberTexts (members : List (String × Json)) :
    (memberTexts members).map String.toList = members.map memberChars := by
  induction members with
  | nil => rfl
  | cons m members ih =>
    rw [memberTexts, List.map_cons, List.map_cons, ih]
    simp [memberChars]

theorem toList_text_array (items : List Json) :
    (array items).text.toList
      = '[' :: ([','].intercalate (items.map fun x => x.text.toList) ++ [']']) := by
  simp [text, itemTexts_eq_map, String.toList_intercalate, Function.comp_def]

theorem toList_text_object (members : List (String × Json)) :
    (object members).text.toList
      = '\x7b' :: ([','].intercalate (members.map memberChars) ++ ['\x7d']) := by
  simp [text, String.toList_intercalate, toList_memberTexts]

/-- Numbers start with none of the characters that other documents or blanks start with. -/
theorem numeral_start {c : Char} (h : c = '-' ∨ ∃ d : Digit, c = d.char) :
    c ∉ ['n', 't', 'f', '"', '[', '\x7b', ' ', '\t', '\n', '\r', ']', '\x7d'] := by
  rcases h with rfl | ⟨d, rfl⟩
  · decide
  · revert d
    decide

theorem startsItem_text (j : Json) : StartsItem j.text.toList := by
  cases j with
  | null => exact ⟨'n', _, rfl, by decide⟩
  | bool b => cases b <;> exact ⟨_, _, rfl, by decide⟩
  | number numeral =>
    obtain ⟨c, cs, hcs, hc⟩ := numeral.text_eq_cons
    exact ⟨c, cs, hcs, fun hmem => numeral_start hc (List.mem_of_mem_drop (i := 6) hmem)⟩
  | string s => exact ⟨'"', _, toList_quote s, by decide⟩
  | array items => exact ⟨'[', _, toList_text_array items, by decide⟩
  | object members => exact ⟨'\x7b', _, toList_text_object members, by decide⟩

theorem startsItem_memberChars (m : String × Json) : StartsItem (memberChars m) :=
  ⟨'"', _, by rw [memberChars, toList_quote, List.cons_append], by decide⟩

/-! ## What is printed is read back -/

theorem readValue?_scalar {n : Nat} {c : Char}
    (h : c ∉ ['[', '\x7b', ' ', '\t', '\n', '\r', ']', '\x7d']) (cs : List Char) :
    readValue? n (c :: cs) = readScalar? (c :: cs) := by
  have hblanks := skipBlanks_cons (fun hmem => h (List.mem_of_mem_drop (i := 2) hmem)) cs
  cases n with
  | zero => rw [readValue?, hblanks]
  | succ n =>
    rw [readValue?, hblanks]
    split
    · next heq => cases heq; exact absurd List.mem_cons_self h
    · next heq => cases heq; exact absurd (.tail _ List.mem_cons_self) h
    · rfl

theorem readScalar?_numeral {c : Char} (h : c = '-' ∨ ∃ d : Digit, c = d.char) (cs : List Char) :
    readScalar? (c :: cs) = (Numeral.read? (c :: cs)).map fun read => (number read.1, read.2) := by
  have hstart := numeral_start h
  unfold readScalar?
  split
  · next heq => cases heq; exact absurd (by decide) hstart
  · next heq => cases heq; exact absurd (by decide) hstart
  · next heq => cases heq; exact absurd (by decide) hstart
  · next heq => cases heq; exact absurd (by decide) hstart
  · rfl

theorem readValue?_array {n : Nat} {items : List Json}
    (h : ∀ x ∈ items, ∀ rest, Stops rest → readValue? n (x.text.toList ++ rest) = some (x, rest))
    (rest : List Char) :
    readValue? (n + 1) ((array items).text.toList ++ rest) = some (array items, rest) := by
  have hitems := readItems?_join (.inl rfl) (fun x _ => startsItem_text x) h rest
  rw [toList_text_array, List.cons_append, List.append_assoc]
  show (readItems? (readValue? n) ']'
    ([','].intercalate (items.map fun x => x.text.toList) ++ ']' :: rest)).map _ = _
  rw [hitems, List.map_id']
  rfl

theorem readMember?_memberChars {n : Nat} {m : String × Json} {rest : List Char}
    (h : readValue? n (m.2.text.toList ++ rest) = some (m.2, rest)) :
    readMember? (fun _ => readValue? n) (memberChars m ++ rest) = some (m, rest) := by
  rw [memberChars, List.append_assoc, List.cons_append, readMember?_quote, h]
  rfl

theorem readValue?_object {n : Nat} {members : List (String × Json)}
    (h : ∀ m ∈ members, ∀ rest, Stops rest →
      readValue? n (m.2.text.toList ++ rest) = some (m.2, rest)) (rest : List Char) :
    readValue? (n + 1) ((object members).text.toList ++ rest) = some (object members, rest) := by
  have hitems := readItems?_join (.inr rfl) (fun m _ => startsItem_memberChars m)
    (fun m hm rest hrest => readMember?_memberChars (h m hm rest hrest)) rest
  rw [toList_text_object, List.cons_append, List.append_assoc]
  show (readItems? (readMember? fun _ => readValue? n) '\x7d'
    ([','].intercalate (members.map memberChars) ++ '\x7d' :: rest)).map _ = _
  rw [hitems, List.map_id']
  rfl

/-- **A document is read back** from its text. -/
theorem readValue?_text {n : Nat} {j : Json} (h : j.Writable n) {rest : List Char}
    (hrest : Stops rest) : readValue? n (j.text.toList ++ rest) = some (j, rest) := by
  induction h generalizing rest with
  | null =>
    show readValue? _ ('n' :: 'u' :: 'l' :: 'l' :: rest) = _
    rw [readValue?_scalar (by decide)]
    rfl
  | bool b =>
    cases b with
    | false =>
      show readValue? _ ('f' :: 'a' :: 'l' :: 's' :: 'e' :: rest) = _
      rw [readValue?_scalar (by decide)]
      rfl
    | true =>
      show readValue? _ ('t' :: 'r' :: 'u' :: 'e' :: rest) = _
      rw [readValue?_scalar (by decide)]
      rfl
  | @number n numeral hspelled =>
    obtain ⟨c, cs, hcs, hc⟩ := numeral.text_eq_cons
    have hread := Numeral.read?_text hspelled hrest
    show readValue? _ (numeral.text.toList ++ rest) = _
    rw [hcs] at hread ⊢
    rw [List.cons_append] at hread ⊢
    rw [readValue?_scalar fun hmem => numeral_start hc (List.mem_of_mem_drop (i := 4) hmem),
      readScalar?_numeral hc, hread]
    rfl
  | string s =>
    show readValue? _ ((quote s).toList ++ rest) = _
    rw [toList_quote, List.cons_append, List.append_assoc, readValue?_scalar (by decide)]
    show (readString? (s.toList.flatMap escape ++ '"' :: rest)).map _ = _
    rw [readString?_escaped]
    rfl
  | array _ ih => exact readValue?_array (fun x hx rest hrest => ih x hx hrest) rest
  | object _ ih => exact readValue?_object (fun m hm rest hrest => ih m hm hrest) rest

/-! ## What is read is writable -/

theorem writable_of_readScalar? {n : Nat} {cs rest : List Char} {j : Json}
    (h : readScalar? cs = some (j, rest)) : j.Writable n := by
  unfold readScalar? at h
  split at h
  · obtain ⟨_, -, h⟩ := Option.map_eq_some_iff.1 h
    cases h
    exact .null
  · obtain ⟨_, -, h⟩ := Option.map_eq_some_iff.1 h
    cases h
    exact .bool true
  · obtain ⟨_, -, h⟩ := Option.map_eq_some_iff.1 h
    cases h
    exact .bool false
  · obtain ⟨⟨s, _⟩, -, h⟩ := Option.map_eq_some_iff.1 h
    cases h
    exact .string s
  · obtain ⟨⟨numeral, _⟩, hread, h⟩ := Option.map_eq_some_iff.1 h
    cases h
    exact .number (Numeral.spelled_of_read? hread)

theorem writable_of_readValue? {n : Nat} {cs rest : List Char} {j : Json}
    (h : readValue? n cs = some (j, rest)) : j.Writable n := by
  induction n generalizing cs j rest with
  | zero => exact writable_of_readScalar? h
  | succ n ih =>
    rw [readValue?] at h
    split at h
    · obtain ⟨⟨items, _⟩, hitems, h⟩ := Option.map_eq_some_iff.1 h
      cases h
      exact .array (forall_of_readItems? ih hitems)
    · obtain ⟨⟨members, _⟩, hmembers, h⟩ := Option.map_eq_some_iff.1 h
      cases h
      exact .object (forall_of_readItems? (of_readMember? ih) hmembers)
    · exact writable_of_readScalar? h

theorem canonicalItems?_eq_mapM (items : List Json) :
    canonicalItems? items = items.mapM canonical? := by
  induction items with
  | nil => rfl
  | cons item items ih => rw [canonicalItems?, ih, List.mapM_cons]

/-- A member is kept for one that was written, or was there before. -/
theorem mem_of_canonicalMembers? {members : List (String × Json)} {kept all : Dict String Json}
    (h : canonicalMembers? members kept = some all) :
    ∀ m ∈ all, m ∈ kept ∨ ∃ written ∈ members, written.2.canonical? = some m.2 := by
  induction members generalizing kept with
  | nil =>
    cases h
    exact fun m hm => .inl hm
  | cons written members ih =>
    obtain ⟨key, value⟩ := written
    rw [canonicalMembers?] at h
    obtain ⟨c, hc, h⟩ := Option.bind_eq_some_iff.1 h
    intro m hm
    rcases ih h m hm with hkept | ⟨written, hwritten, hvalue⟩
    · rcases Dict.mem_insert hkept with rfl | hkept
      · exact .inr ⟨(key, value), List.mem_cons_self, hc⟩
      · exact .inl hkept
    · exact .inr ⟨written, List.mem_cons_of_mem _ hwritten, hvalue⟩

/-- The canonical document of one that is writable is so as well. -/
theorem Writable.canonical? {n : Nat} {j c : Json} (h : j.Writable n)
    (hc : j.canonical? = some c) : c.Writable n := by
  induction h generalizing c with
  | null => cases hc; exact .null
  | bool b => cases hc; exact .bool b
  | number hspelled => cases hc; exact .number hspelled
  | string s => cases hc; exact .string s
  | array _ ih =>
    obtain ⟨kept, hkept, rfl⟩ := Option.map_eq_some_iff.1 hc
    rw [canonicalItems?_eq_mapM, mapM_eq_some_iff] at hkept
    refine .array fun x hx => ?_
    obtain ⟨item, hitem, hx⟩ := forall₂_mem_left hkept.flip hx
    exact ih item hitem hx
  | object _ ih =>
    rw [Json.canonical?] at hc
    split at hc
    · unfold numberForm? at hc
      split at hc
      · obtain ⟨numeral, hnumeral, rfl⟩ := Option.map_eq_some_iff.1 hc
        exact .number (Numeral.spelled_of_parse? hnumeral)
      · cases hc
    · obtain ⟨kept, hkept, rfl⟩ := Option.map_eq_some_iff.1 hc
      refine .object fun m hm => ?_
      rcases mem_of_canonicalMembers? hkept m hm with hnil | ⟨written, hwritten, hvalue⟩
      · cases hnil
      · exact ih written hwritten hvalue

/-! ## What a canonical document is read as -/

/-- **A document is plain** if no object in it starts with the key of a number. -/
inductive Plain : Json → Prop where
  | null : Plain null
  | bool (b : Bool) : Plain (bool b)
  | number (numeral : Numeral) : Plain (number numeral)
  | string (s : String) : Plain (string s)
  | array {items : List Json} : (∀ x ∈ items, x.Plain) → Plain (array items)
  | object {members : List (String × Json)} : isNumberForm members = false →
      (∀ m ∈ members, m.2.Plain) → Plain (object members)

/-- The canonical document of a member. -/
def canonicalMember? (m : String × Json) : Option (String × Json) :=
  m.2.canonical?.map fun c => (m.1, c)

theorem canonicalMember?_eq_self_iff {m : String × Json} :
    canonicalMember? m = some m ↔ m.2.canonical? = some m.2 := by
  obtain ⟨key, value⟩ := m
  simp [canonicalMember?]

/-- Members that are written in key order stay where they are. -/
theorem canonicalMembers?_of_sorted {kept members : Dict String Json}
    (h : Dict.Sorted (kept ++ members)) :
    canonicalMembers? members kept = (members.mapM canonicalMember?).map (kept ++ ·) := by
  induction members generalizing kept with
  | nil => simp [canonicalMembers?]
  | cons m members ih =>
    obtain ⟨key, value⟩ := m
    rw [canonicalMembers?, List.mapM_cons, canonicalMember?]
    cases hvalue : value.canonical? with
    | none => rfl
    | some c =>
      have hlast : Dict.insert kept key c = kept ++ [(key, c)] :=
        Dict.insert_last fun entry hentry =>
          (List.pairwise_append.1 h).2.2 entry hentry _ List.mem_cons_self
      have hsorted : Dict.Sorted (kept ++ [(key, c)] ++ members) := by
        rw [Dict.sorted_iff_keys] at h ⊢
        simpa [Dict.keys] using h
      simp only [Option.bind_eq_bind, Option.bind_some, Option.map_some, hlast, ih hsorted]
      cases members.mapM canonicalMember? <;> simp

theorem canonical?_eq_self_iff_plain {j : Json} (h : j.Canonical) :
    j.canonical? = some j ↔ j.Plain := by
  induction h with
  | null => exact ⟨fun _ => .null, fun _ => rfl⟩
  | bool b => exact ⟨fun _ => .bool b, fun _ => rfl⟩
  | number numeral => exact ⟨fun _ => .number numeral, fun _ => rfl⟩
  | string s => exact ⟨fun _ => .string s, fun _ => rfl⟩
  | @array items _ ih =>
    have hitems : (array items).canonical? = some (array items)
        ↔ ∀ x ∈ items, x.canonical? = some x := by
      rw [← mapM_eq_self_iff, ← canonicalItems?_eq_mapM]
      simp [canonical?]
    rw [hitems]
    constructor
    · exact fun h => .array fun x hx => (ih x hx).1 (h x hx)
    · rintro (_ | _ | _ | _ | hplain)
      exact fun x hx => (ih x hx).2 (hplain x hx)
  | @object members hsorted _ ih =>
    cases hform : isNumberForm members with
    | true =>
      constructor
      · intro h
        rw [canonical?, if_pos hform] at h
        unfold numberForm? at h
        split at h
        · obtain ⟨_, -, h⟩ := Option.map_eq_some_iff.1 h
          cases h
        · cases h
      · intro hplain
        cases hplain with
        | object hno _ => cases hform.symm.trans hno
    | false =>
      have hmembers : (object members).canonical? = some (object members)
          ↔ ∀ m ∈ members, m.2.canonical? = some m.2 := by
        simp only [← canonicalMember?_eq_self_iff]
        rw [← mapM_eq_self_iff, canonical?, hform, if_neg Bool.false_ne_true,
          canonicalMembers?_of_sorted (show Dict.Sorted ([] ++ members) from hsorted)]
        simp
      rw [hmembers]
      constructor
      · exact fun h => .object hform fun m hm => (ih m hm).1 (h m hm)
      · intro hplain
        cases hplain with
        | object _ hplain => exact fun m hm => (ih m hm).2 (hplain m hm)

/-- **The canonical document of a document** is the document itself just if it is canonical and
plain. -/
theorem canonical?_eq_self_iff {j : Json} :
    j.canonical? = some j ↔ j.Canonical ∧ j.Plain :=
  ⟨fun h => ⟨canonical_of_canonical? j h,
      (canonical?_eq_self_iff_plain (canonical_of_canonical? j h)).1 h⟩,
    fun h => (canonical?_eq_self_iff_plain h.1).2 h.2⟩

/-! ## Whole texts -/

/-- **A document is legible** within some number of containers if it is writable, lists the members
of its objects in key order, and has none that would be taken for a number. -/
structure Legible (n : Nat) (j : Json) : Prop where
  writable : j.Writable n
  canonical : j.Canonical
  plain : j.Plain

theorem Legible.canonical?_eq_self {n : Nat} {j : Json} (h : j.Legible n) :
    j.canonical? = some j :=
  canonical?_eq_self_iff.2 ⟨h.canonical, h.plain⟩

theorem Writable.legible {n : Nat} {j : Json} (h : j.Writable n)
    (hc : j.canonical? = some j) : j.Legible n :=
  ⟨h, (canonical?_eq_self_iff.1 hc).1, (canonical?_eq_self_iff.1 hc).2⟩

theorem Writable.read?_text {j : Json} (h : j.Writable maxNesting) : read? j.text = some j := by
  have hstops : Stops [] := by rintro c ⟨⟩
  have hread := readValue?_text h hstops
  rw [List.append_nil] at hread
  rw [read?, hread]
  rfl

theorem writable_of_read? {s : String} {j : Json} (h : read? s = some j) :
    j.Writable maxNesting := by
  obtain ⟨⟨_, rest⟩, hread, h⟩ := Option.bind_eq_some_iff.1 h
  dsimp only at h
  split at h
  · cases h
    exact writable_of_readValue? hread
  · cases h

/-- **A document is read back** from its text just if it is legible. -/
theorem parse?_text_iff {j : Json} : parse? j.text = some j ↔ j.Legible maxNesting := by
  constructor
  · intro h
    obtain ⟨written, hwritten, hc⟩ := Option.bind_eq_some_iff.1 h
    -- what is read is writable, and so its canonical document is what is read from the text
    have hwritable := (writable_of_read? hwritten).canonical? hc
    cases hwritable.read?_text.symm.trans hwritten
    exact hwritable.legible hc
  · intro h
    rw [parse?, h.writable.read?_text]
    exact h.canonical?_eq_self

end AccessPolicy.Json
