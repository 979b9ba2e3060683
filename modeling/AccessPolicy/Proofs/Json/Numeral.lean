import AccessPolicy.Json.Numeral

/-!
# Numbers are read as they are spelled

A number ends where no more of it can be read, and nothing in the number says where that is: what
is read of `12` is the number `1` if a reader stops too early, and another number if a digit
follows. So a spelling is read back in front of a text that **stops** a number, one that starts
neither with a digit nor with a point or the letter of an exponent.

The type of numerals has room for an exponent without digits, which cannot be spelled. All other
numerals are read back exactly, down to leading zeros of the exponent.
-/

namespace AccessPolicy

/-! ## Digits -/

namespace Digit

theorem ofChar?_char (d : Digit) : ofChar? d.char = some d := by
  revert d
  decide

/-- A text ends a run of digits if it does not start with one. -/
def Ends (rest : List Char) : Prop := ∀ c ∈ rest.head?, ofChar? c = none

theorem run_append (ds : List Digit) {rest : List Char} (h : Ends rest) :
    run (ds.map char ++ rest) = (ds, rest) := by
  induction ds with
  | nil =>
    cases rest with
    | nil => rfl
    | cons c rest =>
      show run (c :: rest) = _
      rw [run, h c rfl]
  | cons d ds ih =>
    show run (d.char :: (ds.map char ++ rest)) = _
    rw [run, ofChar?_char, ih]

theorem value_concat (ds : List Digit) (d : Digit) : value (ds ++ [d]) = 10 * value ds + d.val := by
  rw [value, valueFrom, List.foldl_append]
  rfl

/-- The digits of a number denote it. -/
theorem value_ofNat (n : Nat) : value (ofNat n) = n := by
  fun_induction ofNat n with
  | case1 n h => simp [value, valueFrom]
  | case2 n h ih =>
    rw [value_concat, ih, Fin.val_ofNat]
    omega

/-- The digits of a number do not start with zero unless there is only one. -/
theorem ofNat_eq_cons (n : Nat) : ∃ d ds, ofNat n = d :: ds ∧ (d = 0 → ds = []) := by
  fun_induction ofNat n with
  | case1 n h => exact ⟨⟨n, h⟩, [], rfl, fun _ => rfl⟩
  | case2 n h ih =>
    obtain ⟨d, ds, hds, hlone⟩ := ih
    refine ⟨d, ds ++ [Fin.ofNat 10 n], by rw [hds, List.cons_append], fun hzero => ?_⟩
    -- the number without its last digit would be zero
    have hvalue := value_ofNat (n / 10)
    rw [hds, hzero, hlone hzero] at hvalue
    have : n / 10 = 0 := hvalue.symm
    omega

theorem char_ne_minus (d : Digit) : d.char ≠ '-' := by
  revert d
  decide

end Digit

/-! ## Numerals -/

namespace Numeral

/-- A numeral can be spelled if its exponent has digits. -/
def Spelled (n : Numeral) : Prop := ∀ e ∈ n.exponent, e.digits ≠ []

/-- **A text stops a number** if no number can go on with it. -/
def Stops (rest : List Char) : Prop :=
  ∀ c ∈ rest.head?, Digit.ofChar? c = none ∧ c ≠ '.' ∧ c ≠ 'e' ∧ c ≠ 'E'

theorem Stops.ends {rest : List Char} (h : Stops rest) : Digit.Ends rest :=
  fun c hc => (h c hc).1

/-- The characters of a fraction. -/
def fractionChars (ds : List Digit) : List Char :=
  if ds.isEmpty then [] else '.' :: ds.map Digit.char

/-- The characters of an exponent. -/
def exponentChars : Option Exponent → List Char
  | none => []
  | some e => 'e' :: (if e.negative then '-' else '+') :: e.digits.map Digit.char

/-- The characters of a numeral. -/
theorem toList_text (n : Numeral) :
    n.text.toList = (if n.negative then ['-'] else []) ++ (Digit.ofNat n.whole).map Digit.char
      ++ fractionChars n.fraction ++ exponentChars n.exponent := by
  obtain ⟨negative, whole, fraction, exponent⟩ := n
  have hfraction : (if fraction.isEmpty then "" else "." ++ Digit.text fraction).toList
      = fractionChars fraction := by
    cases fraction <;> simp [fractionChars, Digit.text]
  unfold text
  rw [String.toList_append, String.toList_append, String.toList_append, hfraction]
  cases negative <;> cases exponent <;> simp [exponentChars, Digit.text]
  all_goals split <;> rfl

theorem readExponent?_chars {exponent : Option Exponent}
    (hspelled : ∀ e ∈ exponent, e.digits ≠ []) {rest : List Char} (h : Stops rest) :
    readExponent? (exponentChars exponent ++ rest) = some (exponent, rest) := by
  cases exponent with
  | none =>
    cases rest with
    | nil => rfl
    | cons c rest =>
      obtain ⟨-, -, he, hE⟩ := h c rfl
      show readExponent? (c :: rest) = _
      unfold readExponent?
      exact if_neg (by simp [he, hE])
  | some e =>
    obtain ⟨negative, digits⟩ := e
    obtain ⟨d, ds, rfl⟩ := List.exists_cons_of_ne_nil (hspelled _ rfl)
    have hrun := Digit.run_append (d :: ds) h.ends
    rw [List.map_cons, List.cons_append] at hrun
    cases negative <;> simp [exponentChars, readExponent?, hrun]

theorem ends_exponentChars (exponent : Option Exponent) {rest : List Char} (h : Stops rest) :
    ∀ c ∈ (exponentChars exponent ++ rest).head?, Digit.ofChar? c = none ∧ c ≠ '.' := by
  cases exponent with
  | none => exact fun c hc => ⟨(h c hc).1, (h c hc).2.1⟩
  | some e =>
    intro c hc
    obtain rfl : 'e' = c := Option.some.inj hc
    decide

theorem readFraction?_chars (fraction : List Digit) {rest : List Char}
    (h : ∀ c ∈ rest.head?, Digit.ofChar? c = none ∧ c ≠ '.') :
    readFraction? (fractionChars fraction ++ rest) = some (fraction, rest) := by
  cases fraction with
  | nil =>
    show readFraction? rest = _
    unfold readFraction?
    split
    · exact absurd rfl (h '.' rfl).2
    · rfl
  | cons d ds =>
    have hrun := Digit.run_append (d :: ds) fun c hc => (h c hc).1
    show readFraction? ('.' :: ((d :: ds).map Digit.char ++ rest)) = _
    rw [readFraction?, hrun]

theorem ends_fractionChars (fraction : List Digit) {rest : List Char} (h : Digit.Ends rest) :
    Digit.Ends (fractionChars fraction ++ rest) := by
  cases fraction with
  | nil => exact h
  | cons d ds =>
    intro c hc
    obtain rfl : '.' = c := Option.some.inj hc
    rfl

/-- **A numeral is read back** from its text. -/
theorem read?_text {n : Numeral} (hn : n.Spelled) {rest : List Char} (h : Stops rest) :
    read? (n.text.toList ++ rest) = some (n, rest) := by
  obtain ⟨negative, whole, fraction, exponent⟩ := n
  have hexponent : readExponent? (exponentChars exponent ++ rest) = some (exponent, rest) :=
    readExponent?_chars hn h
  have hfraction := readFraction?_chars fraction (ends_exponentChars exponent h)
  -- the digits of the whole part are read up to the parts that come next
  have hrun := Digit.run_append (Digit.ofNat whole)
    (ends_fractionChars fraction fun c hc => (ends_exponentChars exponent h c hc).1)
  have hwhole := Digit.value_ofNat whole
  rw [toList_text, List.append_assoc, List.append_assoc, List.append_assoc]
  obtain ⟨d, ds, hds, hlone⟩ := Digit.ofNat_eq_cons whole
  dsimp only
  rw [hds] at hrun hwhole ⊢
  rw [List.map_cons, List.cons_append] at hrun ⊢
  generalize ds.map Digit.char ++ (fractionChars fraction ++ (exponentChars exponent ++ rest)) = cs
    at hrun ⊢
  have hd := d.char_ne_minus
  generalize d.char = c at hrun hd ⊢
  unfold read?
  split
  next sign digits hsign =>
  have hparts : sign = negative ∧ digits = c :: cs := by
    cases negative with
    | true =>
      cases hsign
      exact ⟨rfl, rfl⟩
    | false =>
      simp only [Bool.false_eq_true, if_false, List.nil_append] at hsign
      split at hsign
      · next hminus => exact absurd (List.cons.inj hminus).1 hd
      · cases hsign
        exact ⟨rfl, rfl⟩
  obtain ⟨rfl, rfl⟩ := hparts
  simp only [hrun]
  -- there is a first digit, and it is not a zero before another one
  split
  · next hnone => cases hnone
  · next hzero =>
    cases hzero
    cases hlone rfl
  · next heq =>
    cases heq
    simp [hwhole, hfraction, hexponent]

/-- Also if it is the whole of a text. -/
theorem parse?_text {n : Numeral} (hn : n.Spelled) : parse? n.text = some n := by
  have hstops : Stops [] := by rintro c ⟨⟩
  have hread := read?_text hn hstops
  rw [List.append_nil] at hread
  rw [parse?, hread]

/-- A numeral starts with its sign or a digit. -/
theorem text_eq_cons (n : Numeral) :
    ∃ c cs, n.text.toList = c :: cs ∧ (c = '-' ∨ ∃ d : Digit, c = d.char) := by
  obtain ⟨d, ds, hds, -⟩ := Digit.ofNat_eq_cons n.whole
  rw [toList_text, hds]
  cases n.negative with
  | true => exact ⟨'-', _, rfl, .inl rfl⟩
  | false => exact ⟨d.char, _, rfl, .inr ⟨d, rfl⟩⟩

/-! ## What is read can be spelled -/

theorem digits_of_readExponent? {cs rest : List Char} {exponent : Option Exponent}
    (h : readExponent? cs = some (exponent, rest)) : ∀ e ∈ exponent, e.digits ≠ [] := by
  unfold readExponent? at h
  split at h
  · split at h
    · dsimp only at h
      split at h
      · cases h
      · next hsome _ =>
        cases h
        rintro e ⟨⟩
        exact hsome
    · cases h
      rintro e ⟨⟩
  · cases h
    rintro e ⟨⟩

theorem spelled_of_read? {cs rest : List Char} {n : Numeral} (h : read? cs = some (n, rest)) :
    n.Spelled := by
  unfold read? at h
  dsimp only at h
  split at h
  · cases h
  · cases h
  · obtain ⟨⟨whole, cs'⟩, -, h⟩ := Option.bind_eq_some_iff.1 h
    obtain ⟨⟨fraction, cs'⟩, -, h⟩ := Option.bind_eq_some_iff.1 h
    obtain ⟨⟨exponent, cs'⟩, hexponent, h⟩ := Option.bind_eq_some_iff.1 h
    cases h
    exact digits_of_readExponent? hexponent

theorem spelled_of_parse? {s : String} {n : Numeral} (h : parse? s = some n) : n.Spelled := by
  unfold parse? at h
  split at h
  · next hread =>
    cases h
    exact spelled_of_read? hread
  · cases h

end Numeral

end AccessPolicy
