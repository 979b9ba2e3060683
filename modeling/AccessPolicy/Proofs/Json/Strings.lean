import AccessPolicy.Json.Parser
import AccessPolicy.Json.Printer

/-!
# Strings are read as they are quoted

Between its quotes a string stands with some of its characters escaped, so that each character
takes between one and six others. What is read of each of these pieces is the character that it
stands for, whatever the text after it, and so a quoted string is read up to its own closing quote.
-/

namespace AccessPolicy.Json

/-! ## One character -/

theorem hexValue?_hexDigit : ∀ n < 16, hexValue? (hexDigit n) = some n := by
  decide

/-- A character below the first printable one is escaped by its number. -/
theorem readEscape?_control {c : Char} (hc : c.toNat < 0x20) (rest : List Char) :
    readEscape? ('u' :: '0' :: '0' :: hexDigit (c.toNat / 16) :: hexDigit (c.toNat % 16) :: rest)
      = some (c, rest) := by
  have hhigh := hexValue?_hexDigit (c.toNat / 16) (by omega)
  have hlow := hexValue?_hexDigit (c.toNat % 16) (by omega)
  have hzero : hexValue? '0' = some 0 := rfl
  have hunit : readUnit? ('0' :: '0' :: hexDigit (c.toNat / 16) :: hexDigit (c.toNat % 16) :: rest)
      = some (c.toNat, rest) := by
    simp [readUnit?, hzero, hhigh, hlow, Nat.div_add_mod']
  have hsmall : c.toNat < 0xD800 := by omega
  simp [readEscape?, hunit, hsmall]

theorem readChars?_escaped {bound : Nat} {c : Char} {escaped rest : List Char}
    (h : readEscape? escaped = some (c, rest)) :
    readChars? (bound + 1) ('\\' :: escaped)
      = (readChars? bound rest).map fun read => (c :: read.1, read.2) := by
  rw [readChars?, if_neg (by decide), if_pos rfl, h, Option.bind_eq_bind, Option.bind_some]
  cases hread : readChars? bound rest <;> simp [hread]

/-- **The characters that stand for one** are read as that one. -/
theorem readChars?_escape (bound : Nat) (c : Char) (rest : List Char) :
    readChars? (bound + 1) (escape c ++ rest)
      = (readChars? bound rest).map fun read => (c :: read.1, read.2) := by
  fun_cases escape c with
  | case9 hquote hslash _ _ _ _ _ hcontrol =>
    show readChars? (bound + 1) (c :: rest) = _
    rw [readChars?, if_neg hquote, if_neg hslash, if_neg hcontrol]
    cases readChars? bound rest <;> rfl
  | case8 _ _ _ _ _ _ _ hcontrol => exact readChars?_escaped (readEscape?_control hcontrol rest)
  | _ =>
    subst_vars
    exact readChars?_escaped rfl

theorem escape_ne_nil (c : Char) : escape c ≠ [] := by
  fun_cases escape c <;> exact List.cons_ne_nil _ _

/-! ## A whole string -/

theorem length_le_length_flatMap_escape (cs : List Char) :
    cs.length ≤ (cs.flatMap escape).length := by
  induction cs with
  | nil => exact Nat.le_refl 0
  | cons c cs ih =>
    have hpos := List.length_pos_iff.2 (escape_ne_nil c)
    rw [List.flatMap_cons, List.length_append, List.length_cons]
    omega

theorem readChars?_flatMap_escape (cs rest : List Char) {bound : Nat} (h : cs.length < bound) :
    readChars? bound (cs.flatMap escape ++ '"' :: rest) = some (cs, rest) := by
  induction cs generalizing bound with
  | nil =>
    obtain ⟨bound, rfl⟩ := Nat.exists_eq_add_one_of_ne_zero (Nat.ne_zero_of_lt h)
    rfl
  | cons c cs ih =>
    obtain ⟨bound, rfl⟩ := Nat.exists_eq_add_one_of_ne_zero (Nat.ne_zero_of_lt h)
    rw [List.flatMap_cons, List.append_assoc, readChars?_escape,
      ih (Nat.lt_of_succ_lt_succ h)]
    rfl

theorem toList_quote (s : String) :
    (quote s).toList = '"' :: (s.toList.flatMap escape ++ ['"']) := by
  simp [quote]

/-- **A string is read back** from what stands between its quotes. -/
theorem readString?_escaped (s : String) (rest : List Char) :
    readString? (s.toList.flatMap escape ++ '"' :: rest) = some (s, rest) := by
  have hbound : s.toList.length < (s.toList.flatMap escape ++ '"' :: rest).length + 1 := by
    have hlength := length_le_length_flatMap_escape s.toList
    rw [List.length_append]
    omega
  rw [readString?, readChars?_flatMap_escape _ _ hbound]
  exact congrArg (fun read => some (read, rest)) String.ofList_toList

end AccessPolicy.Json
