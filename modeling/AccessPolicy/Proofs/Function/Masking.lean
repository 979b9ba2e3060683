import AccessPolicy.Function.Library

/-!
# Masked texts

A mask splits a text into a front that stays, a back that stays, and what is in between, of which
each character is replaced. Where front and back would meet or overlap there is nothing in between,
and the text stays as it is. How long they are is up to whoever calls the function: the counts come
as numbers of up to 64 bits.

The function adds the two counts in 64 bits before it compares their sum with the length of the
text. So the sum can be too large although each of the counts is accepted, and the function crashes
where the whole text should stay. This is the only case in which it does not do what a mask does:
whatever else it is called with is masked, or refused with an error that tells which argument is to
blame.
-/

namespace AccessPolicy.Function

/-! ## Masks -/

/-- **Masking a text**, some characters on the left and some on the right apart. -/
inductive Masked (left right : Nat) (replacement : List Char) : List Char → List Char → Prop where
  | kept {text : List Char} : text.length ≤ left + right → Masked left right replacement text text
  | hidden {front middle back : List Char} : front.length = left → back.length = right →
      middle ≠ [] → Masked left right replacement (front ++ middle ++ back)
        (front ++ (List.replicate middle.length replacement).flatten ++ back)

variable {left right : Nat} {replacement text out : List Char}

theorem exists_parts (h : left + right < text.length) :
    ∃ front middle back, text = front ++ middle ++ back ∧ front.length = left
      ∧ back.length = right ∧ middle ≠ [] := by
  refine ⟨text.take left, (text.drop left).take (text.length - left - right),
    (text.drop left).drop (text.length - left - right), ?_, ?_, ?_, ?_⟩
  · rw [List.append_assoc, List.take_append_drop, List.take_append_drop]
  · rw [List.length_take]
    omega
  · rw [List.length_drop, List.length_drop]
    omega
  · rw [← List.length_pos_iff, List.length_take, List.length_drop]
    omega

theorem mask_of_masked (h : Masked left right replacement text out) :
    mask text left right replacement = out := by
  cases h with
  | kept h => exact if_pos h
  | @hidden front middle back hfront hback hmiddle =>
    have hpos := List.length_pos_iff.2 hmiddle
    have hlength : (front ++ middle ++ back).length = left + middle.length + right := by
      rw [List.length_append, List.length_append, hfront, hback]
    rw [mask, if_neg (by omega), hlength, show left + middle.length + right - left - right
      = middle.length by omega, show left + middle.length + right - right
      = (front ++ middle).length by rw [List.length_append]; omega, List.drop_left,
      List.append_assoc front middle back, ← hfront, List.take_left]

theorem masked_mask (text : List Char) (left right : Nat) (replacement : List Char) :
    Masked left right replacement text (mask text left right replacement) := by
  rcases Nat.lt_or_ge (left + right) text.length with h | h
  · obtain ⟨front, middle, back, rfl, hfront, hback, hmiddle⟩ := exists_parts h
    have hhidden : Masked left right replacement _ _ := .hidden hfront hback hmiddle
    rwa [mask_of_masked hhidden]
  · rw [mask, if_pos h]
    exact .kept h

/-! ## Arguments -/

/-- A value that is a count: a natural number, written as such, that fits 64 bits. -/
def IsCount (v : Value) (count : Nat) : Prop :=
  ∃ n : Numeral, v.outcome = .defined (.number n) ∧ n.toNat64? = some count

/-- **What the arguments of a mask say.** What is missing has a default. -/
structure Says (arguments : List Value) (text : String) (left right : Nat) (replacement : String) :
    Prop where
  few : arguments.length ≤ 4
  text : arguments[0]?.bind Value.string? = some text
  left : arguments[1]?.elim (left = 0) fun v => IsCount v left
  right : arguments[2]?.elim (right = 0) fun v => IsCount v right
  replacement : arguments[3]?.elim (replacement = "X") fun v => v.string? = some replacement

/-- **How the arguments of a mask are refused**: there are too few or too many of them, or one of
them is not what it has to be. -/
inductive Refused (arguments : List Value) : CallFailure → Prop where
  | arity : arguments = [] ∨ 4 < arguments.length →
      Refused arguments (.arity "1 to 4" arguments.length)
  | text {position : Nat} {v : Value} : arguments[position]? = some v →
      position = 0 ∨ position = 3 → v.string? = none →
        Refused arguments (.argument position ("expected a string, got " ++ v.typeName))
  | count {position : Nat} {v : Value} : arguments[position]? = some v →
      position = 1 ∨ position = 2 → (∀ count, ¬ IsCount v count) →
        Refused arguments (.argument position "expected a non-negative integer")

/-- The replacement that an argument must be, if there is one. -/
def replacementArgument : Option Value → Except CallFailure String
  | some v => textArgument 3 v
  | none => .ok "X"

/-- A masked text, unless the sum of the two counts does not fit 64 bits. -/
def maskedValue (text : String) (left right : Nat) (replacement : String) :
    Except CallFailure Value :=
  if !fitsNat64 (left + right) then .error (.crashed "attempt to add with overflow")
  else .ok (Value.of (.string (String.ofList (mask text.toList left right replacement.toList))))

/-- Every number of up to 64 bits is a count. -/
theorem exists_isCount_iff (count : Nat) :
    (∃ v, IsCount v count) ↔ count ≤ 0xFFFFFFFFFFFFFFFF := by
  constructor
  · rintro ⟨v, n, -, hn⟩
    unfold Numeral.toNat64? at hn
    split at hn
    · next h =>
      obtain rfl := Option.some.inj hn
      have hfits := (Bool.and_eq_true_iff.1 h).2
      rw [fitsNat64, decide_eq_true_eq] at hfits
      omega
    · cases hn
  · intro hcount
    refine ⟨Value.of (.number (.ofNat count)), .ofNat count, rfl, ?_⟩
    have hfits : fitsNat64 count = true := decide_eq_true (by omega)
    simp [Numeral.toNat64?, Numeral.ofNat, hfits]

theorem textArgument_of_some {position : Nat} {v : Value} {s : String} (h : v.string? = some s) :
    textArgument position v = .ok s := by rw [textArgument, h]

theorem textArgument_of_none {position : Nat} {v : Value} (h : v.string? = none) :
    textArgument position v
      = .error (.argument position ("expected a string, got " ++ v.typeName)) := by
  rw [textArgument, h]

theorem countArgument_of_isCount {position : Nat} {v : Value} {count : Nat} (h : IsCount v count) :
    countArgument position (some v) = .ok count := by
  obtain ⟨n, hv, hn⟩ := h
  simp only [countArgument, hv, hn]

theorem countArgument_of_not_isCount {position : Nat} {v : Value}
    (h : ∀ count, ¬ IsCount v count) :
    countArgument position (some v)
      = .error (.argument position "expected a non-negative integer") := by
  unfold countArgument
  dsimp only
  split
  · next n hv =>
    split
    · next count hn => exact absurd ⟨n, hv, hn⟩ (h count)
    · rfl
  · rfl

theorem countArgument_of_elim {position count : Nat} {v? : Option Value}
    (h : v?.elim (count = 0) fun v => IsCount v count) : countArgument position v? = .ok count := by
  cases v? with
  | none => exact congrArg Except.ok (Eq.symm h)
  | some v => exact countArgument_of_isCount h

theorem replacementArgument_of_elim {replacement : String} {v? : Option Value}
    (h : v?.elim (replacement = "X") fun v => v.string? = some replacement) :
    replacementArgument v? = .ok replacement := by
  cases v? with
  | none => exact congrArg Except.ok (Eq.symm h)
  | some v => exact textArgument_of_some h

/-- A count is missing, or it is one, or it is refused. -/
theorem countArgument_cases (arguments : List Value) {position : Nat}
    (hposition : position = 1 ∨ position = 2) :
    (∃ count, arguments[position]?.elim (count = 0) fun v => IsCount v count)
      ∨ ∃ failure, Refused arguments failure
          ∧ countArgument position arguments[position]? = .error failure := by
  cases harg : arguments[position]? with
  | none => exact .inl ⟨0, rfl⟩
  | some v =>
    by_cases h : ∃ count, IsCount v count
    · exact .inl h
    · have hnot := not_exists.1 h
      exact .inr ⟨_, .count harg hposition hnot, countArgument_of_not_isCount hnot⟩

/-- A replacement is missing, or it is a text, or it is refused. -/
theorem replacementArgument_cases (arguments : List Value) :
    (∃ replacement, arguments[3]?.elim (replacement = "X") fun v => v.string? = some replacement)
      ∨ ∃ failure, Refused arguments failure
          ∧ replacementArgument arguments[3]? = .error failure := by
  cases harg : arguments[3]? with
  | none => exact .inl ⟨"X", rfl⟩
  | some v =>
    cases hs : v.string? with
    | some s => exact .inl ⟨s, hs⟩
    | none => exact .inr ⟨_, .text harg (.inr rfl) hs, textArgument_of_none hs⟩

/-! ## Calls -/

theorem blacken_cons {v : Value} {options : List Value} (hfew : ¬ 3 < options.length) :
    blacken (v :: options) = (do
      let text ← textArgument 0 v
      let left ← countArgument 1 (v :: options)[1]?
      let right ← countArgument 2 (v :: options)[2]?
      let replacement ← replacementArgument (v :: options)[3]?
      maskedValue text left right replacement) := by
  rw [blacken, if_neg hfew]
  show _ = textArgument 0 v >>= fun text => countArgument 1 options[0]? >>= fun left =>
    countArgument 2 options[1]? >>= fun right => replacementArgument options[2]? >>= _
  cases options[2]? <;> rfl

/-- The function masks what its arguments say. -/
theorem blacken_of_says {arguments : List Value} {text replacement : String} {left right : Nat}
    (h : Says arguments text left right replacement) :
    blacken arguments = maskedValue text left right replacement := by
  cases arguments with
  | nil => cases h.text
  | cons v options =>
    rw [blacken_cons (Nat.not_lt.2 (Nat.le_of_succ_le_succ h.few)), textArgument_of_some h.text,
      countArgument_of_elim h.left, countArgument_of_elim h.right,
      replacementArgument_of_elim h.replacement]
    rfl

/-- Arguments that do not say what to mask are refused. -/
theorem says_or_refused (arguments : List Value) :
    (∃ text left right replacement, Says arguments text left right replacement)
      ∨ ∃ failure, Refused arguments failure ∧ blacken arguments = .error failure := by
  cases arguments with
  | nil => exact .inr ⟨_, .arity (.inl rfl), rfl⟩
  | cons v options =>
    by_cases hmany : 3 < options.length
    · exact .inr ⟨_, .arity (.inr (Nat.succ_lt_succ hmany)), if_pos hmany⟩
    rw [blacken_cons hmany]
    -- the arguments are looked at from left to right, and the first one that does not fit counts
    cases htext : v.string? with
    | none =>
      rw [textArgument_of_none htext]
      exact .inr ⟨_, .text rfl (.inl rfl) htext, rfl⟩
    | some text =>
      rw [textArgument_of_some htext]
      rcases countArgument_cases (v :: options) (.inl rfl) with
        ⟨left, hleft⟩ | ⟨failure, hrefused, hfails⟩
      case inr =>
        rw [hfails]
        exact .inr ⟨failure, hrefused, rfl⟩
      rw [countArgument_of_elim hleft]
      rcases countArgument_cases (v :: options) (.inr rfl) with
        ⟨right, hright⟩ | ⟨failure, hrefused, hfails⟩
      case inr =>
        rw [hfails]
        exact .inr ⟨failure, hrefused, rfl⟩
      rw [countArgument_of_elim hright]
      rcases replacementArgument_cases (v :: options) with
        ⟨replacement, hreplacement⟩ | ⟨failure, hrefused, hfails⟩
      case inr =>
        rw [hfails]
        exact .inr ⟨failure, hrefused, rfl⟩
      exact .inl ⟨text, left, right, replacement,
        Nat.succ_le_succ (Nat.not_lt.1 hmany), htext, hleft, hright, hreplacement⟩

theorem call_blacken (arguments : List Value) :
    Functions.standard.call "filter.blacken" arguments
      = match blacken arguments with
        | .ok v => v
        | .error failure => Value.fault (.functionFailed "filter.blacken" failure) := rfl

/-- **A call of the masking function masks a text or is refused.** Any counts of up to 64 bits will
do, and if their sum is one of 64 bits too, the result is the masked text. If it is not, the
function crashes. All other arguments are refused because of their number or because of one of
them. -/
theorem masks_or_refuses (arguments : List Value) :
    let result := Functions.standard.call "filter.blacken" arguments
    (∀ text left right replacement, Says arguments text left right replacement →
      (left + right ≤ 0xFFFFFFFFFFFFFFFF → ∃ out,
        Masked left right replacement.toList text.toList out
          ∧ result = Value.of (.string (String.ofList out)))
      ∧ (0xFFFFFFFFFFFFFFFF < left + right →
        result = Value.fault (.functionFailed "filter.blacken"
          (.crashed "attempt to add with overflow"))))
    ∧ ((¬ ∃ text left right replacement, Says arguments text left right replacement) →
      ∃ failure, Refused arguments failure
        ∧ result = Value.fault (.functionFailed "filter.blacken" failure))
    ∧ ∀ count, (∃ v, IsCount v count) ↔ count ≤ 0xFFFFFFFFFFFFFFFF := by
  intro result
  have hcall : result = _ := call_blacken arguments
  refine ⟨fun text left right replacement h => ⟨fun hfits => ?_, fun hlarge => ?_⟩, fun h => ?_,
    exists_isCount_iff⟩
  · have hsum : fitsNat64 (left + right) = true := decide_eq_true (by omega)
    refine ⟨_, masked_mask _ _ _ _, ?_⟩
    rw [hcall, blacken_of_says h, maskedValue, hsum]
    rfl
  · have hsum : fitsNat64 (left + right) = false := decide_eq_false (by omega)
    rw [hcall, blacken_of_says h, maskedValue, hsum]
    rfl
  · obtain ⟨failure, hrefused, hfails⟩ := (says_or_refused arguments).resolve_left h
    refine ⟨failure, hrefused, ?_⟩
    rw [hcall, hfails]

/-- Where the sum of the counts is too large the function crashes, although the whole text should
stay as it is. -/
theorem crashes_on_large_counts :
    let arguments := [Value.of (.string "secret"), Value.of (.number (.ofNat 0xFFFFFFFFFFFFFFFF)),
      Value.of (.number (.ofNat 1))]
    Says arguments "secret" 0xFFFFFFFFFFFFFFFF 1 "X"
      ∧ Masked 0xFFFFFFFFFFFFFFFF 1 "X".toList "secret".toList "secret".toList
      ∧ Functions.standard.call "filter.blacken" arguments
          = Value.error "Function filter.blacken panicked: attempt to add with overflow"
      ∧ Functions.standard.call "filter.blacken" arguments ≠ Value.of (.string "secret") := by
  intro arguments
  have hmeant : Says arguments "secret" 0xFFFFFFFFFFFFFFFF 1 "X" :=
    ⟨by decide, rfl, ⟨_, rfl, by decide⟩, ⟨_, rfl, by decide⟩, rfl⟩
  have hcall : Functions.standard.call "filter.blacken" arguments
      = Value.error "Function filter.blacken panicked: attempt to add with overflow" := by
    rw [call_blacken, blacken_of_says hmeant]
    exact congrArg Value.error (by decide +kernel)
  refine ⟨hmeant, .kept (by decide), hcall, fun h => ?_⟩
  rw [hcall] at h
  cases congrArg Value.isError h

end AccessPolicy.Function
