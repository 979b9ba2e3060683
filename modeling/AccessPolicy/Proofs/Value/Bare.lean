import AccessPolicy.Evaluation.Expr
import AccessPolicy.Function.Library

/-!
# Values without their records

Two values with the same outcome may have different records, and a stream that passes over
repetitions keeps the record of a value that is long superseded. What an expression means can
therefore only depend on the *bare* values, which have no record. Every operation on values
commutes with baring its operands: operators, selectors and the building of containers do so
by their definitions, and functions do if they are **pure**, which is to say that equal
arguments give equal results.
-/

namespace AccessPolicy

namespace Value

/-- A value without its record. -/
def bare (v : Value) : Value := ⟨v.outcome, .unrecorded⟩

/-- **Values are the same** exactly if they are equal when they are bare. -/
theorem same_iff_bare {a b : Value} : a.same b = true ↔ a.bare = b.bare := by
  simp [same, bare]

@[simp] theorem outcome_bare (v : Value) : v.bare.outcome = v.outcome := rfl

@[simp] theorem bare_bare (v : Value) : v.bare.bare = v.bare := rfl

@[simp] theorem bare_recordedAs (v : Value) (operator : String) (operands : List Value) :
    (v.recordedAs operator operands).bare = v.bare := rfl

@[simp] theorem isError_bare (v : Value) : v.bare.isError = v.isError := rfl

@[simp] theorem isDefined_bare (v : Value) : v.bare.isDefined = v.isDefined := rfl

@[simp] theorem document?_bare (v : Value) : v.bare.document? = v.document? := rfl

@[simp] theorem bool?_bare (v : Value) : v.bare.bool? = v.bool? := rfl

@[simp] theorem bool?_recordedAs (v : Value) (operator : String) (operands : List Value) :
    (v.recordedAs operator operands).bool? = v.bool? := rfl

@[simp] theorem items?_bare (v : Value) : v.bare.items? = v.items? := rfl

@[simp] theorem children?_bare (v : Value) : v.bare.children? = v.children? := rfl

/-- A value is defined exactly if there is a document of it. -/
theorem isDefined_eq_isSome (v : Value) : v.isDefined = v.document?.isSome := by
  unfold isDefined document?
  cases v.outcome <;> rfl

theorem bool?_of_bare {a b : Value} (h : a.bare = b) : a.bool? = b.bool? := by
  rw [← bool?_bare a, h]

theorem isDefined_of_bare {a b : Value} (h : a.bare = b) : a.isDefined = b.isDefined := by
  rw [← isDefined_bare a, h]

theorem firstError?_map_bare (vs : List Value) :
    firstError? (vs.map bare) = (firstError? vs).map bare := by
  unfold firstError?
  rw [List.find?_map]
  rfl

theorem documents_map_bare (vs : List Value) : documents (vs.map bare) = documents vs := by
  unfold documents
  rw [List.filterMap_map]
  rfl

/-! ## Containers -/

theorem bare_arrayOf (vs : List Value) : (arrayOf vs).bare = arrayOf (vs.map bare) := by
  unfold arrayOf
  rw [firstError?_map_bare, documents_map_bare]
  cases firstError? vs <;> rfl

theorem bare_strictArrayOf (vs : List Value) :
    (strictArrayOf vs).bare = strictArrayOf (vs.map bare) := by
  have hall : (vs.map bare).all isDefined = vs.all isDefined := by
    rw [List.all_map]
    rfl
  unfold strictArrayOf
  rw [firstError?_map_bare, documents_map_bare, hall]
  cases firstError? vs with
  | some e => rfl
  | none => cases vs.all isDefined <;> rfl

theorem bare_objectOf (keys : List String) (vs : List Value) :
    (objectOf keys vs).bare = objectOf keys (vs.map bare) := by
  have hzip : keys.zip (vs.map bare) = (keys.zip vs).map (Prod.map id bare) := by
    rw [List.zip_map_right]
  unfold objectOf
  rw [firstError?_map_bare, hzip, List.filterMap_map]
  cases firstError? vs <;> rfl

/-! ## What operations require -/

theorem require_of_isError {α : Type} {expected : Expectation} {take? : Value → Option α}
    {v : Value} (h : v.isError = true) : require expected take? v = .error v := by
  unfold require
  rw [if_pos h]

/-- What is taken from a value that is no error does not depend on its record. -/
theorem require_bare {α : Type} {expected : Expectation} {take? : Value → Option α} {v : Value}
    (h : v.isError = false) (htake : take? v.bare = take? v) :
    require expected take? v.bare = require expected take? v := by
  unfold require
  rw [isError_bare, h, htake]
  rfl

/-- An error that an operation does not go on from, up to its record. -/
theorem require_error_bare {α : Type} (expected : Expectation) (take? : Value → Option α)
    (v : Value) (htake : take? v.bare = take? v) :
    require expected take? v.bare = (require expected take? v).mapError bare := by
  cases h : v.isError with
  | true => rw [require_of_isError h, require_of_isError (v := v.bare) h]; rfl
  | false =>
    rw [require_bare h htake]
    unfold require
    rw [h]
    cases take? v <;> rfl

theorem bool?_of_isError {v : Value} (h : v.isError = true) : v.bool? = none := by
  unfold isError at h
  unfold bool?
  split
  · next heq => rw [heq] at h; cases h
  · rfl

/-- What an operation that requires a truth value goes on from. -/
theorem requireBool_cases (v : Value) :
    (∃ b, v.bool? = some b ∧ requireBool v = .ok b)
      ∨ v.bool? = none ∧ ∃ e, e.isError = true ∧ requireBool v = .error e := by
  unfold requireBool require
  split
  · next h => exact .inr ⟨bool?_of_isError h, v, h, rfl⟩
  · split
    · next b hb => exact .inl ⟨b, hb, rfl⟩
    · next hb => exact .inr ⟨hb, mismatch .boolean v, rfl, rfl⟩

theorem requireBool_bare (v : Value) : requireBool v.bare = (requireBool v).mapError bare :=
  require_error_bare .boolean bool? v rfl

theorem elementsWhere_map_bare (elements : List Json) (checks : List Value) :
    elementsWhere elements (checks.map bare) = (elementsWhere elements checks).mapError bare := by
  fun_induction elementsWhere elements checks with
  | case1 element elements check checks e he =>
    have := require_error_bare .conditionResult bool? check rfl
    rw [he] at this
    rw [List.map_cons, elementsWhere, this]
    rfl
  | case2 element elements check checks keep hk ih =>
    have := require_error_bare .conditionResult bool? check rfl
    rw [hk] at this
    rw [List.map_cons, elementsWhere, this]
    show (do
      let rest ← elementsWhere elements (checks.map bare)
      pure (if keep then element :: rest else rest)) = _
    rw [ih]
    cases elementsWhere elements checks <;> rfl
  | case3 elements checks hne =>
    cases elements with
    | nil => rfl
    | cons element elements =>
      cases checks with
      | nil => rfl
      | cons check checks => exact (hne element elements check checks rfl rfl).elim

theorem bare_arrayWhere (elements : List Json) (checks : List Value) :
    (arrayWhere elements checks).bare = arrayWhere elements (checks.map bare) := by
  unfold arrayWhere
  rw [elementsWhere_map_bare]
  cases elementsWhere elements checks <;> rfl

end Value

open Value

/-! ## Selectors -/

namespace Selector

theorem bare_selectKey (name : String) (v : Value) :
    (selectKey name v).bare = selectKey name v.bare := by
  unfold selectKey
  rw [outcome_bare]
  split
  · split <;> rfl
  · rfl
  · rfl

theorem bare_selectIndex (position : Int) (v : Value) :
    (selectIndex position v).bare = selectIndex position v.bare := by
  unfold selectIndex
  rw [items?_bare]
  split
  · rfl
  · split <;> rfl

theorem bare_selectSlice (first last stride : Option Int) (v : Value) :
    (selectSlice first last stride v).bare = selectSlice first last stride v.bare := by
  unfold selectSlice
  rw [items?_bare]
  split
  · rfl
  · split <;> rfl

theorem bare_selectBySearch (search : Json → List Json) (v : Value) :
    (selectBySearch search v).bare = selectBySearch search v.bare := by
  unfold selectBySearch
  rw [document?_bare]
  split <;> rfl

theorem bare_select (s : Selector) (v : Value) : (s.select v).bare = s.select v.bare := by
  unfold select
  rw [isError_bare]
  cases v.isError with
  | true => rfl
  | false =>
    cases s with
    | key name => exact bare_selectKey name v
    | index position => exact bare_selectIndex position v
    | slice first last stride => exact bare_selectSlice first last stride v
    | wildcard =>
      show (selectChildren v).bare = selectChildren v.bare
      unfold selectChildren
      rw [children?_bare]
      split <;> rfl
    | recursiveKey name => exact bare_selectBySearch _ v
    | recursiveIndex position => exact bare_selectBySearch _ v
    | recursiveWildcard => exact bare_selectBySearch _ v
    | indices positions =>
      show (selectIndices positions v).bare = selectIndices positions v.bare
      unfold selectIndices
      rw [items?_bare]
      split <;> rfl
    | keys names =>
      show (selectKeys names v).bare = selectKeys names v.bare
      unfold selectKeys
      rw [outcome_bare]
      split <;> rfl

end Selector

theorem Value.bare_selectBy (v selector : Value) :
    (v.selectBy selector).bare = v.bare.selectBy selector.bare := by
  unfold selectBy
  rw [outcome_bare]
  split
  · exact Selector.bare_selectKey _ v
  · split
    · exact Selector.bare_selectIndex _ v
    · rfl
  · rfl
  · rfl

/-! ## Operators -/

theorem UnaryOperator.bare_apply (op : UnaryOperator) (libraries : Libraries) (v : Value) :
    (op.apply libraries v).bare = (op.apply libraries v.bare).bare := by
  unfold apply
  rw [bare_recordedAs, bare_recordedAs]
  cases h : v.isError with
  | true =>
    have hv : op.compute libraries v = .error v := by
      cases op <;> simp only [compute, requireBool, require_of_isError h] <;> rfl
    have hb : op.compute libraries v.bare = .error v.bare := by
      cases op <;>
        simp only [compute, requireBool, require_of_isError (v := v.bare) h] <;> rfl
    rw [hv, hb]
    rfl
  | false =>
    cases op with
    | not =>
      simp only [compute, requireBool]
      rw [require_bare h rfl]
    | negate =>
      simp only [compute]
      rw [require_bare h rfl]
    | plus =>
      simp only [compute]
      rw [require_bare h rfl]
      cases require .number decimal? v <;> rfl

namespace BinaryOperator

variable (op : BinaryOperator) (libraries : Libraries)

/-- What an operator makes of operands that are no errors does not depend on their records. -/
theorem compute_bare {left right : Value} (hl : left.isError = false)
    (hr : right.isError = false) :
    op.compute libraries left.bare right.bare = op.compute libraries left right := by
  have hdec : ∀ f, onDecimals left.bare right.bare f = onDecimals left right f := by
    intro f
    unfold onDecimals
    rw [require_bare hl rfl, require_bare hr rfl]
  have hbool : ∀ f, onBools left.bare right.bare f = onBools left right f := by
    intro f
    unfold onBools requireBool
    rw [require_bare hl rfl, require_bare hr rfl]
  cases op with
  | add =>
    simp only [compute, adding, reckoning]
    rw [hdec]
    rfl
  | subtract | multiply => exact hdec _
  | divide | modulo => exact hdec _
  | equals | notEquals => rfl
  | less | lessEquals | greater | greaterEquals => exact hdec _
  | regex =>
    simp only [compute, matching]
    rw [require_bare hl rfl, require_bare hr rfl]
  | elementOf => rfl
  | lazyAnd | lazyOr | eagerAnd | eagerOr | xor => exact hbool _

theorem bare_apply (left right : Value) :
    (op.apply libraries left right).bare = (op.apply libraries left.bare right.bare).bare := by
  unfold apply
  rw [bare_recordedAs, bare_recordedAs, isError_bare, isError_bare]
  cases hl : left.isError with
  | true => rfl
  | false =>
    cases hr : right.isError with
    | true => rfl
    | false =>
      rw [op.compute_bare libraries hl hr]
      rfl

theorem bare_applyAll (vs : List Value) :
    (op.applyAll libraries vs).bare = (op.applyAll libraries (vs.map bare)).bare := by
  match vs with
  | [] => rfl
  | [_] => rfl
  | [left, right] => exact op.bare_apply libraries left right
  | _ :: _ :: _ :: _ => rfl

end BinaryOperator

/-! ## Functions -/

/-- **A pure function** gives equal results for equal arguments, whatever their records. -/
def Function.Pure (f : Function) : Prop :=
  ∀ as bs : List Value, as.map bare = bs.map bare → (f as).map bare = (f bs).map bare

/-- All functions of a registry are pure. -/
def Functions.Pure (fs : Functions) : Prop :=
  ∀ name f, Dict.get? fs name = some f → Function.Pure f

theorem Functions.Pure.bare_call {fs : Functions} (h : fs.Pure) (name : String)
    (arguments : List Value) :
    (fs.call name arguments).bare = (fs.call name (arguments.map bare)).bare := by
  cases hf : Dict.get? fs name with
  | none =>
    unfold Functions.call
    rw [hf]
  | some f =>
    have hresult := h name f hf arguments (arguments.map bare) (by simp [Function.comp_def])
    unfold Functions.call
    rw [hf]
    dsimp only
    revert hresult
    -- results that agree up to their records are both values or the same failure
    cases f arguments <;> cases f (arguments.map bare) <;> intro hresult
    · rw [Except.error.inj hresult]
    · cases hresult
    · cases hresult
    · exact Except.ok.inj hresult

/-! ### The standard functions are pure -/

namespace Function

/-- A function that bares its arguments to begin with is pure. -/
theorem pure_of_bare {f : Function}
    (h : ∀ as, (f as).map bare = (f (as.map bare)).map bare) : Function.Pure f := by
  intro as bs hab
  rw [h as, h bs, hab]

theorem pure_length : Function.Pure length := by
  refine pure_of_bare fun as => ?_
  match as with
  | [] => rfl
  | [_] => rfl
  | _ :: _ :: _ => simp [length]

theorem pure_toText : Function.Pure toText := by
  refine pure_of_bare fun as => ?_
  match as with
  | [] => rfl
  | [v] => rfl
  | _ :: _ :: _ => simp [toText]

theorem renderFrom_map_bare (position : Nat) (vs : List Value) :
    renderFrom position (vs.map bare) = renderFrom position vs := by
  induction vs generalizing position with
  | nil => rfl
  | cons v vs ih =>
    rw [List.map_cons, renderFrom, renderFrom, ih]
    rfl

theorem pure_append : Function.Pure append := by
  refine pure_of_bare fun as => ?_
  unfold append
  rw [renderFrom_map_bare]

theorem pure_blacken : Function.Pure blacken := by
  refine pure_of_bare fun as => ?_
  cases as with
  | nil => rfl
  | cons text options =>
    have hcount : ∀ position (v? : Option Value),
        countArgument position (v?.map bare) = countArgument position v? := by
      intro position v?
      cases v? <;> rfl
    have htext : ∀ position v, textArgument position (bare v) = textArgument position v :=
      fun _ _ => rfl
    show (blacken (text :: options)).map bare = (blacken (text.bare :: options.map bare)).map bare
    unfold blacken
    simp only [List.length_map, List.getElem?_map, hcount, htext]
    cases options[2]? <;> rfl

theorem pure_replace : Function.Pure replace := by
  refine pure_of_bare fun as => ?_
  match as with
  | [] => rfl
  | [_] => rfl
  | [v, replacement] =>
    show (Except.ok _ : Except CallFailure Value) = Except.ok _
    rw [isError_bare]
    cases v.isError <;> rfl
  | _ :: _ :: _ :: _ => simp [replace]

end Function

/-- **The standard functions are pure.** -/
theorem Functions.pure_standard : Functions.standard.Pure := by
  intro name f hf
  unfold Functions.standard Dict.ofEntries at hf
  simp only [List.foldl_cons, List.foldl_nil, Dict.get?_insert, Dict.get?_nil] at hf
  split at hf
  · cases hf; exact Function.pure_replace
  split at hf
  · cases hf; exact Function.pure_blacken
  split at hf
  · cases hf; exact Function.pure_append
  split at hf
  · cases hf; exact Function.pure_toText
  split at hf
  · cases hf; exact Function.pure_length
  cases hf

end AccessPolicy
