import AccessPolicy.Pattern.Reader
import AccessPolicy.Proofs.Pattern.Bracket

/-!
# Escapes, numbers and the starts of groups before a closing bracket
-/

namespace AccessPolicy.Pattern

open Reader

variable (n : Nat) (m : Modes)

/-! ## Characters by number -/

theorem readFixedHex_succ (count value : Nat) :
    readFixedHex m (count + 1) value = next.bind fun c => (lift (hexDigit? c)).bind fun d =>
      (skipping m).bind fun _ => readFixedHex m count (value * 16 + d) := by
  funext cs
  cases cs with
  | nil => rfl
  | cons c rest =>
    simp only [readFixedHex, Reader.bind, next, lift, skipping, Option.bind_some]
    cases hexDigit? c <;> rfl

theorem localBelow_readFixedHex (count value : Nat) :
    LocalBelow n (readFixedHex m count value) := by
  induction count generalizing n value with
  | zero => exact .give n value
  | succ count ih =>
    rw [readFixedHex_succ]
    exact .nextBind fun c => .bind (.lift _ _) fun d => .bind (.skipping _ m) fun _ => ih _ _

section Braced

variable {α : Type} (take? : Char → Option α)

/-- A round of reading characters up to a closing brace. -/
def bracedRound (go : List α → Reader (List α)) (taken : List α) : Reader (List α) :=
  next.bind fun c =>
    if c = '\x7d' then (skipping m).bind fun _ => give taken
    else (lift (take? c)).bind fun a => (skipping m).bind fun _ => go (taken ++ [a])

theorem isLoop_readBraced : IsLoop (readBraced m take?) (bracedRound m take?) where
  leavesEnd _ _ _ _ h := nomatch h
  zero _ := rfl
  succ bound taken := by
    funext cs
    cases cs with
    | nil => rfl
    | cons c rest =>
      simp only [readBraced, bracedRound, Reader.bind, next, Option.bind_some]
      split
      · rfl
      · cases take? c <;> rfl
  same n go go' _ h taken := .nextBind fun c => by
    split
    · exact .refl n _
    · exact .bind (.refl n _) (LocalBelow.lift 0 _).leavesEnd fun a => .skippingBind m (h _)
  localBelow n go h taken := .nextBind fun c => by
    split
    · exact .bind (.skipping n m) fun _ => .give n taken
    · exact .bind (.lift n _) fun a => .bind (.skipping n m) fun _ => h _

/-- What stands in braces, the opening one having been read. -/
def braced : Reader (List α) := (skipping m).bind fun _ => unbounded (readBraced m take?) []

theorem braced_eq (cs : List Char) :
    braced m take? cs = readBraced m take? ((m.skip cs).length + 1) [] (m.skip cs) :=
  ((isLoop_readBraced m take?).eq_unbounded (Nat.le_succ _) []).symm

theorem localBelow_braced : LocalBelow n (braced m take?) :=
  .bind (.skipping n m) fun _ => (isLoop_readBraced m take?).unbounded_localBelow n []

end Braced

/-- The character of a number given by its digits in braces. -/
def bracedAtom (digits : List Nat) : Option Atom :=
  if digits.isEmpty then none
  else (charOf? (digits.foldl (fun n d => n * 16 + d) 0)).map .char

/-- The character of a number given by so many digits. -/
def fixedAtom (count n : Nat) : Option Atom :=
  if !m.unicode && count = 2 && 0x7F < n then none else (charOf? n).map .char

theorem readHex_eq (count : Nat) :
    readHex m count = (skipping m).bind fun _ =>
      ifHead (· == '\x7b')
        (fun _ => (braced m hexDigit?).bind fun digits => lift (bracedAtom digits))
        (Reader.bind (readFixedHex m count 0) fun n => lift (fixedAtom m count n)) := by
  funext cs
  show _ = ifHead _ _ _ (m.skip cs)
  unfold readHex
  split
  · next rest hrest =>
    rw [hrest, ifHead_cons, Reader.bind, braced_eq]
    refine Option.bind_congr fun x _ => ?_
    unfold bracedAtom lift
    dsimp only
    split
    · rfl
    · cases charOf? (x.1.foldl (fun n d => n * 16 + d) 0) <;> rfl
  · next hrest =>
    rw [ifHead_of_ne _ _ hrest]
    refine Option.bind_congr fun x _ => ?_
    unfold fixedAtom lift
    dsimp only
    split
    · rfl
    · cases charOf? x.1 <;> rfl

theorem localBelow_readHex (count : Nat) : LocalBelow n (readHex m count) := by
  rw [readHex_eq]
  refine .bind (.skipping n m) fun _ => .ifHead rfl (fun _ => ?_) ?_
  · exact .bind (localBelow_braced _ m hexDigit?) fun digits => .lift _ _
  · exact .bind (localBelow_readFixedHex n m count 0) fun _ => .lift n _

/-! ## Properties -/

/-- The class of a property of some name. -/
def propertyAtom (inverted : Bool) (name : List Char) : Option Atom :=
  (m.property? inverted (String.ofList name)).map .set

/-- What is written for a property without braces. -/
def propertyChar (inverted : Bool) (c : Char) : Option Atom :=
  if c = '\\' then none else propertyAtom m inverted [c]

theorem readProperty_eq (inverted : Bool) :
    readProperty m inverted = (skipping m).bind fun _ =>
      ifHead (· == '\x7b')
        (fun _ => (braced m some).bind fun name => lift (propertyAtom m inverted name))
        (next.bind fun c => (lift (propertyChar m inverted c)).bind fun atom =>
          (skipping m).bind fun _ => give atom) := by
  funext cs
  show _ = ifHead _ _ _ (m.skip cs)
  unfold readProperty
  split
  · next hrest =>
    rw [hrest]
    rfl
  · next rest hrest =>
    rw [hrest, ifHead_cons, Reader.bind, braced_eq]
    refine Option.bind_congr fun x _ => ?_
    unfold propertyAtom lift
    dsimp only
    cases m.property? inverted (String.ofList x.1) <;> rfl
  · next c rest hbrace hrest =>
    rw [hrest, ifHead_of_ne _ _ fun _ h => hbrace (List.cons.inj h).1]
    simp only [Reader.bind, next, Option.bind_some, lift, propertyChar, propertyAtom]
    split
    · rfl
    · cases m.property? inverted (String.ofList [c]) <;> rfl

theorem localBelow_readProperty (inverted : Bool) : LocalBelow n (readProperty m inverted) := by
  rw [readProperty_eq]
  refine .bind (.skipping n m) fun _ => .ifHead rfl (fun _ => ?_) ?_
  · exact .bind (localBelow_braced _ m some) fun name => .lift _ _
  · exact .nextBind fun c => .bind (.lift _ _) fun atom => .bind (.skipping _ m) fun _ =>
      .give _ atom

/-! ## Boundaries of words -/

/-- A round of reading the name of a boundary. -/
def boundaryNameRound (go : Unit → Reader (List Char)) (_ : Unit) : Reader (List Char) :=
  ifHead isBoundaryChar
    (fun c => (skipping m).bind fun _ => (go ()).bind fun name => give (c :: name)) (give [])

theorem isLoop_readBoundaryName :
    IsLoop (fun bound _ cs => some (readBoundaryName m bound cs)) (boundaryNameRound m) where
  leavesEnd _ := (LocalBelow.give 0 []).leavesEnd
  zero _ := rfl
  succ bound _ := by
    funext cs
    cases cs with
    | nil => rfl
    | cons c rest =>
      rw [readBoundaryName, boundaryNameRound, ifHead]
      split <;> rfl
  same n go go' hend h _ := .ifHead
    (fun c => .skippingBind m (.bind (h ()) (hend ()) fun name => .refl n _)) (.refl _ _)
  localBelow n go h _ := .ifHead rfl
    (fun c => .bind (.skipping n m) fun _ => .bind (h ()) fun name => .give n _) (.give _ _)

/-- The name of a boundary up to what is not part of it. -/
def boundaryName : Reader (List Char) :=
  unbounded (fun bound _ cs => some (readBoundaryName m bound cs)) ()

/-- Whether braces hold the name of a boundary. -/
def namesBoundary : List Char → Bool
  | '\x7b' :: rest => (m.skip rest).head?.any isBoundaryChar
  | _ => false

/-- A boundary, perhaps with its name in braces. -/
def boundary : Reader Atom :=
  ifAhead (namesBoundary m)
    (next.bind fun _ => (skipping m).bind fun _ => (boundaryName m).bind fun name =>
      ifHead (· == '\x7d')
        (fun _ => lift ((boundaryNamed? m (String.ofList name)).map .check)) (lift none))
    (give (.check (.boundary m.word)))

theorem namesBoundary_append (cs w : List Char) (hw : '\n' ∉ w) :
    namesBoundary m (cs ++ ')' :: w) = namesBoundary m cs := by
  rcases cs with _ | ⟨c, cs⟩
  · rfl
  by_cases hc : c = '\x7b'
  · subst hc
    simp only [List.cons_append, namesBoundary]
    rcases skip_append m cs with h | h
    · rw [h w hw]
      cases m.skip cs <;> rfl
    · rw [(h w hw).1, (h w hw).2]
  · rw [List.cons_append, namesBoundary, namesBoundary]
    all_goals
      rintro rest ⟨⟩
      exact hc rfl

theorem localBelow_boundary : LocalBelow n (boundary m) := by
  refine .ifAhead (namesBoundary_append m) (.nextBind fun _ => ?_) (.give n _)
  refine .bind (.skipping _ m) fun _ => ?_
  refine .bind ((isLoop_readBoundaryName m).unbounded_localBelow _ ()) fun name => ?_
  exact .ifHead rfl (fun _ => .lift _ _) (.lift _ _)

/-- A boundary is read in the same way, unless the text ends right after a brace. -/
theorem readBoundary_eq (cs : List Char) :
    readBoundary m cs = boundary m cs
      ∨ ∃ rest, cs = '\x7b' :: rest ∧ m.skip rest = [] ∧ readBoundary m cs = none
          ∧ boundary m cs = some (.check (.boundary m.word), cs) := by
  unfold readBoundary boundary ifAhead
  split
  · next rest =>
    cases hskip : m.skip rest with
    | nil => exact .inr ⟨rest, rfl, hskip, by simp, by simp [namesBoundary, hskip, give]⟩
    | cons c ds =>
      refine .inl ?_
      simp only [namesBoundary, hskip, List.head?_cons, Option.any_some]
      split
      · have hname : boundaryName m (c :: ds)
            = some (readBoundaryName m (ds.length + 2) (c :: ds)) :=
          ((isLoop_readBoundaryName m).eq_unbounded (Nat.le_succ (c :: ds).length) ()).symm
        show _ = (boundaryName m (m.skip rest)).bind fun x => ifHead (· == '\x7d')
          (fun _ => lift ((boundaryNamed? m (String.ofList x.1)).map Atom.check)) (lift none) x.2
        rw [hskip, hname, Option.bind_some]
        rcases readBoundaryName m (ds.length + 2) (c :: ds) with ⟨name, more⟩
        dsimp only
        split
        · next name more h =>
          obtain ⟨rfl, rfl⟩ := Prod.mk.inj h
          rw [ifHead_cons]
          unfold lift
          cases boundaryNamed? m (String.ofList name) <;> rfl
        · next hmore =>
          rw [ifHead_of_ne _ _ fun rest hrest => hmore name rest (by rw [hrest])]
          rfl
      · rfl
  · next hcs =>
    refine .inl ?_
    rw [namesBoundary]
    · rfl
    · exact hcs

/-! ## Escapes -/

/-- What a character stands for after a backslash, if that is told from it alone. -/
def escapedAtom (c : Char) : Option Atom :=
  match classOf? m c with
  | some (inverted, s) => (if inverted then m.invert? s else some s).map .set
  | none => if standsForItself c then some (.char c) else meaningOf? m c

/-- What a character stands for after a backslash. The sign of a boundary is read as above. -/
def escapeAfter : Char → Reader Atom
  | 'x' => readHex m 2
  | 'u' => readHex m 4
  | 'U' => readHex m 8
  | 'b' => boundary m
  | 'p' => readProperty m false
  | 'P' => readProperty m true
  | c => lift (escapedAtom m c)

/-- An escape whose backslash has been read. -/
def escape : Reader Atom := next.bind (escapeAfter m)

theorem localBelow_escape : LocalBelow n (escape m) := by
  refine .nextBind fun c => ?_
  unfold escapeAfter
  split
  · exact localBelow_readHex _ m 2
  · exact localBelow_readHex _ m 4
  · exact localBelow_readHex _ m 8
  · exact localBelow_boundary _ m
  · exact localBelow_readProperty _ m false
  · exact localBelow_readProperty _ m true
  · exact .lift _ _

/-- Something is read in the same way, or not at all where the other way leaves a brace at the end
of the text. -/
def SameUnlessBrace {α : Type} (condition : Assertion → α) (x y : Option (α × List Char)) : Prop :=
  x = y ∨ x = none ∧ ∃ a rest, y = some (condition a, '\x7b' :: rest) ∧ m.skip rest = []

theorem readEscape_eq (cs : List Char) :
    SameUnlessBrace m .check (readEscape m cs) (escape m cs) := by
  rcases cs with _ | ⟨c, cs⟩
  · exact .inl rfl
  show SameUnlessBrace m _ (readEscape m (c :: cs)) (escapeAfter m c cs)
  unfold escapeAfter
  split
  · exact .inl rfl
  · exact .inl rfl
  · exact .inl rfl
  · rcases readBoundary_eq m cs with h | ⟨rest, rfl, hrest, hnone, hsome⟩
    · exact .inl h
    · exact .inr ⟨hnone, _, rest, hsome, hrest⟩
  · exact .inl rfl
  · exact .inl rfl
  · refine .inl ?_
    rw [readEscape]
    · unfold lift escapedAtom
      cases classOf? m c with
      | some x => exact (Option.map_map (·, cs) Atom.set _).symm
      | none =>
        dsimp only
        split
        · rfl
        · rfl
    all_goals assumption

/-! ## Single characters -/

/-- What a character stands for that has no meaning for the sequence it is in. -/
def atomAfter : Char → Reader Pattern
  | '\\' => (escape m).bind fun a => give (ofAtom m a)
  | '.' => lift (dot m)
  | '^' => give (.check (caret m))
  | '$' => give (.check (dollar m))
  | c => give (literal m c)

/-- A single character or an escape, a boundary being read as above. -/
def atom : Reader Pattern := next.bind (atomAfter m)

theorem localBelow_atomAfter (c : Char) : LocalBelow n (atomAfter m c) := by
  unfold atomAfter
  split
  · exact .bind (localBelow_escape _ m) fun a => .give _ _
  · exact .lift _ _
  · exact .give _ _
  · exact .give _ _
  · exact .give _ _

theorem readAtom_eq (cs : List Char) : SameUnlessBrace m .check (readAtom m cs) (atom m cs) := by
  rcases cs with _ | ⟨c, cs⟩
  · exact .inl rfl
  show SameUnlessBrace m _ (readAtom m (c :: cs)) (atomAfter m c cs)
  unfold atomAfter
  split
  · rcases readEscape_eq m cs with h | ⟨hnone, a, rest, hsome, hrest⟩
    · refine .inl ?_
      rw [readAtom, h]
      rfl
    · refine .inr ⟨?_, a, rest, ?_, hrest⟩
      · rw [readAtom, hnone]
        rfl
      · rw [Reader.bind, hsome]
        rfl
  · exact .inl rfl
  · exact .inl rfl
  · exact .inl rfl
  · refine .inl ?_
    rw [readAtom]
    · rfl
    all_goals assumption

/-! ## Numbers of times -/

/-- A round of reading the digits of a number of times. -/
def digitsRound (go : Unit → Reader (List Digit)) (_ : Unit) : Reader (List Digit) :=
  ifHead (fun c => (Digit.ofChar? c).isSome)
    (fun c => (lift (Digit.ofChar? c)).bind fun d => (skipping m).bind fun _ =>
      (go ()).bind fun ds => give (d :: ds))
    (give [])

theorem isLoop_readDigits :
    IsLoop (fun bound _ cs => some (readDigits m bound cs)) (digitsRound m) where
  leavesEnd _ := (LocalBelow.give 0 []).leavesEnd
  zero _ := rfl
  succ bound _ := by
    funext cs
    cases cs with
    | nil => rfl
    | cons c rest =>
      rw [readDigits, digitsRound, ifHead]
      cases h : Digit.ofChar? c with
      | none => rfl
      | some d => simp [Reader.bind, lift, skipping, give]
  same n go go' hend h _ := .ifHead
    (fun c => .bind (.refl n _) (LocalBelow.lift 0 _).leavesEnd fun d =>
      .skippingBind m (.bind (h ()) (hend ()) fun ds => .refl n _)) (.refl _ _)
  localBelow n go h _ := .ifHead rfl
    (fun c => .bind (.lift n _) fun d => .bind (.skipping n m) fun _ =>
      .bind (h ()) fun ds => .give n _) (.give _ _)

/-- Passes over blanks, whatever the mode. -/
def blanks : Reader Unit := fun cs => some ((), cs.dropWhile Text.isBlank)

theorem localBelow_blanks : LocalBelow n blanks := by
  refine ⟨?_, fun cs hcs => .inl fun w _ => ?_⟩
  · rintro cs _ _ ⟨⟩
    exact List.dropWhile_suffix _
  · clear hcs
    induction cs with
    | nil => rfl
    | cons c cs ih =>
      simp only [blanks, List.cons_append, List.dropWhile_cons] at ih ⊢
      split
      · exact ih
      · rfl

/-- The number of times that digits stand for. -/
def timesOf : List Digit → Option Nat
  | [] => none
  | ds => if Digit.value ds ≤ maxTimes then some (Digit.value ds) else none

theorem readCount_eq :
    readCount m = blanks.bind fun _ =>
      (unbounded (fun bound _ cs => some (readDigits m bound cs)) ()).bind fun ds =>
        (lift (timesOf ds)).bind fun times => blanks.bind fun _ => (skipping m).bind fun _ =>
          give times := by
  funext cs
  have hdigits (cs : List Char) : unbounded (fun bound _ cs => some (readDigits m bound cs)) () cs
      = some (readDigits m (cs.length + 1) cs) :=
    ((isLoop_readDigits m).eq_unbounded (Nat.le_succ cs.length) ()).symm
  simp only [readCount, Reader.bind, blanks, Option.bind_some, hdigits]
  rcases readDigits m ((cs.dropWhile Text.isBlank).length + 1) (cs.dropWhile Text.isBlank)
    with ⟨_ | ⟨d, ds⟩, rest⟩
  · rfl
  · simp only [lift, timesOf]
    split <;> rfl

theorem localBelow_readCount : LocalBelow n (readCount m) := by
  rw [readCount_eq]
  refine .bind (localBelow_blanks n) fun _ => ?_
  refine .bind ((isLoop_readDigits m).unbounded_localBelow n ()) fun ds => ?_
  exact .bind (.lift n _) fun _ => .bind (localBelow_blanks n) fun _ =>
    .bind (.skipping n m) fun _ => .give n _

theorem readCounts_eq :
    readCounts m = (skipping m).bind fun _ => Reader.bind (readCount m) fun least =>
      ifHead (· == '\x7d') (fun _ => give (least, some least))
        (ifHead (· == ',')
          (fun _ => (skipping m).bind fun _ =>
            ifHead (· == '\x7d') (fun _ => give (least, none))
              (Reader.bind (readCount m) fun most =>
                ifHead (· == '\x7d')
                  (fun _ => lift (if least ≤ most then some (least, some most) else none))
                  (lift none)))
          (lift none)) := by
  funext cs
  unfold readCounts
  refine Option.bind_congr fun ⟨least, rest⟩ hleast => ?_
  clear hleast
  dsimp only
  split
  · rw [ifHead_cons]
    rfl
  · next rest =>
    rw [ifHead_of_ne _ _ (by simp), ifHead_cons]
    show _ = ifHead _ _ _ (m.skip rest)
    split
    · next rest h =>
      rw [h, ifHead_cons]
      rfl
    · next rest h =>
      rw [ifHead_of_ne _ _ h]
      refine Option.bind_congr fun ⟨most, rest⟩ _ => ?_
      dsimp only
      split
      · rw [ifHead_cons]
        unfold lift
        split <;> rfl
      · next h =>
        rw [ifHead_of_ne _ _ h]
        rfl
  · next h h' =>
    rw [ifHead_of_ne _ _ h, ifHead_of_ne _ _ h']
    rfl

theorem localBelow_readCounts : LocalBelow n (readCounts m) := by
  rw [readCounts_eq]
  refine .bind (.skipping n m) fun _ => .bind (localBelow_readCount n m) fun least => ?_
  refine .ifHead rfl (fun _ => .give _ _) (.ifHead rfl (fun _ => ?_) (.lift n _))
  refine .bind (.skipping _ m) fun _ => .ifHead rfl (fun _ => .give _ _) ?_
  exact .bind (localBelow_readCount _ m) fun most => .ifHead rfl (fun _ => .lift _ _) (.lift _ _)

/-- Whether a repetition is greedy. -/
def greed : Reader Bool := ifHead (· == '?') (fun _ => give m.swapGreed) (give !m.swapGreed)

theorem greed_eq (cs : List Char) : greed m cs = some (readGreed m cs) := by
  unfold greed readGreed
  split
  · rw [ifHead_cons]
    rfl
  · next h =>
    rw [ifHead_of_ne _ _ fun rest => h rest]
    rfl

theorem localBelow_greed : LocalBelow n (greed m) :=
  .ifHead rfl (fun _ => .give _ _) (.give _ _)

end AccessPolicy.Pattern
