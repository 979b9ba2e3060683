import AccessPolicy.Proofs.Pattern.Pieces
import Mathlib.Data.List.TakeDrop

/-!
# Names, modes and the starts of groups before a closing bracket

A name up to its closing sign is not at an end at the bracket, which is part of no name.
-/

namespace AccessPolicy.Pattern

open Reader

variable (n : Nat)

/-! ## Up to a sign -/

/-- What stands before a sign that a text has is not changed by what comes after the text; if the
text does not have the sign, then the bracket stands before it. -/
theorem span_append {p : Char → Bool} (hp : p ')' = true) (cs : List Char) :
    (∃ front c back, cs.span p = (front, c :: back)
        ∧ ∀ w, (cs ++ w).span p = (front, c :: (back ++ w)))
      ∨ cs.span p = (cs, [])
        ∧ ∀ w, ∃ more rest, (cs ++ ')' :: w).span p = (cs ++ ')' :: more, rest) := by
  simp only [List.span_eq_takeWhile_dropWhile]
  induction cs with
  | nil =>
    refine .inr ⟨rfl, fun w => ⟨w.takeWhile p, w.dropWhile p, ?_⟩⟩
    rw [List.nil_append, List.takeWhile_cons_of_pos hp, List.dropWhile_cons_of_pos hp]
    rfl
  | cons c cs ih =>
    by_cases hc : p c = true
    · simp only [List.cons_append, List.takeWhile_cons_of_pos hc, List.dropWhile_cons_of_pos hc]
      rcases ih with ⟨front, d, back, hshort, hlong⟩ | ⟨hshort, hlong⟩
      · refine .inl ⟨c :: front, d, back, ?_, fun w => ?_⟩
        · rw [← (Prod.mk.inj hshort).1, ← (Prod.mk.inj hshort).2]
        · rw [(Prod.mk.inj (hlong w)).1, (Prod.mk.inj (hlong w)).2]
      · refine .inr ⟨?_, fun w => ?_⟩
        · rw [(Prod.mk.inj hshort).1, (Prod.mk.inj hshort).2]
        · obtain ⟨more, rest, h⟩ := hlong w
          exact ⟨more, rest, by rw [(Prod.mk.inj h).1, (Prod.mk.inj h).2]⟩
    · refine .inl ⟨[], c, cs, ?_, fun w => ?_⟩
      · rw [List.takeWhile_cons_of_neg hc, List.dropWhile_cons_of_neg hc]
      · rw [List.cons_append, List.takeWhile_cons_of_neg hc, List.dropWhile_cons_of_neg hc]

/-- What stands after a sign is an end of the text. -/
theorem span_suffix {p : Char → Bool} {cs front back : List Char} (h : cs.span p = (front, back)) :
    back <:+ cs := by
  rw [List.span_eq_takeWhile_dropWhile] at h
  rw [← (Prod.mk.inj h).2]
  exact List.dropWhile_suffix p

/-! ## Names -/

theorem isNameChar_bracket (first : Bool) : isNameChar first ')' = false := by
  cases first <;> decide +kernel

theorem localBelow_readName : LocalBelow n readName := by
  refine ⟨?_, fun cs _ => .inl fun w _ => ?_⟩
  · intro cs name rest h
    unfold readName at h
    split at h
    · next c front back hspan =>
      split at h
      · obtain ⟨-, rfl⟩ := Prod.mk.inj (Option.some.inj h)
        exact (List.suffix_cons _ _).trans (span_suffix hspan)
      · exact nomatch h
    · exact nomatch h
  rcases span_append (p := (· != '>')) rfl cs with ⟨front, d, back, hshort, hlong⟩ | ⟨hshort, hlong⟩
  · unfold readName
    rw [hshort, hlong]
    rcases front with _ | ⟨c, front⟩
    · rfl
    by_cases hd : d = '>'
    · subst hd
      simp only
      split <;> rfl
    · simp [hd]
  · -- without the closing sign, the bracket would be part of the name
    obtain ⟨more, rest, h⟩ := hlong w
    have hnone : readName cs = none := by
      unfold readName
      rw [hshort]
      cases cs <;> rfl
    rw [hnone, readName, h]
    split
    · next c name rest heq =>
      have hname := (Prod.mk.inj heq).1
      rw [if_neg]
      · rfl
      rcases cs with _ | ⟨d, cs⟩
      · obtain ⟨rfl, rfl⟩ := List.cons.inj hname
        simp [isNameChar_bracket]
      · obtain ⟨rfl, rfl⟩ := List.cons.inj hname
        simp [isNameChar_bracket]
    · rfl

/-! ## Modes -/

/-- How a group starts whose modes have been read. -/
def modesEnd : Modes × List Char × List Char → Option (GroupStart × List Char)
  | (m, read, ')' :: rest) => if read.isEmpty then none else some (.setting m, rest)
  | (m, _, _ :: rest) => some (.plain m, rest)
  | _ => none

/-- A group that starts with modes. -/
def groupModes (value : Bool) (read : List Char) (m : Modes) : Reader GroupStart :=
  fun cs => (readModes value read m cs).bind modesEnd

theorem groupModes_eq (value : Bool) (read : List Char) (m : Modes) :
    groupModes value read m = next.bind fun c =>
      if c = ':' ∨ c = ')' then
        lift (if read.head? = some '-' then none
          else if c = ')' then if read.isEmpty then none else some (.setting m)
          else some (.plain m))
      else if read.contains c then lift none
      else if c = '-' then groupModes false (c :: read) m
      else (lift (setMode m c value)).bind fun m => groupModes value (c :: read) m := by
  funext cs
  cases cs with
  | nil => rfl
  | cons c cs =>
    unfold groupModes Reader.bind next
    rw [readModes, Option.bind_some]
    dsimp only
    split
    · next hc =>
      rcases hc with rfl | rfl
      · simp only [lift]
        split <;> rfl
      · simp only [lift]
        split
        · rfl
        · simp only [Option.bind_some, modesEnd, if_true]
          split <;> rfl
    · split
      · rfl
      · split
        · rfl
        · cases setMode m c value <;> rfl

theorem groupModes_leavesEnd (value : Bool) (read : List Char) (m : Modes) :
    (groupModes value read m).LeavesEnd := by
  intro cs
  induction cs generalizing value read m with
  | nil => exact fun _ _ h => nomatch h
  | cons c cs ih =>
    intro start rest h
    rw [groupModes_eq] at h
    refine List.IsSuffix.trans ?_ (List.suffix_cons c cs)
    unfold Reader.bind next at h
    rw [Option.bind_some] at h
    dsimp only at h
    split at h
    · exact (LocalBelow.lift 0 _).leavesEnd cs start rest h
    · split at h
      · exact nomatch h
      · split at h
        · exact ih _ _ _ start rest h
        · obtain ⟨⟨m', cs'⟩, hm, h⟩ := Option.bind_eq_some_iff.1 h
          obtain ⟨_, -, hcs⟩ := Option.map_eq_some_iff.1 hm
          obtain ⟨rfl, rfl⟩ := Prod.mk.inj hcs
          exact ih _ _ _ start rest h

theorem localBelow_groupModes (value : Bool) (read : List Char) (m : Modes) :
    LocalBelow n (groupModes value read m) := by
  induction n generalizing value read m with
  | zero => exact ⟨groupModes_leavesEnd value read m, fun _ h => nomatch h⟩
  | succ n ih =>
    rw [groupModes_eq]
    refine .nextBind fun c => ?_
    split
    · exact .lift n _
    · split
      · exact .lift n _
      · split
        · exact ih _ _ _
        · exact .bind (.lift n _) fun m => ih _ _ m

/-! ## The starts of groups -/

/-- A group with a name. -/
def namedGroup (r : Reading) : Reader GroupStart :=
  Reader.bind readName fun name =>
    lift (if r.names.contains name then none else some (.numbered (some name)))

theorem named_eq (r : Reading) (cs : List Char) : readGroupStart.named r cs = namedGroup r cs := by
  unfold readGroupStart.named namedGroup
  refine Option.bind_congr fun ⟨name, rest⟩ hname => ?_
  unfold lift
  dsimp only
  split <;> rfl

/-- A group whose question mark has been read. -/
def groupAfterMark (r : Reading) : Reader GroupStart :=
  ifHead (· == '=') (fun _ => lift none) <| ifHead (· == '!') (fun _ => lift none) <|
  ifHead (· == '<') (fun _ =>
    ifHead (· == '=') (fun _ => lift none) <| ifHead (· == '!') (fun _ => lift none) <|
    namedGroup r) <|
  ifHead (· == 'P') (fun _ => ifHead (· == '<') (fun _ => namedGroup r) (lift none)) <|
  groupModes true [] r.modes

theorem readGroupStart_eq (r : Reading) :
    readGroupStart r
      = ifHead (· == '?') (fun _ => groupAfterMark r) (give (.numbered none)) := by
  funext cs
  unfold readGroupStart
  split
  · rfl
  · rfl
  · rfl
  · rfl
  · rw [named_eq]
    rfl
  · next rest h h' =>
    rw [named_eq, ifHead_cons, groupAfterMark, ifHead_of_ne _ _ (by simp),
      ifHead_of_ne _ _ (by simp), ifHead_cons, ifHead_of_ne, ifHead_of_ne]
    · exact fun more hmore => h' more (by rw [hmore])
    · exact fun more hmore => h more (by rw [hmore])
  · next rest hequal hmark _ _ hnamed hless =>
    rw [ifHead_cons, groupAfterMark, ifHead_of_ne _ _ hequal, ifHead_of_ne _ _ hmark,
      ifHead_of_ne _ _ hless]
    by_cases hP : ∃ more, rest = 'P' :: more
    · obtain ⟨more, rfl⟩ := hP
      rw [ifHead_cons, ifHead_of_ne _ _ fun rest hrest => hnamed rest (by rw [hrest])]
      rfl
    · rw [ifHead_of_ne _ _ fun more hmore => hP ⟨more, hmore⟩]
      refine Option.bind_congr fun ⟨m, read, ds⟩ hread => ?_
      clear hread
      rcases ds with _ | ⟨c, ds⟩
      · rfl
      by_cases hc : c = ')'
      · subst hc
        rfl
      · simp [modesEnd]
  · next h =>
    rw [ifHead_of_ne _ _ h]
    rfl

theorem localBelow_readGroupStart (r : Reading) : LocalBelow n (readGroupStart r) := by
  have hnamed (n : Nat) : LocalBelow n (namedGroup r) :=
    .bind (localBelow_readName n) fun name => .lift n _
  rw [readGroupStart_eq]
  refine .ifHead rfl (fun _ => ?_) (.give n _)
  refine .ifHead rfl (fun _ => .lift _ _) (.ifHead rfl (fun _ => .lift _ _) ?_)
  refine .ifHead rfl (fun _ => ?_) ?_
  · exact .ifHead rfl (fun _ => .lift _ _) (.ifHead rfl (fun _ => .lift _ _) (hnamed _))
  · exact .ifHead rfl (fun _ => .ifHead rfl (fun _ => hnamed _) (.lift _ _))
      (localBelow_groupModes _ _ _ _)

end AccessPolicy.Pattern
