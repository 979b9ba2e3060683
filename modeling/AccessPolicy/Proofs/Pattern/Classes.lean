import AccessPolicy.Proofs.Pattern.Groups

/-!
# Classes in brackets before a closing bracket

Within a class a closing bracket is a member of it, so a class that a text does not close goes past
the bracket, or is refused.
-/

namespace AccessPolicy.Pattern

open Reader

variable (n : Nat) (m : Modes)

/-! ## The front -/

/-- A round of reading hyphens at the front of a class. -/
def hyphensRound (go : Brackets → Reader Brackets) (b : Brackets) : Reader Brackets :=
  ifHead (· == '-') (fun _ => (skipping m).bind fun _ => go (b.add (.item (.single '-')))) (give b)

theorem isLoop_readHyphens :
    IsLoop (fun bound b cs => some (readHyphens m bound b cs)) (hyphensRound m) where
  leavesEnd b := (LocalBelow.give 0 b).leavesEnd
  zero _ := rfl
  succ bound b := by
    funext cs
    unfold hyphensRound
    by_cases h : ∃ rest, cs = '-' :: rest
    · obtain ⟨rest, rfl⟩ := h
      rw [ifHead_cons]
      rfl
    · have hne : ∀ rest, cs = '-' :: rest → False := fun rest hrest => h ⟨rest, hrest⟩
      rw [ifHead_of_ne _ _ hne, readHyphens]
      · rfl
      · exact hne
  same n go go' _ h b := .ifHead (fun _ => .skippingBind m (h _)) (.refl _ _)
  localBelow n go h b := .ifHead rfl (fun _ => .bind (.skipping n m) fun _ => h _) (.give _ b)

/-- The signs that stand for themselves at the front of a class, once it is told whether it is
inverted. -/
def classSigns (inverted : Bool) : Reader (Bool × Brackets) :=
  (unbounded (fun bound b cs => some (readHyphens m bound b cs)) .nothing).bind fun b =>
    if b = .nothing then
      ifHead (· == ']') (fun _ => (skipping m).bind fun _ => give (inverted, .item (.single ']')))
        (give (inverted, b))
    else give (inverted, b)

/-- The front of a class. -/
def classFront : Reader (Bool × Brackets) :=
  (skipping m).bind fun _ => ifHead (· == '^')
    (fun _ => (skipping m).bind fun _ => classSigns m true) (classSigns m false)

/-- Whether a class is inverted, and what is left after the sign of it. -/
def frontCaret : List Char → Bool × List Char
  | '^' :: rest => (true, m.skip rest)
  | cs => (false, cs)

/-- What the signs at the front of a class come to, given whether it is inverted. -/
def frontSigns (x : Bool × List Char) : Bool × Brackets × List Char :=
  match readHyphens m x.2.length .nothing x.2 with
  | (.nothing, ']' :: rest) => (x.1, .item (.single ']'), m.skip rest)
  | (b, rest) => (x.1, b, rest)

theorem classSigns_eq (inverted : Bool) (cs : List Char) : classSigns m inverted cs
    = some ((inverted, (frontSigns m (inverted, cs)).2.1), (frontSigns m (inverted, cs)).2.2) := by
  unfold classSigns frontSigns
  show (some (readHyphens m cs.length .nothing cs)).bind _ = _
  dsimp only
  rcases readHyphens m cs.length .nothing cs with ⟨b, rest⟩
  rw [Option.bind_some]
  dsimp only
  split
  · next hb =>
    subst hb
    split
    · next rest h =>
      obtain rfl := (Prod.mk.inj h).2
      rw [ifHead_cons]
      rfl
    · next b' rest' hnot h =>
      obtain ⟨rfl, rfl⟩ := Prod.mk.inj h
      rw [ifHead_of_ne _ _ fun more => hnot more rfl]
      rfl
  · next hb =>
    split
    · next rest h => exact absurd (Prod.mk.inj h).1 hb
    · next h =>
      obtain ⟨rfl, rfl⟩ := Prod.mk.inj h
      rfl

theorem classFront_eq (cs : List Char) : classFront m cs
    = some (((readClassFront m cs).1, (readClassFront m cs).2.1), (readClassFront m cs).2.2) := by
  have hfirst (x : Bool × List Char) : (frontSigns m x).1 = x.1 := by
    unfold frontSigns
    split <;> rfl
  have hfront : readClassFront m cs = frontSigns m (frontCaret m (m.skip cs)) := rfl
  show ifHead (· == '^') _ _ (m.skip cs) = _
  rw [hfront, hfirst]
  unfold frontCaret
  split
  · next rest hrest =>
    rw [hrest, ifHead_cons]
    exact classSigns_eq m true (m.skip rest)
  · next hne =>
    rw [ifHead_of_ne _ _ hne]
    exact classSigns_eq m false (m.skip cs)

theorem localBelow_classFront : LocalBelow n (classFront m) := by
  have hsigns (n : Nat) (inverted : Bool) : LocalBelow n (classSigns m inverted) := by
    refine .bind ((isLoop_readHyphens m).unbounded_localBelow n .nothing) fun b => ?_
    split
    · exact .ifHead rfl (fun _ => .bind (.skipping _ m) fun _ => .give _ _) (.give n _)
    · exact .give n _
  exact .bind (.skipping n m) fun _ => .ifHead rfl
    (fun _ => .bind (.skipping _ m) fun _ => hsigns _ true) (hsigns n false)

/-! ## Named classes -/

/-- A class whose name has been read up to a colon. -/
def namedEnd (inverted : Bool) : List Char × List Char → Option ((Bool × CharSet) × List Char)
  | (name, ':' :: ']' :: rest) =>
    (CharSet.named? (String.ofList name)).map fun s => ((inverted, s), rest)
  | _ => none

/-- A class named up to a colon. -/
def namedClass (inverted : Bool) : Reader (Bool × CharSet) :=
  fun cs => namedEnd inverted (cs.span (· != ':'))

theorem readNamed_eq : readNamed = ifHead (· == ':')
    (fun _ => ifHead (· == '^') (fun _ => namedClass true) (namedClass false)) (lift none) := by
  funext cs
  unfold readNamed
  split
  · next rest =>
    rw [ifHead_cons]
    split
    · next inverted more heq =>
      split at heq
      · obtain ⟨rfl, rfl⟩ := Prod.mk.inj heq
        rw [ifHead_cons]
        rfl
      · next hne =>
        obtain ⟨rfl, rfl⟩ := Prod.mk.inj heq
        rw [ifHead_of_ne _ _ hne]
        rfl
  · next h =>
    rw [ifHead_of_ne _ _ h]
    rfl

/-- No class has a closing bracket in its name. -/
theorem bracket_not_mem_of_named? {name : String} {s : CharSet} (h : CharSet.named? name = some s) :
    ')' ∉ name.toList := by
  unfold CharSet.named? at h
  split at h
  case h_15 => exact nomatch h
  all_goals decide

theorem sees_namedClass (inverted : Bool) (cs : List Char) : (namedClass inverted).Sees cs := by
  intro w _
  unfold namedClass
  rcases span_append (p := (· != ':')) rfl cs with ⟨front, d, back, hshort, hlong⟩ | ⟨hshort, hlong⟩
  · rw [hshort, hlong]
    by_cases hd : d = ':'
    · subst hd
      rcases back with _ | ⟨e, back⟩
      · rfl
      · by_cases he : e = ']'
        · subst he
          simp only [namedEnd, List.cons_append, Option.map_map]
          rfl
        · simp [namedEnd, he]
    · simp [namedEnd, hd]
  · -- without the colon, the bracket would be part of the name
    obtain ⟨more, rest, h⟩ := hlong w
    have hmore : CharSet.named? (String.ofList (cs ++ ')' :: more)) = none := by
      rw [Option.eq_none_iff_forall_not_mem]
      intro s hs
      exact bracket_not_mem_of_named? hs (by simp)
    rw [hshort, h]
    unfold namedEnd
    split
    · next name rest heq =>
      obtain ⟨rfl, -⟩ := Prod.mk.inj heq
      rw [hmore]
      rfl
    · rfl

theorem sees_readNamed (cs : List Char) : Sees readNamed cs := by
  rw [readNamed_eq]
  exact .ifHead rfl (fun _ => .ifHead rfl (fun _ => sees_namedClass true) (sees_namedClass false))
    (fun _ _ _ => rfl) cs

theorem leavesEnd_readNamed : LeavesEnd readNamed := by
  have hnamed (inverted : Bool) : LocalBelow 0 (namedClass inverted) := by
    refine ⟨?_, fun _ h => nomatch h⟩
    intro cs x rest h
    unfold namedClass namedEnd at h
    split at h
    · next name more hspan =>
      obtain ⟨s, -, hx⟩ := Option.map_eq_some_iff.1 h
      obtain ⟨-, rfl⟩ := Prod.mk.inj hx
      exact ((List.suffix_cons _ _).trans (List.suffix_cons _ _)).trans (span_suffix hspan)
    · exact nomatch h
  rw [readNamed_eq]
  exact (LocalBelow.ifHead rfl (fun _ => .ifHead rfl (fun _ => hnamed true) (hnamed false))
    (.lift 0 none)).leavesEnd

/-! ## Members and ranges -/

/-- What a character of a class stands for. -/
def memberAfter (c : Char) : Reader Atom := if c = '\\' then escape m else give (.char c)

/-- A character or an escape of a class, a boundary being read as above. -/
def member : Reader Atom := next.bind (memberAfter m)

theorem localBelow_memberAfter (c : Char) : LocalBelow n (memberAfter m c) := by
  unfold memberAfter
  split
  · exact localBelow_escape _ m
  · exact .give _ _

theorem localBelow_member : LocalBelow n (member m) := .nextBind (localBelow_memberAfter _ m)

theorem readMember_eq (cs : List Char) :
    SameUnlessBrace m .check (readMember m cs) (member m cs) := by
  rcases cs with _ | ⟨c, cs⟩
  · exact .inl rfl
  by_cases hc : c = '\\'
  · subst hc
    exact readEscape_eq m cs
  · refine .inl ?_
    show readMember m (c :: cs) = memberAfter m c cs
    rw [memberAfter, if_neg hc, readMember]
    · rfl
    · exact hc

/-- The set of a range between two members. -/
def rangeSet : Atom → Atom → Option CharSet
  | .char a, .char b =>
    if a.toNat ≤ b.toNat && isListable m b then some (.range a.toNat b.toNat) else none
  | _, _ => none

/-- Whether a member is the first one of a range. -/
def startsRange : List Char → Bool
  | '-' :: more => continuesRange m more
  | _ => false

/-- What a member of a class stands for together with what comes after it. -/
def rangeAfter (first : Atom) : Reader CharSet :=
  (skipping m).bind fun _ => ifAhead (startsRange m)
    (next.bind fun _ => (skipping m).bind fun _ => (member m).bind fun last =>
      lift (rangeSet m first last))
    (lift (memberSet m first))

/-- A member or a range of a class. What ends the text is left to the class. -/
def rangeOrMember : Reader CharSet := (member m).bind (rangeAfter m)

theorem startsRange_append (cs w : List Char) (hw : '\n' ∉ w) :
    startsRange m (cs ++ ')' :: w) = startsRange m cs := by
  rcases cs with _ | ⟨c, cs⟩
  · rfl
  by_cases hc : c = '-'
  · subst hc
    simp only [List.cons_append, startsRange, continuesRange]
    rcases skip_append m cs with h | h
    · rw [h w hw]
      rcases m.skip cs with _ | ⟨d, ds⟩
      · rfl
      · rw [List.cons_append]
        split <;> simp_all
    · rw [(h w hw).1, (h w hw).2]
  · rw [List.cons_append, startsRange, startsRange]
    all_goals
      rintro rest ⟨⟩
      exact hc rfl

theorem localBelow_rangeAfter (first : Atom) : LocalBelow n (rangeAfter m first) := by
  refine .bind (.skipping n m) fun _ => ?_
  refine .ifAhead (startsRange_append m) (.nextBind fun _ => ?_) (.lift n _)
  exact .bind (.skipping _ m) fun _ => .bind (localBelow_member _ m) fun last => .lift _ _

/-- The second member of a range is no boundary either. -/
theorem readMember_bind_rangeSet (first : Atom) (cs : List Char) :
    ((readMember m cs).bind fun x => lift (rangeSet m first x.1) x.2)
      = (member m cs).bind fun x => lift (rangeSet m first x.1) x.2 := by
  rcases readMember_eq m cs with h | ⟨hnone, a, rest, hsome, -⟩
  · rw [h]
  · rw [hnone, hsome]
    cases first <;> rfl

/-- A range is read in the same way, or not at all where the other way reads to the end of the
text. -/
theorem readRange_eq (cs : List Char) :
    readRange m cs = rangeOrMember m cs
      ∨ readRange m cs = none ∧ ∃ s, rangeOrMember m cs = some (s, []) := by
  unfold readRange rangeOrMember rangeAfter Reader.bind
  rcases readMember_eq m cs with hfirst | ⟨hnone, a, rest, hsome, hrest⟩
  · rw [hfirst]
    cases member m cs with
    | none => exact .inl rfl
    | some x =>
      obtain ⟨first, rest⟩ := x
      simp only [Option.bind_eq_bind, Option.bind_some, skipping]
      split
      · next hds =>
        rw [hds]
        cases hset : memberSet m first with
        | none => exact .inl (by simp [ifAhead, startsRange, lift])
        | some s => exact .inr ⟨rfl, s, by simp [ifAhead, startsRange, lift]⟩
      · next more hds =>
        refine .inl ?_
        rw [hds, ifAhead, startsRange]
        split
        · show _ = (member m (m.skip more)).bind fun x => lift (rangeSet m first x.1) x.2
          rw [← readMember_bind_rangeSet]
          refine Option.bind_congr fun x _ => ?_
          obtain ⟨last, rest⟩ := x
          cases first with
          | char a =>
            cases last with
            | char b =>
              simp only [lift, rangeSet]
              split <;> rfl
            | set _ | check _ => rfl
          | set _ | check _ => rfl
        · unfold lift
          cases memberSet m first <;> rfl
      · next hnil hhyphen =>
        refine .inl ?_
        rw [ifAhead, startsRange]
        · unfold lift
          cases memberSet m first <;> rfl
        · exact hhyphen
  · refine .inl ?_
    rw [hnone, hsome]
    simp only [Option.bind_eq_bind, Option.bind_some, Option.bind_none, skipping]
    rw [skip_cons rfl (by decide)]
    rfl

/-! ## Whole classes -/

/-- How far a class has been read: whether it is inverted, what its current list is to be joined to,
and what the list has so far. -/
abbrev ClassState := Bool × Pending × Brackets

namespace ClassState

/-- A list joined to what is before it, and a new one after it. -/
def join (i : ClassState) (how : Join) : ClassState :=
  (i.1, some (how, joined i.2.1 i.2.2), .nothing)

/-- One more item. -/
def add (i : ClassState) (b : Brackets) : ClassState := (i.1, i.2.1, i.2.2.add b)

end ClassState

/-- A round of reading a class. -/
def classRound (go : ClassState → Reader Brackets) (i : ClassState) : Reader Brackets :=
  (skipping m).bind fun _ =>
    ifHead (· == ']') (fun _ => give (.inner i.1 (joined i.2.1 i.2.2))) <|
    ifPair '&' (go (i.join .inter)) <| ifPair '-' (go (i.join .diff)) <|
    ifPair '~' (go (i.join .symmDiff)) <|
    ifHead (· == '[')
      (fun _ => orElse readNamed
        (fun x => (lift (m.close? x.1 x.2)).bind fun s => go (i.add (.item s)))
        ((classFront m).bind fun x =>
          (go (x.1, none, x.2)).bind fun c => go (i.add c)))
      ((rangeOrMember m).bind fun s => go (i.add (.item s)))

/-- The loop that reads a class. -/
def classLoop (bound : Nat) (i : ClassState) : Reader Brackets :=
  readClassRest m bound i.1 i.2.1 i.2.2

theorem classLoop_succ (bound : Nat) (i : ClassState) :
    classLoop m (bound + 1) i = classRound m (classLoop m bound) i := by
  obtain ⟨inverted, pending, b⟩ := i
  have hend (i : ClassState) : classLoop m bound i [] = none := by
    unfold classLoop
    cases bound with
    | zero => rfl
    | succ bound => rw [readClassRest, skip_nil]
  funext cs
  show readClassRest m (bound + 1) inverted pending b cs = ifHead (· == ']') _ _ (m.skip cs)
  rw [readClassRest]
  generalize m.skip cs = ds
  split
  · rfl
  · rw [ifHead_cons]
    rfl
  · rw [ifHead_of_ne _ _ (by simp)]
    rfl
  · rw [ifHead_of_ne _ _ (by simp)]
    rfl
  · rw [ifHead_of_ne _ _ (by simp)]
    rfl
  · next rest =>
    rw [ifHead_of_ne _ _ (by simp), ifPair_of_ne _ _ (by simp), ifPair_of_ne _ _ (by simp),
      ifPair_of_ne _ _ (by simp), ifHead_cons, orElse]
    cases readNamed rest with
    | some x =>
      obtain ⟨⟨turned, s⟩, rest⟩ := x
      unfold Reader.bind lift
      dsimp only
      cases m.close? turned s <;> rfl
    | none =>
      show _ = (classFront m rest).bind _
      rw [classFront_eq]
      rfl
  · next hnil hclose hinter hdiff hsymm hopen =>
    rw [ifHead_of_ne _ _ hclose, ifPair_of_ne _ _ hinter, ifPair_of_ne _ _ hdiff,
      ifPair_of_ne _ _ hsymm, ifHead_of_ne _ _ hopen]
    rcases readRange_eq m ds with h | ⟨hnone, s, hsome⟩
    · rw [h]
      rfl
    · -- at the end of the text the class is not closed
      rw [hnone, Reader.bind, hsome]
      exact (hend _).symm

theorem isLoop_readClassRest : IsLoop (classLoop m) (classRound m) where
  leavesEnd _ _ _ _ h := nomatch h
  zero i := by
    show none = ifHead (· == ']') _ _ (m.skip [])
    rw [skip_nil]
    rfl
  succ := classLoop_succ m
  same n go go' hend h i := by
    refine .skippingBind m (.ifHead (fun _ => .refl _ _) ?_)
    refine .ifPair (h _) (.ifPair (h _) (.ifPair (h _) (.ifHead (fun _ => ?_) ?_)))
    · refine .orElse leavesEnd_readNamed (fun x => ?_) ?_
      · exact .bind (.refl n _) (LocalBelow.lift 0 _).leavesEnd fun s => h _
      · exact .bind (.refl n _) (localBelow_classFront 0 m).leavesEnd fun x =>
          .bind (h _) (hend _) fun c => h _
    · rw [rangeOrMember, member, bind_assoc, bind_assoc, bind_assoc, bind_assoc]
      refine .nextBind fun c => ?_
      refine .bind (.refl n _) (localBelow_memberAfter 0 m c).leavesEnd fun first => ?_
      exact .bind (.refl n _) (localBelow_rangeAfter 0 m first).leavesEnd fun s => h _
  localBelow n go h i := by
    refine .bind (.skipping _ m) fun _ => .ifHead rfl (fun _ => .give _ _) ?_
    refine .ifPair (by decide) (h _) (.ifPair (by decide) (h _) (.ifPair (by decide) (h _) ?_))
    refine .ifHead rfl (fun _ => ?_) ?_
    · refine .orElse leavesEnd_readNamed sees_readNamed (fun x => ?_) ?_
      · exact .bind (.lift n _) fun s => h _
      · exact .bind (localBelow_classFront n m) fun x => .bind (h _) fun c => h _
    · rw [rangeOrMember, member, bind_assoc, bind_assoc]
      refine .nextBind fun c => .bind (localBelow_memberAfter n m c) fun first => ?_
      exact .bind (localBelow_rangeAfter n m first) fun s => h _

/-- A class as a whole, as a tree. -/
def classTree : Reader Brackets :=
  (classFront m).bind fun x => unbounded (classLoop m) (x.1, none, x.2)

theorem readClass_eq : readClass m = (classTree m).bind fun b =>
    lift ((b.set? m).map fun s => .char s b.nesting) := by
  funext cs
  unfold readClass classTree
  rw [bind_assoc]
  show _ = (classFront m cs).bind _
  rw [classFront_eq, Option.bind_some]
  have hle : (readClassFront m cs).2.2.length ≤ cs.length :=
    ((localBelow_classFront 0 m).leavesEnd cs _ _ (classFront_eq m cs)).length_le
  have hloop := (isLoop_readClassRest m).eq_unbounded (Nat.le_succ_of_le hle)
    ((readClassFront m cs).1, none, (readClassFront m cs).2.1)
  unfold Reader.bind
  dsimp only
  rw [← hloop]
  refine Option.bind_congr fun ⟨b, rest⟩ _ => ?_
  unfold lift
  dsimp only
  cases b.set? m <;> rfl

theorem localBelow_readClass : LocalBelow n (readClass m) := by
  rw [readClass_eq]
  refine .bind (.bind (localBelow_classFront n m) fun x => ?_) fun b => .lift n _
  exact (isLoop_readClassRest m).unbounded_localBelow n _

end AccessPolicy.Pattern
