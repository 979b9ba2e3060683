import AccessPolicy.Proofs.Pattern.Classes

/-!
# Sequences and alternatives before a closing bracket

Sequences and alternatives read each other. Each call reads at least one character more than the
last one, or is that of a sequence at the start of an alternative; so a bound that is more than
twice the length of the text is enough.
-/

namespace AccessPolicy.Pattern

open Reader

/-- A pattern and what has been read, with the rest apart. -/
def apart (x : Pattern × Reading × List Char) : (Pattern × Reading) × List Char :=
  ((x.1, x.2.1), x.2.2)

/-- Sequences as a reader. -/
def sequenceWithin (bound : Nat) (r : Reading) (items : List Pattern) :
    Reader (Pattern × Reading) :=
  fun cs => (readSequence bound r items cs).map apart

/-- Alternatives as a reader. -/
def alternativesWithin (bound : Nat) (r : Reading) : Reader (Pattern × Reading) :=
  fun cs => (readAlternatives bound r cs).map apart

/-! ## Rounds -/

section Rounds

variable (seq : Reading → List Pattern → Reader (Pattern × Reading))
  (alt : Reading → Reader (Pattern × Reading))

/-- A round of reading alternatives. -/
def alternativesRound (r : Reading) : Reader (Pattern × Reading) :=
  (seq r []).bind fun x =>
    ifHead (· == '|') (fun _ => (alt x.2).bind fun y => give (.alt x.1 y.1, y.2)) (give x)

/-- The alternatives in a group up to its closing bracket, and what comes after it. -/
def groupBody (r : Reading) (items : List Pattern) (start : GroupStart) :
    Reader (Pattern × Reading) :=
  (alt (enter r start).2).bind fun x => next.bind fun c =>
    if c = ')' then seq { x.2 with modes := r.modes } (.group (enter r start).1 x.1 :: items)
    else lift none

/-- A group whose start has been read, and what comes after it. -/
def groupRound (r : Reading) (items : List Pattern) : GroupStart → Reader (Pattern × Reading)
  | .setting m => seq { r with modes := m } (.empty :: items)
  | start => groupBody seq alt r items start

/-- The sign of a lazy repetition, and what comes after it. -/
def repetitionRound (r : Reading) (items : List Pattern) (least : Nat) (most : Option Nat) :
    Reader (Pattern × Reading) :=
  (greed r.modes).bind fun greedy => (lift (repeatLast least most greedy items)).bind (seq r)

/-- A round of reading a sequence. -/
def sequenceRound (r : Reading) (items : List Pattern) : Reader (Pattern × Reading) :=
  (skipping r.modes).bind fun _ =>
    ifHead (· == '(') (fun _ => (skipping r.modes).bind fun _ =>
      Reader.bind (readGroupStart r) (groupRound seq alt r items)) <|
    ifHead (· == '[') (fun _ => Reader.bind (readClass r.modes) fun p => seq r (p :: items)) <|
    ifHead (· == '?') (fun _ => repetitionRound seq r items 0 (some 1)) <|
    ifHead (· == '*') (fun _ => repetitionRound seq r items 0 none) <|
    ifHead (· == '+') (fun _ => repetitionRound seq r items 1 none) <|
    ifHead (· == '\x7b') (fun _ => Reader.bind (readCounts r.modes) fun x =>
      (skipping r.modes).bind fun _ => repetitionRound seq r items x.1 x.2) <|
    ifHead (fun c => c != '|' && c != ')')
      (fun c => (atomAfter r.modes c).bind fun p => seq r (p :: items))
      (give (ofItems items, r))

end Rounds

theorem alternativesWithin_succ (bound : Nat) (r : Reading) :
    alternativesWithin (bound + 1) r
      = alternativesRound (sequenceWithin bound) (alternativesWithin bound) r := by
  funext cs
  unfold alternativesWithin alternativesRound
  rw [readAlternatives]
  show _ = (sequenceWithin bound r [] cs).bind _
  unfold sequenceWithin
  cases readSequence bound r [] cs with
  | none => rfl
  | some x =>
    obtain ⟨p, r, rest⟩ := x
    simp only [Option.bind_eq_bind, Option.bind_some, Option.map_some, apart]
    split
    · next rest =>
      rw [ifHead_cons]
      unfold Reader.bind
      dsimp only
      cases readAlternatives bound r rest <;> rfl
    · next h =>
      rw [ifHead_of_ne _ _ h]
      rfl

theorem groupRound_eq (bound : Nat) (r : Reading) (items : List Pattern) (start : GroupStart)
    (cs : List Char) :
    groupRound (sequenceWithin bound) (alternativesWithin bound) r items start cs
      = (match start with
        | .setting m => readSequence bound { r with modes := m } (.empty :: items) cs
        | start => (readAlternatives bound (enter r start).2 cs).bind fun x =>
          match x.2.2 with
          | ')' :: rest =>
            readSequence bound { x.2.1 with modes := r.modes }
              (.group (enter r start).1 x.1 :: items) rest
          | _ => none).map apart := by
  have hgroup (start : GroupStart) :
      groupBody (sequenceWithin bound) (alternativesWithin bound) r items start cs
      = ((readAlternatives bound (enter r start).2 cs).bind fun x =>
          match x.2.2 with
          | ')' :: rest =>
            readSequence bound { x.2.1 with modes := r.modes }
              (.group (enter r start).1 x.1 :: items) rest
          | _ => none).map apart := by
    unfold groupBody Reader.bind alternativesWithin
    cases readAlternatives bound (enter r start).2 cs with
    | none => rfl
    | some x =>
      obtain ⟨p, inner, rest⟩ := x
      simp only [Option.map_some, Option.bind_some, apart]
      split
      · rfl
      · next h =>
        rcases rest with _ | ⟨c, rest⟩
        · rfl
        · simp only [next, Option.bind_some]
          rw [if_neg fun hc => h rest (by rw [hc])]
          rfl
  cases start with
  | setting m => rfl
  | plain m => exact hgroup (.plain m)
  | numbered name => exact hgroup (.numbered name)

theorem repetitionRound_eq (bound : Nat) (r : Reading) (items : List Pattern) (least : Nat)
    (most : Option Nat) (cs : List Char) :
    repetitionRound (sequenceWithin bound) r items least most cs
      = ((repeatLast least most (readGreed r.modes cs).1 items).bind fun items =>
          readSequence bound r items (readGreed r.modes cs).2).map apart := by
  unfold repetitionRound Reader.bind
  rw [greed_eq, Option.bind_some]
  unfold lift
  dsimp only
  cases repeatLast least most (readGreed r.modes cs).1 items <;> rfl

/-- A brace at the end of a text is no repetition. -/
theorem sequenceWithin_brace (bound : Nat) (r : Reading) (items : List Pattern) {rest : List Char}
    (h : r.modes.skip rest = []) : sequenceWithin bound r items ('\x7b' :: rest) = none := by
  unfold sequenceWithin
  cases bound with
  | zero => rfl
  | succ bound =>
    have hcounts : readCounts r.modes rest = none := by
      unfold readCounts
      rw [h]
      rfl
    rw [readSequence, skip_cons rfl (by decide)]
    show Option.map apart ((readCounts r.modes rest).bind _) = none
    rw [hcounts]
    rfl

theorem sequenceWithin_succ (bound : Nat) (r : Reading) (items : List Pattern) :
    sequenceWithin (bound + 1) r items
      = sequenceRound (sequenceWithin bound) (alternativesWithin bound) r items := by
  funext cs
  show (readSequence (bound + 1) r items cs).map apart = ifHead (· == '(') _ _ (r.modes.skip cs)
  rw [readSequence]
  generalize r.modes.skip cs = ds
  split
  · rfl
  · rfl
  · rfl
  · next rest =>
    rw [ifHead_cons]
    show Option.map apart ((readGroupStart r (r.modes.skip rest)).bind _)
      = (readGroupStart r (r.modes.skip rest)).bind _
    rw [Option.map_bind]
    refine Option.bind_congr fun ⟨start, rest⟩ _ => ?_
    rw [groupRound_eq]
    cases start <;> rfl
  · next rest =>
    rw [ifHead_of_ne _ _ (by simp), ifHead_cons]
    exact Option.map_bind
  · rw [ifHead_of_ne _ _ (by simp), ifHead_of_ne _ _ (by simp), ifHead_cons, repetitionRound_eq]
    rfl
  · rw [ifHead_of_ne _ _ (by simp), ifHead_of_ne _ _ (by simp), ifHead_of_ne _ _ (by simp),
      ifHead_cons, repetitionRound_eq]
    rfl
  · rw [ifHead_of_ne _ _ (by simp), ifHead_of_ne _ _ (by simp), ifHead_of_ne _ _ (by simp),
      ifHead_of_ne _ _ (by simp), ifHead_cons, repetitionRound_eq]
    rfl
  · next rest =>
    rw [ifHead_of_ne _ _ (by simp), ifHead_of_ne _ _ (by simp), ifHead_of_ne _ _ (by simp),
      ifHead_of_ne _ _ (by simp), ifHead_of_ne _ _ (by simp), ifHead_cons]
    show Option.map apart ((readCounts r.modes rest).bind _) = (readCounts r.modes rest).bind _
    rw [Option.map_bind]
    refine Option.bind_congr fun ⟨counts, rest⟩ _ => ?_
    show _ = repetitionRound (sequenceWithin bound) r items counts.1 counts.2 (r.modes.skip rest)
    rw [repetitionRound_eq]
    rfl
  · next hnil hbar hclose hopen hclass hmark hstar hplus hbrace =>
    rw [ifHead_of_ne _ _ hopen, ifHead_of_ne _ _ hclass, ifHead_of_ne _ _ hmark,
      ifHead_of_ne _ _ hstar, ifHead_of_ne _ _ hplus, ifHead_of_ne _ _ hbrace]
    rcases ds with _ | ⟨c, rest⟩
    · exact absurd rfl hnil
    have hc : (c != '|' && c != ')') = true := by
      simp only [Bool.and_eq_true, bne_iff_ne]
      exact ⟨fun h => hbar rest (by rw [h]), fun h => hclose rest (by rw [h])⟩
    rw [ifHead, if_pos hc]
    show _ = (atom r.modes (c :: rest)).bind _
    rcases readAtom_eq r.modes (c :: rest) with h | ⟨hnone, a, more, hsome, hmore⟩
    · rw [← h]
      exact Option.map_bind
    · rw [hnone, hsome]
      exact (sequenceWithin_brace bound r _ hmore).symm

/-! ## What a round keeps -/

section Keeping

variable {n : Nat} {seq seq' : Reading → List Pattern → Reader (Pattern × Reading)}
  {alt alt' : Reading → Reader (Pattern × Reading)}

theorem localBelow_alternativesRound (hseq : ∀ r items, LocalBelow n (seq r items))
    (halt : ∀ r, LocalBelow (n - 1) (alt r)) (r : Reading) :
    LocalBelow n (alternativesRound seq alt r) := by
  refine .bind (hseq r []) fun x => .ifHead rfl (fun _ => ?_) (.give n x)
  exact .bind (halt x.2) fun y => .give _ _

theorem localBelow_repetitionRound (hseq : ∀ r items, LocalBelow n (seq r items)) (r : Reading)
    (items : List Pattern) (least : Nat) (most : Option Nat) :
    LocalBelow n (repetitionRound seq r items least most) :=
  .bind (localBelow_greed n r.modes) fun _ => .bind (.lift n _) (hseq r)

theorem localBelow_groupRound (hseq : ∀ r items, LocalBelow n (seq r items))
    (halt : ∀ r, LocalBelow n (alt r)) (r : Reading) (items : List Pattern) (start : GroupStart) :
    LocalBelow n (groupRound seq alt r items start) := by
  have hgroup (start : GroupStart) : LocalBelow n (groupBody seq alt r items start) := by
    refine .bind (halt _) fun x => .nextBind fun c => ?_
    split
    · exact (hseq _ _).mono (Nat.sub_le n 1)
    · exact .lift _ none
  cases start with
  | setting m => exact hseq _ _
  | plain m => exact hgroup (.plain m)
  | numbered name => exact hgroup (.numbered name)

theorem localBelow_sequenceRound (hseq : ∀ r items, LocalBelow n (seq r items))
    (halt : ∀ r, LocalBelow n (alt r)) (r : Reading) (items : List Pattern) :
    LocalBelow (n + 1) (sequenceRound seq alt r items) := by
  have hrepetition := localBelow_repetitionRound hseq r items
  refine .bind (.skipping _ r.modes) fun _ => .ifHead rfl (fun _ => ?_) ?_
  · exact .bind (.skipping n r.modes) fun _ =>
      .bind (localBelow_readGroupStart n r) (localBelow_groupRound hseq halt r items)
  refine .ifHead rfl (fun _ => .bind (localBelow_readClass n r.modes) fun p => hseq _ _) ?_
  refine .ifHead rfl (fun _ => hrepetition _ _) (.ifHead rfl (fun _ => hrepetition _ _) ?_)
  refine .ifHead rfl (fun _ => hrepetition _ _) (.ifHead rfl (fun _ => ?_) ?_)
  · exact .bind (localBelow_readCounts n r.modes) fun x =>
      .bind (.skipping n r.modes) fun _ => hrepetition _ _
  · exact .ifHead rfl (fun c => .bind (localBelow_atomAfter n r.modes c) fun p => hseq _ _)
      (.give _ _)

theorem sameBelow_alternativesRound (hend : ∀ r items, (seq r items).LeavesEnd)
    (hseq : ∀ r items, SameBelow n (seq r items) (seq' r items))
    (halt : ∀ r, SameBelow (n - 1) (alt r) (alt' r)) (haltEnd : ∀ r, (alt r).LeavesEnd)
    (r : Reading) : SameBelow n (alternativesRound seq alt r) (alternativesRound seq' alt' r) := by
  refine .bind (hseq r []) (hend r []) fun x => .ifHead (fun _ => ?_) (.refl n _)
  exact .bind (halt x.2) (haltEnd x.2) fun y => .refl _ _

theorem sameBelow_repetitionRound (hseq : ∀ r items, SameBelow n (seq r items) (seq' r items))
    (r : Reading) (items : List Pattern) (least : Nat) (most : Option Nat) :
    SameBelow n (repetitionRound seq r items least most)
      (repetitionRound seq' r items least most) :=
  .bind (.refl n _) (localBelow_greed 0 r.modes).leavesEnd fun _ =>
    .bind (.refl n _) (LocalBelow.lift 0 _).leavesEnd (hseq r)

theorem sameBelow_groupRound (hseq : ∀ r items, SameBelow n (seq r items) (seq' r items))
    (halt : ∀ r, SameBelow n (alt r) (alt' r)) (haltEnd : ∀ r, (alt r).LeavesEnd) (r : Reading)
    (items : List Pattern) (start : GroupStart) :
    SameBelow n (groupRound seq alt r items start) (groupRound seq' alt' r items start) := by
  have hgroup (start : GroupStart) :
      SameBelow n (groupBody seq alt r items start) (groupBody seq' alt' r items start) := by
    refine .bind (halt _) (haltEnd _) fun x => .nextBind fun c => ?_
    split
    · exact fun cs hcs => hseq _ _ cs (Nat.lt_of_lt_of_le hcs (Nat.sub_le n 1))
    · exact .refl _ _
  cases start with
  | setting m => exact hseq _ _
  | plain m => exact hgroup (.plain m)
  | numbered name => exact hgroup (.numbered name)

theorem sameBelow_sequenceRound (hseq : ∀ r items, SameBelow n (seq r items) (seq' r items))
    (halt : ∀ r, SameBelow n (alt r) (alt' r)) (haltEnd : ∀ r, (alt r).LeavesEnd) (r : Reading)
    (items : List Pattern) :
    SameBelow (n + 1) (sequenceRound seq alt r items) (sequenceRound seq' alt' r items) := by
  have hrepetition := sameBelow_repetitionRound hseq r items
  refine .skippingBind r.modes (.ifHead (fun _ => ?_) ?_)
  · exact .skippingBind r.modes (.bind (.refl n _) (localBelow_readGroupStart 0 r).leavesEnd
      (sameBelow_groupRound hseq halt haltEnd r items))
  refine .ifHead (fun _ => ?_) ?_
  · exact .bind (.refl n _) (localBelow_readClass 0 r.modes).leavesEnd fun p => hseq _ _
  refine .ifHead (fun _ => hrepetition _ _) (.ifHead (fun _ => hrepetition _ _) ?_)
  refine .ifHead (fun _ => hrepetition _ _) (.ifHead (fun _ => ?_) ?_)
  · exact .bind (.refl n _) (localBelow_readCounts 0 r.modes).leavesEnd fun x =>
      .skippingBind r.modes (hrepetition _ _)
  · exact .ifHead (fun c => .bind (.refl n _) (localBelow_atomAfter 0 r.modes c).leavesEnd
      fun p => hseq _ _) (.refl _ _)

end Keeping

/-! ## Any bound that is large enough -/

theorem within_leavesEnd (bound : Nat) :
    (∀ r items, (sequenceWithin bound r items).LeavesEnd)
      ∧ ∀ r, (alternativesWithin bound r).LeavesEnd := by
  induction bound with
  | zero => exact ⟨fun _ _ _ _ _ h => (nomatch h), fun _ _ _ _ h => nomatch h⟩
  | succ bound ih =>
    have hseq (r items) := LocalBelow.zero_iff.2 (ih.1 r items)
    have halt (r) := LocalBelow.zero_iff.2 (ih.2 r)
    refine ⟨fun r items => ?_, fun r => ?_⟩
    · rw [sequenceWithin_succ]
      exact (localBelow_sequenceRound hseq halt r items).leavesEnd
    · rw [alternativesWithin_succ]
      exact (localBelow_alternativesRound hseq halt r).leavesEnd

theorem within_same {bound bound' : Nat} (h : bound ≤ bound') :
    (∀ r items, SameBelow ((bound + 1) / 2) (sequenceWithin bound r items)
        (sequenceWithin bound' r items))
      ∧ ∀ r, SameBelow (bound / 2) (alternativesWithin bound r) (alternativesWithin bound' r) := by
  induction bound generalizing bound' with
  | zero => exact ⟨fun _ _ _ h => (nomatch h), fun _ _ h => nomatch h⟩
  | succ bound ih =>
    obtain ⟨bound', rfl⟩ := Nat.exists_eq_succ_of_ne_zero (Nat.ne_zero_of_lt h)
    obtain ⟨hseq, halt⟩ := ih (Nat.le_of_succ_le_succ h)
    obtain ⟨hseqEnd, haltEnd⟩ := within_leavesEnd bound
    refine ⟨fun r items => ?_, fun r => ?_⟩
    · rw [sequenceWithin_succ, sequenceWithin_succ,
        show (bound + 1 + 1) / 2 = bound / 2 + 1 by omega]
      exact sameBelow_sequenceRound (fun r items cs hcs => hseq r items cs (by omega)) halt
        haltEnd r items
    · rw [alternativesWithin_succ, alternativesWithin_succ]
      exact sameBelow_alternativesRound hseqEnd hseq (fun r cs hcs => halt r cs (by omega))
        haltEnd r

/-- A sequence, with a bound that is large enough. -/
def sequence (r : Reading) (items : List Pattern) : Reader (Pattern × Reading) :=
  fun cs => sequenceWithin (2 * cs.length + 1) r items cs

/-- Alternatives, with a bound that is large enough. -/
def alternatives (r : Reading) : Reader (Pattern × Reading) :=
  fun cs => alternativesWithin (2 * cs.length + 2) r cs

/-- **A bound that is more than twice the length of the text is enough for a sequence.** -/
theorem sequenceWithin_eq {bound : Nat} {cs : List Char} (h : 2 * cs.length < bound) (r : Reading)
    (items : List Pattern) : sequenceWithin bound r items cs = sequence r items cs :=
  ((within_same h).1 r items cs (by omega)).symm

/-- **The same for alternatives.** -/
theorem alternativesWithin_eq {bound : Nat} {cs : List Char} (h : 2 * cs.length + 1 < bound)
    (r : Reading) : alternativesWithin bound r cs = alternatives r cs :=
  ((within_same h).2 r cs (by omega)).symm

theorem sequence_eq (r : Reading) (items : List Pattern) :
    sequence r items = sequenceRound sequence alternatives r items := by
  funext cs
  unfold sequence
  rw [sequenceWithin_succ]
  refine sameBelow_sequenceRound (fun r items ds hds => ?_) (fun r ds hds => ?_)
    (within_leavesEnd _).2 r items cs (Nat.lt_succ_self _)
  · exact sequenceWithin_eq (by omega) r items
  · exact alternativesWithin_eq (by omega) r

theorem alternatives_eq (r : Reading) :
    alternatives r = alternativesRound sequence alternatives r := by
  funext cs
  unfold alternatives
  rw [alternativesWithin_succ]
  refine sameBelow_alternativesRound (within_leavesEnd _).1 (fun r items ds hds => ?_)
    (fun r ds hds => ?_) (within_leavesEnd _).2 r cs (Nat.lt_succ_self _)
  · exact sequenceWithin_eq (by omega) r items
  · exact alternativesWithin_eq (by omega) r

/-- **Sequences and alternatives see a closing bracket after a text, or pass over it.** -/
theorem localBelow_sequence_alternatives (n : Nat) :
    (∀ r items, LocalBelow n (sequence r items)) ∧ ∀ r, LocalBelow n (alternatives r) := by
  induction n with
  | zero =>
    exact ⟨fun r items => LocalBelow.zero_iff.2 fun cs => (within_leavesEnd _).1 r items cs,
      fun r => LocalBelow.zero_iff.2 fun cs => (within_leavesEnd _).2 r cs⟩
  | succ n ih =>
    have hseq (r items) : LocalBelow (n + 1) (sequence r items) := by
      rw [sequence_eq]
      exact localBelow_sequenceRound ih.1 ih.2 r items
    refine ⟨hseq, fun r => ?_⟩
    rw [alternatives_eq]
    exact localBelow_alternativesRound hseq ih.2 r

theorem splits_alternatives (r : Reading) (cs : List Char) : (alternatives r).Splits cs :=
  ((localBelow_sequence_alternatives (cs.length + 1)).2 r).splits cs (Nat.lt_succ_self _)

end AccessPolicy.Pattern
