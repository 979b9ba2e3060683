import AccessPolicy.Pattern.Escape

/-!
# A closing bracket after a text

What is put between `^(?:` and `)$` is read together with what comes after it. A reader that has a
text before it and then a closing bracket either stops at the bracket at the latest, and then reads
the text as it would without the bracket, or it goes past the bracket, and then the bracket is not
there any more for the group that it should close. In the second case nothing is read of the text
alone, unless the text ends in an open comment; what comes after the bracket is to have no line
break, so that the comment does not end there.

This is shown for each reader along the way it is put together: the combinators below keep it. A
loop with a bound is put together from itself; that the bound is enough is shown once for all loops.
-/

namespace AccessPolicy.Pattern

/-- A reader takes something from the front of a text, and leaves the rest. -/
abbrev Reader (α : Type) := List Char → Option (α × List Char)

namespace Reader

variable {α β ι : Type}

/-! ## How readers are put together -/

/-- Reads nothing. -/
def give (a : α) : Reader α := fun cs => some (a, cs)

/-- Reads nothing, and fails if there is nothing to give. -/
def lift (a : Option α) : Reader α := fun cs => a.map (·, cs)

/-- Reads a character. -/
def next : Reader Char
  | [] => none
  | c :: rest => some (c, rest)

/-- Passes over blanks and comments. -/
def skipping (m : Modes) : Reader Unit := fun cs => some ((), m.skip cs)

/-- Reads one thing and then another. -/
def bind (F : Reader α) (G : α → Reader β) : Reader β := fun cs => (F cs).bind fun x => G x.1 x.2

/-- Reads on in one way after a character of some kind, and otherwise in another way. -/
def ifHead (p : Char → Bool) (A : Char → Reader α) (B : Reader α) : Reader α
  | [] => B []
  | c :: rest => if p c then A c rest else B (c :: rest)

/-- Reads on in one way after a pair of characters, and otherwise in another way. -/
def ifPair (c : Char) (A B : Reader α) : Reader α
  | d :: e :: rest => if d = c ∧ e = c then A rest else B (d :: e :: rest)
  | cs => B cs

/-- Reads in one of two ways, as a look ahead says. -/
def ifAhead (look : List Char → Bool) (A B : Reader α) : Reader α :=
  fun cs => if look cs then A cs else B cs

/-- Reads something and goes on with it, or reads in another way if it is not there. -/
def orElse (F : Reader α) (G : α → Reader β) (H : Reader β) : Reader β := fun cs =>
  match F cs with
  | some (a, rest) => G a rest
  | none => H cs

theorem bind_assoc {γ : Type} (F : Reader α) (G : α → Reader β) (H : β → Reader γ) :
    (F.bind G).bind H = F.bind fun a => (G a).bind H :=
  funext fun cs => Option.bind_assoc (F cs) _ _

theorem ifHead_cons (c : Char) (A : Char → Reader α) (B : Reader α) (cs : List Char) :
    ifHead (· == c) A B (c :: cs) = A c cs := by
  rw [ifHead, beq_self_eq_true, if_pos rfl]

theorem ifHead_of_ne {c : Char} {cs : List Char} (A : Char → Reader α) (B : Reader α)
    (h : ∀ rest, cs = c :: rest → False) : ifHead (· == c) A B cs = B cs := by
  cases cs with
  | nil => rfl
  | cons d rest => rw [ifHead, if_neg fun hd => h rest (by rw [eq_of_beq hd])]

theorem ifHead_of_not {p : Char → Bool} {c : Char} (hc : p c = false) (A : Char → Reader α)
    (B : Reader α) (cs : List Char) : ifHead p A B (c :: cs) = B (c :: cs) := by
  rw [ifHead, hc, if_neg Bool.false_ne_true]

theorem ifPair_of_ne {c : Char} {cs : List Char} (A B : Reader α)
    (h : ∀ rest, cs = c :: c :: rest → False) : ifPair c A B cs = B cs := by
  unfold ifPair
  split
  · next d e rest =>
    rw [if_neg]
    rintro ⟨rfl, rfl⟩
    exact h rest rfl
  · rfl

/-! ## What is left, and brackets -/

/-- What a reader leaves is the end of the text. -/
def LeavesEnd (F : Reader α) : Prop := ∀ cs a rest, F cs = some (a, rest) → rest <:+ cs

/-- **A text is read as it is without the bracket.** -/
def Sees (F : Reader α) (cs : List Char) : Prop :=
  ∀ w, '\n' ∉ w → F (cs ++ ')' :: w) = (F cs).map fun x => (x.1, x.2 ++ ')' :: w)

/-- **The bracket is passed over**, and if something is read of the text alone, the bracket and what
comes after it belong to a comment. -/
def Passes (F : Reader α) (cs : List Char) : Prop :=
  ∀ w, '\n' ∉ w → (∀ a rest, F (cs ++ ')' :: w) = some (a, rest) → rest <:+ w)
    ∧ ∀ x, F cs = some x → F (cs ++ ')' :: w) = some x

/-- A closing bracket after a text is seen or passed over. -/
def Splits (F : Reader α) (cs : List Char) : Prop := F.Sees cs ∨ F.Passes cs

/-- **A reader reads from left to right**: it leaves an end of the text, and sees or passes over a
closing bracket that comes after a text of less than some length. -/
structure LocalBelow (n : Nat) (F : Reader α) : Prop where
  leavesEnd : F.LeavesEnd
  splits : ∀ cs, cs.length < n → F.Splits cs

/-- A reader that goes on as another one does, with and without the bracket. -/
theorem Splits.congr {F G : Reader α} {cs ds : List Char} (hG : G.Splits ds) (hshort : F cs = G ds)
    (hlong : ∀ w, '\n' ∉ w → F (cs ++ ')' :: w) = G (ds ++ ')' :: w)) : F.Splits cs := by
  refine hG.imp (fun h w hw => ?_) (fun h w hw => ?_)
  · rw [hlong w hw, hshort]
    exact h w hw
  · rw [hlong w hw, hshort]
    exact h w hw

theorem Sees.ifHead {p : Char → Bool} {A : Char → Reader α} {B : Reader α} (hp : p ')' = false)
    (hA : ∀ c cs, (A c).Sees cs) (hB : ∀ cs, B.Sees cs) (cs : List Char) :
    (ifHead p A B).Sees cs := by
  intro w hw
  rcases cs with _ | ⟨c, cs⟩
  · rw [List.nil_append, ifHead_of_not hp]
    exact hB [] w hw
  · rw [List.cons_append, Reader.ifHead, Reader.ifHead]
    split
    · exact hA c cs w hw
    · exact hB (c :: cs) w hw

namespace LocalBelow

variable {m n : Nat}

theorem mono {F : Reader α} (h : LocalBelow n F) (hmn : m ≤ n) : LocalBelow m F :=
  ⟨h.leavesEnd, fun cs hcs => h.splits cs (Nat.lt_of_lt_of_le hcs hmn)⟩

theorem zero_iff {F : Reader α} : LocalBelow 0 F ↔ F.LeavesEnd :=
  ⟨fun h => h.leavesEnd, fun h => ⟨h, fun _ hcs => nomatch hcs⟩⟩

protected theorem give (n : Nat) (a : α) : LocalBelow n (give a) := by
  refine ⟨?_, fun cs _ => .inl fun _ _ => rfl⟩
  rintro cs _ _ ⟨⟩
  exact List.suffix_refl cs

protected theorem lift (n : Nat) (a : Option α) : LocalBelow n (lift a) := by
  cases a with
  | none => exact ⟨fun _ _ _ h => (nomatch h), fun _ _ => .inl fun _ _ => rfl⟩
  | some a => exact LocalBelow.give n a

protected theorem bind {F : Reader α} {G : α → Reader β} (hF : LocalBelow n F)
    (hG : ∀ a, LocalBelow n (G a)) : LocalBelow n (F.bind G) := by
  refine ⟨?_, fun cs hcs => ?_⟩
  · intro cs b rest h
    obtain ⟨⟨a, middle⟩, ha, hb⟩ := Option.bind_eq_some_iff.1 h
    exact ((hG a).leavesEnd middle b rest hb).trans (hF.leavesEnd cs a middle ha)
  rcases hF.splits cs hcs with hsees | hpasses
  · cases hread : F cs with
    | none =>
      refine .inl fun w hw => ?_
      rw [Reader.bind, Reader.bind, hsees w hw, hread]
      rfl
    | some x =>
      have hle := (hF.leavesEnd cs x.1 x.2 hread).length_le
      refine ((hG x.1).splits x.2 (Nat.lt_of_le_of_lt hle hcs)).congr ?_ fun w hw => ?_
      · rw [Reader.bind, hread, Option.bind_some]
      · rw [Reader.bind, hsees w hw, hread]
        rfl
  · refine .inr fun w hw => ⟨fun b rest h => ?_, fun x h => ?_⟩
    · obtain ⟨⟨a, middle⟩, ha, hb⟩ := Option.bind_eq_some_iff.1 h
      exact ((hG a).leavesEnd middle b rest hb).trans ((hpasses w hw).1 a middle ha)
    · obtain ⟨y, hy, hx⟩ := Option.bind_eq_some_iff.1 h
      rw [Reader.bind, (hpasses w hw).2 y hy]
      exact hx

/-- What follows a character is shorter. Without a text before it, the bracket is the character. -/
protected theorem nextBind {G : Char → Reader β} (hG : ∀ c, LocalBelow (n - 1) (G c)) :
    LocalBelow n (next.bind G) := by
  refine ⟨?_, ?_⟩
  · rintro (_ | ⟨c, cs⟩) b rest h
    · exact nomatch h
    · exact ((hG c).leavesEnd cs b rest h).trans (List.suffix_cons c cs)
  · rintro (_ | ⟨c, cs⟩) hcs
    · exact .inr fun w _ => ⟨fun b rest h => (hG ')').leavesEnd w b rest h, fun x h => nomatch h⟩
    · exact ((hG c).splits cs (Nat.lt_sub_of_add_lt hcs)).congr rfl fun _ _ => rfl

protected theorem ifHead {p : Char → Bool} {A : Char → Reader α} {B : Reader α}
    (hp : p ')' = false) (hA : ∀ c, LocalBelow (n - 1) (A c)) (hB : LocalBelow n B) :
    LocalBelow n (ifHead p A B) := by
  refine ⟨?_, ?_⟩
  · rintro (_ | ⟨c, cs⟩) a rest h
    · exact hB.leavesEnd [] a rest h
    · rw [Reader.ifHead] at h
      split at h
      · exact ((hA c).leavesEnd cs a rest h).trans (List.suffix_cons c cs)
      · exact hB.leavesEnd _ a rest h
  · rintro (_ | ⟨c, cs⟩) hcs
    · exact (hB.splits [] hcs).congr rfl fun w _ => ifHead_of_not hp A B w
    · by_cases hc : p c = true
      · exact ((hA c).splits cs (Nat.lt_sub_of_add_lt hcs)).congr (if_pos hc) fun _ _ => if_pos hc
      · exact (hB.splits (c :: cs) hcs).congr (if_neg hc) fun _ _ => if_neg hc

protected theorem ifPair {c : Char} {A B : Reader α} (hc : ')' ≠ c) (hA : LocalBelow (n - 1) A)
    (hB : LocalBelow n B) : LocalBelow n (ifPair c A B) := by
  refine ⟨?_, ?_⟩
  · intro cs a rest h
    unfold Reader.ifPair at h
    split at h
    · split at h
      · exact (hA.leavesEnd _ a rest h).trans ((List.suffix_cons _ _).trans (List.suffix_cons _ _))
      · exact hB.leavesEnd _ a rest h
    · exact hB.leavesEnd _ a rest h
  · intro cs hcs
    match cs with
    | [] =>
      refine (hB.splits [] hcs).congr rfl fun w _ => ifPair_of_ne A B ?_
      rintro rest h
      exact hc (List.cons.inj h).1
    | [d] =>
      refine (hB.splits [d] hcs).congr rfl fun w _ => ifPair_of_ne A B ?_
      rintro rest h
      exact hc (List.cons.inj (List.cons.inj h).2).1
    | d :: e :: cs =>
      by_cases hpair : d = c ∧ e = c
      · refine (hA.splits cs ?_).congr (if_pos hpair) fun _ _ => if_pos hpair
        simp only [List.length_cons] at hcs
        omega
      · exact (hB.splits (d :: e :: cs) hcs).congr (if_neg hpair) fun _ _ => if_neg hpair

protected theorem ifAhead {look : List Char → Bool} {A B : Reader α}
    (hlook : ∀ cs w, '\n' ∉ w → look (cs ++ ')' :: w) = look cs) (hA : LocalBelow n A)
    (hB : LocalBelow n B) : LocalBelow n (ifAhead look A B) := by
  refine ⟨?_, fun cs hcs => ?_⟩
  · intro cs a rest h
    unfold Reader.ifAhead at h
    split at h
    · exact hA.leavesEnd cs a rest h
    · exact hB.leavesEnd cs a rest h
  by_cases h : look cs = true
  · exact (hA.splits cs hcs).congr (if_pos h) fun w hw => if_pos (by rw [hlook cs w hw, h])
  · exact (hB.splits cs hcs).congr (if_neg h) fun w hw => if_neg (by rwa [hlook cs w hw])

protected theorem orElse {F : Reader α} {G : α → Reader β} {H : Reader β} (hF : F.LeavesEnd)
    (hsees : ∀ cs, F.Sees cs) (hG : ∀ a, LocalBelow n (G a)) (hH : LocalBelow n H) :
    LocalBelow n (F.orElse G H) := by
  refine ⟨?_, fun cs hcs => ?_⟩
  · intro cs b rest h
    unfold Reader.orElse at h
    split at h
    · next a middle ha => exact ((hG a).leavesEnd middle b rest h).trans (hF cs a middle ha)
    · exact hH.leavesEnd cs b rest h
  cases hread : F cs with
  | none =>
    refine (hH.splits cs hcs).congr ?_ fun w hw => ?_
    · rw [Reader.orElse, hread]
    · rw [Reader.orElse, hsees cs w hw, hread]
      rfl
  | some x =>
    have hle := (hF cs x.1 x.2 hread).length_le
    refine ((hG x.1).splits x.2 (Nat.lt_of_le_of_lt hle hcs)).congr ?_ fun w hw => ?_
    · rw [Reader.orElse, hread]
    · rw [Reader.orElse, hsees cs w hw, hread]
      rfl

end LocalBelow

/-! ## Blanks and comments -/

/-- What is left when blanks and comments are passed over. -/
theorem dropRemarks_suffix (inComment : Bool) (cs : List Char) :
    dropRemarks inComment cs <:+ cs := by
  fun_induction dropRemarks inComment cs with
  | case1 => exact List.suffix_refl []
  | case2 c rest ih => exact ih.trans (List.suffix_cons c rest)
  | case3 c rest _ ih => exact ih.trans (List.suffix_cons c rest)
  | case4 rest _ ih => exact ih.trans (List.suffix_cons _ rest)
  | case5 c rest => exact List.suffix_refl _

theorem skip_suffix (m : Modes) (cs : List Char) : m.skip cs <:+ cs := by
  unfold Modes.skip
  split
  · exact dropRemarks_suffix false cs
  · exact List.suffix_refl cs

theorem skip_nil (m : Modes) : m.skip [] = [] := List.suffix_nil.1 (skip_suffix m [])

theorem skip_cons {c : Char} (hblank : Text.isBlank c = false) (hc : c ≠ '#') (m : Modes)
    (cs : List Char) : m.skip (c :: cs) = c :: cs := by
  unfold Modes.skip
  split
  · rw [dropRemarks, hblank, if_neg Bool.false_ne_true, if_neg hc]
  · rfl

/-- A comment that is open at the end of a text goes on to the end of the line. -/
theorem dropRemarks_append (inComment : Bool) (cs : List Char) :
    (∀ w, '\n' ∉ w → dropRemarks inComment (cs ++ ')' :: w) = dropRemarks inComment cs ++ ')' :: w)
      ∨ ∀ w, '\n' ∉ w →
          dropRemarks inComment (cs ++ ')' :: w) = [] ∧ dropRemarks inComment cs = [] := by
  have hline (w : List Char) (hw : '\n' ∉ w) : dropRemarks true w = [] := by
    induction w with
    | nil => rfl
    | cons c w ih =>
      have hc : (c != '\n') = true := by simpa using fun h : c = '\n' => hw (h ▸ List.mem_cons_self)
      rw [dropRemarks, hc]
      exact ih fun h => hw (List.mem_cons_of_mem c h)
  induction cs generalizing inComment with
  | nil =>
    cases inComment with
    | false => exact .inl fun w _ => rfl
    | true => exact .inr fun w hw => ⟨hline w hw, rfl⟩
  | cons c cs ih =>
    cases inComment with
    | true => exact ih (c != '\n')
    | false =>
      simp only [List.cons_append, dropRemarks]
      split
      · exact ih false
      · split
        · exact ih true
        · exact .inl fun w _ => rfl

/-- Blanks and comments before a text, or an open comment at its end. -/
theorem skip_append (m : Modes) (cs : List Char) :
    (∀ w, '\n' ∉ w → m.skip (cs ++ ')' :: w) = m.skip cs ++ ')' :: w)
      ∨ ∀ w, '\n' ∉ w → m.skip (cs ++ ')' :: w) = [] ∧ m.skip cs = [] := by
  unfold Modes.skip
  split
  · exact dropRemarks_append false cs
  · exact .inl fun _ _ => rfl

protected theorem LocalBelow.skipping (n : Nat) (m : Modes) : LocalBelow n (skipping m) := by
  refine ⟨?_, fun cs _ => ?_⟩
  · rintro cs _ _ ⟨⟩
    exact skip_suffix m cs
  unfold Splits Sees Passes skipping
  refine (skip_append m cs).imp (fun h w hw => ?_) (fun h w hw => ?_)
  · rw [h w hw]
    rfl
  · obtain ⟨hlong, hshort⟩ := h w hw
    rw [hlong, hshort]
    refine ⟨?_, fun _ => id⟩
    rintro _ _ ⟨⟩
    exact List.nil_suffix

/-! ## The same on short texts -/

/-- Two readers read the same of texts that are short enough. -/
def SameBelow (n : Nat) (F F' : Reader α) : Prop := ∀ cs, cs.length < n → F cs = F' cs

namespace SameBelow

variable {n : Nat}

theorem refl (n : Nat) (F : Reader α) : SameBelow n F F := fun _ _ => rfl

protected theorem bind {F F' : Reader α} {G G' : α → Reader β} (hF : SameBelow n F F')
    (hend : F.LeavesEnd) (hG : ∀ a, SameBelow n (G a) (G' a)) :
    SameBelow n (F.bind G) (F'.bind G') := by
  intro cs hcs
  unfold Reader.bind
  rw [← hF cs hcs]
  refine Option.bind_congr fun x hx => hG x.1 x.2 ?_
  exact Nat.lt_of_le_of_lt (hend cs x.1 x.2 hx).length_le hcs

protected theorem skippingBind (m : Modes) {G G' : Unit → Reader β}
    (hG : SameBelow n (G ()) (G' ())) : SameBelow n ((skipping m).bind G) ((skipping m).bind G') :=
  fun cs hcs => hG _ (Nat.lt_of_le_of_lt (skip_suffix m cs).length_le hcs)

protected theorem nextBind {G G' : Char → Reader β} (hG : ∀ c, SameBelow (n - 1) (G c) (G' c)) :
    SameBelow n (next.bind G) (next.bind G') := by
  rintro (_ | ⟨c, cs⟩) hcs
  · rfl
  · exact hG c cs (Nat.lt_sub_of_add_lt hcs)

protected theorem ifHead {p : Char → Bool} {A A' : Char → Reader α} {B B' : Reader α}
    (hA : ∀ c, SameBelow (n - 1) (A c) (A' c)) (hB : SameBelow n B B') :
    SameBelow n (ifHead p A B) (ifHead p A' B') := by
  rintro (_ | ⟨c, cs⟩) hcs
  · exact hB [] hcs
  · rw [Reader.ifHead, Reader.ifHead, hA c cs (Nat.lt_sub_of_add_lt hcs), hB (c :: cs) hcs]

protected theorem ifPair {c : Char} {A A' B B' : Reader α} (hA : SameBelow (n - 1) A A')
    (hB : SameBelow n B B') : SameBelow n (ifPair c A B) (ifPair c A' B') := by
  rintro (_ | ⟨d, _ | ⟨e, cs⟩⟩) hcs
  · exact hB [] hcs
  · exact hB [d] hcs
  · have hlt : cs.length < n - 1 := by
      simp only [List.length_cons] at hcs
      omega
    rw [Reader.ifPair, Reader.ifPair, hA cs hlt, hB (d :: e :: cs) hcs]

protected theorem orElse {F : Reader α} {G G' : α → Reader β} {H H' : Reader β} (hF : F.LeavesEnd)
    (hG : ∀ a, SameBelow n (G a) (G' a)) (hH : SameBelow n H H') :
    SameBelow n (F.orElse G H) (F.orElse G' H') := by
  intro cs hcs
  unfold Reader.orElse
  split
  · next a middle ha => exact hG a middle (Nat.lt_of_le_of_lt (hF cs a middle ha).length_le hcs)
  · exact hH cs hcs

end SameBelow

/-! ## Loops -/

/-- **A loop**: each round reads something, and goes on with what is left in the state that it has
come to, up to a bound on the number of rounds. What a round does with a text depends only on what
going on does with shorter texts, and so do the ends that are left and the brackets after it. -/
structure IsLoop (loop : Nat → ι → Reader α) (round : (ι → Reader α) → ι → Reader α) : Prop where
  leavesEnd : ∀ i, (loop 0 i).LeavesEnd
  zero : ∀ i, loop 0 i [] = round (loop 0) i []
  succ : ∀ bound i, loop (bound + 1) i = round (loop bound) i
  same : ∀ n go go', (∀ i, (go i).LeavesEnd) → (∀ i, SameBelow n (go i) (go' i)) →
    ∀ i, SameBelow (n + 1) (round go i) (round go' i)
  localBelow : ∀ n go, (∀ i, LocalBelow n (go i)) → ∀ i, LocalBelow (n + 1) (round go i)

/-- A loop with a bound that is as large as the text. -/
def unbounded (loop : Nat → ι → Reader α) (i : ι) : Reader α := fun cs => loop cs.length i cs

namespace IsLoop

variable {loop : Nat → ι → Reader α} {round : (ι → Reader α) → ι → Reader α}

theorem loop_leavesEnd (h : IsLoop loop round) (bound : Nat) (i : ι) :
    (loop bound i).LeavesEnd := by
  induction bound generalizing i with
  | zero => exact h.leavesEnd i
  | succ bound ih =>
    rw [h.succ]
    exact (h.localBelow 0 _ (fun j => LocalBelow.zero_iff.2 (ih j)) i).leavesEnd

theorem same_of_le (h : IsLoop loop round) {bound bound' : Nat} (hle : bound ≤ bound') (i : ι) :
    SameBelow (bound + 1) (loop bound i) (loop bound' i) := by
  induction bound generalizing bound' i with
  | zero =>
    intro cs hcs
    obtain rfl := List.length_eq_zero_iff.1 (Nat.lt_one_iff.1 hcs)
    cases bound' with
    | zero => rfl
    | succ bound' =>
      rw [h.zero, h.succ]
      exact h.same 0 _ _ (h.loop_leavesEnd 0) (fun _ _ h => nomatch h) i [] hcs
  | succ bound ih =>
    obtain ⟨bound', rfl⟩ := Nat.exists_eq_succ_of_ne_zero (Nat.ne_zero_of_lt hle)
    rw [h.succ, h.succ]
    exact h.same _ _ _ (h.loop_leavesEnd bound) (ih (Nat.le_of_succ_le_succ hle)) i

/-- **A bound that is as large as the text is enough.** -/
theorem eq_unbounded (h : IsLoop loop round) {bound : Nat} {cs : List Char}
    (hcs : cs.length ≤ bound) (i : ι) : loop bound i cs = unbounded loop i cs :=
  (h.same_of_le hcs i cs (Nat.lt_succ_self _)).symm

/-- A loop without a bound does one round and goes on. -/
theorem unbounded_eq (h : IsLoop loop round) (i : ι) :
    unbounded loop i = round (unbounded loop) i := by
  funext cs
  rw [← h.eq_unbounded (Nat.le_succ cs.length) i, h.succ]
  refine h.same cs.length _ _ (h.loop_leavesEnd cs.length) (fun j ds hds => ?_) i cs
    (Nat.lt_succ_self _)
  exact h.eq_unbounded (Nat.le_of_lt hds) j

theorem unbounded_localBelow (h : IsLoop loop round) (n : Nat) (i : ι) :
    LocalBelow n (unbounded loop i) := by
  induction n generalizing i with
  | zero => exact LocalBelow.zero_iff.2 fun cs => h.loop_leavesEnd cs.length i cs
  | succ n ih =>
    rw [h.unbounded_eq]
    exact h.localBelow n _ ih i

end IsLoop

end Reader

end AccessPolicy.Pattern
