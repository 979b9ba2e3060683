import AccessPolicy.Proofs.Pattern.Meaning
import AccessPolicy.Proofs.Pattern.Sequences
import AccessPolicy.Proofs.Value.Equality

/-!
# A pattern between the ends of a text

A pattern is put between `^(?:` and `)$` as a text, before anything of it is read. This is not the
same as to put what the pattern stands for between the ends of a text, for two reasons. A text that
is no pattern, since it has a closing bracket too many, may become one: the bracket closes the group
that the pattern was to be in, and what comes after it is not held by both ends any more. And a
pattern that ends in an open comment takes the closing bracket into the comment.

Apart from that the two are the same, for all texts, up to the limits on patterns: these are those
of the pattern between the ends, which nests deeper by two.
-/

namespace AccessPolicy

namespace Pattern

open Reader

/-! ## Where reading stops -/

namespace Reader

variable {α β : Type} {stop : Option Char → Prop}

/-- A reader stops only before some characters or at the end of the text. -/
def StopsAt (stop : Option Char → Prop) (F : Reader α) : Prop :=
  ∀ cs a rest, F cs = some (a, rest) → stop rest.head?

theorem StopsAt.bind {F : Reader α} {G : α → Reader β} (hG : ∀ a, StopsAt stop (G a)) :
    StopsAt stop (F.bind G) := by
  intro cs b rest h
  obtain ⟨x, -, hx⟩ := Option.bind_eq_some_iff.1 h
  exact hG x.1 x.2 b rest hx

theorem StopsAt.ifHead {p : Char → Bool} {A : Char → Reader α} {B : Reader α}
    (hA : ∀ c, StopsAt stop (A c)) (hB : StopsAt stop B) : StopsAt stop (ifHead p A B) := by
  rintro (_ | ⟨c, cs⟩) a rest h
  · exact hB [] a rest h
  · rw [Reader.ifHead] at h
    split at h
    · exact hA c cs a rest h
    · exact hB _ a rest h

theorem stopsAt_none : StopsAt stop (lift (none : Option α)) := fun _ _ _ h => nomatch h

end Reader

/-- A sequence ends with the text, a bar or a closing bracket. -/
def EndsSequence (c : Option Char) : Prop := c = none ∨ c = some '|' ∨ c = some ')'

theorem stopsAt_sequenceWithin (bound : Nat) (r : Reading) (items : List Pattern) :
    StopsAt EndsSequence (sequenceWithin bound r items) := by
  induction bound generalizing r items with
  | zero => exact fun _ _ _ h => nomatch h
  | succ bound ih =>
    have hrepetition (least most) : StopsAt EndsSequence
        (repetitionRound (sequenceWithin bound) r items least most) :=
      .bind fun _ => .bind fun _ => ih _ _
    have hgroup (start) : StopsAt EndsSequence
        (groupRound (sequenceWithin bound) (alternativesWithin bound) r items start) := by
      unfold groupRound
      split
      · exact ih _ _
      · refine .bind fun x => .bind fun c => ?_
        split
        · exact ih _ _
        · exact stopsAt_none
    rw [sequenceWithin_succ]
    refine .bind fun _ => .ifHead (fun _ => .bind fun _ => .bind hgroup) ?_
    refine .ifHead (fun _ => .bind fun _ => ih _ _) ?_
    refine .ifHead (fun _ => hrepetition _ _) (.ifHead (fun _ => hrepetition _ _) ?_)
    refine .ifHead (fun _ => hrepetition _ _) (.ifHead (fun _ => .bind fun _ => .bind fun _ =>
      hrepetition _ _) ?_)
    rintro (_ | ⟨c, cs⟩) x rest h
    · obtain ⟨-, rfl⟩ := Prod.mk.inj (Option.some.inj h)
      exact .inl rfl
    · rw [ifHead] at h
      split at h
      · exact StopsAt.bind (fun _ => ih _ _) cs x rest h
      · next hc =>
        obtain ⟨-, rfl⟩ := Prod.mk.inj (Option.some.inj h)
        simp only [EndsSequence, List.head?_cons, Option.some.injEq]
        grind

/-- Alternatives end with the text or a closing bracket. -/
theorem stopsAt_alternativesWithin (bound : Nat) (r : Reading) :
    StopsAt (fun c => c = none ∨ c = some ')') (alternativesWithin bound r) := by
  induction bound generalizing r with
  | zero => exact fun _ _ _ h => nomatch h
  | succ bound ih =>
    rw [alternativesWithin_succ]
    intro cs y rest h
    obtain ⟨⟨x, middle⟩, hx, hy⟩ := Option.bind_eq_some_iff.1 h
    have hmiddle := stopsAt_sequenceWithin bound r [] cs x middle hx
    dsimp only at hy
    rcases middle with _ | ⟨c, middle⟩
    · obtain ⟨-, rfl⟩ := Prod.mk.inj (Option.some.inj hy)
      exact .inl rfl
    by_cases hc : c = '|'
    · subst hc
      rw [ifHead_cons] at hy
      obtain ⟨⟨z, end_⟩, hz, hy⟩ := Option.bind_eq_some_iff.1 hy
      obtain ⟨-, rfl⟩ := Prod.mk.inj (Option.some.inj hy)
      exact ih x.2 middle z end_ hz
    · rw [ifHead_of_ne _ _ (by rintro _ ⟨⟩; exact hc rfl)] at hy
      obtain ⟨-, rfl⟩ := Prod.mk.inj (Option.some.inj hy)
      simpa [EndsSequence, hc] using hmiddle

/-! ## A text by itself -/

/-- **A text has a stray bracket** if reading it as a pattern stops before its end, at a closing
bracket that closes nothing. -/
def HasStrayBracket (t : Properties) (s : String) : Prop :=
  ∃ p r rest,
    readAlternatives (2 * s.toList.length + 2) (.start t) s.toList = some (p, r, ')' :: rest)

/-- **A pattern ends in an open comment** if a closing bracket after it changes nothing. -/
def EndsInComment (t : Properties) (s : String) : Prop :=
  (parse? t s).isSome ∧ parse? t (s ++ ")") = parse? t s

variable {t : Properties}

theorem parse?_eq (s : String) : parse? t s = (alternatives (.start t) s.toList).bind fun x =>
    if x.2 = [] ∧ x.1.1.nesting ≤ maxNesting then some x.1.1 else none := by
  unfold parse? alternatives alternativesWithin
  dsimp only
  cases readAlternatives (2 * s.toList.length + 2) (.start t) s.toList with
  | none => rfl
  | some x =>
    obtain ⟨p, r, rest⟩ := x
    cases rest with
    | nil => simp [apart]
    | cons c rest => simp [apart]

/-- Without a stray bracket, a text is read to its end or not at all. -/
theorem alternatives_of_not_hasStrayBracket {s : String} (h : ¬HasStrayBracket t s) :
    alternatives (.start t) s.toList = none
      ∨ ∃ x, alternatives (.start t) s.toList = some (x, []) := by
  cases hread : alternatives (.start t) s.toList with
  | none => exact .inl rfl
  | some x =>
    obtain ⟨x, rest⟩ := x
    refine .inr ⟨x, ?_⟩
    cases rest with
    | nil => rfl
    | cons c rest =>
      have hc : some c = none ∨ some c = some ')' :=
        stopsAt_alternativesWithin _ _ _ _ _ hread
      obtain ⟨⟨p, r, rest'⟩, hwithin, hx⟩ := Option.map_eq_some_iff.1 hread
      obtain ⟨-, rfl⟩ := Prod.mk.inj hx
      refine absurd ⟨p, r, rest, ?_⟩ h
      rw [hwithin, Option.some.inj (hc.resolve_left (by simp))]

/-! ## What stands around a pattern -/

/-- The end after a pattern, as it is read. -/
theorem sequence_end (r : Reading) (hr : r.modes = (Reading.start t).modes)
    (items : List Pattern) :
    sequence r items ['$'] = some ((ofItems (.check .textEnd :: items), r), []) := by
  obtain ⟨modes, groups, names⟩ := r
  obtain rfl : modes = (Reading.start t).modes := hr
  rw [sequence_eq]
  show sequence ⟨(Reading.start t).modes, groups, names⟩ (.check .textEnd :: items) [] = _
  rw [sequence_eq]
  rfl

/-- The start before a pattern, as it is read. -/
theorem sequence_start (cs : List Char) :
    sequence (.start t) [] ('^' :: '(' :: '?' :: ':' :: cs)
      = groupRound sequence alternatives (.start t) [.check .textStart]
          (.plain (Reading.start t).modes) cs := by
  rw [sequence_eq]
  show sequence (.start t) [.check .textStart] ('(' :: '?' :: ':' :: cs) = _
  rw [sequence_eq]
  rfl

/-- A pattern that is read up to the bracket after it is put between the ends of a text. -/
theorem alternatives_between {cs : List Char} {x : Pattern × Reading}
    (h : alternatives (.start t) cs = some (x, [')', '$'])) :
    ∃ r, alternatives (.start t) ('^' :: '(' :: '?' :: ':' :: cs)
      = some ((x.1.anchored, r), []) := by
  let after : Reading := { x.2 with modes := (Reading.start t).modes }
  refine ⟨after, ?_⟩
  have hgroup : sequence (.start t) [] ('^' :: '(' :: '?' :: ':' :: cs)
      = some ((x.1.anchored, after), []) := by
    rw [sequence_start]
    show ((alternatives (.start t) cs).bind fun x => _) = _
    rw [h]
    exact sequence_end after rfl [.group none x.1, .check .textStart]
  rw [alternatives_eq, alternativesRound, Reader.bind, hgroup]
  rfl

/-- If the bracket after a pattern is not there any more, the group around it is not closed. -/
theorem alternatives_unclosed {cs : List Char}
    (h : ∀ x rest, alternatives (.start t) cs = some (x, rest) → rest.head? ≠ some ')') :
    alternatives (.start t) ('^' :: '(' :: '?' :: ':' :: cs) = none := by
  have hgroup : sequence (.start t) [] ('^' :: '(' :: '?' :: ':' :: cs) = none := by
    rw [sequence_start]
    show ((alternatives (.start t) cs).bind fun x => _) = _
    cases hread : alternatives (.start t) cs with
    | none => rfl
    | some x =>
      obtain ⟨x, rest⟩ := x
      rcases rest with _ | ⟨c, rest⟩
      · rfl
      · have hc : c ≠ ')' := fun hc => h x (c :: rest) hread (by rw [hc, List.head?_cons])
        show (if c = ')' then _ else lift none) rest = none
        rw [if_neg hc]
        rfl
  rw [alternatives_eq, alternativesRound, Reader.bind, hgroup]
  rfl

/-! ## Between the ends -/

instance (s : String) : Decidable (EndsInComment t s) :=
  inferInstanceAs (Decidable ((parse? t s).isSome ∧ parse? t (s ++ ")") = parse? t s))

/-- What has a stray bracket is no pattern by itself. -/
theorem parse?_of_hasStrayBracket {s : String} (h : HasStrayBracket t s) :
    parse? t s = none := by
  obtain ⟨p, r, rest, hread⟩ := h
  rw [parse?_eq, alternatives, alternativesWithin, hread]
  rfl

theorem toList_betweenEnds (s : String) :
    (betweenEnds s).toList = '^' :: '(' :: '?' :: ':' :: (s.toList ++ [')', '$']) := by
  rw [betweenEnds, String.toList_append, String.toList_append, List.append_assoc]
  rfl

theorem nesting_anchored (p : Pattern) : p.anchored.nesting = p.nesting + 2 := by
  simp [anchored, nesting, nestingIn]

/-- **What is read between the ends of a text** is what the pattern by itself stands for, put
between the ends of a text, unless the pattern has a stray bracket. -/
theorem parse?_betweenEnds {s : String} (h : ¬HasStrayBracket t s) :
    parse? t (betweenEnds s) =
      if EndsInComment t s then none
      else (parse? t s).bind fun p =>
        if p.nesting + 2 ≤ maxNesting then some p.anchored else none := by
  have hdollar : '\n' ∉ ['$'] := by decide
  have hunclosed (hpasses : (alternatives (.start t)).Passes s.toList) :
      parse? t (betweenEnds s) = none := by
    rw [parse?_eq, toList_betweenEnds, alternatives_unclosed]
    · rfl
    intro x rest hread hhead
    have hrest := (hpasses ['$'] hdollar).1 x rest hread
    have hmem : ')' ∈ ['$'] := hrest.subset (List.mem_of_mem_head? hhead)
    exact absurd hmem (by decide)
  have hbracket : (s ++ ")").toList = s.toList ++ [')'] := String.toList_append
  rcases alternatives_of_not_hasStrayBracket h with hnone | ⟨x, hsome⟩
  · have hparse : parse? t s = none := by
      rw [parse?_eq, hnone]
      rfl
    have hbetween : parse? t (betweenEnds s) = none := by
      rcases splits_alternatives (.start t) s.toList with hsees | hpasses
      · rw [parse?_eq, toList_betweenEnds, alternatives_unclosed]
        · rfl
        · rw [hsees ['$'] hdollar, hnone]
          exact fun _ _ h => nomatch h
      · exact hunclosed hpasses
    rw [hbetween, hparse]
    split <;> rfl
  · have hparse : parse? t s = if x.1.nesting ≤ maxNesting then some x.1 else none := by
      rw [parse?_eq, hsome]
      simp
    rcases splits_alternatives (.start t) s.toList with hsees | hpasses
    · have hcomment : ¬EndsInComment t s := by
        rintro ⟨hvalid, hsame⟩
        have hnone : parse? t (s ++ ")") = none := by
          rw [parse?_eq, hbracket, hsees [] (by simp), hsome]
          simp
        rw [← hsame, hnone] at hvalid
        exact absurd hvalid (by simp)
      have hlong : alternatives (.start t) (s.toList ++ [')', '$']) = some (x, [')', '$']) := by
        rw [hsees ['$'] hdollar, hsome]
        rfl
      obtain ⟨r, hbetween⟩ := alternatives_between hlong
      rw [if_neg hcomment, parse?_eq, toList_betweenEnds, hbetween, hparse]
      simp only [Option.bind_some, true_and, nesting_anchored]
      by_cases hfits : x.1.nesting + 2 ≤ maxNesting
      · rw [if_pos hfits, if_pos (by omega), Option.bind_some, if_pos hfits]
      · rw [if_neg hfits]
        split
        · rw [Option.bind_some, if_neg hfits]
        · rfl
    · rw [hunclosed hpasses]
      split
      · rfl
      · next hcomment =>
        have hsame : parse? t (s ++ ")") = parse? t s := by
          rw [parse?_eq, hbracket, (hpasses [] (by simp)).2 _ hsome, hparse]
          simp
        have hnone : parse? t s = none := by
          rw [← Option.not_isSome_iff_eq_none]
          exact fun hvalid => hcomment ⟨hvalid, hsame⟩
        rw [hnone]
        rfl

end Pattern

namespace BinaryOperator

variable {lib : Libraries}

/-- What the operator gives for two texts. -/
theorem outcome_regex {left right : Value} {text pattern : String}
    (hleft : left.outcome = .defined (.string text))
    (hright : right.outcome = .defined (.string pattern)) :
    (regex.apply lib left right).outcome = match Pattern.accepts lib.engine pattern text with
      | .ok found => .defined (.bool found)
      | .error .malformed => (Value.fault (.malformedPattern pattern)).outcome
      | .error .tooLarge => (Value.fault .largePattern).outcome := by
  have hno {v : Value} {s : String} (h : v.outcome = .defined (.string s)) : v.isError = false := by
    rw [Value.isError, h]
  have htext {v : Value} {s : String} (h : v.outcome = .defined (.string s)) :
      Value.require .string Value.string? v = .ok s := by
    rw [Value.require, hno h, Value.string?, h]
    rfl
  rw [Value.outcome_apply (hno hleft) (hno hright), compute, matching, htext hleft, htext hright]
  simp only [bind, Except.bind]
  rcases Pattern.accepts lib.engine pattern text with (_ | _) | found <;> rfl

/-- A text that is not read between the ends of a text gives an error that shows it. -/
theorem outcome_regex_of_none {left right : Value} {text pattern : String}
    (hleft : left.outcome = .defined (.string text))
    (hright : right.outcome = .defined (.string pattern))
    (h : Pattern.parse? lib.engine.properties (Pattern.betweenEnds pattern) = none) :
    (regex.apply lib left right).outcome = (Value.fault (.malformedPattern pattern)).outcome := by
  rw [outcome_regex hleft hright, Pattern.accepts, Pattern.read, h]
  rfl

/-- **The operator for patterns says whether a pattern matches the whole of a text**, and gives an
error for what is no pattern by itself, unless that has a stray bracket. A pattern that ends in an
open comment gives an error, too, and so does one that nests too deep or for which the engine has
not the memory between the ends of a text. Which properties of characters the engine knows, and how
much memory it has, makes no difference to that. -/
theorem regex_matches_whole_text {lib : Libraries} {left right : Value} {text pattern : String}
    (hleft : left.outcome = .defined (.string text))
    (hright : right.outcome = .defined (.string pattern)) :
    let outcome := (regex.apply lib left right).outcome
    let properties := lib.engine.properties
    (Pattern.parse? properties pattern = none → ¬Pattern.HasStrayBracket properties pattern →
        outcome = (Value.fault (.malformedPattern pattern)).outcome)
      ∧ (Pattern.EndsInComment properties pattern →
          outcome = (Value.fault (.malformedPattern pattern)).outcome)
      ∧ ∀ p, Pattern.parse? properties pattern = some p →
          ¬Pattern.EndsInComment properties pattern →
          (Pattern.maxNesting < p.nesting + 2 →
            outcome = (Value.fault (.malformedPattern pattern)).outcome)
          ∧ (p.nesting + 2 ≤ Pattern.maxNesting → lib.engine.affords p.anchored = false →
            outcome = (Value.fault .largePattern).outcome)
          ∧ (p.nesting + 2 ≤ Pattern.maxNesting → lib.engine.affords p.anchored = true →
            ∃ found, outcome = .defined (.bool found)
              ∧ (found = true ↔ p.Matches text.toList.toArray 0 text.toList.length)) := by
  intro outcome properties
  have hstray {p : Pattern} (hp : Pattern.parse? properties pattern = some p) :
      ¬Pattern.HasStrayBracket properties pattern := fun h => by
    rw [Pattern.parse?_of_hasStrayBracket h] at hp
    exact nomatch hp
  refine ⟨fun hnone hbracket => ?_, fun hcomment => ?_, fun p hp hcomment => ?_⟩
  · refine outcome_regex_of_none hleft hright ?_
    rw [Pattern.parse?_betweenEnds hbracket, hnone]
    split <;> rfl
  · obtain ⟨p, hp⟩ := Option.isSome_iff_exists.1 hcomment.1
    refine outcome_regex_of_none hleft hright ?_
    rw [Pattern.parse?_betweenEnds (hstray hp), if_pos hcomment]
  have hparse : Pattern.parse? properties (Pattern.betweenEnds pattern)
      = if p.nesting + 2 ≤ Pattern.maxNesting then some p.anchored else none := by
    rw [Pattern.parse?_betweenEnds (hstray hp), if_neg hcomment, hp, Option.bind_some]
  refine ⟨fun hdeep => ?_, fun hfits hlarge => ?_, fun hfits hsmall => ?_⟩
  · refine outcome_regex_of_none hleft hright ?_
    rw [hparse, if_neg (by omega)]
  · show (regex.apply lib left right).outcome = _
    rw [outcome_regex hleft hright, Pattern.accepts, Pattern.read, hparse, if_pos hfits]
    dsimp only
    rw [hlarge]
    rfl
  · refine ⟨p.anchored.occursIn text, ?_, Pattern.occursIn_anchored p text⟩
    show (regex.apply lib left right).outcome = _
    rw [outcome_regex hleft hright, Pattern.accepts, Pattern.read, hparse, if_pos hfits]
    dsimp only
    rw [hsmall]
    rfl

/-- Libraries that know the decimal digits by a property. -/
def knowingDigits : Libraries where
  engine := { properties := fun name => if name = "Nd" then some .digit else none }

/-- An open bracket, a pattern that ends in an open comment, a property that is not known, and a
pattern with one that is, which matches the whole text. -/
theorem regex_matches_whole_text_of_digits :
    let properties := knowingDigits.engine.properties
    let outcome (pattern : String) :=
      (regex.apply knowingDigits (Value.of (.string "42b")) (Value.of (.string pattern))).outcome
    outcome "(" = (Value.fault (.malformedPattern "(")).outcome
      ∧ outcome "(?x)42b#" = (Value.fault (.malformedPattern "(?x)42b#")).outcome
      ∧ outcome "\\pL*b" = (Value.fault (.malformedPattern "\\pL*b")).outcome
      ∧ ∃ p, Pattern.parse? properties "\\p\x7bNd\x7d*b" = some p
          ∧ outcome "\\p\x7bNd\x7d*b" = .defined (.bool true)
          ∧ p.Matches "42b".toList.toArray 0 "42b".toList.length := by
  intro properties outcome
  have hwhole (pattern : String) := @regex_matches_whole_text knowingDigits
    (Value.of (.string "42b")) (Value.of (.string pattern)) "42b" pattern rfl rfl
  -- what is not read at all has no stray bracket
  have hnostray {s : String} (hnone : (Pattern.readAlternatives (2 * s.toList.length + 2)
      (.start properties) s.toList).isNone = true) : ¬Pattern.HasStrayBracket properties s := by
    rintro ⟨p, r, rest, h⟩
    rw [h] at hnone
    cases hnone
  obtain ⟨p, hp⟩ : ∃ p, Pattern.parse? properties "\\p\x7bNd\x7d*b" = some p :=
    Option.isSome_iff_exists.1 (by decide +kernel)
  have hlimits : ∀ p ∈ Pattern.parse? properties "\\p\x7bNd\x7d*b",
      p.nesting + 2 ≤ Pattern.maxNesting ∧ knowingDigits.engine.affords p.anchored = true := by
    decide +kernel
  have hends : ¬Pattern.EndsInComment properties "\\p\x7bNd\x7d*b" := by decide +kernel
  obtain ⟨hfits, hsmall⟩ := hlimits p hp
  obtain ⟨found, houtcome, hfound⟩ := ((hwhole _).2.2 p hp hends).2.2 hfits hsmall
  have htrue : outcome "\\p\x7bNd\x7d*b" = .defined (.bool true) := by decide +kernel
  refine ⟨(hwhole "(").1 (by decide +kernel) (hnostray (by decide +kernel)),
    (hwhole _).2.1 (by decide +kernel),
    (hwhole _).1 (by decide +kernel) (hnostray (by decide +kernel)), p, hp, htrue, ?_⟩
  cases htrue.symm.trans houtcome
  exact hfound.1 rfl

/-- **A stray bracket makes a pattern of a text that is none**, and it matches more than the whole
of a text. -/
theorem regex_matches_more_than_the_whole :
    Pattern.parse? (fun _ => none) "a)|(?:b" = none
      ∧ (regex.apply {} (Value.of (.string "ax")) (Value.of (.string "a)|(?:b"))).outcome
          = .defined (.bool true) := by
  decide +kernel

end BinaryOperator

end AccessPolicy
