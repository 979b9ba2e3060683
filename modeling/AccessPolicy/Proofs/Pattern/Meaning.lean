import AccessPolicy.Pattern.Matching

/-!
# What patterns match

A pattern relates the places of a text between which there stands a part that it matches. The
relation goes along the pattern and says nothing of how matches are found. That `reach` finds
exactly the related places needs an argument only for repetitions, whose number is unbounded in
the relation and bounded in the search: a chain of more steps than the text has characters has a
step that stays where it is, and such a step may be left out or made once more.
-/

namespace AccessPolicy

/-- A number of steps of a relation, one after the other. -/
inductive Steps (R : Nat → Nat → Prop) : Nat → Nat → Nat → Prop
  | done (i : Nat) : Steps R 0 i i
  | step {n i j k : Nat} (first : R i j) (later : Steps R n j k) : Steps R (n + 1) i k

namespace Steps

variable {R : Nat → Nat → Prop} {m n i j k : Nat}

theorem zero_iff : Steps R 0 i j ↔ i = j := by
  refine ⟨?_, ?_⟩
  · rintro ⟨⟩
    rfl
  · rintro rfl
    exact .done i

theorem succ_iff : Steps R (n + 1) i k ↔ ∃ j, R i j ∧ Steps R n j k := by
  refine ⟨?_, ?_⟩
  · rintro ⟨⟩
    exact ⟨_, ‹_›, ‹_›⟩
  · rintro ⟨j, first, later⟩
    exact .step first later

theorem add_iff : Steps R (m + n) i k ↔ ∃ j, Steps R m i j ∧ Steps R n j k := by
  induction m generalizing i with
  | zero => simp [zero_iff]
  | succ m ih =>
    rw [Nat.add_right_comm, succ_iff]
    simp only [ih, succ_iff]
    grind

/-! ## Steps that do not go back -/

/-- Steps do not go back, and stay within a text, if each of them does so. -/
theorem bounds {size : Nat} (hR : ∀ i j, R i j → i ≤ j ∧ (i ≤ size → j ≤ size))
    (h : Steps R n i j) : i ≤ j ∧ (i ≤ size → j ≤ size) := by
  induction h with
  | done i => exact ⟨Nat.le_refl _, id⟩
  | step first later ih =>
    obtain ⟨hle, hsize⟩ := hR _ _ first
    exact ⟨Nat.le_trans hle ih.1, fun hi => ih.2 (hsize hi)⟩

/-- A step that stays where it is may be made once more. -/
theorem prolong (hR : ∀ i j, R i j → i ≤ j) (h : Steps R n i j) (hlong : j < i + n) :
    Steps R (n + 1) i j := by
  induction h with
  | done i => omega
  | @step n i j k first later ih =>
    have hle := hR i j first
    by_cases hstays : j = i
    · subst hstays
      exact .step first (.step first later)
    · exact .step first (ih (by omega))

/-- A step that stays where it is may be left out. -/
theorem shorten (hR : ∀ i j, R i j → i ≤ j) (h : Steps R (n + 1) i j) (hlong : j ≤ i + n) :
    Steps R n i j := by
  induction n generalizing i with
  | zero =>
    obtain ⟨k, first, later⟩ := succ_iff.1 h
    obtain rfl := zero_iff.1 later
    obtain rfl : i = k := by have := hR i k first; omega
    exact .done i
  | succ n ih =>
    obtain ⟨k, first, later⟩ := succ_iff.1 h
    have hle := hR i k first
    by_cases hstays : k = i
    · subst hstays
      exact later
    · exact .step first (ih later (by omega))

/-- More steps than there is room for reach no more and no fewer places. -/
theorem iff_of_long (hR : ∀ i j, R i j → i ≤ j) {limit : Nat} (hj : j < limit) (hm : limit ≤ m)
    (hn : limit ≤ n) : Steps R m i j ↔ Steps R n i j := by
  have hlimit (d : Nat) : Steps R (limit + d) i j ↔ Steps R limit i j := by
    induction d with
    | zero => rfl
    | succ d ih =>
      rw [← ih]
      exact ⟨fun h => shorten (n := limit + d) hR h (by omega),
        fun h => prolong (n := limit + d) hR h (by omega)⟩
  obtain ⟨d, rfl⟩ := Nat.exists_eq_add_of_le hm
  obtain ⟨e, rfl⟩ := Nat.exists_eq_add_of_le hn
  rw [hlimit d, hlimit e]

end Steps

namespace Pattern

/-- **A pattern matches the part of a text between two places.** A repetition goes on at least as
often as it must and, if there is a greatest number of times, no more often than that. -/
def Matches (text : Array Char) : Pattern → Nat → Nat → Prop
  | empty, i, j => i = j
  | char s _, i, j => (∃ c, text[i]? = some c ∧ s.has c.toNat = true) ∧ i + 1 = j
  | check a, i, j => a.holds (before? text i) text[i]? = true ∧ i = j
  | seq p q, i, k => ∃ j, p.Matches text i j ∧ q.Matches text j k
  | alt p q, i, j => p.Matches text i j ∨ q.Matches text i j
  | times p least most _, i, j =>
    ∃ n, least ≤ n ∧ (∀ m ∈ most, n ≤ max least m) ∧ Steps (p.Matches text) n i j
  | group _ p, i, j => p.Matches text i j

variable {text : Array Char}

/-- What matches does not go back and stays within the text. -/
theorem Matches.bounds {p : Pattern} {i j : Nat} (h : p.Matches text i j) :
    i ≤ j ∧ (i ≤ text.size → j ≤ text.size) := by
  induction p generalizing i j with
  | empty =>
    obtain rfl : i = j := h
    exact ⟨Nat.le_refl _, id⟩
  | char s brackets =>
    obtain ⟨⟨c, hc, -⟩, rfl⟩ := h
    have hi := (Array.getElem?_eq_some_iff.1 hc).1
    exact ⟨by omega, fun _ => hi⟩
  | check a =>
    obtain ⟨-, rfl⟩ := h
    exact ⟨Nat.le_refl _, id⟩
  | seq p q ihp ihq =>
    obtain ⟨k, hp, hq⟩ := h
    exact ⟨Nat.le_trans (ihp hp).1 (ihq hq).1, fun hi => (ihq hq).2 ((ihp hp).2 hi)⟩
  | alt p q ihp ihq => exact h.elim ihp ihq
  | times p least most greedy ih =>
    obtain ⟨n, -, -, hn⟩ := h
    exact hn.bounds fun _ _ => ih
  | group number p ih => exact ih h

/-! ## The search -/

section Search

variable {step : List Nat → List Nat} {R : Nat → Nat → Prop}

/-- A step of the search that follows a relation from places within a text. -/
def Follows (size : Nat) (step : List Nat → List Nat) (R : Nat → Nat → Prop) : Prop :=
  ∀ places, (∀ i ∈ places, i ≤ size) → ∀ j, j ∈ step places ↔ ∃ i ∈ places, R i j

variable {size : Nat}

theorem mem_iterate (hstep : Follows size step R) (hR : ∀ i j, R i j → i ≤ size → j ≤ size)
    (count : Nat) {places : List Nat} (hplaces : ∀ i ∈ places, i ≤ size) (j : Nat) :
    j ∈ iterate step count places ↔ ∃ i ∈ places, Steps R count i j := by
  induction count generalizing places with
  | zero => simp [iterate, Steps.zero_iff]
  | succ count ih =>
    have hnext : ∀ k ∈ step places, k ≤ size := by
      intro k hk
      obtain ⟨i, hi, hik⟩ := (hstep places hplaces k).1 hk
      exact hR i k hik (hplaces i hi)
    rw [iterate, ih hnext]
    simp only [hstep places hplaces, Steps.succ_iff]
    grind

/-- The places found from the newest ones are those found from all places seen, if the others
lead nowhere else. -/
theorem mem_spread (hstep : Follows size step R) (hR : ∀ i j, R i j → i ≤ size → j ≤ size)
    (rounds : Nat) {seen newest : List Nat} (hseen : ∀ i ∈ seen, i ≤ size)
    (hnewest : ∀ i ∈ newest, i ∈ seen)
    (hold : ∀ i ∈ seen, i ∉ newest → ∀ k, R i k → k ∈ seen) (j : Nat) :
    j ∈ spread step rounds seen newest ↔ ∃ n ≤ rounds, ∃ i ∈ seen, Steps R n i j := by
  induction rounds generalizing seen newest with
  | zero =>
    refine ⟨fun h => ⟨0, Nat.le_refl _, j, h, .done j⟩, ?_⟩
    rintro ⟨n, hn, i, hi, hij⟩
    obtain rfl := Nat.le_zero.1 hn
    obtain rfl := Steps.zero_iff.1 hij
    exact hi
  | succ rounds ih =>
    have hwithin : ∀ i ∈ newest, i ≤ size := fun i hi => hseen i (hnewest i hi)
    let next := (step newest).filter fun i => !seen.contains i
    have hnext (k : Nat) : k ∈ next ↔ (∃ i ∈ newest, R i k) ∧ k ∉ seen := by
      simp [next, hstep newest hwithin]
    -- a step from any place seen leads to one that is seen in the next round
    have hleads : ∀ i ∈ seen, ∀ k, R i k → k ∈ seen ++ next := by
      intro i hi k hik
      by_cases hk : k ∈ seen
      · exact List.mem_append_left _ hk
      · by_cases hin : i ∈ newest
        · exact List.mem_append_right _ ((hnext k).2 ⟨⟨i, hin, hik⟩, hk⟩)
        · exact absurd (hold i hi hin k hik) hk
    show j ∈ (if next.isEmpty then seen else spread step rounds (seen ++ next) next) ↔ _
    split
    · next hempty =>
      rw [List.isEmpty_iff] at hempty
      rw [hempty, List.append_nil] at hleads
      refine ⟨fun h => ⟨0, Nat.zero_le _, j, h, .done j⟩, ?_⟩
      rintro ⟨n, -, i, hi, hij⟩
      clear ih
      induction hij with
      | done i => exact hi
      | step first later ihn => exact ihn (hleads _ hi _ first)
    · have hseen' : ∀ i ∈ seen ++ next, i ≤ size := by
        intro i hi
        rcases List.mem_append.1 hi with hi | hi
        · exact hseen i hi
        · obtain ⟨⟨k, hk, hki⟩, -⟩ := (hnext i).1 hi
          exact hR k i hki (hwithin k hk)
      have hold' : ∀ i ∈ seen ++ next, i ∉ next → ∀ k, R i k → k ∈ seen ++ next :=
        fun i hi hin => hleads i ((List.mem_append.1 hi).resolve_right hin)
      rw [ih hseen' (fun i hi => List.mem_append_right _ hi) hold']
      refine ⟨?_, ?_⟩
      · rintro ⟨n, hn, i, hi, hij⟩
        rcases List.mem_append.1 hi with hi | hi
        · exact ⟨n, by omega, i, hi, hij⟩
        · obtain ⟨⟨k, hk, hki⟩, -⟩ := (hnext i).1 hi
          exact ⟨n + 1, by omega, k, hnewest k hk, .step hki hij⟩
      · rintro ⟨n, hn, i, hi, hij⟩
        cases hij with
        | done => exact ⟨0, Nat.zero_le _, j, List.mem_append_left _ hi, .done j⟩
        | @step n _ k _ first later => exact ⟨n, by omega, k, hleads i hi k first, later⟩

end Search

/-- The bounds of the search are no bounds on what is found. -/
theorem times_iff_steps {R : Nat → Nat → Prop} (hR : ∀ i j, R i j → i ≤ j) {limit i j : Nat}
    (hj : j < limit) (least : Nat) (most : Option Nat) :
    (∃ n, least ≤ n ∧ (∀ m ∈ most, n ≤ max least m) ∧ Steps R n i j)
      ↔ ∃ n ≤ (match most with
          | none => limit
          | some most => min (most - least) limit), Steps R (min least limit + n) i j := by
  refine ⟨?_, ?_⟩
  · rintro ⟨n, hleast, hmost, hn⟩
    by_cases hlimit : limit ≤ least
    · refine ⟨0, Nat.zero_le _, ?_⟩
      exact (Steps.iff_of_long hR hj (by omega) (by omega)).1 hn
    by_cases hshort : n - least ≤ limit
    · refine ⟨n - least, ?_, by rwa [show min least limit + (n - least) = n by omega]⟩
      cases most with
      | none => exact hshort
      | some m =>
        have := hmost m rfl
        show n - least ≤ min (m - least) limit
        omega
    · refine ⟨limit, ?_, (Steps.iff_of_long hR hj (by omega) (by omega)).1 hn⟩
      cases most with
      | none => exact Nat.le_refl _
      | some m =>
        have := hmost m rfl
        show limit ≤ min (m - least) limit
        omega
  · rintro ⟨n, hrounds, hn⟩
    by_cases hlimit : limit ≤ least
    · refine ⟨least, Nat.le_refl _, fun m _ => Nat.le_max_left _ _, ?_⟩
      exact (Steps.iff_of_long hR hj (by omega) (by omega)).1 hn
    · refine ⟨least + n, by omega, ?_, by rwa [show least + n = min least limit + n by omega]⟩
      rintro m ⟨⟩
      have : n ≤ min (m - least) limit := hrounds
      omega

/-- **The search finds what matches**: from places within a text it leads to exactly the places at
which parts that match end. -/
theorem follows_reach (text : Array Char) (p : Pattern) :
    Follows text.size (p.reach text) (p.Matches text) := by
  induction p with
  | empty =>
    intro places hplaces j
    simp [reach, Matches]
  | char s brackets =>
    intro places hplaces j
    simp only [reach, Matches, List.mem_filterMap]
    refine exists_congr fun i => and_congr_right fun _ => ?_
    cases text[i]? with
    | none => simp
    | some c => simp
  | check a =>
    intro places hplaces j
    simp only [reach, Matches, List.mem_filter]
    exact ⟨fun ⟨hj, ha⟩ => ⟨j, hj, ha, rfl⟩, fun ⟨i, hi, ha, hij⟩ => hij ▸ ⟨hi, ha⟩⟩
  | seq p q ihp ihq =>
    intro places hplaces j
    have hmiddle : ∀ k ∈ p.reach text places, k ≤ text.size := by
      intro k hk
      obtain ⟨i, hi, hik⟩ := (ihp places hplaces k).1 hk
      exact hik.bounds.2 (hplaces i hi)
    rw [reach, ihq _ hmiddle]
    simp only [ihp places hplaces, Matches]
    grind
  | alt p q ihp ihq =>
    intro places hplaces j
    have hmem : j ∈ (alt p q).reach text places
        ↔ j ∈ p.reach text places ∨ j ∈ q.reach text places := by
      simp only [reach, List.mem_append, List.mem_filter]
      grind
    simp only [hmem, ihp places hplaces, ihq places hplaces, Matches]
    grind
  | times p least most greedy ih =>
    intro places hplaces j
    have hbounds (i j) : p.Matches text i j → i ≤ j ∧ (i ≤ text.size → j ≤ text.size) :=
      Matches.bounds
    have hR (i j) (h : p.Matches text i j) := (hbounds i j h).2
    have hstart : ∀ k ∈ iterate (p.reach text) (min least (text.size + 1)) places,
        k ≤ text.size := by
      intro k hk
      obtain ⟨i, hi, hik⟩ := (mem_iterate ih hR _ hplaces k).1 hk
      exact (hik.bounds hbounds).2 (hplaces i hi)
    have hmem := mem_spread ih hR
      (match most with
        | none => text.size + 1
        | some most => min (most - least) (text.size + 1))
      hstart (fun _ h => h) (fun _ h h' => absurd h h') j
    refine hmem.trans ?_
    simp only [mem_iterate ih hR _ hplaces, Matches]
    refine ⟨?_, ?_⟩
    · rintro ⟨n, hn, k, ⟨i, hi, hik⟩, hkj⟩
      have hsteps := Steps.add_iff.2 ⟨k, hik, hkj⟩
      have hj : j ≤ text.size := (hsteps.bounds hbounds).2 (hplaces i hi)
      exact ⟨i, hi, (times_iff_steps (fun i j h => (hbounds i j h).1) (Nat.lt_succ_of_le hj)
        least most).2 ⟨n, hn, hsteps⟩⟩
    · rintro ⟨i, hi, hmatch⟩
      have hj : j ≤ text.size :=
        Matches.bounds (p := p.times least most greedy) hmatch |>.2 (hplaces i hi)
      obtain ⟨n, hn, hsteps⟩ := (times_iff_steps (fun i j h => (hbounds i j h).1)
        (Nat.lt_succ_of_le hj) least most).1 hmatch
      obtain ⟨k, hik, hkj⟩ := Steps.add_iff.1 hsteps
      exact ⟨n, hn, k, ⟨i, hi, hik⟩, hkj⟩
  | group number p ih => exact ih

/-- A pattern occurs in a text if it matches some part of it. -/
theorem occursIn_iff (p : Pattern) (text : String) :
    p.occursIn text = true
      ↔ ∃ i ≤ text.toList.length, ∃ j, p.Matches text.toList.toArray i j := by
  have hplaces : ∀ i ∈ List.range (text.toList.toArray.size + 1),
      i ≤ text.toList.toArray.size := fun i hi => Nat.le_of_lt_succ (List.mem_range.1 hi)
  have hfound := follows_reach text.toList.toArray p _ hplaces
  show (!(p.reach text.toList.toArray (List.range (text.toList.toArray.size + 1))).isEmpty) = true
    ↔ _
  rw [Bool.not_eq_true', List.isEmpty_eq_false_iff_exists_mem]
  refine ⟨?_, ?_⟩
  · rintro ⟨j, hj⟩
    obtain ⟨i, hi, hij⟩ := (hfound j).1 hj
    exact ⟨i, hplaces i hi, j, hij⟩
  · rintro ⟨i, hi, j, hij⟩
    exact ⟨j, (hfound j).2 ⟨i, List.mem_range.2 (Nat.lt_succ_of_le hi), hij⟩⟩

/-! ## Between the ends -/

/-- A pattern put between the two ends of a text. -/
def anchored (p : Pattern) : Pattern :=
  .seq (.check .textStart) (.seq (.group none p) (.check .textEnd))

/-- A place without a character before it is the first one. -/
theorem before?_eq_none_iff {i : Nat} (hi : i ≤ text.size) : before? text i = none ↔ i = 0 := by
  unfold before?
  split
  · next h => simp [h]
  · next h =>
    rw [Array.getElem?_eq_none_iff]
    omega

/-- **Between the ends, a pattern occurs where it matches the whole of a text.** -/
theorem occursIn_anchored (p : Pattern) (text : String) :
    p.anchored.occursIn text = true
      ↔ p.Matches text.toList.toArray 0 text.toList.length := by
  rw [occursIn_iff]
  simp only [anchored, Matches, Assertion.holds, Option.isNone_iff_eq_none,
    Array.getElem?_eq_none_iff, List.size_toArray]
  refine ⟨?_, fun h => ⟨0, Nat.zero_le _, _, 0, ⟨rfl, rfl⟩, _, h, Nat.le_refl _, rfl⟩⟩
  rintro ⟨i, hi, _, _, ⟨hstart, rfl⟩, j, hmatch, hend, rfl⟩
  obtain rfl := (before?_eq_none_iff hi).1 hstart
  have hj : j ≤ text.toList.length := hmatch.bounds.2 (Nat.zero_le _)
  obtain rfl : j = text.toList.length := Nat.le_antisymm hj hend
  exact hmatch

end Pattern

end AccessPolicy
