import AccessPolicy.Proofs.Json.Canonical
import AccessPolicy.Proofs.Lists
import AccessPolicy.Proofs.Value.Arithmetic

/-!
# Equality is an equivalence

Equality of documents is computed one-sidedly: each member of the left object is looked up in the
right one, and the lengths are compared. Between objects that list their members in key order this
says that the members are equal side by side, which is a symmetric statement. Between any two lists
of members it does not, so the laws are about canonical documents, which are all that there are.

The rule for numbers mixes two notions, the value where there is one and the spelling otherwise.
They do not get into each other's way: a number without a value is equal to itself only.
-/

namespace AccessPolicy

/-! ## What is compared -/

/-- **What a numeral denotes**, as the one spelling of its value; a numeral without a value denotes
itself. -/
def Numeral.meaning (n : Numeral) : Numeral :=
  match Decimal.ofNumeral? n with
  | some d => d.toNumeral
  | none => n

/-- The spelling of a decimal that was read has a value. -/
theorem Numeral.toNumeral_ne {n m : Numeral} {d : Decimal} (hn : Decimal.ofNumeral? n = some d)
    (hm : Decimal.ofNumeral? m = none) : d.toNumeral ≠ m := by
  rintro rfl
  obtain ⟨r, hr, -⟩ := Decimal.ofNumeral?_toNumeral (Decimal.scale_lt_of_ofNumeral? hn)
  rw [hm] at hr
  cases hr

theorem Numeral.agrees_iff (a b : Numeral) : a.agrees b = true ↔ a.meaning = b.meaning := by
  unfold agrees meaning
  cases ha : Decimal.ofNumeral? a with
  | none =>
    cases hb : Decimal.ofNumeral? b with
    | none => exact beq_iff_eq
    | some y =>
      refine iff_of_false (fun h => ?_) fun h => toNumeral_ne hb ha h.symm
      rw [beq_iff_eq.1 h, hb] at ha
      cases ha
  | some x =>
    cases hb : Decimal.ofNumeral? b with
    | none =>
      refine iff_of_false (fun h => ?_) (toNumeral_ne ha hb)
      rw [← beq_iff_eq.1 h, ha] at hb
      cases hb
    | some y =>
      dsimp only
      rw [beq_iff_eq, Decimal.compare_eq_iff, Decimal.toNumeral_eq_iff
        (Decimal.scale_lt_of_ofNumeral? ha) (Decimal.scale_lt_of_ofNumeral? hb)]

namespace Json

mutual

/-- **What a document denotes**: the same document with each number in the one spelling of its
value. -/
def meaning : Json → Json
  | null => null
  | bool b => bool b
  | number n => number n.meaning
  | string s => string s
  | array items => array (itemsMeaning items)
  | object members => object (membersMeaning members)

/-- What some items denote. -/
def itemsMeaning : List Json → List Json
  | [] => []
  | item :: items => meaning item :: itemsMeaning items

/-- What some members denote. -/
def membersMeaning : List (String × Json) → List (String × Json)
  | [] => []
  | (key, value) :: members => (key, meaning value) :: membersMeaning members

end

theorem itemsMeaning_eq (items : List Json) : itemsMeaning items = items.map meaning := by
  induction items with
  | nil => rfl
  | cons item items ih => rw [itemsMeaning, ih, List.map_cons]

theorem membersMeaning_eq (members : List (String × Json)) :
    membersMeaning members = members.map fun m => (m.1, m.2.meaning) := by
  induction members with
  | nil => rfl
  | cons m members ih =>
    obtain ⟨key, value⟩ := m
    rw [membersMeaning, ih, List.map_cons]

/-! ## Containers -/

/-- Two members are equal if they have the same name and equal values. -/
def MembersAgree (m n : String × Json) : Prop := m.1 = n.1 ∧ m.2.agrees n.2 = true

theorem itemsAgree_iff {as bs : List Json} :
    itemsAgree as bs = true ↔ List.Forall₂ (fun a b => a.agrees b = true) as bs := by
  induction as generalizing bs with
  | nil => cases bs <;> simp [itemsAgree]
  | cons a as ih =>
    cases bs with
    | nil => simp [itemsAgree]
    | cons b bs => rw [itemsAgree, Bool.and_eq_true, ih, List.forall₂_cons]

theorem membersAgree_iff {as : List (String × Json)} {bs : Dict String Json} :
    membersAgree as bs = true
      ↔ ∀ m ∈ as, ∃ b, Dict.get? bs m.1 = some b ∧ m.2.agrees b = true := by
  induction as with
  | nil => simp [membersAgree]
  | cons m as ih =>
    obtain ⟨key, a⟩ := m
    rw [membersAgree, Bool.and_eq_true, ih, List.forall_mem_cons]
    refine and_congr_left fun _ => ?_
    cases Dict.get? bs key <;> simp

/-- Of two sorted dictionaries of one size, one of which has all keys of the other, the keys are
the same. -/
theorem keys_eq_of_subset {as bs : Dict String Json} (has : as.Sorted) (hbs : bs.Sorted)
    (hlength : as.length = bs.length) (h : ∀ k ∈ as.keys, k ∈ bs.keys) : as.keys = bs.keys := by
  have hperm : as.keys.Perm bs.keys :=
    (has.keys_nodup.subperm h).perm_of_length_le (by simp [Dict.keys, hlength])
  exact eq_of_ascending id (Dict.sorted_iff_keys.1 has) (Dict.sorted_iff_keys.1 hbs)
    fun _ => hperm.mem_iff

/-- Looking up members one by one compares them side by side if the keys are the same. -/
theorem forall₂_of_keys_eq {as bs : Dict String Json} (hkeys : as.keys = bs.keys)
    (hnodup : as.keys.Nodup)
    (h : ∀ m ∈ as, ∃ b, Dict.get? bs m.1 = some b ∧ m.2.agrees b = true) :
    List.Forall₂ MembersAgree as bs := by
  induction as generalizing bs with
  | nil =>
    obtain rfl : bs = [] := List.map_eq_nil_iff.1 hkeys.symm
    exact .nil
  | cons m as ih =>
    cases bs with
    | nil => cases hkeys
    | cons n bs =>
      obtain ⟨hkey, hrest⟩ := List.cons.inj hkeys
      obtain ⟨hfresh, hnodup⟩ := List.nodup_cons.1 hnodup
      obtain ⟨hm, has⟩ := List.forall_mem_cons.1 h
      obtain ⟨b, hb, hagrees⟩ := hm
      rw [Dict.get?, if_pos hkey] at hb
      obtain rfl := Option.some.inj hb
      refine .cons ⟨hkey, hagrees⟩ (ih hrest hnodup fun m' hm' => ?_)
      -- the other members have other names than the first one
      obtain ⟨b, hb, hagrees⟩ := has m' hm'
      have hother : m'.1 ≠ n.1 := by
        intro heq
        exact hfresh (hkey ▸ heq ▸ List.mem_map_of_mem hm')
      rw [Dict.get?, if_neg hother] at hb
      exact ⟨b, hb, hagrees⟩

/-- **Objects are equal** if their members are, side by side. -/
theorem agrees_object_iff {as bs : Dict String Json} (has : as.Sorted) (hbs : bs.Sorted) :
    agrees (object as) (object bs) = true ↔ List.Forall₂ MembersAgree as bs := by
  rw [agrees, Bool.and_eq_true, beq_iff_eq, membersAgree_iff]
  constructor
  · rintro ⟨hlength, h⟩
    refine forall₂_of_keys_eq (keys_eq_of_subset has hbs hlength fun k hk => ?_) has.keys_nodup h
    obtain ⟨m, hm, rfl⟩ := List.mem_map.1 hk
    obtain ⟨b, hb, -⟩ := h m hm
    exact List.mem_map.2 ⟨_, Dict.mem_of_get? hb, rfl⟩
  · intro h
    refine ⟨h.length_eq, fun m hm => ?_⟩
    obtain ⟨n, hn, hkey, hagrees⟩ := forall₂_mem_left h hm
    exact ⟨n.2, hbs.mem_iff.1 (hkey ▸ hn), hagrees⟩

/-! ## Equal documents denote the same -/

/-- Lists are compared by what their items denote, if that is how the items are compared. -/
theorem forall₂_iff_map_eq {α β : Type} {R : α → α → Prop} {f : α → β} {as bs : List α}
    (h : ∀ a ∈ as, ∀ b ∈ bs, (R a b ↔ f a = f b)) : List.Forall₂ R as bs ↔ as.map f = bs.map f := by
  induction as generalizing bs with
  | nil =>
    rw [List.forall₂_nil_left_iff, List.map_nil, List.nil_eq, List.map_eq_nil_iff]
  | cons a as ih =>
    cases bs with
    | nil => simp
    | cons b bs =>
      obtain ⟨ha, has⟩ := List.forall_mem_cons.1 h
      rw [List.forall₂_cons, List.map_cons, List.map_cons, List.cons.injEq, ha b List.mem_cons_self,
        ih fun a' ha' b' hb' => has a' ha' b' (List.mem_cons_of_mem _ hb')]

/-- **Canonical documents are equal exactly if they denote the same.** -/
theorem agrees_iff {d e : Json} (hd : d.Canonical) (he : e.Canonical) :
    d.agrees e = true ↔ d.meaning = e.meaning := by
  induction d using child_induction generalizing e with
  | h d ih =>
    cases hd with
    | null => cases e <;> simp [agrees, meaning]
    | bool b => cases e <;> simp [agrees, meaning]
    | string s => cases e <;> simp [agrees, meaning]
    | number n =>
      cases e with
      | number m => rw [agrees, Numeral.agrees_iff, meaning, meaning, number.injEq]
      | _ => simp [agrees, meaning]
    | @array items hitems =>
      cases e with
      | array others =>
        rw [agrees, itemsAgree_iff, meaning, meaning, array.injEq, itemsMeaning_eq, itemsMeaning_eq]
        exact forall₂_iff_map_eq fun a ha b hb => ih none a (.item ha) (hitems a ha) (he.items b hb)
      | _ => simp [agrees, meaning]
    | @object members hsorted hmembers =>
      cases e with
      | object others =>
        obtain ⟨hsorted', hothers⟩ := he.members
        rw [agrees_object_iff hsorted hsorted', meaning, meaning, object.injEq, membersMeaning_eq,
          membersMeaning_eq]
        refine forall₂_iff_map_eq fun m hm n hn => ?_
        rw [MembersAgree, ih _ m.2 (.member hm) (hmembers m hm) (hothers n hn), Prod.mk.injEq]
      | _ => simp [agrees, meaning]

/-! ## Equal parts -/

/-- A document with one place left open: among the items of an array, or for the value of a
member. -/
inductive Frame where
  | item (before after : List Json)
  | member (before : List (String × Json)) (key : String) (after : List (String × Json))

/-- The document with something in the open place. -/
def Frame.fill : Frame → Json → Json
  | item before after, x => array (before ++ x :: after)
  | member before key after, x => object (before ++ (key, x) :: after)

/-- The document with something in a place at any depth, the outermost frame first. -/
def fill (frames : List Frame) (x : Json) : Json := frames.foldr Frame.fill x

/-- What is denoted depends on a part only through what the part denotes. -/
theorem meaning_fill (frames : List Frame) {x y : Json} (h : x.meaning = y.meaning) :
    (fill frames x).meaning = (fill frames y).meaning := by
  induction frames with
  | nil => exact h
  | cons frame frames ih =>
    show (frame.fill (fill frames x)).meaning = (frame.fill (fill frames y)).meaning
    cases frame with
    | item before after =>
      simp only [Frame.fill, meaning, itemsMeaning_eq, List.map_append, List.map_cons, ih]
    | member before key after =>
      simp only [Frame.fill, meaning, membersMeaning_eq, List.map_append, List.map_cons, ih]

/-- A part may be replaced by any canonical document. -/
theorem canonical_fill {frames : List Frame} {x y : Json} (h : (fill frames x).Canonical)
    (hy : y.Canonical) : x.Canonical ∧ (fill frames y).Canonical := by
  induction frames with
  | nil => exact ⟨h, hy⟩
  | cons frame frames ih =>
    cases frame with
    | item before after =>
      have hitems : ∀ z ∈ before ++ fill frames x :: after, z.Canonical := Canonical.items h
      obtain ⟨hx, hfilled⟩ := ih (hitems _ (by simp))
      refine ⟨hx, .array fun z hz => ?_⟩
      rcases List.mem_append.1 hz with hz | hz
      · exact hitems z (List.mem_append_left _ hz)
      · rcases List.mem_cons.1 hz with rfl | hz
        · exact hfilled
        · exact hitems z (List.mem_append_right _ (List.mem_cons_of_mem _ hz))
    | member before key after =>
      have hfields : Dict.Sorted (before ++ (key, fill frames x) :: after)
          ∧ ∀ m ∈ before ++ (key, fill frames x) :: after, m.2.Canonical := Canonical.members h
      obtain ⟨hsorted, hmembers⟩ := hfields
      obtain ⟨hx, hfilled⟩ := ih (hmembers (key, fill frames x) (by simp))
      refine ⟨hx, .object ?_ fun m hm => ?_⟩
      · rw [Dict.sorted_iff_keys] at hsorted ⊢
        simpa [Dict.keys] using hsorted
      · rcases List.mem_append.1 hm with hm | hm
        · exact hmembers m (List.mem_append_left _ hm)
        · rcases List.mem_cons.1 hm with rfl | hm
          · exact hfilled
          · exact hmembers m (List.mem_append_right _ (List.mem_cons_of_mem _ hm))

end Json

/-! ## Values -/

/-- An operator gives true for two operands. -/
def BinaryOperator.Holds (op : BinaryOperator) (lib : Libraries) (a b : Value) : Prop :=
  (op.apply lib a b).outcome = .defined (.bool true)

namespace Value

open BinaryOperator

variable {lib : Libraries}

/-- **A value can be compared** if it is no error, and canonical if it is a document. -/
def Comparable (v : Value) : Prop := v.isError = false ∧ ∀ d ∈ v.document?, d.Canonical

/-- What a value denotes, if it is a document. -/
def meaning? (v : Value) : Option Json := v.document?.map Json.meaning

theorem Comparable.cases {v : Value} (h : v.Comparable) :
    v.outcome = .undefined ∨ ∃ d, v.outcome = .defined d ∧ d.Canonical := by
  obtain ⟨outcome, trace⟩ := v
  cases outcome with
  | defined d => exact .inr ⟨d, rfl, h.2 d rfl⟩
  | undefined => exact .inl rfl
  | error message causes => exact absurd h.1 (by simp [isError])

/-- **Values are equal exactly if they denote the same.** -/
theorem agrees_iff {v w : Value} (hv : v.Comparable) (hw : w.Comparable) :
    v.agrees w = true ↔ v.meaning? = w.meaning? := by
  rcases hv.cases with h | ⟨d, h, hd⟩ <;> rcases hw.cases with h' | ⟨e, h', he⟩ <;>
    simp [agrees, meaning?, document?, h, h']
  exact Json.agrees_iff hd he

theorem outcome_equals {a b : Value} (ha : a.isError = false) (hb : b.isError = false) :
    (equals.apply lib a b).outcome = .defined (.bool (a.agrees b)) := by
  rw [outcome_apply ha hb]
  rfl

theorem outcome_notEquals {a b : Value} (ha : a.isError = false) (hb : b.isError = false) :
    (notEquals.apply lib a b).outcome = .defined (.bool !(a.agrees b)) := by
  rw [outcome_apply ha hb]
  rfl

theorem equals_holds_iff {v w : Value} (hv : v.Comparable) (hw : w.Comparable) :
    equals.Holds lib v w ↔ v.meaning? = w.meaning? := by
  rw [Holds, outcome_equals hv.1 hw.1, Outcome.defined.injEq, Json.bool.injEq, agrees_iff hv hw]

/-! ## Membership -/

/-- A value that denotes nothing is in no array, and a document in those with an equal item. -/
theorem any_agrees {needle : Json} {items : List Json} (hneedle : needle.Canonical)
    (hitems : ∀ x ∈ items, x.Canonical) :
    (items.any fun item => needle.agrees item)
      = decide (needle.meaning ∈ items.map Json.meaning) := by
  rw [Bool.eq_iff_iff, List.any_eq_true, decide_eq_true_eq, List.mem_map]
  refine exists_congr fun item => and_congr_right fun hitem => ?_
  rw [Json.agrees_iff hneedle (hitems item hitem), eq_comm]

/-- Membership depends on what is denoted. The kind of a value, which an error shows, does too. -/
theorem outcome_elementOf {x xs : Value} (hx : x.Comparable) (hxs : xs.Comparable) :
    (elementOf.apply lib x xs).outcome = match xs.meaning? with
      | some (.array items) =>
        .defined (.bool (x.meaning?.any fun needle => decide (needle ∈ items)))
      | some d => (fault (.mismatch .array d.kindName)).outcome
      | none => (fault (.mismatch .array "undefined")).outcome := by
  rw [outcome_apply hx.1 hxs.1, compute, membership]
  rcases hxs.cases with h | ⟨d, h, hd⟩
  · simp only [items?, meaning?, document?, mismatch, typeName, h]
    rfl
  cases d with
  | array items =>
    rcases hx.cases with h' | ⟨needle, h', hneedle⟩
    · simp only [items?, meaning?, document?, h, h']
      rfl
    · simp only [items?, meaning?, document?, h, h', any_agrees hneedle hd.items]
      rw [← Json.itemsMeaning_eq]
      rfl
  | _ =>
    simp only [items?, meaning?, document?, mismatch, typeName, h]
    rfl

/-! ## Order -/

theorem outcome_comparing {a b : Value} {x y : Decimal} (ha : a.decimal? = some x)
    (hb : b.decimal? = some y) (accept : Ordering → Bool) :
    comparing a b accept = .ok (bool (accept (x.compare y))) := by
  rw [comparing, onDecimals_eq ha hb]

theorem agrees_of_decimal? {a b : Value} {x y : Decimal} (ha : a.decimal? = some x)
    (hb : b.decimal? = some y) : a.agrees b = (x.compare y == .eq) := by
  obtain ⟨n, hn, hx⟩ := decimal?_eq_some ha
  obtain ⟨m, hm, hy⟩ := decimal?_eq_some hb
  rw [agrees, hn, hm]
  show n.agrees m = _
  rw [Numeral.agrees, hx, hy]

/-- Which comparisons of two numbers hold is told by their order. -/
theorem holds_iff_compare {a b : Value} {x y : Decimal} (ha : a.decimal? = some x)
    (hb : b.decimal? = some y) :
    (less.Holds lib a b ↔ x.compare y = .lt) ∧ (equals.Holds lib a b ↔ x.compare y = .eq)
      ∧ (greater.Holds lib a b ↔ x.compare y = .gt) ∧ (lessEquals.Holds lib a b ↔ x.compare y ≠ .gt)
      ∧ (greaterEquals.Holds lib a b ↔ x.compare y ≠ .lt) := by
  simp only [Holds, apply_on_numbers ha hb, compute, outcome_comparing ha hb,
    agrees_of_decimal? ha hb]
  cases x.compare y <;> decide

/-! ## The laws -/

/-- **The laws of equality**, whatever libraries the operators rely on. -/
structure EqualityLaws (lib : Libraries) : Prop where
  /-- Equality of documents is an equivalence; in particular a document equals itself. -/
  documents : Equivalence fun d e : {d : Json // d.Canonical} => d.1.agrees e.1 = true
  /-- A part at any depth may be replaced by an equal one. -/
  parts : ∀ (frames : List Json.Frame) (x y : Json), (Json.fill frames x).Canonical → y.Canonical →
    x.agrees y = true → (Json.fill frames x).agrees (Json.fill frames y) = true
  /-- So is `==` on all values that are no errors. -/
  values : Equivalence fun v w : {v : Value // v.Comparable} => equals.Holds lib v.1 w.1
  /-- `!=` is the negation of `==`. -/
  negation : ∀ v w : Value, v.isError = false → w.isError = false →
    ∃ b, (equals.apply lib v w).outcome = .defined (.bool b)
      ∧ (notEquals.apply lib v w).outcome = .defined (.bool !b)
  /-- `in` has the same outcome for equal values on either side. -/
  membership : ∀ x x' xs xs' : Value, x.Comparable → x'.Comparable → xs.Comparable →
    xs'.Comparable → equals.Holds lib x x' → equals.Holds lib xs xs' →
    (elementOf.apply lib x xs).outcome = (elementOf.apply lib x' xs').outcome
  /-- Exactly one of `<`, `==` and `>` holds of two numbers. -/
  trichotomy : ∀ (a b : Value) (x y : Decimal), a.decimal? = some x → b.decimal? = some y →
    ∃! op : BinaryOperator, op ∈ [less, equals, greater] ∧ op.Holds lib a b
  /-- The other comparisons are unions, and all of them are those of the values. -/
  comparisons : ∀ (a b : Value) (x y : Decimal), a.decimal? = some x → b.decimal? = some y →
    (less.Holds lib a b ↔ x.value < y.value) ∧ (equals.Holds lib a b ↔ x.value = y.value)
      ∧ (greater.Holds lib a b ↔ y.value < x.value)
      ∧ (lessEquals.Holds lib a b ↔ less.Holds lib a b ∨ equals.Holds lib a b)
      ∧ (greaterEquals.Holds lib a b ↔ greater.Holds lib a b ∨ equals.Holds lib a b)

/-- The one of `<`, `==` and `>` that holds of numbers in some order. -/
def deciding : Ordering → BinaryOperator
  | .lt => less
  | .eq => equals
  | .gt => greater

theorem trichotomy_of_decimal? {a b : Value} {x y : Decimal} (ha : a.decimal? = some x)
    (hb : b.decimal? = some y) :
    ∃! op : BinaryOperator, op ∈ [less, equals, greater] ∧ op.Holds lib a b := by
  obtain ⟨hless, hequals, hgreater, -⟩ := holds_iff_compare ha hb
  have hmem : deciding (x.compare y) ∈ [less, equals, greater] := by
    cases x.compare y <;> simp [deciding]
  have hholds : ∀ op ∈ [less, equals, greater],
      (op.Holds lib a b ↔ op = deciding (x.compare y)) := by
    rw [List.forall_mem_cons, List.forall_mem_cons, List.forall_mem_singleton, hless, hequals,
      hgreater]
    cases x.compare y <;> decide
  exact ⟨_, ⟨hmem, (hholds _ hmem).2 rfl⟩, fun op h => (hholds op h.1).1 h.2⟩

/-- **Equality is an equivalence**, on documents and on values, and everything that compares
respects it. -/
theorem equality_lawful (lib : Libraries) : EqualityLaws lib where
  documents :=
    { refl := fun d => (Json.agrees_iff d.2 d.2).2 rfl
      symm := fun {d e} h => (Json.agrees_iff e.2 d.2).2 ((Json.agrees_iff d.2 e.2).1 h).symm
      trans := fun {d e f} h h' => (Json.agrees_iff d.2 f.2).2
        (((Json.agrees_iff d.2 e.2).1 h).trans ((Json.agrees_iff e.2 f.2).1 h')) }
  parts frames x y hfilled hy h := by
    obtain ⟨hx, hfilled'⟩ := Json.canonical_fill hfilled hy
    have hmeaning := Json.meaning_fill frames ((Json.agrees_iff hx hy).1 h)
    exact (Json.agrees_iff hfilled hfilled').2 hmeaning
  values :=
    { refl := fun v => (equals_holds_iff v.2 v.2).2 rfl
      symm := fun {v w} h => (equals_holds_iff w.2 v.2).2 ((equals_holds_iff v.2 w.2).1 h).symm
      trans := fun {v w u} h h' => (equals_holds_iff v.2 u.2).2
        (((equals_holds_iff v.2 w.2).1 h).trans ((equals_holds_iff w.2 u.2).1 h')) }
  negation v w hv hw := ⟨v.agrees w, outcome_equals hv hw, outcome_notEquals hv hw⟩
  membership x x' xs xs' hx hx' hxs hxs' h h' := by
    rw [outcome_elementOf hx hxs, outcome_elementOf hx' hxs', (equals_holds_iff hx hx').1 h,
      (equals_holds_iff hxs hxs').1 h']
  trichotomy a b x y ha hb := trichotomy_of_decimal? ha hb
  comparisons a b x y ha hb := by
    obtain ⟨hless, hequals, hgreater, hlessEquals, hgreaterEquals⟩ := holds_iff_compare ha hb
    rw [hlessEquals, hgreaterEquals, hless, hequals, hgreater, Decimal.compare_eq_cmp,
      cmp_eq_lt_iff, cmp_eq_eq_iff, cmp_eq_gt_iff]
    refine ⟨Iff.rfl, Iff.rfl, Iff.rfl, ?_, ?_⟩
    · rw [ne_eq, cmp_eq_gt_iff, not_lt, le_iff_lt_or_eq]
    · rw [ne_eq, cmp_eq_lt_iff, not_lt, le_iff_lt_or_eq, eq_comm]

end Value

end AccessPolicy
