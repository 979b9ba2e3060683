import AccessPolicy.Proofs.Stream.Drain

/-!
# Hosts and their streams

What is proved of evaluations is proved for any sources, and little is assumed of the streams that
these provide. That they come to rest is no assumption on finitely many polls: whatever answers a
host gives, there is a stream that gives the same and comes to rest. That they are steady is
assumed only where it is said, and the common kinds of streams are. Where it is assumed it is
needed: a stream that a single value opens is polled once more than it would be by itself.
-/

namespace AccessPolicy

namespace Supply

open Machine Polled

/-! ## Any answers at all -/

section Answers

variable {σ : Type} (poll : Feeds → σ → Polled σ (Except String Value))

/-- The answers to one poll after another, each with whether it woke the poller. -/
def answers : σ → List Feeds → List (Answer (Except String Value) × Bool)
  | _, [] => []
  | s, feeds :: later =>
    let p := poll feeds s
    (p.answer, p.woken) :: answers p.next later

/-- **Nothing is assumed of a host** for finitely many polls. Whatever the way of polling, the
stream that lasts for as many polls as a schedule has gives the same answers under it. -/
theorem answers_lasting (start : σ) {polls : Nat} {schedule : List Feeds}
    (h : schedule.length ≤ polls) :
    answers (pollLasting poll) (start, polls) schedule = answers poll start schedule := by
  induction schedule generalizing start polls with
  | nil => rfl
  | cons feeds later ih =>
    cases polls with
    | zero => cases h
    | succ polls => exact congrArg _ (ih (poll feeds start).next (Nat.le_of_succ_le_succ h))

end Answers

/-! ## Steady streams -/

theorem steady_script (items : List Item) : (script items).Steady := by
  intro feeds s hs
  change (pollScript s).AtRest at hs
  show Idle pollScript (pollScript s).next
  fun_cases pollScript s with
  | case1 => cases hs.answer
  | case2 => cases hs.answer
  | case3 => cases hs.woken
  | case4 => exact ⟨[], rfl⟩
  | case5 => cases hs.answer

theorem steady_watch (name : String) (view : Value → Value) : (watch name view).Steady := by
  intro feeds seen hs
  change (pollWatch name view feeds seen).AtRest at hs
  show Idle (pollWatch name view feeds) (pollWatch name view feeds seen).next
  fun_cases pollWatch name view feeds seen with
  | case1 feed v hv => simp only [pollWatch, feed, hv] at hs; cases hs.answer
  | case2 feed hv hclosed =>
    simp only [pollWatch, feed, hv, if_pos hclosed] at hs
    cases hs.answer
  | case3 feed hv hopen => exact ⟨[], by simp only [pollWatch, feed, hv, if_neg hopen]⟩

theorem steady_channel (name : String) : (channel name).Steady := by
  intro feeds read hs
  change (pollChannel name feeds read).AtRest at hs
  show Idle (pollChannel name feeds) (pollChannel name feeds read).next
  fun_cases pollChannel name feeds read with
  | case1 message h => simp only [pollChannel, h] at hs; cases hs.answer
  | case2 h hclosed => simp only [pollChannel, h, if_pos hclosed] at hs; cases hs.answer
  | case3 h hopen => exact ⟨[], by simp only [pollChannel, h, if_neg hopen]⟩

/-! ## A stream that is not steady -/

/-- The stream that turns its subscriber away once, without a promise to wake it, and has a value
for whoever asks again. -/
def reluctant (v : Value) : Supply :=
  lasting (fun _ asked => if asked then ⟨.value (.ok v), true, false, []⟩
    else ⟨.pending, true, false, []⟩) false 2

/-- **Without steadiness** a stream is not drained as the one that a single value opens it with. -/
theorem not_drainsLike_reluctant (v : Value) :
    let m := subscription "late" (reluctant v)
    ¬((just ()).switchMap fun _ => m).DrainsLike m := by
  intro m h
  let whole := (just ()).switchMap fun _ => m
  have hm : m.outcome [] m.start = ([], false, (m.poll [] m.start).next) :=
    outcome_of_atRest ⟨rfl, rfl⟩
  -- the round in which the stream is opened turns it away, and the next one asks again
  obtain ⟨hanswer, -⟩ := pollSwitch_of_silent (m := just ()) (f := fun _ => m) (s := true)
    (a := ()) rfl rfl (by rintro b ⟨⟩)
  have hspent : (just ()).Spent [] (some false) := by
    rintro s ⟨⟩
    rfl
  have hvalue : (whole.poll [] whole.start).answer = .value v :=
    hanswer.trans (pollSwitch_of_spent hspent _).1
  have hdrained : (whole.outcome [] whole.start).1 = (m.outcome [] m.start).1 :=
    congrArg Prod.fst (List.cons.inj (h [[]])).1
  rw [hm, outcome_of_value hvalue] at hdrained
  cases hdrained

end Supply

namespace Source

/-- **The common kinds of sources are steady.** -/
theorem steady_common :
    (∀ items, (script items).Steady) ∧ (∀ feed view, (watch feed view).Steady)
      ∧ (∀ feed, (channel feed).Steady) ∧ (∀ reason, (failing reason).Steady) ∧ echo.Steady := by
  refine ⟨fun items => ?_, fun feed view => ?_, fun feed => ?_, fun reason => ?_, ?_⟩
  · rintro q _ ⟨⟩
    exact Supply.steady_script items
  · rintro q _ ⟨⟩
    exact Supply.steady_watch _ _
  · rintro q _ ⟨⟩
    exact Supply.steady_channel _
  · rintro q _ ⟨⟩
  · rintro q _ ⟨⟩
    exact Supply.steady_script _

end Source

end AccessPolicy
