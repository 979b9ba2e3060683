import AccessPolicy.Proofs.Evaluation.Adequacy
import AccessPolicy.Proofs.Stream.Drain
import AccessPolicy.Proofs.Stream.Run

/-!
# Following attributes and starting afresh

An expression whose finders watch attributes is evaluated incrementally: each update of an
attribute goes through the streams that are open, and through nothing else. Evaluating it
*afresh* means to freeze the attributes at their current values and to evaluate it once. The
two agree wherever the incremental evaluation is at rest, because both give the meaning of
the expression under the current attributes: the one by how it settles, the other because
its stream has a single value.
-/

namespace AccessPolicy

open Machine Reading

/-! ## Frozen sources -/

namespace Source

/-- What a source gives at once to somebody who asks it now, as the feeds are. -/
def present (source : Source) (name : String) (feeds : Feeds) (q : Query) : List Value :=
  ((source.subscribe name q).run feeds).values

/-- The source that gives what another one gives at once, and nothing more. -/
def frozen (source : Source) (name : String) (feeds : Feeds) : Source where
  stream q := .ok (.script ((source.present name feeds q).map .value))

/-- **A watch that holds a value**, whatever it is asked. Which feed is watched and how its value is
presented may depend on the query, though not on the records of the values in it. -/
def Holds (source : Source) (feeds : Feeds) : Prop :=
  ∃ feed view, source = watch feed view ∧ ∀ q, (feeds.feed (feed q)).Holds
    ∧ feed q.bare = feed q ∧ ∀ v, (view q.bare v).bare = (view q v).bare

/-- A watch presents the value that its feed holds. -/
theorem present_watch {feed : Query → String} {view : Query → Value → Value} {feeds : Feeds}
    {q : Query} {v : Value} (h : (feeds.feed (feed q)).Holds)
    (hv : (feeds.feed (feed q)).latest = some v) (name : String) :
    (watch feed view).present name feeds q = [view q v] := by
  let m : Machine Value := subscription name (.watch (feed q) (view q))
  let version := (feeds.feed (feed q)).version
  have hfirst : pollWatched name (feed q) (view q) feeds (some 0)
      = ⟨.value (view q v), some version, false, []⟩ := by
    rw [pollWatched_some, Feed.unseen?, if_pos h.2, hv]
  have hsecond : pollWatched name (feed q) (view q) feeds (some version)
      = if (feeds.feed (feed q)).closed then ⟨.ended, some version, false, []⟩
        else ⟨.pending, some version, false, []⟩ := by
    rw [pollWatched_some, Feed.unseen?, if_neg (lt_irrefl _)]
  have hnext : (m.poll feeds m.start).next = (show m.State from some version) :=
    congrArg Polled.next hfirst
  have hrest : (m.outcome feeds (show m.State from some version)).1 = [] := by
    cases hc : (feeds.feed (feed q)).closed with
    | true =>
      rw [hc, if_pos rfl] at hsecond
      exact congrArg Prod.fst (outcome_of_ended (congrArg Polled.answer hsecond))
    | false =>
      rw [hc, if_neg Bool.false_ne_true] at hsecond
      exact congrArg Prod.fst (outcome_of_atRest
        ⟨congrArg Polled.answer hsecond, congrArg Polled.woken hsecond⟩)
  have hvalue : (m.poll feeds m.start).answer = .value (view q v) := congrArg Polled.answer hfirst
  show (m.outcome feeds m.start).1 = _
  rw [outcome_of_value hvalue, hnext]
  exact congrArg (view q v :: ·) hrest

theorem Holds.moveOn {source : Source} {older newer : Feeds} (h : source.Holds older)
    (hm : older.MoveOn newer) : source.Holds newer := by
  obtain ⟨feed, view, rfl, hq⟩ := h
  exact ⟨feed, view, rfl, fun q => ⟨(hq q).1.movesOn (hm (feed q)), (hq q).2⟩⟩

end Source

namespace Sources

/-- The sources, each frozen at what it gives as the feeds are. -/
def frozen (sources : Sources) (feeds : Feeds) : Sources :=
  sources.map fun entry => (entry.1, entry.2.frozen entry.1 feeds)

/-- A source is a watch that holds a value, if there is one of the name at all. -/
def Holds (sources : Sources) (feeds : Feeds) (name : String) : Prop :=
  ∀ source, Dict.get? sources name = some source → source.Holds feeds

/-- The current value of an attribute for a query. -/
def current (sources : Sources) (feeds : Feeds) (name : String) (q : Query) : Value :=
  match Dict.get? sources name with
  | none => Value.fault (.unknownFinder name)
  | some source => ((source.present name feeds q).headD Value.undefined).bare

theorem Holds.moveOn {sources : Sources} {older newer : Feeds} {name : String}
    (h : sources.Holds older name) (hm : older.MoveOn newer) : sources.Holds newer name :=
  fun source hs => (h source hs).moveOn hm

/-- A subscription of a watch settles at the current value. -/
theorem tells_subscribe {sources : Sources} {first : Feeds} {name : String}
    (h : sources.Holds first name) (q : Query) :
    (settling first.Watched).Tells (sources.subscribe name q)
      fun history => sources.current (history.headD []) name q.bare := by
  unfold Sources.subscribe current
  cases hs : Dict.get? sources name with
  | none => exact tells_just _
  | some source =>
    obtain ⟨feed, view, rfl, hq⟩ := h source hs
    obtain ⟨hholds, hfeed, hview⟩ := hq q
    refine (settling first.Watched).announced _ ((settling first.Watched).mono
      (settles_watch hholds) ?_)
    rintro history v ⟨hcurrent, hv⟩
    obtain ⟨w, hw, rfl⟩ := Option.map_eq_some_iff.1 hv
    show (view q w).bare = (((Source.watch feed view).present name (history.headD [])
      q.bare).headD Value.undefined).bare
    rw [Source.present_watch (hfeed.symm ▸ hcurrent) (hfeed.symm ▸ hw)]
    exact (hview w).symm

/-- A subscription of a frozen source gives the current value. -/
theorem tells_subscribe_frozen {sources : Sources} {feeds : Feeds} {name : String}
    (h : sources.Holds feeds name) (q : Query) :
    single.Tells ((sources.frozen feeds).subscribe name q)
      fun _ => sources.current feeds name q.bare := by
  unfold Sources.subscribe current frozen
  rw [Dict.get?_map fun name source => Source.frozen source name feeds]
  cases hs : Dict.get? sources name with
  | none => exact tells_just _
  | some source =>
    obtain ⟨feed, view, rfl, hq⟩ := h source hs
    obtain ⟨hholds, hfeed, hview⟩ := hq q
    obtain ⟨v, hv⟩ := Option.isSome_iff_exists.1 hholds.1
    refine single.announced _ ⟨view q v, ?_, ?_⟩
    · show (subscription name (.script
        (((Source.watch feed view).present name feeds q).map .value))).Gives _
      rw [Source.present_watch hholds hv]
      exact gives_script name _
    · show (view q v).bare = (((Source.watch feed view).present name feeds
        q.bare).headD Value.undefined).bare
      rw [Source.present_watch (hfeed.symm ▸ hholds) (hfeed.symm ▸ hv)]
      exact (hview v).symm

end Sources

/-- The context with the watches frozen at their current values. -/
def Context.frozen (ctx : Context) (feeds : Feeds) : Context :=
  { ctx with sources := ctx.sources.frozen feeds }

/-- A watch that tells its subjects apart: the value of its feed is given beside the subject. -/
def Source.beside (feed : String) : Source :=
  .watch (fun _ => feed) fun q v => Value.of
    (.object [("inner", v.document?.getD .null), ("outer", q.subject.document?.getD .null)])

/-! ## Expressions -/

namespace Expr

variable {e : Expr} {ctx : Context} {first feeds : Feeds}

/-- All finders of an expression look up watches that hold a value. -/
def Follows (e : Expr) (ctx : Context) (feeds : Feeds) : Prop :=
  ∀ f ∈ e.finders, ctx.sources.Holds feeds (ctx.resolve f.1)

/-- What an expression means under the current attributes. -/
def meaningAt (e : Expr) (ctx : Context) (feeds : Feeds) : Value :=
  e.meaning (ctx.sources.current feeds) ctx.bare

/-- **An expression settles** at what it means under the current attributes. -/
theorem settles_evaluate (hp : ctx.functions.Pure) (hh : e.Headless)
    (hf : e.Follows ctx first) :
    (settling first.Watched).Tells (e.evaluate ctx)
      fun history => e.meaningAt ctx (history.headD []) :=
  tells_evaluate _ (fun history : List Feeds => ctx.sources.current (history.headD [])) e ctx hp
    fun _ f hmem => ⟨hh f hmem, fun q => Sources.tells_subscribe (hf f hmem) q⟩

/-- **An expression with frozen sources** gives what it means as its single value. -/
theorem gives_frozen (hp : ctx.functions.Pure) (hh : e.Headless) (hf : e.Follows ctx feeds) :
    ∃ v, (e.evaluate (ctx.frozen feeds)).Gives v ∧ v.bare = e.meaningAt ctx feeds :=
  tells_evaluate single (fun _ => ctx.sources.current feeds) e (ctx.frozen feeds) hp
    fun _ f hmem => ⟨hh f hmem, fun q => Sources.tells_subscribe_frozen (hf f hmem) q⟩

theorem Follows.moveOn (h : e.Follows ctx first) (hm : first.MoveOn feeds) :
    e.Follows ctx feeds := fun f hf => (h f hf).moveOn hm

/-- **Incremental evaluation converges to evaluation afresh.** Where a run of an expression is at
rest, it has given a value, and the last one is the same as the only value that the expression
gives when the watches are frozen at their current values. -/
theorem evaluate_converges {s : (e.evaluate ctx).State} {given : List Value}
    (hp : ctx.functions.Pure) (hh : e.Headless) (hf : e.Follows ctx first)
    (hrun : (e.evaluate ctx).Runs first feeds s given true) :
    ∃ last fresh, given.getLast? = some last
      ∧ (∀ feeds', ((e.evaluate (ctx.frozen feeds)).run feeds').values = [fresh]
          ∧ ((e.evaluate (ctx.frozen feeds)).run feeds').ended = true)
      ∧ last.same fresh = true := by
  obtain ⟨past, hw, -, hrest⟩ := hrun.course
  obtain ⟨last, hlast, hmeans⟩ := settles_evaluate hp hh hf (feeds :: past) _ hw (hrest rfl)
  obtain ⟨fresh, hgives, hfresh⟩ :=
    gives_frozen hp hh (hf.moveOn (hw.since feeds (List.mem_cons_self ..)))
  exact ⟨last, fresh, hlast, hgives.run, Value.same_iff_bare.2 (hmeans.trans hfresh.symm)⟩

/-- The text of an attribute about another attribute. The watch of the inner one presents its value
beside the subject that it is asked about, and the outer one is updated between two drains. -/
theorem evaluate_converges_after_update :
    let e : Expr := .call "standard.toString"
      [.path (.finder "pip.outer" [] false) [.finder "pip.inner" [] false]]
    let ctx : Context := { functions := Functions.standard,
                           sources := [("pip.inner", .beside "inner"),
                                       ("pip.outer", .watch fun _ => "outer")] }
    let first : Feeds :=
      (Feeds.set [] "inner" (Value.of (.string "x"))).set "outer" (Value.of (.string "a"))
    let feeds := first.set "outer" (Value.of (.string "b"))
    ∃ s given last fresh, (e.evaluate ctx).Runs first feeds s given true
      ∧ given.getLast? = some last
      ∧ ((e.evaluate (ctx.frozen feeds)).run feeds).values = [fresh]
      ∧ last.same fresh = true := by
  intro e ctx first feeds
  have hfinders : e.finders = [("pip.inner", false), ("pip.outer", false)] := rfl
  have hholds : e.Follows ctx first := by
    rw [Expr.Follows, hfinders]
    intro f hf source hs
    rcases List.mem_cons.1 hf with rfl | hf
    · obtain rfl : Source.beside "inner" = source := Option.some.inj hs
      exact ⟨_, _, rfl, fun q => ⟨⟨rfl, Nat.one_pos⟩, rfl, fun v => rfl⟩⟩
    · obtain rfl := List.mem_singleton.1 hf
      obtain rfl : Source.watch (fun _ => "outer") = source := Option.some.inj hs
      exact ⟨_, _, rfl, fun q => ⟨⟨rfl, Nat.one_pos⟩, rfl, fun v => rfl⟩⟩
  have hstart : (e.evaluate ctx).Runs first first _ [] false := .start
  have hrun := (hstart.drain.set "outer" (Value.of (.string "b")) rfl).drain
  obtain ⟨last, fresh, hlast, hfresh, hsame⟩ := evaluate_converges Functions.pure_standard
    (by rw [Expr.Headless, hfinders]; decide) hholds hrun
  exact ⟨_, _, last, fresh, hrun, hlast, (hfresh feeds).1, hsame⟩

end Expr

end AccessPolicy
