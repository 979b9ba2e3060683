import AccessPolicy.Proofs.Evaluation.Adequacy

/-!
# Reading and removing along a path

The steps of a path serve two purposes. A path *reads* what its steps lead to, and a filter that
removes takes the same steps to *get rid of* it. The two are evaluated by different means: one goes
from value to value, the other one takes a document apart and puts together what is left. Where
the streams of the parts have single values, both come to a single value, and that of the filter
can be computed outright. What is put together of results without an error is a container again.
-/

namespace AccessPolicy

open Machine Reading

/-! ## Containers of results without an error -/

namespace Value

theorem firstError?_eq_none {vs : List Value} (h : ∀ v ∈ vs, v.isError = false) :
    firstError? vs = none :=
  List.find?_eq_none.2 fun v hv => by rw [h v hv]; exact Bool.false_ne_true

/-- Results without an error make an array of their documents. -/
theorem arrayOf_eq {vs : List Value} (h : ∀ v ∈ vs, v.isError = false) :
    arrayOf vs = of (.array (documents vs)) := by
  rw [arrayOf, firstError?_eq_none h]

end Value

namespace RevisionStep

/-- Results without an error make an object of their documents. -/
theorem objectOf_eq {members : List (String × Value)} (h : ∀ m ∈ members, m.2.isError = false) :
    objectOf members = Value.of (.object (Dict.ofEntries
      (members.filterMap fun m => m.2.document?.map fun document => (m.1, document)))) := by
  have hall : ∀ v ∈ members.map Prod.snd, v.isError = false := by
    intro v hv
    obtain ⟨m, hm, rfl⟩ := List.mem_map.1 hv
    exact h m hm
  have hzip : (members.map Prod.fst).zip (members.map Prod.snd) = members :=
    (List.zip_of_prod rfl rfl).symm
  rw [objectOf, Value.objectOf, Value.firstError?_eq_none hall, hzip]

end RevisionStep

/-! ## Single values -/

namespace Expr

variable {base : Expr} {ctx : Context} {v : Value}

/-- A path of selectors reads one after another. -/
theorem gives_path (hbase : (base.evaluate ctx).Gives v) (selectors : List Selector) :
    ((Expr.path base (selectors.map Step.select)).evaluate ctx).Gives
      (selectors.foldl (fun v s => s.select v) v) := by
  suffices h : ∀ {m : Machine Value} {v : Value}, m.Gives v →
      (Step.followAll (selectors.map Step.select) ctx m).Gives
        (selectors.foldl (fun v s => s.select v) v) from (h hbase).distinct _
  induction selectors with
  | nil => exact fun hm => hm
  | cons s selectors ih => exact fun hm => ih (hm.switchMap (gives_just _))

/-- A path of one step reads what the step makes of the value. -/
theorem gives_step {s : Step} {r : Value} (hbase : (base.evaluate ctx).Gives v)
    (hs : (s.follow ctx v).Gives r) : ((Expr.path base [s]).evaluate ctx).Gives r :=
  (hbase.switchMap hs).distinct _

/-- **A removal** leaves what the steps leave that are computed outright. -/
theorem gives_remove {target : List Step} {steps : List RevisionStep} {document : Json}
    (hbase : (base.evaluate ctx).Gives v) (hv : v.outcome = .defined document)
    (hsteps : EditStep.AllTold single (Step.toEdits target ctx) fun _ => steps) :
    ∃ r, ((Expr.filter base [.remove false target]).evaluate ctx).Gives r
      ∧ r.bare = RevisionStep.reviseAlong (fun _ => Value.undefined) steps document := by
  have htold : single.Tells
      (EditStep.editAlong (fun _ => just Value.undefined) (Step.toEdits target ctx) document)
      fun _ => RevisionStep.reviseAlong (fun _ => Value.undefined) steps document :=
    EditStep.tells_editAlong hsteps (fun _ => tells_just Value.undefined) document
  obtain ⟨r, hr, hbare⟩ := htold
  have hdocument : v.document? = some document := by
    rw [Value.document?, hv]
  refine ⟨r, (hbase.switchMap ?_).distinct _, hbare⟩
  rw [Value.editedBy, hv]
  refine (gives_just v).switchMap ?_
  rw [hdocument]
  exact hr

end Expr

end AccessPolicy
