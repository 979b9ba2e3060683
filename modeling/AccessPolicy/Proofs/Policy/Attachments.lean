import AccessPolicy.Policy.Decide
import AccessPolicy.Proofs.Lists
import AccessPolicy.Proofs.Value.Bare

/-!
# What goes along with a decision

Obligations, advice and transformation of a policy are evaluated side by side as one list of
attachments, and their documents are told apart by their number again. Nothing is lost on the
way: the documents of the obligations are the obligations of the decision, and so on.
-/

namespace AccessPolicy

theorem Expr.evaluateAll_eq_map (es : List Expr) (ctx : Context) :
    Expr.evaluateAll es ctx = es.map (·.evaluate ctx) := by
  induction es with
  | nil => rfl
  | cons e es ih => rw [Expr.evaluateAll, ih, List.map_cons]

/-- The documents of defined values are those of the values, one by one. -/
theorem Value.forall₂_documents {vs : List Value} (h : vs.all Value.isDefined = true) :
    List.Forall₂ (fun v document => v.document? = some document) vs (Value.documents vs) := by
  induction vs with
  | nil => exact .nil
  | cons v vs ih =>
    obtain ⟨hv, hvs⟩ := Bool.and_eq_true_iff.1 (List.all_cons ▸ h)
    rw [Value.isDefined_eq_isSome] at hv
    cases hd : v.document? with
    | none =>
      rw [hd] at hv
      cases hv
    | some document =>
      have hcons : Value.documents (v :: vs) = document :: Value.documents vs :=
        List.filterMap_cons_some hd
      rw [hcons]
      exact .cons hd (ih hvs)

/-- The documents of the attachments of a policy make up the payload of its decision. -/
theorem Policy.forall₂_decisionWith {p : Policy} {R : Expr → Json → Prop} {documents : List Json}
    (h : List.Forall₂ R p.attachments documents) :
    List.Forall₂ R p.obligations (p.decisionWith documents).obligations
      ∧ List.Forall₂ R p.advice (p.decisionWith documents).advice
      ∧ List.Forall₂ R p.transformation.toList (p.decisionWith documents).resource.toList := by
  have hrest := List.forall₂_drop p.obligations.length h
  have hlast := List.forall₂_drop p.advice.length hrest
  rw [attachments, List.append_assoc, List.drop_left] at hrest
  rw [attachments, List.append_assoc, List.drop_left, List.drop_left, List.drop_drop] at hlast
  refine ⟨?_, ?_, ?_⟩
  · have := List.forall₂_take p.obligations.length h
    rwa [attachments, List.append_assoc, List.take_left] at this
  · have := List.forall₂_take p.advice.length hrest
    rwa [List.take_left] at this
  · -- at most one document is left over for the transformation
    show List.Forall₂ R p.transformation.toList
      (documents[p.obligations.length + p.advice.length]?).toList
    rw [← List.head?_drop]
    generalize documents.drop (p.obligations.length + p.advice.length) = rest at hlast
    cases ht : p.transformation with
    | none =>
      rw [ht] at hlast
      cases hlast
      exact .nil
    | some e =>
      rw [ht] at hlast
      cases hlast with
      | cons hr hnil =>
        cases hnil
        exact .cons hr .nil

end AccessPolicy
