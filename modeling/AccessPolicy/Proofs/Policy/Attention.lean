import AccessPolicy.Proofs.Policy.Drain
import AccessPolicy.Proofs.Stream.Attention

/-!
# No decision hangs

Whatever is evaluated or decided is put together from what the sources answer and from single
values, so it is attentive as they are, whatever sources a host has. A decision that is at rest is
waited for in vain only if all the sources that it depends on are silent.
-/

namespace AccessPolicy

open Machine

/-- **No wake-up is lost**, by no expression and by no decision: neither of a policy, a policy set
or a document, with the target or without it, nor of all documents that were found. -/
theorem no_wakeup_lost (ctx : Context) :
    (∀ e : Expr, (e.evaluate ctx).Attentive)
      ∧ (∀ p : Policy, (p.evaluate ctx).Attentive ∧ (p.decide ctx).Attentive)
      ∧ (∀ s : PolicySet, (s.evaluate ctx).Attentive)
      ∧ (∀ d : Document, (d.evaluate ctx).Attentive ∧ (d.decide ctx).Attentive)
      ∧ ∀ (found : Matches) (algorithm : Algorithm), (found.combined ctx algorithm).Attentive := by
  have hs := ctx.sources.followed_subscribe
  have h := compositional_followed
  refine ⟨fun e => ?expr, fun p => ?policy, fun s => ?set, fun d => ?document, fun r a => ?found⟩
  case expr => exact (h.evaluate e ctx fun _ f _ q => hs _ q).attentive
  case policy => exact ⟨(h.evaluatePolicy ctx hs p).attentive, (h.decidePolicy ctx hs p).attentive⟩
  case set => exact (h.evaluateSet ctx hs s).attentive
  case document =>
    exact ⟨(h.evaluateDocument ctx hs d).attentive, (h.decideDocument ctx hs d).attentive⟩
  case found => exact (h.combinedMatches ctx hs r a).attentive

end AccessPolicy
