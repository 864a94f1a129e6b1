/-
# The evidence does not depend on the order of the candidates

Every choice takes the least candidate of a pool under a key that ends with the id.  With distinct ids no two
candidates have one key, so the choice depends on the pool and not on its order; and the gains in the key
depend on the candidate and on what is selected only.  The conversation is the one part that reads the order.

* `nextRequired_perm`, `nextGain_perm` : a choice is that of every order;
* `requiredPhase_perm`, `evidencePhases_perm` : and so are the phases;
* `gain_documented_and_order_free` : **the gain is the documented one, and the evidence free of the order**.
-/
import Faktor.InformationSelection

namespace Context

open BudgetFill GreedyLoop

section Order

variable (A : GainArithmetic) (needs : List Need) {candidates candidates' : List ContextCandidate}
  (gainOf : ContextCandidate → ℚ → ℚ)

/-- The pools of two orders have one least candidate, when the ids are distinct and the key has the id. -/
theorem argmin_filter_perm {β : Type*} [LinearOrder β] {key : ContextCandidate → β}
    (hkey : ∀ a b, key a = key b → a.id = b.id) (hids : (candidates.map ContextCandidate.id).Nodup)
    (hperm : candidates.Perm candidates') (pool : ContextCandidate → Bool) :
    (candidates.filter pool).argmin key = (candidates'.filter pool).argmin key := by
  apply argmin_perm (hperm.filter pool)
  intro a ha b hb hab
  exact List.inj_on_of_nodup_map hids (List.mem_of_mem_filter ha) (List.mem_of_mem_filter hb) (hkey a b hab)

theorem id_eq_of_requiredKey_eq {position : ℕ} {p : Picked needs} {a b : ContextCandidate}
    (h : requiredKey A needs position p a = requiredKey A needs position p b) : a.id = b.id := by
  simp only [requiredKey, EmbeddingLike.apply_eq_iff_eq, Prod.mk.injEq] at h
  exact h.2.2.2

theorem id_eq_of_gainKey_eq {p : Picked needs} {a b : ContextCandidate}
    (h : gainKey A needs gainOf p a = gainKey A needs gainOf p b) : a.id = b.id := by
  simp only [gainKey, EmbeddingLike.apply_eq_iff_eq, Prod.mk.injEq] at h
  exact h.2

section

variable (hids : (candidates.map ContextCandidate.id).Nodup) (hperm : candidates.Perm candidates')
include hids hperm

theorem nextRequired_perm (position : ℕ) (p : Picked needs) :
    nextRequired A needs candidates position p = nextRequired A needs candidates' position p := by
  rw [nextRequired, nextRequired]
  congr 1
  exact argmin_filter_perm (fun _ _ h => id_eq_of_requiredKey_eq A needs h) hids hperm _

theorem nextGain_perm (s : List TextBytes.Text × Picked needs) :
    nextGain A needs candidates gainOf s = nextGain A needs candidates' gainOf s :=
  argmin_filter_perm (fun _ _ h => id_eq_of_gainKey_eq A needs gainOf h) hids hperm _

theorem coverNeed_perm (position : ℕ) (p : Picked needs) :
    coverNeed A needs candidates position p = coverNeed A needs candidates' position p := by
  rw [coverNeed, coverNeed, hperm.length_eq]
  exact run_congr (nextRequired_perm A needs hids hperm position) _ _

/-- The required set of two orders is one. -/
theorem requiredPhase_perm :
    requiredPhase A needs candidates = requiredPhase A needs candidates' := by
  rw [requiredPhase, requiredPhase, coverNeeds, coverNeeds]
  congr 1
  funext p position
  rw [coverNeed_perm A needs hids hperm]

/-- The evidence of two orders is one. -/
theorem evidencePhases_perm (tokenBudget : ℕ) :
    evidencePhases A needs candidates gainOf tokenBudget =
      evidencePhases A needs candidates' gainOf tokenBudget := by
  rw [evidencePhases, evidencePhases, gainPhase, gainPhase, requiredPhase_perm A needs hids hperm,
    hperm.length_eq]
  congr 1
  exact run_congr (nextGain_perm A needs gainOf hids hperm) _ _

end

end Order

/-- **The gain over the totals that are kept is the documented marginal gain of the selection, for all needs,
candidates and selections; and with distinct ids the evidence is that of every order of the candidates, and
the whole selection that of every order in which the messages stand alike.** -/
theorem gain_documented_and_order_free (A : GainArithmetic) :
    (∀ (needs : List Need) (c : ContextCandidate) (selected : List ContextCandidate),
      gain A needs c (coveredBy needs selected) = marginalGain A c selected needs) ∧
    (∀ (candidates candidates' : List ContextCandidate) (budget : InformationBudget),
      (candidates.map ContextCandidate.id).Nodup → candidates.Perm candidates' →
      requiredCandidates A budget.needs candidates = requiredCandidates A budget.needs candidates' ∧
      (∀ gainOf : ContextCandidate → ℚ → ℚ,
        (evidencePhases A budget.needs candidates gainOf budget.tokenBudget).selected =
          (evidencePhases A budget.needs candidates' gainOf budget.tokenBudget).selected) ∧
      (candidates.filter ContextCandidate.isMessage = candidates'.filter ContextCandidate.isMessage →
        selectByInformation A candidates budget = selectByInformation A candidates' budget)) := by
  refine ⟨fun needs c selected => gain_eq_marginalGain A needs c selected, ?_⟩
  intro candidates candidates' budget hids hperm
  have hrequired : requiredCandidates A budget.needs candidates =
      requiredCandidates A budget.needs candidates' := by
    rw [requiredCandidates, requiredCandidates, requiredPhase_perm A _ hids hperm]
  have hevidence : ∀ gainOf, evidencePhases A budget.needs candidates gainOf budget.tokenBudget =
      evidencePhases A budget.needs candidates' gainOf budget.tokenBudget :=
    fun gainOf => evidencePhases_perm A _ gainOf hids hperm _
  refine ⟨hrequired, fun gainOf => congrArg Picked.selected (hevidence gainOf), ?_⟩
  intro hmessages
  have hpriced : pricedMessages candidates = pricedMessages candidates' := by
    rw [pricedMessages, pricedMessages, hmessages]
  rw [selectByInformation, selectByInformation, selectByInformationWith, selectByInformationWith, hrequired,
    hevidence, hpriced]

/-- Evidence of one token that covers the need `n` in part. -/
def noteFor (id : Char) (coveragePpm : ℕ) : ContextCandidate :=
  { ContextCandidate.default with
    id := [id], kind := .fileNote, estimateTokens := 1, confidencePpm := 1000000, freshnessPpm := 1000000
    needCoverage := [⟨['n'], coveragePpm⟩] }

/-- A budget of two tokens for one need. -/
def twoTokens : InformationBudget := ⟨2, [⟨['n'], .finite 1, false⟩], two_le_u32Max⟩

/-- Two notes, in either order. -/
theorem gain_documented_and_order_free_notes :
    selectByInformation .exact [noteFor 'a' 700000, noteFor 'b' 700000] twoTokens =
      selectByInformation .exact [noteFor 'b' 700000, noteFor 'a' 700000] twoTokens :=
  ((gain_documented_and_order_free .exact).2 [noteFor 'a' 700000, noteFor 'b' 700000]
    [noteFor 'b' 700000, noteFor 'a' 700000] twoTokens (by decide) (by decide)).2.2 (by decide)

end Context
