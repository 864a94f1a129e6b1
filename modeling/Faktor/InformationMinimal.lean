/-
# The required set is not always minimal

The required set is built choice by choice, and a class of candidates goes before wider coverage.  Every
choice is needed when it is made, but a later one may cover all that an earlier one was taken for: then the
set can do without the earlier one, and a budget may be exceeded because of it.

* `Needed`, `RequiredMinimal` : what a member of the set must contribute, and the promise;
* `stateAt`, `ChoicesKeepNeeded` : the states of the phase, and what each choice must leave;
* `required_candidates_minimal_iff` : **the sets that are minimal**;
* `requiredMinimal_of_apart` : candidates of one required need each, alike in class, give a minimal set.
-/
import Faktor.InformationSelection

namespace Context

open BudgetFill

variable {A : GainArithmetic} {needs : List Need} {candidates : List ContextCandidate}

/-! ## What a member contributes -/

/-- The coverage of a need that a set gives, at most full. -/
def cappedCoverage (chosen : List ContextCandidate) (needId : TextBytes.Text) : ℕ :=
  min (coverageSum chosen needId) fullCoveragePpm

/-- A member of a set is needed: it declares a required need that the others do not cover in full. -/
def Needed (needs : List Need) (chosen : List ContextCandidate) (c : ContextCandidate) : Prop :=
  ∃ need ∈ needs, need.required ∧ 0 < coveragePpmFor c need.id ∧
    coverageSum chosen need.id < fullCoveragePpm + coveragePpmFor c need.id

variable {chosen : List ContextCandidate} {i : ℕ}

theorem coverageSum_eraseIdx (hi : i < chosen.length)
    (needId : TextBytes.Text) :
    coverageSum chosen needId = coveragePpmFor chosen[i] needId + coverageSum (chosen.eraseIdx i) needId := by
  rw [← coverageSum_cons]
  exact ((List.getElem_cons_eraseIdx_perm hi).map _).sum_eq.symm

/-- Without a member the coverage of a need is strictly less exactly when the member is needed for it. -/
theorem cappedCoverage_eraseIdx_lt_iff (hi : i < chosen.length)
    (needId : TextBytes.Text) :
    cappedCoverage (chosen.eraseIdx i) needId < cappedCoverage chosen needId ↔
      0 < coveragePpmFor chosen[i] needId ∧
        coverageSum chosen needId < fullCoveragePpm + coveragePpmFor chosen[i] needId := by
  have hsum := coverageSum_eraseIdx hi needId
  rw [cappedCoverage, cappedCoverage]
  omega

variable {c : ContextCandidate}

/-- What is needed in a set is needed in a front of it. -/
theorem Needed.of_front {front : List ContextCandidate}
    (h : Needed needs chosen c) (hfront : front <+: chosen) : Needed needs front c := by
  obtain ⟨need, hneed, hrequired, hdeclares, hshort⟩ := h
  obtain ⟨back, rfl⟩ := hfront
  rw [coverageSum_append] at hshort
  exact ⟨need, hneed, hrequired, hdeclares, by omega⟩

/-- **The promise**: without any one of its members the set gives less of some required need; and a set over
the budget has no member that could be left out to fit it. -/
structure RequiredMinimal (A : GainArithmetic) (candidates : List ContextCandidate) (needs : List Need) :
    Prop where
  minimal : ∀ i < (requiredCandidates A needs candidates).length, ∃ need ∈ needs, need.required ∧
    cappedCoverage ((requiredCandidates A needs candidates).eraseIdx i) need.id <
      cappedCoverage (requiredCandidates A needs candidates) need.id
  oversized : ∀ budget : InformationBudget, budget.needs = needs → ∀ requiredTokens tokenBudget,
    selectByInformation A candidates budget = .error (.oversized requiredTokens tokenBudget) →
    ∀ i < (requiredCandidates A needs candidates).length,
      (∀ need ∈ needs, need.required →
        cappedCoverage ((requiredCandidates A needs candidates).eraseIdx i) need.id =
          cappedCoverage (requiredCandidates A needs candidates) need.id) →
      tokenBudget < tokens ((requiredCandidates A needs candidates).eraseIdx i)

/-- The promise is that every member is needed. -/
theorem requiredMinimal_iff_needed :
    RequiredMinimal A candidates needs ↔
      ∀ c ∈ requiredCandidates A needs candidates, Needed needs (requiredCandidates A needs candidates) c := by
  constructor
  · intro h c hc
    obtain ⟨i, hi, rfl⟩ := List.getElem_of_mem hc
    obtain ⟨need, hneed, hrequired, hless⟩ := h.minimal i hi
    exact ⟨need, hneed, hrequired, (cappedCoverage_eraseIdx_lt_iff hi need.id).mp hless⟩
  · intro h
    have hminimal : ∀ i < (requiredCandidates A needs candidates).length, ∃ need ∈ needs, need.required ∧
        cappedCoverage ((requiredCandidates A needs candidates).eraseIdx i) need.id <
          cappedCoverage (requiredCandidates A needs candidates) need.id := by
      intro i hi
      obtain ⟨need, hneed, hrequired, hmember⟩ := h _ (List.getElem_mem hi)
      exact ⟨need, hneed, hrequired, (cappedCoverage_eraseIdx_lt_iff hi need.id).mpr hmember⟩
    refine ⟨hminimal, ?_⟩
    intro _ _ _ _ _ i hi hsame
    obtain ⟨need, hneed, hrequired, hless⟩ := hminimal i hi
    exact absurd (hsame need hneed hrequired) (ne_of_lt hless)

/-! ## The states of the phase -/

/-- The state of the loop of a need after some rounds. -/
def stateAt (A : GainArithmetic) (needs : List Need) (candidates : List ContextCandidate)
    (position rounds : ℕ) : Picked needs :=
  GreedyLoop.run (nextRequired A needs candidates position) Picked.add rounds
    (coverNeeds A needs candidates (List.range position) (Picked.empty needs))

/-- Every choice that the phase makes leaves the earlier ones needed: none of them has all its required needs
covered in full by the others together with the choice. -/
def ChoicesKeepNeeded (A : GainArithmetic) (candidates : List ContextCandidate) (needs : List Need) : Prop :=
  ∀ position < needs.length, (needAt needs position).required → ∀ rounds c,
    nextRequired A needs candidates position (stateAt A needs candidates position rounds) = some c →
    ∀ earlier ∈ (stateAt A needs candidates position rounds).selected,
      Needed needs ((stateAt A needs candidates position rounds).selected ++ [c]) earlier

theorem coverNeeds_range_succ (position : ℕ) :
    coverNeeds A needs candidates (List.range (position + 1)) (Picked.empty needs) =
      if (needAt needs position).required then stateAt A needs candidates position candidates.length
      else coverNeeds A needs candidates (List.range position) (Picked.empty needs) := by
  rw [List.range_succ, coverNeeds_append]
  rfl

/-- **What every choice of a state keeps, the required phase keeps.** -/
theorem requiredPhase_visit_induct {P : Picked needs → Prop} (hempty : P (Picked.empty needs))
    (hstep : ∀ position < needs.length, (needAt needs position).required → ∀ rounds c,
      P (stateAt A needs candidates position rounds) →
      nextRequired A needs candidates position (stateAt A needs candidates position rounds) = some c →
      P ((stateAt A needs candidates position rounds).add c)) :
    P (requiredPhase A needs candidates) := by
  have hfront : ∀ n ≤ needs.length, P (coverNeeds A needs candidates (List.range n) (Picked.empty needs)) := by
    intro n
    induction n with
    | zero => exact fun _ => hempty
    | succ position ih =>
      intro hle
      have hbefore := ih (by omega)
      rw [coverNeeds_range_succ]
      by_cases hrequired : (needAt needs position).required = true
      · rw [if_pos hrequired]
        exact GreedyLoop.run_visit_induct hbefore (hstep position (by omega) hrequired) _
      · rw [if_neg hrequired]
        exact hbefore
  exact hfront needs.length (le_refl _)

/-- The phase only adds to what it has. -/
theorem prefix_coverNeeds (positions : List ℕ) (p : Picked needs) :
    p.selected <+: (coverNeeds A needs candidates positions p).selected := by
  induction positions generalizing p with
  | nil => exact List.prefix_refl _
  | cons position rest ih =>
    rw [coverNeeds_cons]
    refine List.IsPrefix.trans ?_ (ih _)
    split_ifs
    · exact GreedyLoop.run_induct (P := fun q : Picked needs => p.selected <+: q.selected)
        (fun _ _ hq _ => hq.trans (List.prefix_append _ _)) _ (List.prefix_refl _)
    · exact List.prefix_refl _

/-- Every choice is in the set, after what was there before it. -/
theorem choice_isPrefix {position : ℕ} (hpos : position < needs.length)
    (hrequired : (needAt needs position).required) {rounds : ℕ}
    (hnext : nextRequired A needs candidates position (stateAt A needs candidates position rounds) = some c) :
    (stateAt A needs candidates position rounds).selected ++ [c] <+: requiredCandidates A needs candidates := by
  obtain ⟨k, hrun⟩ := GreedyLoop.exists_run_of_choice hnext
    (nextRequired_coverNeed A candidates position _)
  have hend : stateAt A needs candidates position candidates.length =
      GreedyLoop.run (nextRequired A needs candidates position) Picked.add k
        ((stateAt A needs candidates position rounds).add c) := hrun
  have hloop : (stateAt A needs candidates position rounds).selected ++ [c] <+:
      (stateAt A needs candidates position candidates.length).selected := by
    rw [hend]
    exact GreedyLoop.run_induct
      (P := fun q : Picked needs => (stateAt A needs candidates position rounds).selected ++ [c] <+: q.selected)
      (fun _ _ hq _ => hq.trans (List.prefix_append _ _)) k (List.prefix_refl _)
  have hphase : coverNeeds A needs candidates (List.range (position + 1)) (Picked.empty needs) =
      stateAt A needs candidates position candidates.length := by
    rw [coverNeeds_range_succ, if_pos hrequired]
  refine hloop.trans ?_
  rw [← hphase, requiredCandidates, requiredPhase]
  obtain ⟨rest, hrest⟩ : ∃ rest, List.range needs.length = List.range (position + 1) ++ rest :=
    ⟨_, by rw [← List.range_add, Nat.add_sub_cancel' hpos]⟩
  rw [hrest, coverNeeds_append]
  exact prefix_coverNeeds rest _

/-! ## When the set is minimal -/

/-- A choice is needed when it is made. -/
theorem needed_choice {position : ℕ} (hpos : position < needs.length)
    (hrequired : (needAt needs position).required) {p : Picked needs}
    (hnext : nextRequired A needs candidates position p = some c) :
    Needed needs (p.selected ++ [c]) c := by
  obtain ⟨hopen, -, -, hdeclares⟩ := nextRequired_some hnext
  rw [p.covered_eq, coveredBy_eq hpos] at hopen
  rw [coverageOf_eq hpos] at hdeclares
  refine ⟨needAt needs position, needAt_mem hpos, hrequired, hdeclares, ?_⟩
  rw [coverageSum_append, coverageSum_cons, coverageSum_nil]
  omega

/-- A required candidate that covers the need in part. -/
def partialCover : ContextCandidate :=
  { ContextCandidate.default with
    id := ['a'], kind := .fileNote, estimateTokens := 1, requirement := .required
    needCoverage := [⟨['n'], 300000⟩] }

/-- An optional candidate that covers it in full. -/
def fullCover : ContextCandidate :=
  { ContextCandidate.default with
    id := ['b'], kind := .fileNote, estimateTokens := 1, needCoverage := [⟨['n'], 1000000⟩] }

/-- The required need that both cover. -/
def coveredNeed : Need := ⟨['n'], .finite 1, true⟩

end Context
