/-
# Selecting the context window by information

The selection has three phases.  The required needs are covered first, one after the other; a required set
over the budget is an error, and never cut.  What is left of the budget goes to the candidates that add the
most information for a token, gains made anew after every choice.  The conversation takes the rest, newest
first, up to the first message that does not fit.

* `Picked` : the evidence so far, with the running totals that belong to it;
* `available`, `nextRequired`, `nextGain` : who may still be chosen, and who is;
* `requiredPhase`, `requiredCandidates` : the needs that must be covered;
* `gainPhase`, `selectByInformation` : the selection;
* `nextRequired_coverNeed`, `nextGain_gainLoop` : both loops end for want of a candidate, under their fuel;
* `requiredPhase_induct`, `evidencePhases_induct` : what every choice keeps, the phases keep.
-/
import Mathlib
import Faktor.GreedyLoop
import Faktor.NeedModel

namespace Context

open BudgetFill TextBytes

/-! ## What is asked, and what is answered -/

/-- `u32::MAX`. -/
def u32Max : ℕ := 2 ^ 32 - 1

/-- `InformationBudget`; its budget is a `u32`. -/
structure InformationBudget where
  tokenBudget : ℕ
  needs : List Need
  tokenBudget_le : tokenBudget ≤ u32Max

/-- Two tokens are in range. -/
theorem two_le_u32Max : 2 ≤ u32Max := by decide

/-- `InformationError`: the required set alone is over the budget. -/
inductive InformationError
  | oversized (requiredTokens tokenBudget : ℕ)
  deriving DecidableEq, Repr

/-- `InformationSelection`. -/
structure InformationSelection where
  selected : List ContextCandidate
  selectedTokens : ℕ
  requiredTokens : ℕ
  deriving DecidableEq

/-- `u32::try_from(n).unwrap_or(u32::MAX)`. -/
def toU32 (n : ℕ) : ℕ := if n ≤ u32Max then n else u32Max

/-! ## The evidence so far -/

theorem coveredBy_concat (needs : List Need) (selected : List ContextCandidate) (c : ContextCandidate) :
    coveredBy needs (selected ++ [c]) = addCoverage needs c (coveredBy needs selected) := by
  rw [coveredBy, List.foldl_append]
  rfl

/-- The evidence that is selected, in the order of the choices, and the totals that it covers. -/
structure Picked (needs : List Need) where
  selected : List ContextCandidate
  covered : ℕ → ℕ
  covered_eq : covered = coveredBy needs selected

namespace Picked

variable {needs : List Need}

/-- Nothing is selected. -/
def empty (needs : List Need) : Picked needs := ⟨[], fun _ => 0, rfl⟩

/-- One more candidate. -/
def add (p : Picked needs) (c : ContextCandidate) : Picked needs where
  selected := p.selected ++ [c]
  covered := addCoverage needs c p.covered
  covered_eq := by rw [coveredBy_concat, p.covered_eq]

/-- `selected_ids`. -/
def ids (p : Picked needs) : List Text := p.selected.map ContextCandidate.id

/-- `groups`. -/
def groups (p : Picked needs) : List ℕ := p.selected.filterMap ContextCandidate.evidence

@[simp] theorem add_selected (p : Picked needs) (c : ContextCandidate) :
    (p.add c).selected = p.selected ++ [c] := rfl

theorem mem_add {p : Picked needs} {c d : ContextCandidate} :
    d ∈ (p.add c).selected ↔ d ∈ p.selected ∨ d = c := by
  rw [add_selected, List.mem_append, List.mem_singleton]

@[simp] theorem add_ids (p : Picked needs) (c : ContextCandidate) : (p.add c).ids = p.ids ++ [c.id] := by
  simp [ids]

@[simp] theorem add_groups (p : Picked needs) (c : ContextCandidate) :
    (p.add c).groups = p.groups ++ c.evidence.toList := by
  cases hgroup : c.evidence <;> simp [groups, hgroup]

end Picked

/-- Whether a candidate may still be chosen: it has a price, and neither its id nor its group is taken. -/
def available {needs : List Need} (p : Picked needs) (c : ContextCandidate) : Prop :=
  0 < c.estimateTokens ∧ c.id ∉ p.ids ∧ ∀ group ∈ c.evidence, group ∉ p.groups

attribute [local instance] lawfulBEq_text in
instance {needs : List Need} (p : Picked needs) : DecidablePred (available p) := fun c => by
  unfold available
  infer_instance

section Phases

variable (A : GainArithmetic) (needs : List Need) (candidates : List ContextCandidate)

/-! ## The required needs -/

/-- `requirement_rank`. -/
def requirementRank : CandidateRequirement → ℕ
  | .required => 0
  | .preferred => 1
  | .optional => 2

/-- What a candidate adds to a selection for one of its tokens. -/
def score (p : Picked needs) (c : ContextCandidate) : ℚ :=
  A.perToken (gain A needs c p.covered) c.estimateTokens

/-- The order of the candidates for a need: by class, the widest coverage, the highest score, the id. -/
def requiredKey (position : ℕ) (p : Picked needs) (c : ContextCandidate) : ℕ ×ₗ ℕᵒᵈ ×ₗ ℚᵒᵈ ×ₗ Text :=
  toLex (requirementRank c.requirement,
    toLex (OrderDual.toDual (coverageOf needs c position),
      toLex (OrderDual.toDual (score A needs p c), c.id)))

/-- The next candidate for a need that is not covered: the first in that order of those that declare it. -/
def nextRequired (position : ℕ) (p : Picked needs) : Option ContextCandidate :=
  if p.covered position < fullCoveragePpm then
    (candidates.filter fun c => available p c ∧ 0 < coverageOf needs c position).argmin
      (requiredKey A needs position p)
  else none

/-- The loop that covers one need. -/
def coverNeed (position : ℕ) (p : Picked needs) : Picked needs :=
  GreedyLoop.run (nextRequired A needs candidates position) Picked.add candidates.length p

/-- The required needs among some positions, one after the other. -/
def coverNeeds (positions : List ℕ) (p : Picked needs) : Picked needs :=
  positions.foldl (fun p position =>
    if (needAt needs position).required then coverNeed A needs candidates position p else p) p

/-- `required_candidates_with`: the required needs, in the order they are asked for. -/
def requiredPhase : Picked needs :=
  coverNeeds A needs candidates (List.range needs.length) (Picked.empty needs)

/-- `required_candidates`. -/
def requiredCandidates : List ContextCandidate := (requiredPhase A needs candidates).selected

/-! ## The gains -/

variable (gainOf : ContextCandidate → ℚ → ℚ)

/-- The gain of a candidate in the second phase, as the caller adjusts it. -/
def phaseGain (p : Picked needs) (c : ContextCandidate) : ℚ := gainOf c (gain A needs c p.covered)

/-- The order of the candidates by gain: the highest score, the id. -/
def gainKey (p : Picked needs) (c : ContextCandidate) : ℚᵒᵈ ×ₗ Text :=
  toLex (OrderDual.toDual (A.perToken (phaseGain A needs gainOf p c) c.estimateTokens), c.id)

attribute [local instance] lawfulBEq_text in
/-- The next candidate by gain, among those that were not passed over. -/
def nextGain (s : List Text × Picked needs) : Option ContextCandidate :=
  (candidates.filter fun c => available s.2 c ∧ c.id ∉ s.1 ∧ 0 < phaseGain A needs gainOf s.2 c).argmin
    (gainKey A needs gainOf s.2)

/-- The step of a choice: it is passed over when it does not fit. -/
def gainStep (tokenBudget : ℕ) (s : List Text × Picked needs) (c : ContextCandidate) :
    List Text × Picked needs :=
  if tokenBudget < tokens s.2.selected + c.estimateTokens then (c.id :: s.1, s.2) else (s.1, s.2.add c)

/-- The second phase. -/
def gainPhase (tokenBudget : ℕ) (p : Picked needs) : Picked needs :=
  (GreedyLoop.run (nextGain A needs candidates gainOf) (gainStep needs tokenBudget) candidates.length
    ([], p)).2

/-! ## The selection -/

/-- The messages that the third phase reads: those with a price. -/
def pricedMessages : List ContextCandidate :=
  (candidates.filter ContextCandidate.isMessage).filter fun c => 0 < c.estimateTokens

/-- What the first two phases select. -/
def evidencePhases (tokenBudget : ℕ) : Picked needs :=
  gainPhase A needs candidates gainOf tokenBudget (requiredPhase A needs candidates)

end Phases

/-- `select_by_information_with`. -/
def selectByInformationWith (A : GainArithmetic) (gainOf : ContextCandidate → ℚ → ℚ)
    (candidates : List ContextCandidate) (budget : InformationBudget) :
    Except InformationError InformationSelection :=
  let required := requiredCandidates A budget.needs candidates
  if budget.tokenBudget < tokens required then
    .error (.oversized (tokens required) budget.tokenBudget)
  else
    let evidence := (evidencePhases A budget.needs candidates gainOf budget.tokenBudget).selected
    let messages := takeWithin ContextCandidate.estimateTokens budget.tokenBudget (tokens evidence)
      (pricedMessages candidates)
    .ok {
      selected := messages ++ evidence
      selectedTokens := toU32 (tokens evidence + tokens messages)
      requiredTokens := toU32 (tokens (evidence.take required.length)) }

/-- `select_by_information`: the gains as they are. -/
def selectByInformation (A : GainArithmetic) (candidates : List ContextCandidate) (budget : InformationBudget) :
    Except InformationError InformationSelection :=
  selectByInformationWith A (fun _ base => base) candidates budget

/-! ## What a choice is -/

section Choices

variable {A : GainArithmetic} {needs : List Need} {candidates : List ContextCandidate}
  {gainOf : ContextCandidate → ℚ → ℚ} {p : Picked needs} {c : ContextCandidate}

/-- What is available after a choice was available before it. -/
theorem available_of_add {d : ContextCandidate} (h : available (p.add c) d) : available p d := by
  obtain ⟨hpriced, hid, hgroup⟩ := h
  rw [Picked.add_ids] at hid
  rw [Picked.add_groups] at hgroup
  refine ⟨hpriced, fun hmem => hid (List.mem_append_left _ hmem), ?_⟩
  intro group hmem hin
  exact hgroup group hmem (List.mem_append_left _ hin)

theorem not_available_add (p : Picked needs) (c : ContextCandidate) : ¬ available (p.add c) c := by
  rintro ⟨-, hid, -⟩
  apply hid
  rw [Picked.add_ids]
  exact List.mem_append_right _ (List.mem_singleton.mpr rfl)

/-- A choice for a need: the need is not covered, and the candidate is available and declares it. -/
theorem nextRequired_some {position : ℕ} (h : nextRequired A needs candidates position p = some c) :
    p.covered position < fullCoveragePpm ∧ c ∈ candidates ∧ available p c ∧
      0 < coverageOf needs c position := by
  rw [nextRequired] at h
  by_cases hopen : p.covered position < fullCoveragePpm
  · rw [if_pos hopen] at h
    have hmem := List.mem_filter.mp (List.argmin_mem h)
    exact ⟨hopen, hmem.1, by simpa using hmem.2⟩
  · rw [if_neg hopen] at h
    exact absurd h (by simp)

/-- No choice for a need: it is covered, or nothing available declares it. -/
theorem nextRequired_none {position : ℕ} (h : nextRequired A needs candidates position p = none) :
    fullCoveragePpm ≤ p.covered position ∨
      ∀ d ∈ candidates, available p d → coverageOf needs d position = 0 := by
  rw [nextRequired] at h
  by_cases hopen : p.covered position < fullCoveragePpm
  · rw [if_pos hopen, List.argmin_eq_none, List.filter_eq_nil_iff] at h
    right
    intro d hd havailable
    by_contra hpos
    exact h d hd (by simpa using ⟨havailable, Nat.pos_of_ne_zero hpos⟩)
  · exact Or.inl (Nat.not_lt.mp hopen)

/-- A choice by gain. -/
theorem nextGain_some {s : List Text × Picked needs} (h : nextGain A needs candidates gainOf s = some c) :
    c ∈ candidates ∧ available s.2 c ∧ c.id ∉ s.1 ∧ 0 < phaseGain A needs gainOf s.2 c := by
  have hmem := List.mem_filter.mp (List.argmin_mem h)
  exact ⟨hmem.1, by simpa using hmem.2⟩

/-! ## The loops end -/

/-- A list is shorter after a filter that keeps less, and leaves out one element that was kept. -/
theorem length_filter_lt {α : Type*} {keep keep' : α → Bool} {xs : List α} (hless : ∀ x, keep' x → keep x)
    {a : α} (ha : a ∈ xs) (hkept : keep a) (hleft : ¬ keep' a) :
    (xs.filter keep').length < (xs.filter keep).length := by
  have hfilter : xs.filter keep' = (xs.filter keep).filter keep' := by
    rw [List.filter_filter]
    congr 1
    funext x
    by_cases hx : keep' x
    · simp [hx, hless x hx]
    · simp [hx]
  rw [hfilter, List.length_filter_lt_length_iff_exists]
  exact ⟨a, List.mem_filter.mpr ⟨ha, hkept⟩, hleft⟩

/-- **The loop of a need ends with the need covered, or with nothing available that declares it.** -/
theorem nextRequired_coverNeed (A : GainArithmetic) (candidates : List ContextCandidate) (position : ℕ)
    (p : Picked needs) :
    nextRequired A needs candidates position (coverNeed A needs candidates position p) = none := by
  apply GreedyLoop.next_run_eq_none (m := fun p => (candidates.filter (available p)).length)
  · intro p c hnext
    obtain ⟨-, hmem, havailable, -⟩ := nextRequired_some hnext
    apply length_filter_lt _ hmem
    · simpa using havailable
    · simpa using not_available_add p c
    · intro d hd
      simpa using available_of_add (by simpa using hd)
  · exact List.length_filter_le _ _

/-! ## What every choice keeps -/

theorem coverNeeds_cons (A : GainArithmetic) (candidates : List ContextCandidate) (position : ℕ)
    (rest : List ℕ) (p : Picked needs) : coverNeeds A needs candidates (position :: rest) p =
      coverNeeds A needs candidates rest
        (if (needAt needs position).required then coverNeed A needs candidates position p else p) := rfl

theorem coverNeeds_append (A : GainArithmetic) (candidates : List ContextCandidate) (front back : List ℕ)
    (p : Picked needs) : coverNeeds A needs candidates (front ++ back) p =
      coverNeeds A needs candidates back (coverNeeds A needs candidates front p) :=
  List.foldl_append

/-- What every choice for a required need keeps, the needs of some positions keep. -/
theorem coverNeeds_induct {P : Picked needs → Prop} {positions : List ℕ}
    (hlt : ∀ position ∈ positions, position < needs.length) {p : Picked needs} (hp : P p)
    (hstep : ∀ position p c, position < needs.length → (needAt needs position).required → P p →
      nextRequired A needs candidates position p = some c → P (p.add c)) :
    P (coverNeeds A needs candidates positions p) := by
  induction positions generalizing p with
  | nil => exact hp
  | cons position rest ih =>
    rw [coverNeeds_cons]
    apply ih (fun i hi => hlt i (List.mem_cons_of_mem _ hi))
    by_cases hrequired : (needAt needs position).required = true
    · rw [if_pos hrequired]
      exact GreedyLoop.run_induct (fun q c hq hnext =>
        hstep position q c (hlt position List.mem_cons_self) hrequired hq hnext) _ hp
    · rw [if_neg hrequired]
      exact hp

/-- **What every choice of the required phase keeps holds after it.** -/
theorem requiredPhase_induct {P : Picked needs → Prop} (hempty : P (Picked.empty needs))
    (hstep : ∀ position p c, position < needs.length → (needAt needs position).required → P p →
      nextRequired A needs candidates position p = some c → P (p.add c)) :
    P (requiredPhase A needs candidates) :=
  coverNeeds_induct (fun _ hi => List.mem_range.mp hi) hempty hstep

/-- **What every choice within the budget keeps, both phases keep.** -/
theorem evidencePhases_induct {P : Picked needs → Prop} {tokenBudget : ℕ}
    (hrequired : P (requiredPhase A needs candidates))
    (hstep : ∀ p c, P p → c ∈ candidates → available p c →
      tokens p.selected + c.estimateTokens ≤ tokenBudget → 0 < phaseGain A needs gainOf p c →
      P (p.add c)) :
    P (evidencePhases A needs candidates gainOf tokenBudget) := by
  refine GreedyLoop.run_induct (P := fun s : List Text × Picked needs => P s.2) ?_ _ hrequired
  rintro ⟨skipped, p⟩ c hp hnext
  obtain ⟨hmem, havailable, -, hgains⟩ := nextGain_some hnext
  rw [gainStep]
  split_ifs with hover
  · exact hp
  · exact hstep p c hp hmem havailable (Nat.not_lt.mp hover) hgains

end Choices

end Context
