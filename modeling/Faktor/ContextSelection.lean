/-
# Selecting the context window by utility

A turn's window is filled from messages, newest first, and from evidence, best utility per token first.
The messages stop at a cap that leaves a reserve for the evidence, the evidence passes over what does not
fit, and the messages then go on where they stopped.  When that leaves no message at all, the selection is
made once more without a reserve.

* `ContextCandidate`, `eligible`, `ratioOrder` : what competes, and the order of the evidence;
* `selectPhases` : the three phases;
* `selectByUtility` : the selection;
* `selectPhases_spec` : what the phases keep, for any reserve;
* `select_by_utility_guarantee` : **the guarantees of the selection**.
-/
import Mathlib
import Faktor.TextBytes
import Faktor.BudgetFill
import Faktor.FloatOrder

namespace Context

open BudgetFill Compaction TextBytes
open Compaction.Binary64 (partialCmp)

/-! ## The candidates -/

/-- `CandidateKind`. -/
inductive CandidateKind
  | message
  | symbol
  | fileNote
  | repoRule
  | toolNote
  | subagentSummary
  deriving DecidableEq, Repr

/-- `CandidateRequirement`. -/
inductive CandidateRequirement
  | required
  | preferred
  | optional
  deriving DecidableEq, Repr

/-- `EvidenceLevel`. -/
inductive EvidenceLevel
  | summary
  | structural
  | exact
  deriving DecidableEq, Repr

/-- `NeedCoverage`: how far a candidate covers a need, in millionths. -/
structure NeedCoverage where
  needId : Text
  coveragePpm : ℕ
  deriving DecidableEq, Repr

/-- `ContextCandidate`. -/
structure ContextCandidate where
  id : Text
  kind : CandidateKind
  bytes : ℕ
  estimateTokens : ℕ
  utility : Binary64
  evidence : Option ℕ
  requirement : CandidateRequirement
  confidencePpm : ℕ
  freshnessPpm : ℕ
  needCoverage : List NeedCoverage
  expectedErrorReductionPpm : ℕ
  level : EvidenceLevel
  omissionKeys : List Text
  deriving DecidableEq

namespace ContextCandidate

/-- `ContextCandidate::default`. -/
def default : ContextCandidate where
  id := []
  kind := .message
  bytes := 0
  estimateTokens := 0
  utility := .finite 0
  evidence := none
  requirement := .optional
  confidencePpm := 0
  freshnessPpm := 0
  needCoverage := []
  expectedErrorReductionPpm := 0
  level := .summary
  omissionKeys := []

/-- Whether a candidate is a message of the conversation. -/
def isMessage (c : ContextCandidate) : Bool := c.kind = .message

end ContextCandidate

/-- What a list of candidates costs. -/
abbrev tokens (cs : List ContextCandidate) : ℕ := total ContextCandidate.estimateTokens cs

theorem tokens_append (front back : List ContextCandidate) :
    tokens (front ++ back) = tokens front + tokens back := total_append _ front back

/-- `eligible`: evidence that has a price, and whose utility is positive and not below the least one. -/
def eligible (minUtility : Binary64) (c : ContextCandidate) : Prop :=
  c.kind ≠ .message ∧ 0 < c.estimateTokens ∧ c.utility.gt (.finite 0) ∧ c.utility.ge minUtility

instance (minUtility : Binary64) : DecidablePred (eligible minUtility) := fun c =>
  inferInstanceAs (Decidable (c.kind ≠ .message ∧ 0 < c.estimateTokens ∧ c.utility.gt (.finite 0) ∧
    c.utility.ge minUtility))

/-- The order of the evidence: the most utility per token first, equal ones by their ids. -/
def ratioOrder (a b : ContextCandidate) : Prop :=
  (((partialCmp (b.utility.divNat b.estimateTokens) (a.utility.divNat a.estimateTokens)).getD .eq).then
    (compare a.id b.id)) ≠ .gt

instance : DecidableRel ratioOrder := fun a b => by
  unfold ratioOrder
  infer_instance

/-! ## The selection -/

/-- `select_phases`: messages up to the cap, evidence up to the budget, and more messages from the first
one that the cap refused. -/
def selectPhases (candidates : List ContextCandidate) (budget reserve : ℕ) (minUtility : Binary64) :
    List ContextCandidate :=
  let messages := candidates.filter ContextCandidate.isMessage
  let newest := takeWithin ContextCandidate.estimateTokens (budget - reserve) 0 messages
  let evidence := fillWithin ContextCandidate.estimateTokens budget (tokens newest)
    ((candidates.filter (eligible minUtility)).insertionSort ratioOrder)
  newest ++ evidence ++ takeWithin ContextCandidate.estimateTokens budget (tokens newest + tokens evidence)
    (messages.drop newest.length)

/-- The reserve for the evidence: a tenth of the budget and at least one token, when there is any. -/
def evidenceReserve (candidates : List ContextCandidate) (budget : ℕ) (minUtility : Binary64) : ℕ :=
  if candidates.any (eligible minUtility) then max (budget / 10) 1 else 0

/-- `select_by_utility`. -/
def selectByUtility (candidates : List ContextCandidate) (tokenBudget : ℕ) (minUtility : Binary64) :
    List ContextCandidate :=
  if tokenBudget = 0 then []
  else
    let selected :=
      selectPhases candidates tokenBudget (evidenceReserve candidates tokenBudget minUtility) minUtility
    if ¬ selected.any ContextCandidate.isMessage ∧ candidates.any ContextCandidate.isMessage then
      selectPhases candidates tokenBudget 0 minUtility
    else selected

/-! ## What the phases keep -/

section Phases

variable (candidates : List ContextCandidate) (budget reserve : ℕ) (minUtility : Binary64)

/-- The messages of a list that was put together from messages, evidence and messages. -/
theorem filter_isMessage_parts {newest evidence more : List ContextCandidate}
    (hnewest : ∀ c ∈ newest, c.isMessage) (hevidence : ∀ c ∈ evidence, ¬ c.isMessage)
    (hmore : ∀ c ∈ more, c.isMessage) :
    (newest ++ evidence ++ more).filter ContextCandidate.isMessage = newest ++ more := by
  rw [List.filter_append, List.filter_append, List.filter_eq_self.mpr hnewest,
    List.filter_eq_self.mpr hmore, List.filter_eq_nil_iff.mpr hevidence, List.append_nil]

theorem not_isMessage_of_eligible {minUtility : Binary64} {c : ContextCandidate}
    (h : eligible minUtility c) : ¬ c.isMessage := by
  simpa [ContextCandidate.isMessage] using h.1

/-- What the selection promises of itself, whatever the reserve. -/
structure PhasesKeep (selected : List ContextCandidate) : Prop where
  within : tokens selected ≤ budget
  newestFirst : selected.filter ContextCandidate.isMessage <+: candidates.filter ContextCandidate.isMessage
  full : ∀ c, eligible minUtility c → selected.count c < candidates.count c →
    budget < tokens selected + c.estimateTokens

/-- **The phases stay within the budget, take the messages newest first without a gap, and leave out no
evidence that would still fit.** -/
theorem selectPhases_spec :
    PhasesKeep candidates budget minUtility (selectPhases candidates budget reserve minUtility) := by
  set messages := candidates.filter ContextCandidate.isMessage with hmessages
  set newest := takeWithin ContextCandidate.estimateTokens (budget - reserve) 0 messages with hnewest
  set sorted := (candidates.filter (eligible minUtility)).insertionSort ratioOrder with hsorted
  set evidence := fillWithin ContextCandidate.estimateTokens budget (tokens newest) sorted with hevidence
  set more := takeWithin ContextCandidate.estimateTokens budget (tokens newest + tokens evidence)
    (messages.drop newest.length) with hmore
  have hparts : selectPhases candidates budget reserve minUtility = newest ++ evidence ++ more := rfl
  have hnewestPrefix : newest <+: messages := takeWithin_prefix _ _ _ _
  have hmorePrefix : more <+: messages.drop newest.length := takeWithin_prefix _ _ _ _
  -- each part is what its phase reads
  have hmem : ∀ c ∈ sorted, eligible minUtility c := by
    intro c hc
    rw [hsorted, List.mem_insertionSort] at hc
    simpa using (List.mem_filter.mp hc).2
  have hisNewest : ∀ c ∈ newest, c.isMessage := fun c hc =>
    (List.mem_filter.mp (hnewestPrefix.subset hc)).2
  have hisMore : ∀ c ∈ more, c.isMessage := fun c hc =>
    (List.mem_filter.mp ((List.drop_sublist _ _).subset (hmorePrefix.subset hc))).2
  have hisEvidence : ∀ c ∈ evidence, ¬ c.isMessage := fun c hc =>
    not_isMessage_of_eligible (hmem c ((fillWithin_sublist _ _ _ _).subset hc))
  -- and each leaves the tokens used within the budget
  have hcap : tokens newest ≤ budget := by
    have h := used_add_takeWithin_le ContextCandidate.estimateTokens (Nat.zero_le (budget - reserve)) messages
    rw [Nat.zero_add] at h
    exact h.trans (Nat.sub_le _ _)
  have hfilled : tokens newest + tokens evidence ≤ budget := used_add_fillWithin_le _ hcap sorted
  have hrefilled : tokens newest + tokens evidence + tokens more ≤ budget :=
    used_add_takeWithin_le _ hfilled _
  refine ⟨?_, ?_, ?_⟩
  · rw [hparts, tokens_append, tokens_append]
    exact hrefilled
  · rw [hparts, filter_isMessage_parts hisNewest hisEvidence hisMore]
    exact prefix_append_of_drop hnewestPrefix hmorePrefix
  · intro c hc hless
    have hnotMessage : c ∉ newest ∧ c ∉ more :=
      ⟨fun h => not_isMessage_of_eligible hc (hisNewest c h),
        fun h => not_isMessage_of_eligible hc (hisMore c h)⟩
    have hcount : (selectPhases candidates budget reserve minUtility).count c = evidence.count c := by
      rw [hparts, List.count_append, List.count_append, List.count_eq_zero_of_not_mem hnotMessage.1,
        List.count_eq_zero_of_not_mem hnotMessage.2]
      omega
    have hsortedCount : sorted.count c = candidates.count c := by
      rw [hsorted, (List.perm_insertionSort _ _).count_eq, List.count_filter (by simpa using hc)]
    have hover : budget < tokens newest + tokens evidence + c.estimateTokens :=
      lt_of_count_fillWithin_lt _ (by rw [← hevidence, hsortedCount]; omega)
    calc budget < tokens newest + tokens evidence + c.estimateTokens := hover
      _ ≤ tokens newest + tokens evidence + tokens more + c.estimateTokens := by omega
      _ = tokens (selectPhases candidates budget reserve minUtility) + c.estimateTokens := by
        rw [hparts, tokens_append, tokens_append]

/-- The newest message is selected when it fits the cap. -/
theorem selectPhases_message {newest : ContextCandidate}
    (hnewest : newest ∈ (candidates.filter ContextCandidate.isMessage).head?)
    (hfits : newest.estimateTokens ≤ budget - reserve) :
    newest ∈ selectPhases candidates budget reserve minUtility := by
  obtain ⟨older, holder⟩ := List.head?_eq_some_iff.mp hnewest
  rw [selectPhases]
  apply List.mem_append_left
  apply List.mem_append_left
  rw [holder, takeWithin, Nat.zero_add, if_pos hfits]
  exact List.mem_cons_self

/-- Some evidence is selected when an eligible candidate fits the reserve. -/
theorem selectPhases_evidence {c : ContextCandidate} (hreserve : reserve ≤ budget) (hc : c ∈ candidates)
    (heligible : eligible minUtility c) (hfits : c.estimateTokens ≤ reserve) :
    ∃ e ∈ selectPhases candidates budget reserve minUtility, eligible minUtility e := by
  set messages := candidates.filter ContextCandidate.isMessage
  set newest := takeWithin ContextCandidate.estimateTokens (budget - reserve) 0 messages
  set sorted := (candidates.filter (eligible minUtility)).insertionSort ratioOrder with hsorted
  have hcap : 0 + tokens newest ≤ budget - reserve := used_add_takeWithin_le _ (Nat.zero_le _) messages
  have hmem : c ∈ sorted := by
    rw [hsorted, List.mem_insertionSort]
    exact List.mem_filter.mpr ⟨hc, by simpa using heligible⟩
  have hroom : tokens newest + c.estimateTokens ≤ budget := by omega
  obtain ⟨e, he⟩ := List.exists_mem_of_ne_nil _
    (fillWithin_ne_nil ContextCandidate.estimateTokens hmem hroom)
  have hsel : e ∈ selectPhases candidates budget reserve minUtility :=
    List.mem_append_left _ (List.mem_append_right _ he)
  have hin : e ∈ sorted := (fillWithin_sublist _ _ _ _).subset he
  rw [hsorted, List.mem_insertionSort] at hin
  exact ⟨e, hsel, by simpa using (List.mem_filter.mp hin).2⟩

end Phases

/-! ## The selection keeps its guarantees -/

/-- The newest message. -/
def newestMessage (candidates : List ContextCandidate) : Option ContextCandidate :=
  (candidates.filter ContextCandidate.isMessage).head?

/-- A message is selected whenever the newest one alone fits the budget. -/
def KeepsConversation (candidates : List ContextCandidate) (tokenBudget : ℕ) (minUtility : Binary64) : Prop :=
  ∀ newest ∈ newestMessage candidates, newest.estimateTokens ≤ tokenBudget →
    ∃ m ∈ selectByUtility candidates tokenBudget minUtility, m.isMessage

/-- Evidence is selected whenever the newest message fits the conversation's cap and an eligible candidate
the reserve. -/
def KeepsEvidence (candidates : List ContextCandidate) (tokenBudget : ℕ) (minUtility : Binary64) : Prop :=
  ∀ newest ∈ newestMessage candidates,
    newest.estimateTokens ≤ tokenBudget - evidenceReserve candidates tokenBudget minUtility →
    ∀ c ∈ candidates, eligible minUtility c →
      c.estimateTokens ≤ evidenceReserve candidates tokenBudget minUtility →
      ∃ e ∈ selectByUtility candidates tokenBudget minUtility, eligible minUtility e

section

variable (candidates : List ContextCandidate)
include candidates

theorem evidenceReserve_le {tokenBudget : ℕ} (hbudget : 0 < tokenBudget) (minUtility : Binary64) :
    evidenceReserve candidates tokenBudget minUtility ≤ tokenBudget := by
  rw [evidenceReserve]
  split_ifs
  · omega
  · exact Nat.zero_le _

/-- The selection is that of the phases, with the reserve or with none; with none only when the reserve left
no message. -/
theorem selectByUtility_cases {tokenBudget : ℕ} (hbudget : 0 < tokenBudget) (minUtility : Binary64) :
    (selectByUtility candidates tokenBudget minUtility =
        selectPhases candidates tokenBudget (evidenceReserve candidates tokenBudget minUtility) minUtility ∧
      (candidates.any ContextCandidate.isMessage →
        (selectByUtility candidates tokenBudget minUtility).any ContextCandidate.isMessage)) ∨
    (selectByUtility candidates tokenBudget minUtility = selectPhases candidates tokenBudget 0 minUtility ∧
      ¬ (selectPhases candidates tokenBudget (evidenceReserve candidates tokenBudget minUtility)
        minUtility).any ContextCandidate.isMessage) := by
  rw [selectByUtility, if_neg (Nat.ne_of_gt hbudget)]
  by_cases hlost : ¬ (selectPhases candidates tokenBudget
      (evidenceReserve candidates tokenBudget minUtility) minUtility).any ContextCandidate.isMessage ∧
      candidates.any ContextCandidate.isMessage
  · exact Or.inr ⟨if_pos hlost, hlost.1⟩
  · rw [if_neg hlost]
    refine Or.inl ⟨rfl, ?_⟩
    intro hmessages
    by_contra hnone
    exact hlost ⟨hnone, hmessages⟩

/-- A zero budget selects nothing. -/
theorem selectByUtility_zero (minUtility : Binary64) :
    selectByUtility candidates 0 minUtility = [] := by
  rw [selectByUtility, if_pos rfl]

theorem selectByUtility_keep (tokenBudget : ℕ) (minUtility : Binary64) :
    PhasesKeep candidates tokenBudget minUtility (selectByUtility candidates tokenBudget minUtility) := by
  rcases Nat.eq_zero_or_pos tokenBudget with rfl | hbudget
  · rw [selectByUtility_zero]
    refine ⟨Nat.zero_le _, List.nil_prefix, ?_⟩
    intro c hc _
    have hpriced : 0 < c.estimateTokens := hc.2.1
    simpa using hpriced
  · rcases selectByUtility_cases candidates hbudget minUtility with ⟨h, -⟩ | ⟨h, -⟩
    · rw [h]
      exact selectPhases_spec _ _ _ _
    · rw [h]
      exact selectPhases_spec _ _ _ _

end

theorem newestMessage_mem {candidates : List ContextCandidate} {newest : ContextCandidate}
    (h : newest ∈ newestMessage candidates) : newest ∈ candidates ∧ newest.isMessage :=
  List.mem_filter.mp (List.mem_of_mem_head? h)

theorem selectByUtility_keepsConversation (candidates : List ContextCandidate) {tokenBudget : ℕ}
    (hbudget : 0 < tokenBudget) (minUtility : Binary64) :
    KeepsConversation candidates tokenBudget minUtility := by
  intro newest hnewest hfits
  obtain ⟨hmem, hmessage⟩ := newestMessage_mem hnewest
  rcases selectByUtility_cases candidates hbudget minUtility with ⟨-, hany⟩ | ⟨h, -⟩
  · exact List.any_eq_true.mp (hany (List.any_eq_true.mpr ⟨newest, hmem, hmessage⟩))
  · rw [h]
    exact ⟨newest, selectPhases_message candidates tokenBudget 0 minUtility hnewest hfits, hmessage⟩

theorem selectByUtility_keepsEvidence (candidates : List ContextCandidate) {tokenBudget : ℕ}
    (hbudget : 0 < tokenBudget) (minUtility : Binary64) :
    KeepsEvidence candidates tokenBudget minUtility := by
  intro newest hnewest hcap c hc heligible hfits
  rcases selectByUtility_cases candidates hbudget minUtility with ⟨h, -⟩ | ⟨-, hnone⟩
  · rw [h]
    exact selectPhases_evidence candidates tokenBudget _ minUtility
      (evidenceReserve_le candidates hbudget minUtility) hc heligible hfits
  · -- the newest message fits the cap, so the reserve cannot have left the conversation out
    exact absurd (List.any_eq_true.mpr ⟨newest,
      selectPhases_message candidates tokenBudget _ minUtility hnewest hcap,
      (newestMessage_mem hnewest).2⟩) hnone

/-- **The selection never exceeds the budget, takes the messages newest first without a gap and leaves out no
eligible evidence that would still fit; under any budget but zero it keeps the conversation and the evidence,
and under a zero budget it is empty.** -/
theorem select_by_utility_guarantee (candidates : List ContextCandidate) (tokenBudget : ℕ)
    (minUtility : Binary64) :
    tokens (selectByUtility candidates tokenBudget minUtility) ≤ tokenBudget ∧
    (selectByUtility candidates tokenBudget minUtility).filter ContextCandidate.isMessage <+:
      candidates.filter ContextCandidate.isMessage ∧
    (∀ c, eligible minUtility c →
      (selectByUtility candidates tokenBudget minUtility).count c < candidates.count c →
      tokenBudget < tokens (selectByUtility candidates tokenBudget minUtility) + c.estimateTokens) ∧
    (0 < tokenBudget → KeepsConversation candidates tokenBudget minUtility ∧
      KeepsEvidence candidates tokenBudget minUtility) ∧
    (tokenBudget = 0 → selectByUtility candidates tokenBudget minUtility = []) := by
  obtain ⟨hwithin, hnewest, hfull⟩ := selectByUtility_keep candidates tokenBudget minUtility
  refine ⟨hwithin, hnewest, hfull, ?_, ?_⟩
  · intro hbudget
    exact ⟨selectByUtility_keepsConversation candidates hbudget minUtility,
      selectByUtility_keepsEvidence candidates hbudget minUtility⟩
  · rintro rfl
    exact selectByUtility_zero candidates minUtility

/-- Evidence of one token, of the highest utility. -/
def oneTokenSymbol : ContextCandidate :=
  { ContextCandidate.default with id := ['s'], kind := .symbol, estimateTokens := 1, utility := .finite 1 }

/-- A message without tokens fits a zero budget, and the symbol fits the reserve of one token: neither is
selected. -/
theorem zeroBudget_keeps_nothing :
    ¬ KeepsConversation [ContextCandidate.default, oneTokenSymbol] 0 (.finite 0) ∧
    ¬ KeepsEvidence [ContextCandidate.default, oneTokenSymbol] 0 (.finite 0) := by
  constructor
  · intro h
    obtain ⟨m, hm, -⟩ := h ContextCandidate.default (by decide) (by decide)
    rw [selectByUtility_zero] at hm
    exact absurd hm List.not_mem_nil
  · intro h
    obtain ⟨e, he, -⟩ := h ContextCandidate.default (by decide) (by decide) oneTokenSymbol (by decide)
      (by decide) (by decide)
    rw [selectByUtility_zero] at he
    exact absurd he List.not_mem_nil

end Context
