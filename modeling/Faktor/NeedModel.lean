/-
# The information a candidate still adds

A turn has needs, each of a weight, and a candidate declares how far it covers them.  What a candidate adds
is the sum over the needs of the weight, of the share that the selection still leaves uncovered and of the
candidate's own share, discounted by its confidence and freshness.  The documented form rescans the selection
for every need; the one that is run keeps a capped total for every need and walks over the declared needs
only.  Both round each operation, and they round the same numbers in the same order.

* `GainArithmetic` : how the result of an operation is rounded, and the two that matter;
* `coveragePpmFor`, `remainingCoverage`, `marginalGain` : the documented form;
* `termsOf`, `coverageOf`, `gain`, `addCoverage` : the form that is run;
* `coverageOf_eq`, `coveredBy_eq` : the declared coverage, and the running totals, are the documented sums;
* `gain_eq_marginalGain` : **the two forms agree**, whatever the rounding.
-/
import Mathlib
import Faktor.SparseTotals
import Faktor.ContextSelection

namespace Context

open BudgetFill Compaction TextBytes SparseTotals

/-! ## The needs, and the arithmetic -/

/-- `FULL_COVERAGE_PPM`, and the unit of the shares. -/
def fullCoveragePpm : ℕ := 1000000

/-- `Need`. -/
structure Need where
  id : Text
  weight : Binary64
  required : Bool
  deriving DecidableEq

/-- `Need::default`. -/
def Need.default : Need := ⟨[], .finite 0, false⟩

/-- The arithmetic of the gains: what the exact result of an operation is rounded to, or nothing when that is
not finite; zero stays zero. -/
structure GainArithmetic where
  round : ℚ → Option ℚ
  round_zero : round 0 = some 0

/-- Arithmetic over the rationals. -/
def GainArithmetic.exact : GainArithmetic := ⟨some, rfl⟩

/-- Binary64 arithmetic: every operand here is a number that is not negative. -/
def GainArithmetic.binary64 : GainArithmetic where
  round q := if nearestDouble q < 2 ^ 1024 then some (nearestDouble q) else none
  round_zero := by norm_num [nearestDouble]

/-- `sanitize_weight`. -/
def sanitizeWeight : Binary64 → ℚ
  | .finite q => if 0 < q then q else 0
  | .inf _ => 0
  | .nan => 0

namespace GainArithmetic

variable (A : GainArithmetic)

/-- `ppm_unit`. -/
def ppmUnit (ppm : ℕ) : ℚ :=
  if fullCoveragePpm ≤ ppm then 1 else (A.round (ppm / fullCoveragePpm)).getD 0

/-- `(1.0 - covered / PPM).clamp(0.0, 1.0)`. -/
def remainingShare (covered : ℕ) : ℚ :=
  max 0 (min 1 ((A.round (1 - (A.round (covered / fullCoveragePpm)).getD 0)).getD 0))

/-- `gain += weight * remaining * coverage * confidence * freshness`, which is passed over when one of the
first three is not positive. -/
def addTerm (weight remaining coverage confidence freshness gain : ℚ) : Option ℚ :=
  if weight ≤ 0 ∨ remaining ≤ 0 ∨ coverage ≤ 0 then some gain
  else
    ([remaining, coverage, confidence, freshness].foldlM (fun product x => A.round (product * x)) weight).bind
      fun product => A.round (gain + product)

/-- A gain is finite and not negative: anything else is zero. -/
def settled : Option ℚ → ℚ
  | some gain => if 0 < gain then gain else 0
  | none => 0

/-- `gain / f64::from(tokens)`. -/
def perToken (gain : ℚ) (tokens : ℕ) : ℚ := (A.round (gain / tokens)).getD 0

theorem ppmUnit_zero : A.ppmUnit 0 = 0 := by
  rw [ppmUnit, if_neg (by decide), Nat.cast_zero, zero_div, A.round_zero]
  rfl

theorem addTerm_of_coverage_zero (weight remaining confidence freshness gain : ℚ) :
    A.addTerm weight remaining 0 confidence freshness gain = some gain := by
  rw [addTerm, if_pos (Or.inr (Or.inr (le_refl 0)))]

end GainArithmetic

/-! ## The documented form -/

/-- The loop of `coverage_ppm_for`: entries of a need are summed, and full coverage ends the sum. -/
def coverageFrom (needId : Text) : ℕ → List NeedCoverage → ℕ
  | ppm, [] => min ppm fullCoveragePpm
  | ppm, entry :: rest =>
    if entry.needId = needId then
      if fullCoveragePpm ≤ ppm + entry.coveragePpm then fullCoveragePpm
      else coverageFrom needId (ppm + entry.coveragePpm) rest
    else coverageFrom needId ppm rest

/-- `coverage_ppm_for`. -/
def coveragePpmFor (c : ContextCandidate) (needId : Text) : ℕ := coverageFrom needId 0 c.needCoverage

/-- The loop of `remaining_coverage`. -/
def uncoveredFrom (A : GainArithmetic) (needId : Text) : ℕ → List ContextCandidate → ℚ
  | covered, [] => A.remainingShare covered
  | covered, c :: rest =>
    if fullCoveragePpm ≤ covered + coveragePpmFor c needId then 0
    else uncoveredFrom A needId (covered + coveragePpmFor c needId) rest

/-- `remaining_coverage`. -/
def remainingCoverage (A : GainArithmetic) (need : Need) (selected : List ContextCandidate) : ℚ :=
  uncoveredFrom A need.id 0 selected

/-- `candidate_coverage`. -/
def candidateCoverage (A : GainArithmetic) (c : ContextCandidate) (needId : Text) : ℚ :=
  A.ppmUnit (coveragePpmFor c needId)

/-- `marginal_gain`. -/
def marginalGain (A : GainArithmetic) (c : ContextCandidate) (selected : List ContextCandidate)
    (needs : List Need) : ℚ :=
  if A.ppmUnit c.confidencePpm ≤ 0 ∨ A.ppmUnit c.freshnessPpm ≤ 0 then 0
  else
    GainArithmetic.settled <| needs.foldlM (fun gain need =>
      A.addTerm (sanitizeWeight need.weight) (remainingCoverage A need selected)
        (candidateCoverage A c need.id) (A.ppmUnit c.confidencePpm) (A.ppmUnit c.freshnessPpm) gain) 0

/-! ## The form that is run -/

/-- The need at a position. -/
def needAt (needs : List Need) (position : ℕ) : Need := needs.getD position Need.default

/-- The positions of the needs of an id. -/
def positionsOf (needs : List Need) (needId : Text) : List ℕ :=
  (List.range needs.length).filter fun position => (needAt needs position).id = needId

/-- `NeedModel::terms` of one candidate: what it declares for each position, by position. -/
def termsOf (needs : List Need) (c : ContextCandidate) : Terms :=
  sorted (c.needCoverage.foldl (fun terms entry =>
    bumpAll fullCoveragePpm entry.coveragePpm (positionsOf needs entry.needId) terms) [])

/-- `NeedModel::coverage_of`: the terms stand by position and none twice, so the search finds the one that is
there. -/
def coverageOf (needs : List Need) (c : ContextCandidate) (position : ℕ) : ℕ :=
  amountAt (termsOf needs c) position

/-- The total of one position as `gain` reads it: nothing remains of a need that is covered. -/
def remainingOf (A : GainArithmetic) (covered : ℕ) : ℚ :=
  if fullCoveragePpm ≤ covered then 0 else A.remainingShare covered

/-- `NeedModel::gain`. -/
def gain (A : GainArithmetic) (needs : List Need) (c : ContextCandidate) (covered : ℕ → ℕ) : ℚ :=
  if A.ppmUnit c.confidencePpm ≤ 0 ∨ A.ppmUnit c.freshnessPpm ≤ 0 then 0
  else
    GainArithmetic.settled <| (termsOf needs c).foldlM (fun gain term =>
      A.addTerm (sanitizeWeight (needAt needs term.1).weight) (remainingOf A (covered term.1))
        (A.ppmUnit term.2) (A.ppmUnit c.confidencePpm) (A.ppmUnit c.freshnessPpm) gain) 0

/-- `add_coverage`. -/
def addCoverage (needs : List Need) (c : ContextCandidate) (covered : ℕ → ℕ) : ℕ → ℕ :=
  (termsOf needs c).foldl (fun totals term =>
    Function.update totals term.1 (min (totals term.1 + term.2) fullCoveragePpm)) covered

/-- The totals after a sequence of selections. -/
def coveredBy (needs : List Need) (selected : List ContextCandidate) : ℕ → ℕ :=
  selected.foldl (fun covered c => addCoverage needs c covered) fun _ => 0

/-! ## The declared coverage -/

/-- What the entries of a need sum to, without a cap. -/
def declaredPpm (entries : List NeedCoverage) (needId : Text) : ℕ :=
  ((entries.filter fun entry => entry.needId = needId).map NeedCoverage.coveragePpm).sum

theorem declaredPpm_cons (entry : NeedCoverage) (rest : List NeedCoverage) (needId : Text) :
    declaredPpm (entry :: rest) needId =
      (if entry.needId = needId then entry.coveragePpm else 0) + declaredPpm rest needId := by
  by_cases hid : entry.needId = needId
  · simp [declaredPpm, hid]
  · simp [declaredPpm, hid]

theorem coverageFrom_eq (needId : Text) (ppm : ℕ) (entries : List NeedCoverage) :
    coverageFrom needId ppm entries = min (ppm + declaredPpm entries needId) fullCoveragePpm := by
  induction entries generalizing ppm with
  | nil => rfl
  | cons entry rest ih =>
    rw [coverageFrom, declaredPpm_cons]
    by_cases hid : entry.needId = needId
    · rw [if_pos hid, if_pos hid]
      by_cases hfull : fullCoveragePpm ≤ ppm + entry.coveragePpm
      · rw [if_pos hfull]
        omega
      · rw [if_neg hfull, ih]
        omega
    · rw [if_neg hid, if_neg hid, ih]
      omega

theorem coveragePpmFor_eq (c : ContextCandidate) (needId : Text) :
    coveragePpmFor c needId = min (declaredPpm c.needCoverage needId) fullCoveragePpm := by
  rw [coveragePpmFor, coverageFrom_eq, Nat.zero_add]

/-! ## The terms -/

variable {needs : List Need} {position : ℕ}

theorem mem_positionsOf {needId : Text} :
    position ∈ positionsOf needs needId ↔ position < needs.length ∧ (needAt needs position).id = needId := by
  rw [positionsOf, List.mem_filter, List.mem_range, decide_eq_true_iff]

theorem positionsOf_nodup (needs : List Need) (needId : Text) : (positionsOf needs needId).Nodup :=
  List.nodup_range.filter _

/-- The terms before they are sorted. -/
def collected (needs : List Need) (entries : List NeedCoverage) (terms : Terms) : Terms :=
  entries.foldl (fun terms entry =>
    bumpAll fullCoveragePpm entry.coveragePpm (positionsOf needs entry.needId) terms) terms

variable {terms : Terms}

theorem keys_collected_nodup (needs : List Need) (entries : List NeedCoverage) (h : (keys terms).Nodup) :
    (keys (collected needs entries terms)).Nodup := by
  induction entries generalizing terms with
  | nil => exact h
  | cons entry rest ih => exact ih (keys_bumpAll_nodup _ h)

theorem keys_collected_lt (entries : List NeedCoverage) (h : ∀ k ∈ keys terms, k < needs.length) :
    ∀ k ∈ keys (collected needs entries terms), k < needs.length := by
  induction entries generalizing terms with
  | nil => exact h
  | cons entry rest ih =>
    apply ih
    intro k hk
    rcases mem_keys_bumpAll hk with hpos | hold
    · exact (mem_positionsOf.mp hpos).1
    · exact h k hold

theorem amountAt_collected (hpos : position < needs.length) (entries : List NeedCoverage)
    (hcap : amountAt terms position ≤ fullCoveragePpm) :
    amountAt (collected needs entries terms) position =
      min (amountAt terms position + declaredPpm entries (needAt needs position).id) fullCoveragePpm := by
  induction entries generalizing terms with
  | nil =>
    show amountAt terms position = min (amountAt terms position + 0) fullCoveragePpm
    omega
  | cons entry rest ih =>
    have hbump : amountAt (bumpAll fullCoveragePpm entry.coveragePpm (positionsOf needs entry.needId) terms)
        position = if entry.needId = (needAt needs position).id then
          min (amountAt terms position + entry.coveragePpm) fullCoveragePpm else amountAt terms position := by
      rw [amountAt_bumpAll (positionsOf_nodup needs entry.needId)]
      by_cases hid : entry.needId = (needAt needs position).id
      · rw [if_pos hid, if_pos (mem_positionsOf.mpr ⟨hpos, hid.symm⟩)]
      · rw [if_neg hid, if_neg (fun h => hid (mem_positionsOf.mp h).2.symm)]
    show amountAt (collected needs rest _) position = _
    rw [declaredPpm_cons]
    by_cases hid : entry.needId = (needAt needs position).id
    · rw [if_pos hid] at hbump ⊢
      rw [ih (by rw [hbump]; exact Nat.min_le_right _ _), hbump]
      omega
    · rw [if_neg hid] at hbump ⊢
      rw [ih (by rw [hbump]; exact hcap), hbump]
      omega

theorem keys_termsOf_sorted (needs : List Need) (c : ContextCandidate) :
    (keys (termsOf needs c)).Pairwise (· < ·) :=
  keys_sorted_pairwise (keys_collected_nodup needs c.needCoverage List.nodup_nil)

theorem keys_termsOf_lt {c : ContextCandidate} :
    ∀ k ∈ keys (termsOf needs c), k < needs.length := by
  intro k hk
  have hperm := ((sorted_perm (collected needs c.needCoverage [])).map Prod.fst).mem_iff.mp hk
  exact keys_collected_lt c.needCoverage (by simp [keys]) k hperm

/-- **The model's coverage of a position is the documented one of its need.** -/
theorem coverageOf_eq (hpos : position < needs.length) (c : ContextCandidate) :
    coverageOf needs c position = coveragePpmFor c (needAt needs position).id := by
  have hnodup : (keys (collected needs c.needCoverage [])).Nodup :=
    keys_collected_nodup needs c.needCoverage List.nodup_nil
  have hsorted : (keys (sorted (collected needs c.needCoverage []))).Nodup :=
    ((sorted_perm _).map Prod.fst).nodup_iff.mpr hnodup
  show amountAt (sorted (collected needs c.needCoverage [])) position = _
  rw [amountAt_perm (sorted_perm _) hsorted, amountAt_collected hpos _ (Nat.zero_le _), coveragePpmFor_eq,
    amountAt_nil, Nat.zero_add]

/-! ## The running totals -/

/-- One selection adds what it declares to each total, up to the cap. -/
theorem addCoverage_apply (needs : List Need) (c : ContextCandidate) {covered : ℕ → ℕ}
    (hcap : covered position ≤ fullCoveragePpm) :
    addCoverage needs c covered position =
      min (covered position + coverageOf needs c position) fullCoveragePpm := by
  have hwalk : ∀ (terms : Terms), (keys terms).Nodup → ∀ totals : ℕ → ℕ,
      totals position ≤ fullCoveragePpm →
      (terms.foldl (fun totals term =>
        Function.update totals term.1 (min (totals term.1 + term.2) fullCoveragePpm)) totals) position =
        min (totals position + amountAt terms position) fullCoveragePpm := by
    intro terms
    induction terms with
    | nil =>
      intro _ totals hle
      show totals position = min (totals position + 0) fullCoveragePpm
      omega
    | cons t rest ih =>
      obtain ⟨k, ppm⟩ := t
      intro hnodup totals hle
      rw [keys, List.map_cons, List.nodup_cons] at hnodup
      rw [List.foldl_cons, amountAt_cons]
      by_cases hk : position = k
      · subst hk
        rw [if_pos rfl, ih hnodup.2 _ (by rw [Function.update_self]; exact Nat.min_le_right _ _),
          Function.update_self, amountAt_eq_zero hnodup.1]
        dsimp only
        omega
      · rw [if_neg hk, ih hnodup.2 _ (by rw [Function.update_of_ne hk]; exact hle),
          Function.update_of_ne hk]
  exact hwalk _ ((keys_termsOf_sorted needs c).imp fun h => ne_of_lt h) covered hcap

/-- What a list of candidates declares for a need, each at most full coverage, without a cap on the sum. -/
def coverageSum (selected : List ContextCandidate) (needId : Text) : ℕ :=
  (selected.map fun c => coveragePpmFor c needId).sum

@[simp] theorem coverageSum_nil (needId : Text) : coverageSum [] needId = 0 := rfl

@[simp] theorem coverageSum_cons (c : ContextCandidate) (rest : List ContextCandidate) (needId : Text) :
    coverageSum (c :: rest) needId = coveragePpmFor c needId + coverageSum rest needId := by
  simp [coverageSum]

@[simp] theorem coverageSum_append (front back : List ContextCandidate) (needId : Text) :
    coverageSum (front ++ back) needId = coverageSum front needId + coverageSum back needId := by
  simp [coverageSum]

/-- **The running total of a position is the capped sum of what the selected candidates declare.** -/
theorem coveredBy_eq (hpos : position < needs.length) (selected : List ContextCandidate) :
    coveredBy needs selected position =
      min (coverageSum selected (needAt needs position).id) fullCoveragePpm := by
  have hwalk : ∀ covered : ℕ → ℕ, covered position ≤ fullCoveragePpm →
      (selected.foldl (fun covered c => addCoverage needs c covered) covered) position =
        min (covered position + coverageSum selected (needAt needs position).id) fullCoveragePpm := by
    induction selected with
    | nil =>
      intro covered hle
      show covered position = min (covered position + 0) fullCoveragePpm
      omega
    | cons c rest ih =>
      intro covered hle
      have hadd := addCoverage_apply needs c hle
      rw [coverageOf_eq hpos] at hadd
      rw [List.foldl_cons, ih _ (by rw [hadd]; exact Nat.min_le_right _ _), hadd, coverageSum_cons]
      omega
  rw [coveredBy, hwalk _ (Nat.zero_le _), Nat.zero_add]

theorem uncoveredFrom_eq (A : GainArithmetic) (needId : Text) {covered : ℕ} (hlt : covered < fullCoveragePpm)
    (selected : List ContextCandidate) :
    uncoveredFrom A needId covered selected =
      remainingOf A (min (covered + coverageSum selected needId) fullCoveragePpm) := by
  induction selected generalizing covered with
  | nil =>
    rw [uncoveredFrom, coverageSum_nil, Nat.add_zero, Nat.min_eq_left hlt.le, remainingOf,
      if_neg (Nat.not_le.mpr hlt)]
  | cons c rest ih =>
    rw [uncoveredFrom, coverageSum_cons]
    by_cases hfull : fullCoveragePpm ≤ covered + coveragePpmFor c needId
    · rw [if_pos hfull, Nat.min_eq_right (by omega), remainingOf, if_pos (le_refl _)]
    · rw [if_neg hfull, ih (Nat.not_le.mp hfull), Nat.add_assoc]

/-- What remains of a need after a selection is read off its running total. -/
theorem remainingCoverage_eq (A : GainArithmetic) (hpos : position < needs.length)
    (selected : List ContextCandidate) :
    remainingCoverage A (needAt needs position) selected =
      remainingOf A (coveredBy needs selected position) := by
  rw [remainingCoverage, uncoveredFrom_eq A _ (by decide), Nat.zero_add, coveredBy_eq hpos]

/-! ## The two forms of the gain -/

theorem needAt_mem (hpos : position < needs.length) :
    needAt needs position ∈ needs := by
  rw [needAt, List.getD_eq_getElem _ _ hpos]
  exact List.getElem_mem hpos

theorem exists_needAt_eq {need : Need} (h : need ∈ needs) :
    ∃ position < needs.length, needAt needs position = need := by
  obtain ⟨position, hpos, hneed⟩ := List.getElem_of_mem h
  exact ⟨position, hpos, by rw [needAt, List.getD_eq_getElem _ _ hpos, hneed]⟩

theorem needs_eq_map_needAt (needs : List Need) :
    needs = (List.range' 0 needs.length).map (needAt needs) := by
  apply List.ext_getElem
  · simp
  · intro i h₁ h₂
    simp [needAt, h₁]

/-- **The gain over the running totals is the documented marginal gain**, whatever the rounding: repeated
needs, repeated entries and totals past full coverage included. -/
theorem gain_eq_marginalGain (A : GainArithmetic) (needs : List Need) (c : ContextCandidate)
    (selected : List ContextCandidate) :
    gain A needs c (coveredBy needs selected) = marginalGain A c selected needs := by
  rw [gain, marginalGain]
  by_cases htrusted : A.ppmUnit c.confidencePpm ≤ 0 ∨ A.ppmUnit c.freshnessPpm ≤ 0
  · rw [if_pos htrusted, if_pos htrusted]
  rw [if_neg htrusted, if_neg htrusted]
  congr 1
  -- the step of one need at its position
  let step : ℚ → ℕ → ℕ → Option ℚ := fun gain position ppm =>
    A.addTerm (sanitizeWeight (needAt needs position).weight)
      (remainingOf A (coveredBy needs selected position)) (A.ppmUnit ppm) (A.ppmUnit c.confidencePpm)
      (A.ppmUnit c.freshnessPpm) gain
  have hzero : ∀ gain position, step gain position 0 = pure gain := by
    intro gain position
    show A.addTerm _ _ (A.ppmUnit 0) _ _ gain = some gain
    rw [A.ppmUnit_zero, A.addTerm_of_coverage_zero]
  -- which is the documented step of that need
  have hstep : ∀ position, 0 ≤ position → position < 0 + needs.length → ∀ gain,
      A.addTerm (sanitizeWeight (needAt needs position).weight)
        (remainingCoverage A (needAt needs position) selected)
        (candidateCoverage A c (needAt needs position).id) (A.ppmUnit c.confidencePpm)
        (A.ppmUnit c.freshnessPpm) gain =
      step gain position (amountAt (termsOf needs c) position) := by
    intro position _ hlt gain
    rw [Nat.zero_add] at hlt
    rw [remainingCoverage_eq A hlt, candidateCoverage, ← coverageOf_eq hlt]
    rfl
  have hrange : ∀ k ∈ keys (termsOf needs c), 0 ≤ k ∧ k < 0 + needs.length := by
    intro k hk
    exact ⟨Nat.zero_le k, by rw [Nat.zero_add]; exact keys_termsOf_lt k hk⟩
  conv_rhs => rw [needs_eq_map_needAt needs]
  rw [List.foldlM_map]
  exact (foldlM_range_eq step hzero (keys_termsOf_sorted needs c) hrange hstep 0).symm

end Context
