/-
# The two reserves

A reserve that is keyed by the logical operation sums the held predictions with `total`, in floating
point; one that is keyed by the attempt sums them with `SUM`, which fails when the sum leaves the
integers.

* `SameAdmission` : both grant, both refuse with the same free amount, or both fail on the task row;
* `AgreeAt` : the sum is an integer of SQLite, and the difference of the two sums decides nothing;
* `sameAdmission_iff` : the two reserves decide alike exactly then;
* `heldPastLimit_differs` : two large predictions make the one reserve fail, and a sum of `2 ^ 53 + 1`
  makes the other one grant more than the cap leaves.
-/
import Faktor.CostOperations

open Sqlite

namespace CostLedger

/-! ## The decision -/

/-- The error of a `SUM` that leaves the integers. -/
def sumOverflow : StoreError := .sqlite "integer overflow"

/-- **The same decision**, and no arithmetic error. -/
def SameAdmission (legacy keyed : StoreResult (CostReserveOutcome × Store)) : Prop :=
  match legacy, keyed with
  | .ok (.granted _, _), .ok (.granted _, _) => True
  | .ok (.exceeded free, _), .ok (.exceeded free', _) => free = free'
  | .error e, .error e' => e = e' ∧ e ≠ sumOverflow
  | _, _ => False

/-- The held sum of the legacy reserve. -/
def heldTotal (held : List ℕ) : ℕ := sqlTotal 9223372036854774784 held

/-- **The two sums decide alike**: the exact one is an integer of SQLite, and the task is unlimited, or
the request fits under both sums, or both leave the same amount free. -/
def AgreeAt (cap spent : ℕ) (held : List ℕ) (predicted : ℕ) : Prop :=
  held.sum ≤ i64Max ∧
    (cap = 0 ∨ predicted ≤ cap - spent - max held.sum (heldTotal held) ∨
      cap - spent - held.sum = cap - spent - heldTotal held)

section Reserve

variable {s : Store} {key : TaskKey} {openSum : List ℕ → StoreResult ℕ} {predicted : ℕ}
  {row : CostReservation}

/-- A reserve that the task row stops. -/
theorem costReserveTx_of_gate {e : StoreError} (h : providerOperationGate s key = .error e) :
    costReserveTx s key openSum predicted row = .error e := by
  rw [costReserveTx, h]
  rfl

theorem costReserveTx_of_spent {t : TaskRow} {e : StoreError}
    (hgate : providerOperationGate s key = .ok t) (hspent : readSpent t = .error e) :
    costReserveTx s key openSum predicted row = .error e := by
  rw [costReserveTx, hgate]
  show (do let spent ← readSpent t; _) = _
  rw [hspent]
  rfl

theorem costReserveTx_of_sum {t : TaskRow} {spent : ℕ} {e : StoreError}
    (hgate : providerOperationGate s key = .ok t) (hspent : readSpent t = .ok spent)
    (hsum : openSum (heldPredictions s key) = .error e) :
    costReserveTx s key openSum predicted row = .error e := by
  rw [costReserveTx, hgate]
  show (do let spent ← readSpent t; _) = _
  rw [hspent]
  show (do let held ← openSum (heldPredictions s key); _) = _
  rw [hsum]
  rfl

theorem costReserveTx_ok {t : TaskRow} {spent held : ℕ}
    (hgate : providerOperationGate s key = .ok t) (hspent : readSpent t = .ok spent)
    (hsum : openSum (heldPredictions s key) = .ok held) :
    costReserveTx s key openSum predicted row =
      if 0 < t.maxCostMicro.getD 0 ∧ t.maxCostMicro.getD 0 - spent - held < clampI64 predicted then
        .ok (.exceeded (t.maxCostMicro.getD 0 - spent - held), s)
      else
        .ok (.granted (s.reservations.seq + 1),
          { s with reservations := s.reservations.insert row }) := by
  rw [costReserveTx, hgate]
  show (do let spent ← readSpent t; _) = _
  rw [hspent]
  show (do let held ← openSum (heldPredictions s key); _) = _
  rw [hsum]
  show ite _ _ _ = ite _ _ _
  split_ifs <;> rfl

end Reserve

/-! ## When they agree -/

theorem openSumExact_of_le {held : List ℕ} (h : held.sum ≤ i64Max) :
    openSumExact held = .ok held.sum := by
  rw [openSumExact, sqlSum, if_pos h]

theorem openSumExact_of_lt {held : List ℕ} (h : i64Max < held.sum) :
    openSumExact held = .error sumOverflow := by
  rw [openSumExact, sqlSum, if_neg (Nat.not_le.mpr h)]
  rfl

/-- Two admissions with different held sums. -/
theorem sameAdmission_ite {cap spent total exact predicted rowid : ℕ} {s u v : Store} :
    SameAdmission
        (if 0 < cap ∧ cap - spent - total < predicted then .ok (.exceeded (cap - spent - total), s)
          else .ok (.granted rowid, u))
        (if 0 < cap ∧ cap - spent - exact < predicted then .ok (.exceeded (cap - spent - exact), s)
          else .ok (.granted rowid, v)) ↔
      cap = 0 ∨ predicted ≤ cap - spent - max exact total ∨
        cap - spent - exact = cap - spent - total := by
  split_ifs with hlegacy hkeyed hkeyed
  · constructor
    · intro h
      exact .inr (.inr (Eq.symm h))
    · intro h
      show cap - spent - total = cap - spent - exact
      omega
  · refine iff_of_false id ?_
    omega
  · refine iff_of_false id ?_
    omega
  · refine iff_of_true trivial ?_
    omega

/-- The errors of the task row are not those of a sum. -/
theorem gate_ne_sumOverflow {s : Store} {key : TaskKey} {e : StoreError}
    (h : providerOperationGate s key = .error e) : e ≠ sumOverflow := by
  rintro rfl
  unfold providerOperationGate at h
  split at h
  · cases h
  · split at h
    · cases h
    · split_ifs at h
      cases h

theorem readSpent_ne_sumOverflow {t : TaskRow} {e : StoreError} (h : readSpent t = .error e) :
    e ≠ sumOverflow := by
  rintro rfl
  unfold readSpent at h
  split at h
  · cases h
  · exact absurd (StoreError.sqlite.inj (Except.error.inj h)) (by decide)

/-- **The two reserves decide alike** exactly when their sums do, on every task row that both get to
sum for. -/
theorem sameAdmission_iff (s : Store) (key : TaskKey) (opId : OpId) (attempt : ModelCallAttempt)
    (predictedMicro : ℕ) (createdMs : ℤ) (pricingSnapshotJson : Option SnapshotJson)
    (executionClass : Option ExecutionClass) :
    SameAdmission
        (costReserveInner s key opId predictedMicro createdMs pricingSnapshotJson executionClass)
        (costReserveAttempt s key attempt predictedMicro createdMs pricingSnapshotJson
          executionClass) ↔
      ∀ t, providerOperationGate s key = .ok t → ∀ spent, readSpent t = .ok spent →
        AgreeAt (t.maxCostMicro.getD 0) spent (heldPredictions s key) (clampI64 predictedMicro) := by
  rw [costReserveInner, costReserveAttempt]
  cases hgate : providerOperationGate s key with
  | error e =>
    rw [costReserveTx_of_gate hgate, costReserveTx_of_gate hgate]
    refine iff_of_true ⟨rfl, gate_ne_sumOverflow hgate⟩ ?_
    rintro t ⟨⟩
  | ok t =>
    cases hspent : readSpent t with
    | error e =>
      rw [costReserveTx_of_spent hgate hspent, costReserveTx_of_spent hgate hspent]
      refine iff_of_true ⟨rfl, readSpent_ne_sumOverflow hspent⟩ ?_
      rintro t' ⟨⟩ spent hread
      rw [hspent] at hread
      cases hread
    | ok spent =>
      have hreads : (∀ t', Except.ok t = (Except.ok t' : StoreResult TaskRow) →
          ∀ spent', readSpent t' = .ok spent' →
            AgreeAt (t'.maxCostMicro.getD 0) spent' (heldPredictions s key)
              (clampI64 predictedMicro)) ↔
          AgreeAt (t.maxCostMicro.getD 0) spent (heldPredictions s key)
            (clampI64 predictedMicro) := by
        constructor
        · intro h
          exact h t rfl spent hspent
        · rintro h t' ⟨⟩ spent' hread
          rw [hspent] at hread
          obtain rfl := Except.ok.inj hread
          exact h
      rw [hreads, costReserveTx_ok hgate hspent (show openSumTotal _ = .ok (heldTotal _) from rfl)]
      by_cases hsum : (heldPredictions s key).sum ≤ i64Max
      · rw [costReserveTx_ok hgate hspent (openSumExact_of_le hsum), sameAdmission_ite, AgreeAt]
        exact (and_iff_right hsum).symm
      · -- the exact sum fails, whatever the legacy one decides
        rw [costReserveTx_of_sum hgate hspent (openSumExact_of_lt (Nat.not_le.mp hsum))]
        refine iff_of_false ?_ fun h => hsum h.1
        split_ifs <;> exact id

/-! ## Large predictions -/

/-- A running task with a cap, and its held predictions. -/
def cappedStore (cap : ℕ) (held : List ℕ) : Store where
  tasks := fun _ => some ⟨some cap, .int 0, some .running⟩
  reservations := held.foldl (fun t predicted => t.insert
    (freshReservation ⟨1, 1⟩ 1 none none predicted 0 none none)) .empty
  calls := .empty
  outbox := .empty
  billingPeriodConfig := none

/-- What the two reserves of a prediction answer. -/
def bothAdmissions (s : Store) (predictedMicro : ℕ) :
    StoreResult CostReserveOutcome × StoreResult CostReserveOutcome :=
  ((costReserveInner s ⟨1, 1⟩ 2 predictedMicro 0 none none).map Prod.fst,
    (costReserveAttempt s ⟨1, 1⟩ ⟨2, 3, 1⟩ predictedMicro 0 none none).map Prod.fst)

/-- **They part**: two of the largest predictions make the exact sum fail where the other one refuses, and
a held sum of `2 ^ 53 + 1` reads one less in floating point, so that the legacy reserve grants what the
cap does not leave. -/
theorem heldPastLimit_differs :
    bothAdmissions (cappedStore 100 [i64Max, i64Max]) 1 = (.ok (.exceeded 0), .error sumOverflow) ∧
      bothAdmissions (cappedStore (2 ^ 53 + 2) [2 ^ 53, 1]) 2 =
        (.ok (.granted 3), .ok (.exceeded 1)) ∧
      ∃ s key opId attempt, ¬ SameAdmission (costReserveInner s key opId 1 0 none none)
        (costReserveAttempt s key attempt 1 0 none none) := by
  refine ⟨by decide +kernel, by decide +kernel, cappedStore 100 [i64Max, i64Max], ⟨1, 1⟩, 2, ⟨2, 3, 1⟩, ?_⟩
  exact id

end CostLedger
