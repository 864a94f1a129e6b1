/-
# The spent column stays an integer

Every settlement is clamped to a signed 64-bit amount before it is added to `spent_cost_micro`, but the
sum is not.  While the task's settled costs sum to at most `i64::MAX` the column is that sum, it reads
back, and a reserve that the task's state permits succeeds as long as what it holds can be summed
(`spentUsable_iff`).  Beyond, SQLite leaves a `REAL` in the column.
-/
import Faktor.CostAdmission
import Faktor.CostConservation

open Sqlite

namespace CostLedger

/-- `TaskCostRow`. -/
structure TaskCostRow where
  maxCostMicro : Option ℕ
  spentCostMicro : ℕ
  deriving DecidableEq, Repr

/-- `cost_task_row`. -/
def costTaskRow (s : Store) (key : TaskKey) : StoreResult (Option TaskCostRow) :=
  match s.tasks key with
  | none => .ok none
  | some t =>
    match t.spentCostMicro.readInt with
    | some spent => .ok (some ⟨t.maxCostMicro, spent⟩)
    | none => .error (.sqlite "Invalid column type Real at index: 1, name: spent_cost_micro")

/-- The task's money is usable: the spent column is the settled total, a signed 64-bit integer, it
reads back, and both reserves succeed where the task's state permits a provider operation. -/
structure SpentUsable (s : Store) (key : TaskKey) (t : TaskRow) : Prop where
  exact : t.spentCostMicro = .int (s.settledTotal key)
  range : s.settledTotal key ≤ i64Max
  read : costTaskRow s key = .ok (some ⟨t.maxCostMicro, s.settledTotal key⟩)
  reserve : providerOperationGate s key = .ok t →
    ∀ opId attempt predictedMicro createdMs snapshot executionClass,
      (∃ out, costReserveInner s key opId predictedMicro createdMs snapshot executionClass = .ok out) ∧
      ∃ out, costReserveAttempt s key attempt predictedMicro createdMs snapshot executionClass = .ok out

/-- A reserve that can read the column and sum what is held succeeds. -/
theorem exists_costReserveTx {s : Store} {key : TaskKey} {openSum : List ℕ → StoreResult ℕ}
    {predicted : ℕ} {row : CostReservation} {t : TaskRow} {spent held : ℕ}
    (hgate : providerOperationGate s key = .ok t) (hspent : readSpent t = .ok spent)
    (hsum : openSum (heldPredictions s key) = .ok held) :
    ∃ out, costReserveTx s key openSum predicted row = .ok out := by
  rw [costReserveTx_ok hgate hspent hsum]
  split
  · exact ⟨_, rfl⟩
  · exact ⟨_, rfl⟩

/-- **The spent column is usable exactly while the sums are integers.**  In every run, at every state it
reaches: the task's settled costs sum to at most `i64::MAX`, and so do the predictions it holds, if its
state permits a reserve at all. -/
theorem spentUsable_iff (l : LedgerState) (hl : l.Initial) (key : TaskKey) (ops : List LedgerOp)
    (t : TaskRow) (ht : (run l ops).store.tasks key = some t) :
    SpentUsable (run l ops).store key t ↔
      (run l ops).store.settledTotal key ≤ i64Max ∧
      (providerOperationGate (run l ops).store key = .ok t →
        (heldPredictions (run l ops).store key).sum ≤ i64Max) := by
  obtain ⟨folds, hfolds⟩ := run_foldHistory hl ops key
  have hspent : t.spentCostMicro = foldedSpent (folds.map Prod.snd) :=
    hfolds.spent t.maxCostMicro t.spentCostMicro (by rw [Store.money, ht]; rfl)
  constructor
  · intro h
    refine ⟨h.range, fun hgate => ?_⟩
    obtain ⟨-, out, hout⟩ := h.reserve hgate 0 ⟨0, 0, 0⟩ 0 0 none none
    by_contra hover
    -- a `SUM` that leaves the integers fails the attempt's reserve
    have hread : readSpent t = .ok ((run l ops).store.settledTotal key) := by
      rw [readSpent, h.exact]
      rfl
    have hfail : costReserveTx (run l ops).store key openSumExact 0
        (freshReservation key 0 (some 0) (some 0) 0 0 none none) = .error sumOverflow :=
      costReserveTx_of_sum hgate hread (openSumExact_of_lt (Nat.lt_of_not_le hover))
    exact absurd (hout.symm.trans hfail) (by simp)
  · rintro ⟨hsettled, hheld⟩
    have hexact : t.spentCostMicro = .int ((run l ops).store.settledTotal key) := by
      rw [hspent, foldedSpent_of_le (by rw [hfolds.total]; exact hsettled), hfolds.total]
    have hread : readSpent t = .ok ((run l ops).store.settledTotal key) := by
      rw [readSpent, hexact]
      rfl
    constructor
    case exact => exact hexact
    case range => exact hsettled
    case read =>
      unfold costTaskRow
      rw [ht]
      simp only [hexact, SqlNum.readInt]
    case reserve =>
      intro hgate opId attempt predictedMicro createdMs snapshot executionClass
      constructor
      · exact exists_costReserveTx hgate hread rfl
      · exact exists_costReserveTx hgate hread (openSumExact_of_le (hheld hgate))

/-- One settlement below its prediction leaves the task usable. -/
theorem spentUsable_oneSettled :
    let ops : List LedgerOp := [.reserveAttempt ⟨1, 1⟩ ⟨7, 8, 0⟩ 40 1 none none,
      .settleUsage 1 ⟨0, 0, 0, 0⟩ (some 25) none 3 "p" "m"]
    SpentUsable (run (cappedLedger 100) ops).store ⟨1, 1⟩ ⟨some 100, .int 25, some .running⟩ := by
  intro ops
  exact (spentUsable_iff (cappedLedger 100) (cappedLedger_initial 100) ⟨1, 1⟩ ops
    ⟨some 100, .int 25, some .running⟩ (by decide)).mpr ⟨by decide, fun _ => by decide⟩

/-- Two settlements at reported amounts of `i64::MAX`: the column is no integer, and the task's row
cannot be read. -/
theorem spent_unreadable_after_overflow :
    let s := (run (cappedLedger 100)
      [.reserveAttempt ⟨1, 1⟩ ⟨7, 8, 0⟩ 1 1 none none,
        .reserveAttempt ⟨1, 1⟩ ⟨7, 9, 1⟩ 1 2 none none,
        .settleUsage 1 ⟨0, 0, 0, 0⟩ (some i64Max) none 3 "p" "m",
        .settleUsage 2 ⟨0, 0, 0, 0⟩ (some i64Max) none 4 "p" "m"]).store
    (costTaskRow s ⟨1, 1⟩).toOption = none ∧
      ∃ t, s.tasks ⟨1, 1⟩ = some t ∧ ¬ SpentUsable s ⟨1, 1⟩ t := by
  intro s
  refine ⟨by decide, _, rfl, fun h => ?_⟩
  exact absurd h.range (by decide)

end CostLedger
