/-
# The accounting before a task completes

Before a task may complete, its ledger runs recover, reconcile and finalize: rows whose dispatch
never began are refunded, the others settle from their own call where one is priced, and what is
still uncertain is charged at its estimate.  `CompletesCleanly` is what the three passes are for:
no row of the task holds budget afterwards and the completion balance reads zero, running a pass
again changes and charges nothing, and the charges reported are what the spent total grew by.

* `Store.owedAtCompletion` says, from the rows before, what the passes will charge;
* `completesCleanly_iff`: the passes are clean exactly when that still fits the spent column.
-/
import Faktor.CostPass

open Sqlite

namespace CostLedger

/-! ## The completion balance -/

/-- `TaskCompletionBalance`. -/
structure TaskCompletionBalance where
  openCount : ℕ
  openMicro : ℕ
  dispatchedCount : ℕ
  uncertainCount : ℕ
  uncertainMicro : ℕ
  spentCostMicro : ℕ
  deriving DecidableEq, Repr

/-- `TaskCompletionBalance::is_zero`. -/
def TaskCompletionBalance.isZero (b : TaskCompletionBalance) : Bool :=
  b.openCount == 0 && b.uncertainCount == 0

/-- One row of the balance; counts and sums saturate. -/
def TaskCompletionBalance.addRow (b : TaskCompletionBalance) (r : CostReservation) :
    TaskCompletionBalance :=
  match r.status with
  | .reserved =>
    { b with
      openCount := min (b.openCount + 1) u64Max
      openMicro := min (b.openMicro + r.predictedMicro) u64Max }
  | .dispatched =>
    { b with
      openCount := min (b.openCount + 1) u64Max
      openMicro := min (b.openMicro + r.predictedMicro) u64Max
      dispatchedCount := min (b.dispatchedCount + 1) u64Max }
  | .uncertain =>
    { b with
      uncertainCount := min (b.uncertainCount + 1) u64Max
      uncertainMicro := min (b.uncertainMicro + r.predictedMicro) u64Max }
  | _ => b

/-- `completion_accounting_balance`: the spent total, zero without a task row, and the rows of
the task, newest first. -/
def completionAccountingBalance (s : Store) (key : TaskKey) : StoreResult TaskCompletionBalance := do
  let spent ← match s.tasks key with
    | none => pure 0
    | some t => readSpent t
  let rows := (s.reservations.select fun _ r => decide (r.key = key)).reverse
  return rows.foldl (fun b r => b.addRow r.2) ⟨0, 0, 0, 0, 0, spent⟩

variable {r : CostReservation}

theorem addRow_of_closed (h : r.status.holds = false) (b : TaskCompletionBalance) : b.addRow r = b := by
  unfold TaskCompletionBalance.addRow
  cases hstatus : r.status <;> simp [hstatus, ReservationStatus.holds] at h ⊢

variable {s : Store} {key : TaskKey} {t : TaskRow}

/-- With no row of the task holding budget, the balance is zero if the spent total can be read. -/
theorem completionAccountingBalance_zero {n : ℕ} (htask : s.tasks key = some t)
    (hspent : t.spentCostMicro = .int n)
    (hclosed : ∀ id r, s.reservations.get? id = some r → r.key = key → r.status.holds = false) :
    completionAccountingBalance s key = .ok ⟨0, 0, 0, 0, 0, n⟩ := by
  have hfold : ∀ (rows : List (ℕ × CostReservation)) (b : TaskCompletionBalance),
      (∀ r ∈ rows, r.2.status.holds = false) → rows.foldl (fun b r => b.addRow r.2) b = b := by
    intro rows
    induction rows with
    | nil => exact fun _ _ => rfl
    | cons r rows ih =>
      intro b h
      rw [List.foldl_cons, addRow_of_closed (h r List.mem_cons_self)]
      exact ih b fun q hq => h q (List.mem_cons_of_mem r hq)
  unfold completionAccountingBalance
  simp only [htask, readSpent, hspent, SqlNum.readInt, bind, Except.bind, pure, Except.pure]
  rw [hfold]
  rintro ⟨id, r⟩ hr
  obtain ⟨hget, hkey⟩ := (s.reservations.mem_select _ id r).mp (List.mem_reverse.mp hr)
  exact hclosed id r hget (by simpa using hkey)

/-! ## What the passes owe -/

/-- The row may have been billed: it is uncertain, or the crash recovery makes it so. -/
def atRisk (r : CostReservation) : Bool := maybeDispatched r || decide (r.status = .uncertain)

/-- What the reconcile pass does with an uncertain row whose snapshot is readable. -/
def reconcileVerdict (s : Store) (key : TaskKey) (r : CostReservation) : CostReconcileOutcome :=
  match settlingCall s r with
  | none => .leftUncertain
  | some p =>
    let snapshot := match r.pricingSnapshotJson with
      | some (.snapshot snap) => some snap
      | _ => none
    match snapshot.bind fun snap => snap.settleCost p.usage with
    | some actual => .settled (clampI64 actual)
    | none => if s.hasCap key then .leftUncertain else .closedUnknown

/-- A row whose snapshot text does not parse, and which the reconcile pass would settle from a
call: it fails the pass, which then writes nothing. -/
def blocksReconcile (s : Store) (key : TaskKey) (r : CostReservation) : Bool :=
  decide (r.key = key) && (settlingCall s r).isSome &&
    decide (r.pricingSnapshotJson = some .unparsable)

/-- Some row of the task that may have been billed fails the reconcile pass. -/
def reconcileBlocked (s : Store) (key : TaskKey) : Bool :=
  s.reservations.rows.any fun r => atRisk r.2 && blocksReconcile s key r.2

/-- What a row that may have been billed is charged: the price of its own call, nothing for an
Unknown close, and its estimate where the reconcile pass leaves it. -/
def rowOwed (s : Store) (key : TaskKey) (blocked : Bool) (r : CostReservation) : ℕ :=
  if blocked then r.predictedMicro
  else match reconcileVerdict s key r with
    | .settled cost => cost
    | .closedUnknown => 0
    | _ => r.predictedMicro

/-- What the passes charge task `key`, from the rows before they run. -/
def Store.owedAtCompletion (s : Store) (key : TaskKey) : ℕ :=
  s.reservations.total fun _ r =>
    if r.key = key ∧ atRisk r = true then rowOwed s key (reconcileBlocked s key) r else 0

/-! ## Recover -/

/-- A row after the crash recovery. -/
def recoverRow (ms : ℤ) (r : CostReservation) : CostReservation :=
  let r := if refundable r then { r with status := .refunded, settledMs := some ms } else r
  if maybeDispatched r then
    { r with
      status := .uncertain
      settledMs := some ms
      failureReasonCode := some "crash_recovery_post_dispatch_marker" }
  else r

/-- The store after the crash recovery. -/
def afterRecover (s : Store) (ms : ℤ) : Store := (costRecoverOpenReservations s ms).2

theorem get?_afterRecover (s : Store) (ms : ℤ) (id : ℕ) :
    (afterRecover s ms).reservations.get? id = (s.reservations.get? id).map (recoverRow ms) := by
  show ((s.reservations.updateWhere _ _).updateWhere _ _).get? id = _
  rw [RowTable.get?_updateWhere, RowTable.get?_updateWhere, Option.map_map]
  rfl

theorem total_afterRecover (s : Store) (ms : ℤ) (g : CostReservation → ℕ) :
    (afterRecover s ms).reservations.total (fun _ r => g r) =
      s.reservations.total fun _ r => g (recoverRow ms r) := by
  show ((s.reservations.updateWhere _ _).updateWhere _ _).total _ = _
  rw [RowTable.total_updateWhere, RowTable.total_updateWhere]
  rfl

/-- The recovery writes the status of a row and notes beside it. -/
theorem recoverRow_eq (ms : ℤ) (r : CostReservation) : ∃ status settled reason,
    recoverRow ms r =
      { r with status := status, settledMs := settled, failureReasonCode := reason } := by
  unfold recoverRow
  dsimp only
  split <;> split <;> exact ⟨_, _, _, rfl⟩

/-- The recovery turns exactly the rows at risk uncertain and leaves none open. -/
theorem recoverRow_status (ms : ℤ) (r : CostReservation) :
    ((recoverRow ms r).status = .uncertain ↔ atRisk r = true) ∧
      refundable (recoverRow ms r) = false ∧ maybeDispatched (recoverRow ms r) = false := by
  have hatRisk : atRisk r = true ↔ maybeDispatched r = true ∨ r.status = .uncertain := by
    simp [atRisk]
  rw [hatRisk]
  unfold recoverRow
  dsimp only
  by_cases hrefund : refundable r = true
  · obtain ⟨hstatus, hmarker⟩ := (refundable_iff r).mp hrefund
    have hnot : maybeDispatched r = false := by
      rw [Bool.eq_false_iff, Ne, maybeDispatched_iff, hstatus, hmarker]
      simp
    simp only [if_pos hrefund]
    rw [if_neg (by rw [maybeDispatched_iff]; simp), hnot, hstatus]
    refine ⟨by simp, ?_, ?_⟩
    · rw [Bool.eq_false_iff, Ne, refundable_iff]
      simp
    · rw [Bool.eq_false_iff, Ne, maybeDispatched_iff]
      simp
  · simp only [if_neg hrefund]
    by_cases hmaybe : maybeDispatched r = true
    · rw [if_pos hmaybe]
      refine ⟨by simp [hmaybe], ?_, ?_⟩
      · rw [Bool.eq_false_iff, Ne, refundable_iff]
        simp
      · rw [Bool.eq_false_iff, Ne, maybeDispatched_iff]
        simp
    · rw [if_neg hmaybe]
      exact ⟨by simp [hmaybe], Bool.eq_false_iff.mpr hrefund, Bool.eq_false_iff.mpr hmaybe⟩

/-- A row that awaits neither a refund nor a dispatch verdict is not open. -/
theorem holds_iff_uncertain (hrefund : refundable r = false) (hmaybe : maybeDispatched r = false) :
    r.status.holds = true ↔ r.status = .uncertain := by
  rw [Bool.eq_false_iff, Ne, refundable_iff] at hrefund
  rw [Bool.eq_false_iff, Ne, maybeDispatched_iff] at hmaybe
  cases hstatus : r.status with
  | reserved =>
    rw [hstatus] at hrefund hmaybe
    cases hmarker : r.dispatchedMs with
    | none => exact absurd ⟨rfl, hmarker⟩ hrefund
    | some m => exact absurd (.inr ⟨rfl, m, hmarker⟩) hmaybe
  | dispatched => exact absurd (.inl hstatus) hmaybe
  | uncertain => simp [ReservationStatus.holds]
  | settled => simp [ReservationStatus.holds]
  | refunded => simp [ReservationStatus.holds]

/-- With no open row in the store the recovery does nothing. -/
theorem costRecoverOpenReservations_eq_self
    (hrefund : ∀ id r, s.reservations.get? id = some r → refundable r = false)
    (hmaybe : ∀ id r, s.reservations.get? id = some r → maybeDispatched r = false) (ms : ℤ) :
    costRecoverOpenReservations s ms = ((0, 0), s) := by
  have hnone : ∀ p : CostReservation → Bool,
      (∀ id r, s.reservations.get? id = some r → p r = false) →
      (s.reservations.select fun _ r => p r).length = 0 := by
    intro p hp
    rw [List.length_eq_zero_iff, RowTable.select, List.filter_eq_nil_iff]
    rintro ⟨id, r⟩ hmem
    rw [hp id r ((s.reservations.get?_eq_some_iff id r).mpr hmem)]
    simp
  have hfirst : recoverRefund s ms = s := by
    unfold recoverRefund
    rw [RowTable.updateWhere_eq_self hrefund]
  have hsecond : recoverUncertain s ms = s := by
    unfold recoverUncertain
    rw [RowTable.updateWhere_eq_self hmaybe]
  unfold costRecoverOpenReservations
  simp only [hfirst, hsecond, hnone _ hrefund, hnone _ hmaybe]

/-! ## Reconcile -/

/-- The cost a reconcile outcome charges. -/
def reconcileCharge : CostReconcileOutcome → Option ℕ
  | .settled cost => some cost
  | _ => none

variable {s' : Store}

theorem settlingCall_congr (hcalls : s'.calls = s.calls) (r : CostReservation) :
    settlingCall s' r = settlingCall s r := by
  unfold settlingCall
  rw [hcalls]

theorem reconcileVerdict_congr (hcalls : s'.calls = s.calls) (hcap : s'.hasCap key = s.hasCap key)
    (r : CostReservation) :
    reconcileVerdict s' key r = reconcileVerdict s key r := by
  unfold reconcileVerdict
  rw [settlingCall_congr hcalls, hcap]

/-- A settling call exists exactly when a completed call of the attempt does. -/
theorem isSome_settlingCall (s : Store) (r : CostReservation) :
    (settlingCall s r).isSome = s.calls.rows.any fun p => (callMatches r p.2).holds := by
  unfold settlingCall RowTable.select
  rw [Bool.eq_iff_iff, Option.isSome_map, List.getLast?_isSome, ne_eq, List.filter_eq_nil_iff,
    List.any_eq_true]
  push Not
  rfl

variable {c : Candidate}

theorem mem_costReconcileCandidates :
    c ∈ costReconcileCandidates s key ↔ ∃ r, s.reservations.get? c.reservationId = some r ∧
      c.attemptId = r.attemptId ∧ r.key = key ∧ r.status = .uncertain ∧
      (settlingCall s r).isSome = true := by
  simp only [costReconcileCandidates, List.mem_map, Prod.exists]
  constructor
  · rintro ⟨id, r, hmem, rfl⟩
    rw [RowTable.mem_select] at hmem
    simp only [Bool.and_eq_true, decide_eq_true_eq, ← isSome_settlingCall] at hmem
    exact ⟨r, hmem.1, rfl, hmem.2.1.1, hmem.2.1.2, hmem.2.2⟩
  · rintro ⟨r, hr, hattempt, hkey, huncertain, hcall⟩
    refine ⟨c.reservationId, r, ?_, by rw [← hattempt]⟩
    rw [RowTable.mem_select]
    simp only [Bool.and_eq_true, decide_eq_true_eq, ← isSome_settlingCall]
    exact ⟨hr, ⟨hkey, huncertain⟩, hcall⟩

/-- What a reconcile pass charges each uncertain row, keeps and closes. -/
abbrev ReconcileProgress (key : TaskKey) (t : TaskRow) (s : Store) :=
  PassProgress key t (rowOwed s key false) (fun r => reconcileVerdict s key r = .leftUncertain)
    (fun r => r.pricingSnapshotJson ≠ some .unparsable) s

variable {mid : Store}

/-- A candidate whose snapshot does not parse fails. -/
theorem reconcileCandidate_unparsable (hr : mid.reservations.get? c.reservationId = some r)
    (huncertain : r.status = .uncertain) (hcorrupt : r.pricingSnapshotJson = some .unparsable) (ms : ℤ) :
    reconcileCandidate key ms mid c = .error (.corrupt [snapshotContext c.reservationId]) := by
  unfold reconcileCandidate
  simp only [hr, huncertain, hcorrupt, parseSnapshot, bind, Except.bind]
  rfl

/-- Every other candidate ends with the verdict on its row, and what it does is one step of the
pass. -/
theorem reconcileCandidate_step (htask : mid.tasks key = some t)
    (hr : mid.reservations.get? c.reservationId = some r) (huncertain : r.status = .uncertain)
    (hkey : r.key = key) (hread : r.pricingSnapshotJson ≠ some .unparsable) (ms : ℤ) :
    ∃ mid', reconcileCandidate key ms mid c = .ok (reconcileVerdict mid key r, mid') ∧
      CandidateStep key (rowOwed mid key false)
        (fun r => reconcileVerdict mid key r = .leftUncertain)
        (fun r => r.pricingSnapshotJson ≠ some .unparsable) mid c.reservationId
        (reconcileCharge (reconcileVerdict mid key r)) mid' ∧
      (reconcileVerdict mid key r = .leftUncertain → mid' = mid) := by
  have hkeep : reconcileVerdict mid key r = .leftUncertain → ∀ q,
      mid.reservations.get? c.reservationId = some q → q.status = .uncertain →
        reconcileVerdict mid key q = .leftUncertain := by
    intro hverdict q hq _
    rw [hr] at hq
    rw [← Option.some.inj hq]
    exact hverdict
  obtain ⟨snapshot, hsnap, hsame⟩ : ∃ snapshot,
      parseSnapshot (snapshotContext c.reservationId) r.pricingSnapshotJson = .ok snapshot ∧
        (match r.pricingSnapshotJson with
          | some (.snapshot snap) => some snap
          | _ => none) = snapshot := by
    cases hjson : r.pricingSnapshotJson with
    | none => exact ⟨none, rfl, rfl⟩
    | some json =>
      cases json with
      | snapshot snap => exact ⟨some snap, rfl, rfl⟩
      | unparsable => exact absurd hjson hread
  have hverdict : reconcileVerdict mid key r =
      match settlingCall mid r with
      | none => .leftUncertain
      | some p =>
        match snapshot.bind fun snap => snap.settleCost p.usage with
        | some actual => .settled (clampI64 actual)
        | none => if mid.hasCap key then .leftUncertain else .closedUnknown := by
    unfold reconcileVerdict
    rw [← hsame]
  unfold reconcileCandidate
  simp only [hr, huncertain, hsnap, bind, Except.bind, pure, Except.pure, ne_eq, not_true_eq_false,
    if_false]
  cases hcall : settlingCall mid r with
  | none =>
    rw [hcall] at hverdict
    rw [hverdict]
    exact ⟨mid, rfl, .keep (hkeep hverdict), fun _ => rfl⟩
  | some p =>
    rw [hcall] at hverdict
    simp only at hverdict ⊢
    cases hprice : snapshot.bind fun snap => snap.settleCost p.usage with
    | some actual =>
      rw [hprice] at hverdict
      simp only at hverdict ⊢
      split
      · rename_i hfold
        simp [Store.foldSpent, Store.updateReservation, htask] at hfold
      · rename_i folded hfold
        rw [hverdict]
        refine ⟨_, rfl, (Booked.folded hfold).candidateStep hr huncertain hkey hread ?_ rfl,
          fun h => by cases h⟩
        simp only [Option.getD_some, rowOwed, hverdict, if_neg Bool.false_ne_true]
    | none =>
      rw [hprice] at hverdict
      simp only at hverdict ⊢
      by_cases hcap : mid.hasCap key = true
      · rw [if_pos hcap] at hverdict ⊢
        rw [hverdict]
        exact ⟨mid, rfl, .keep (hkeep hverdict), fun _ => rfl⟩
      · rw [if_neg hcap] at hverdict ⊢
        rw [hverdict]
        refine ⟨_, rfl, Booked.unknown.candidateStep hr huncertain hkey hread ?_ rfl,
          fun h => by cases h⟩
        simp only [Option.getD_none, rowOwed, hverdict, if_neg Bool.false_ne_true]

theorem rowOwed_congr (hcalls : s'.calls = s.calls) (hcap : s'.hasCap key = s.hasCap key) (blocked : Bool)
    (r : CostReservation) :
    rowOwed s' key blocked r = rowOwed s key blocked r := by
  unfold rowOwed
  rw [reconcileVerdict_congr hcalls hcap]

variable {done : List Candidate} {costs : List ℕ}

/-- One turn of a reconcile pass over a row whose snapshot is readable. -/
theorem ReconcileProgress.turn (h : ReconcileProgress key t s done costs mid) (htask : s.tasks key = some t)
    (hc : c ∈ costReconcileCandidates s key)
    (hread : ∀ r, s.reservations.get? c.reservationId = some r →
      r.pricingSnapshotJson ≠ some .unparsable) (ms : ℤ) :
    ∃ o mid', reconcileCandidate key ms mid c = .ok (o, mid') ∧
      ReconcileProgress key t s (done ++ [c]) (costs ++ (reconcileCharge o).toList) mid' := by
  obtain ⟨r, hr, -, hkey, huncertain, -⟩ := mem_costReconcileCandidates.mp hc
  rcases h.rows c.reservationId with hsame | ⟨q, r', -, -, -, hr', hsettled⟩
  · -- the row is as the pass found it
    obtain ⟨mid', hrun, hstep, -⟩ :=
      reconcileCandidate_step h.task (hsame.trans hr) huncertain hkey (hread r hr) ms
    have hcap := h.hasCap htask
    have hverdict : reconcileVerdict mid key = reconcileVerdict s key := by
      funext q
      exact reconcileVerdict_congr h.calls hcap q
    have howed : rowOwed mid key false = rowOwed s key false := by
      funext q
      exact rowOwed_congr h.calls hcap false q
    rw [howed, hverdict] at hstep
    exact ⟨_, mid', hrun, h.step (by rw [hverdict]; exact hstep)⟩
  · -- a candidate before it settled the row
    refine ⟨.skipped, mid, ?_, h.step (.keep fun q hq hu => ?_)⟩
    · unfold reconcileCandidate
      simp [hr', hsettled]
    · rw [hr'] at hq
      rw [← Option.some.inj hq, hsettled] at hu
      cases hu

/-- A reconcile pass over rows whose snapshots are readable ends. -/
theorem costReconcileJob_ok (htask : s.tasks key = some t)
    (hread : ∀ id r, s.reservations.get? id = some r → r.status = .uncertain →
      blocksReconcile s key r = false) (ms : ℤ) :
    ∃ outs s', costReconcileJob s key (costReconcileCandidates s key) ms = .ok (outs, s') ∧
      ReconcileProgress key t s (costReconcileCandidates s key) (outs.filterMap reconcileCharge)
        s' := by
  have hstart : ReconcileProgress key t s [] [] s := .refl htask
  refine runCandidates_progress ?_ _ (List.nil_append _) hstart
  intro done costs mid c hc h
  obtain ⟨q, hq, -, hkey, huncertain, hcall⟩ := mem_costReconcileCandidates.mp hc
  refine ReconcileProgress.turn h htask hc ?_ ms
  intro r hr hcorrupt
  obtain rfl : q = r := Option.some.inj (hq.symm.trans hr)
  have hclear := hread _ q hq huncertain
  simp [blocksReconcile, hkey, hcall, hcorrupt] at hclear

/-- A row that fails the reconcile pass stays, so the pass fails whenever it runs. -/
theorem costReconcileJob_blocked {id : ℕ} (hr : s.reservations.get? id = some r)
    (huncertain : r.status = .uncertain) (hblocks : blocksReconcile s key r = true) (ms : ℤ) :
    ∃ e, costReconcileJob s key (costReconcileCandidates s key) ms = .error e := by
  simp only [blocksReconcile, Bool.and_eq_true, decide_eq_true_eq] at hblocks
  obtain ⟨⟨hkey, hcall⟩, hcorrupt⟩ := hblocks
  cases hrun : costReconcileJob s key (costReconcileCandidates s key) ms with
  | error e => exact ⟨e, rfl⟩
  | ok out =>
    obtain ⟨outs, s'⟩ := out
    have hc : ⟨id, r.attemptId⟩ ∈ costReconcileCandidates s key :=
      mem_costReconcileCandidates.mpr ⟨r, hr, rfl, hkey, huncertain, hcall⟩
    have hstays : ∀ mid c o mid', mid.reservations.get? id = some r →
        reconcileCandidate key ms mid c = .ok (o, mid') → mid'.reservations.get? id = some r := by
      intro mid c o mid' hmid hstep
      obtain ⟨-, r', hr', rfl | ⟨-, -, _, _, hfrom⟩⟩ := reconcileCandidate_row hstep hmid
      · exact hr'
      · obtain ⟨_, _, hparse, -⟩ := hfrom.cost
        rw [hcorrupt] at hparse
        cases hparse
    obtain ⟨mid, o, mid', hmid, hturn⟩ := runCandidates_turn hstays _ hr hrun hc
    rw [reconcileCandidate_unparsable hmid huncertain hcorrupt] at hturn
    cases hturn

/-! ## Finalize -/

/-- The cost a finalize outcome charges. -/
def finalizeCharge : CostFinalizeOutcome → Option ℕ
  | .settled predicted => some predicted
  | _ => none

theorem mem_costFinalizeCandidates :
    c ∈ costFinalizeCandidates s key ↔ ∃ r, s.reservations.get? c.reservationId = some r ∧
      c.attemptId = r.attemptId ∧ r.key = key ∧ r.status = .uncertain := by
  simp only [costFinalizeCandidates, List.mem_map, Prod.exists]
  constructor
  · rintro ⟨id, r, hmem, rfl⟩
    rw [RowTable.mem_select] at hmem
    simp only [Bool.and_eq_true, decide_eq_true_eq] at hmem
    exact ⟨r, hmem.1, rfl, hmem.2⟩
  · rintro ⟨r, hr, hattempt, hkey, huncertain⟩
    refine ⟨c.reservationId, r, ?_, by rw [← hattempt]⟩
    rw [RowTable.mem_select]
    simp only [Bool.and_eq_true, decide_eq_true_eq]
    exact ⟨hr, hkey, huncertain⟩

/-- What a finalize pass charges each uncertain row; it keeps none. -/
abbrev FinalizeProgress (key : TaskKey) (t : TaskRow) (s : Store) :=
  PassProgress key t (fun r => r.predictedMicro) (fun _ => False) (fun _ => True) s

/-- One turn of a finalize pass. -/
theorem FinalizeProgress.turn (h : FinalizeProgress key t s done costs mid)
    (hc : c ∈ costFinalizeCandidates s key)
    (hfit : ∀ id r, s.reservations.get? id = some r → r.status = .uncertain → r.predictedMicro ≤ i64Max)
    (ms : ℤ) :
    ∃ o mid', finalizeCandidate key ms mid c = .ok (o, mid') ∧
      FinalizeProgress key t s (done ++ [c]) (costs ++ (finalizeCharge o).toList) mid' := by
  obtain ⟨r, hr, -, hkey, huncertain⟩ := mem_costFinalizeCandidates.mp hc
  unfold finalizeCandidate
  rcases h.rows c.reservationId with hsame | ⟨q, r', -, -, -, hr', hsettled⟩
  · have hmid := hsame.trans hr
    simp only [hmid, huncertain, ne_eq, not_true_eq_false, if_false]
    split
    · rename_i hfold
      simp [Store.foldSpent, Store.updateReservation, h.task] at hfold
    · rename_i folded hfold
      rw [clampI64_of_le (hfit _ r hr huncertain)] at hfold
      exact ⟨_, _, rfl, h.step ((Booked.folded hfold).candidateStep hmid huncertain hkey trivial
        rfl rfl)⟩
  · refine ⟨.skipped, mid, by simp [hr', hsettled], h.step (.keep fun q hq hu => ?_)⟩
    rw [hr'] at hq
    rw [← Option.some.inj hq, hsettled] at hu
    cases hu

/-- A finalize pass over a task with a row ends. -/
theorem costFinalizeJob_ok (htask : s.tasks key = some t)
    (hfit : ∀ id r, s.reservations.get? id = some r → r.status = .uncertain → r.predictedMicro ≤ i64Max)
    (ms : ℤ) :
    ∃ outs s', costFinalizeJob s key (costFinalizeCandidates s key) ms = .ok (outs, s') ∧
      FinalizeProgress key t s (costFinalizeCandidates s key) (outs.filterMap finalizeCharge)
        s' := by
  have hstart : FinalizeProgress key t s [] [] s := .refl htask
  refine runCandidates_progress ?_ _ (List.nil_append _) hstart
  intro done costs mid c hc h
  exact FinalizeProgress.turn h hc hfit ms

/-! ## The passes and their reports -/

/-- The charge a pass reports; a pass that fails reports none. -/
def reportedCharge {R : Type} (micro : R → ℕ) : StoreResult (R × Store) → ℕ
  | .ok (report, _) => micro report
  | .error _ => 0

/-- The store after a reconcile pass. -/
def afterReconcile (s : Store) (key : TaskKey) (ms : ℤ) : Store :=
  committed s (costReconcileUncertain s key ms)

/-- What a reconcile pass reports as charged. -/
def reconcileCharged (s : Store) (key : TaskKey) (ms : ℤ) : ℕ :=
  reportedCharge CostReconcileReport.chargedMicro (costReconcileUncertain s key ms)

/-- The store after a finalize pass. -/
def afterFinalize (s : Store) (key : TaskKey) (ms : ℤ) : Store :=
  committed s (costFinalizeUncertain s key ms)

/-- What a finalize pass reports as charged. -/
def finalizeCharged (s : Store) (key : TaskKey) (ms : ℤ) : ℕ :=
  reportedCharge CostFinalizeReport.chargedMicro (costFinalizeUncertain s key ms)

/-- A reconcile report charges the sum of its costs, as far as the field goes. -/
theorem reconcileReport_chargedMicro (outs : List CostReconcileOutcome) :
    (reconcileReport outs).chargedMicro = min (outs.filterMap reconcileCharge).sum u64Max := by
  induction outs using List.reverseRecOn with
  | nil => rfl
  | append_singleton outs o ih =>
    have hstep : (reconcileReport (outs ++ [o])).chargedMicro =
        min ((reconcileReport outs).chargedMicro + (reconcileCharge o).getD 0) u64Max := by
      have hle : (reconcileReport outs).chargedMicro ≤ u64Max := by omega
      unfold reconcileReport at hle ⊢
      rw [List.foldl_append]
      cases o with
      | settled cost => rfl
      | skipped => exact (Nat.min_eq_left hle).symm
      | leftUncertain => exact (Nat.min_eq_left hle).symm
      | closedUnknown => exact (Nat.min_eq_left hle).symm
    have hlast : (List.filterMap reconcileCharge [o]).sum = (reconcileCharge o).getD 0 := by cases o <;> rfl
    rw [hstep, ih, List.filterMap_append, List.sum_append, hlast]
    omega

theorem finalizeReport_chargedMicro (outs : List CostFinalizeOutcome) :
    (finalizeReport outs).chargedMicro = min (outs.filterMap finalizeCharge).sum u64Max := by
  induction outs using List.reverseRecOn with
  | nil => rfl
  | append_singleton outs o ih =>
    have hstep : (finalizeReport (outs ++ [o])).chargedMicro =
        min ((finalizeReport outs).chargedMicro + (finalizeCharge o).getD 0) u64Max := by
      have hle : (finalizeReport outs).chargedMicro ≤ u64Max := by omega
      unfold finalizeReport at hle ⊢
      rw [List.foldl_append]
      cases o with
      | settled cost => rfl
      | skipped => exact (Nat.min_eq_left hle).symm
      | leftUncertain => exact (Nat.min_eq_left hle).symm
    have hlast : (List.filterMap finalizeCharge [o]).sum = (finalizeCharge o).getD 0 := by cases o <;> rfl
    rw [hstep, ih, List.filterMap_append, List.sum_append, hlast]
    omega

variable {ms : ℤ}

/-- A reconcile pass whose job failed. -/
theorem reconcile_of_error {e : StoreError}
    (h : costReconcileJob s key (costReconcileCandidates s key) ms = .error e) :
    afterReconcile s key ms = s ∧ reconcileCharged s key ms = 0 := by
  unfold afterReconcile reconcileCharged costReconcileUncertain
  rw [h]
  exact ⟨rfl, rfl⟩

/-- A reconcile pass whose job ended. -/
theorem reconcile_of_ok {outs : List CostReconcileOutcome}
    (h : costReconcileJob s key (costReconcileCandidates s key) ms = .ok (outs, s')) :
    afterReconcile s key ms = s' ∧
      reconcileCharged s key ms = min (outs.filterMap reconcileCharge).sum u64Max := by
  unfold afterReconcile reconcileCharged costReconcileUncertain
  rw [h]
  exact ⟨rfl, reconcileReport_chargedMicro outs⟩

theorem finalize_of_ok {outs : List CostFinalizeOutcome}
    (h : costFinalizeJob s key (costFinalizeCandidates s key) ms = .ok (outs, s')) :
    afterFinalize s key ms = s' ∧
      finalizeCharged s key ms = min (outs.filterMap finalizeCharge).sum u64Max := by
  unfold afterFinalize finalizeCharged costFinalizeUncertain
  rw [h]
  exact ⟨rfl, finalizeReport_chargedMicro outs⟩

/-! ## A pass run again -/

/-- No row of the store awaits the crash recovery. -/
def Recovered (s : Store) : Prop :=
  ∀ id r, s.reservations.get? id = some r → refundable r = false ∧ maybeDispatched r = false

theorem recovered_afterRecover (s : Store) (ms : ℤ) : Recovered (afterRecover s ms) := by
  intro id r hr
  rw [get?_afterRecover, Option.map_eq_some_iff] at hr
  obtain ⟨q, -, rfl⟩ := hr
  exact (recoverRow_status ms q).2

theorem Recovered.recover (h : Recovered s) (ms : ℤ) :
    costRecoverOpenReservations s ms = ((0, 0), s) :=
  costRecoverOpenReservations_eq_self (fun id r hr => (h id r hr).1) (fun id r hr => (h id r hr).2)
    ms

/-- A pass opens no row. -/
theorem PassProgress.recovered {a : CostReservation → ℕ} {K Q : CostReservation → Prop}
    (h : PassProgress key t a K Q s done costs mid) (hs : Recovered s) : Recovered mid := by
  intro id r hr
  by_cases hsettled : r.status = .settled
  · rw [Bool.eq_false_iff, Bool.eq_false_iff, Ne, Ne, refundable_iff, maybeDispatched_iff, hsettled]
    simp
  · exact hs id r (h.row_of_uncertain hr hsettled)

/-- A reconcile pass that can settle none of the rows it finds changes and charges nothing. -/
theorem reconcile_again (htask : s.tasks key = some t)
    (hleft : ∀ id r, s.reservations.get? id = some r → r.key = key → r.status = .uncertain →
      (settlingCall s r).isSome = true →
        r.pricingSnapshotJson ≠ some .unparsable ∧ reconcileVerdict s key r = .leftUncertain) (ms : ℤ) :
    afterReconcile s key ms = s ∧ reconcileCharged s key ms = 0 := by
  have hturn : ∀ (done : List Candidate) costs mid c, c ∈ costReconcileCandidates s key →
      mid = s ∧ costs = [] → ∃ o mid', reconcileCandidate key ms mid c = .ok (o, mid') ∧
        mid' = s ∧ costs ++ (reconcileCharge o).toList = [] := by
    rintro done costs mid c hc ⟨rfl, rfl⟩
    obtain ⟨r, hr, -, hkey, huncertain, hcall⟩ := mem_costReconcileCandidates.mp hc
    obtain ⟨hread, hverdict⟩ := hleft _ r hr hkey huncertain hcall
    obtain ⟨mid', hrun, -, hsame⟩ := reconcileCandidate_step htask hr huncertain hkey hread ms
    refine ⟨_, mid', hrun, hsame hverdict, ?_⟩
    rw [hverdict]
    rfl
  obtain ⟨outs, s', hrun, rfl, hcosts⟩ := runCandidates_progress
    (P := fun _ costs mid => mid = s ∧ costs = []) hturn _ (List.nil_append _) ⟨rfl, rfl⟩
  obtain ⟨hsame, hcharged⟩ := reconcile_of_ok hrun
  rw [List.nil_append] at hcosts
  rw [hcosts] at hcharged
  exact ⟨hsame, hcharged⟩

/-- A finalize pass over a task without uncertain rows changes and charges nothing. -/
theorem finalize_again
    (hnone : ∀ id r, s.reservations.get? id = some r → r.key = key → r.status ≠ .uncertain) (ms : ℤ) :
    afterFinalize s key ms = s ∧ finalizeCharged s key ms = 0 := by
  have hempty : costFinalizeCandidates s key = [] := by
    rw [List.eq_nil_iff_forall_not_mem]
    intro c hc
    obtain ⟨r, hr, -, hkey, huncertain⟩ := mem_costFinalizeCandidates.mp hc
    exact hnone _ r hr hkey huncertain
  have hrun : costFinalizeJob s key (costFinalizeCandidates s key) ms = .ok ([], s) := by
    rw [hempty]
    rfl
  exact finalize_of_ok hrun

/-! ## The three passes -/

theorem rowOwed_afterRecover (s : Store) (ms : ℤ) (key : TaskKey) (blocked : Bool)
    (r : CostReservation) :
    rowOwed (afterRecover s ms) key blocked (recoverRow ms r) = rowOwed s key blocked r := by
  obtain ⟨status, settled, reason, hrow⟩ := recoverRow_eq ms r
  rw [hrow]
  rfl

theorem blocksReconcile_afterRecover (s : Store) (ms : ℤ) (key : TaskKey) (r : CostReservation) :
    blocksReconcile (afterRecover s ms) key (recoverRow ms r) = blocksReconcile s key r := by
  obtain ⟨status, settled, reason, hrow⟩ := recoverRow_eq ms r
  rw [hrow]
  rfl

/-- The pass finds a row it fails on exactly when the rows before the recovery had one. -/
theorem reconcileBlocked_iff (s : Store) (ms : ℤ) (key : TaskKey) :
    reconcileBlocked s key = true ↔ ∃ id r, (afterRecover s ms).reservations.get? id = some r ∧
      r.status = .uncertain ∧ blocksReconcile (afterRecover s ms) key r = true := by
  unfold reconcileBlocked
  rw [List.any_eq_true]
  constructor
  · rintro ⟨⟨id, r⟩, hmem, hr⟩
    rw [Bool.and_eq_true] at hr
    refine ⟨id, recoverRow ms r, ?_, (recoverRow_status ms r).1.mpr hr.1, ?_⟩
    · rw [get?_afterRecover, (s.reservations.get?_eq_some_iff id r).mpr hmem]
      rfl
    · rw [blocksReconcile_afterRecover]
      exact hr.2
  · rintro ⟨id, r', hr', huncertain, hblocks⟩
    rw [get?_afterRecover, Option.map_eq_some_iff] at hr'
    obtain ⟨r, hr, rfl⟩ := hr'
    refine ⟨(id, r), (s.reservations.get?_eq_some_iff id r).mp hr, ?_⟩
    rw [Bool.and_eq_true, ← blocksReconcile_afterRecover s ms]
    exact ⟨(recoverRow_status ms r).1.mp huncertain, hblocks⟩

/-- What the passes owe is pending once the recovery has run. -/
theorem pending_afterRecover (s : Store) (ms : ℤ) (key : TaskKey) :
    (afterRecover s ms).pending key (rowOwed (afterRecover s ms) key (reconcileBlocked s key)) =
      s.owedAtCompletion key := by
  unfold Store.pending Store.owedAtCompletion
  rw [total_afterRecover s ms fun r => if r.key = key ∧ r.status = .uncertain then
    rowOwed (afterRecover s ms) key (reconcileBlocked s key) r else 0]
  congr 1
  funext id r
  rw [rowOwed_afterRecover]
  obtain ⟨status, settled, reason, hrow⟩ := recoverRow_eq ms r
  have hkey : (recoverRow ms r).key = r.key := by rw [hrow]
  simp only [hkey, (recoverRow_status ms r).1]

/-- **The reconcile pass**: it charges the costs `costs`, and every uncertain row it leaves is to be
charged at its estimate. -/
structure Reconciled (s : Store) (key : TaskKey) (t : TaskRow) (blocked : Bool) (ms : ℤ)
    (costs : List ℕ) : Prop where
  charged : reconcileCharged s key ms = min costs.sum u64Max
  task : (afterReconcile s key ms).tasks key =
    some { t with spentCostMicro := foldCosts t.spentCostMicro costs }
  rows : ∀ id r, (afterReconcile s key ms).reservations.get? id = some r → r.status ≠ .settled →
    s.reservations.get? id = some r
  pending : costs.sum + (afterReconcile s key ms).pending key (fun r => r.predictedMicro) =
    s.pending key (rowOwed s key blocked)
  recovered : Recovered s → Recovered (afterReconcile s key ms)
  again : ∀ ms', afterReconcile (afterReconcile s key ms) key ms' = afterReconcile s key ms ∧
    reconcileCharged (afterReconcile s key ms) key ms' = 0

theorem exists_reconciled (htask : s.tasks key = some t) {blocked : Bool}
    (hblocked : blocked = true ↔ ∃ id r, s.reservations.get? id = some r ∧
      r.status = .uncertain ∧ blocksReconcile s key r = true) (ms : ℤ) :
    ∃ costs, Reconciled s key t blocked ms costs := by
  cases blocked with
  | true =>
    obtain ⟨id, r, hr, huncertain, hblocks⟩ := hblocked.mp rfl
    have hfails : ∀ ms', afterReconcile s key ms' = s ∧ reconcileCharged s key ms' = 0 := by
      intro ms'
      obtain ⟨e, he⟩ := costReconcileJob_blocked hr huncertain hblocks ms'
      exact reconcile_of_error he
    obtain ⟨hsame, hcharged⟩ := hfails ms
    refine ⟨[], ?_⟩
    constructor
    case charged => exact hcharged
    case task =>
      rw [hsame]
      exact htask
    case rows =>
      rw [hsame]
      exact fun _ _ h _ => h
    case pending =>
      rw [hsame]
      exact Nat.zero_add _
    case recovered =>
      rw [hsame]
      exact fun h => h
    case again =>
      rw [hsame]
      exact hfails
  | false =>
    have hread : ∀ id r, s.reservations.get? id = some r → r.status = .uncertain →
        blocksReconcile s key r = false := by
      intro id r hr huncertain
      rw [Bool.eq_false_iff]
      exact fun h => Bool.false_ne_true (hblocked.mpr ⟨id, r, hr, huncertain, h⟩)
    obtain ⟨outs, s', hrun, hprogress⟩ := costReconcileJob_ok htask hread ms
    obtain ⟨hafter, hcharged⟩ := reconcile_of_ok hrun
    -- what is still uncertain is left to the finalize pass
    have hleft : ∀ id r, s'.reservations.get? id = some r → r.key = key → r.status = .uncertain →
        reconcileVerdict s key r = .leftUncertain := by
      intro id r hr hkey huncertain
      have hbefore := hprogress.row_of_uncertain hr (by rw [huncertain]; simp)
      cases hcall : settlingCall s r with
      | none =>
        unfold reconcileVerdict
        rw [hcall]
      | some p =>
        refine hprogress.kept ⟨id, r.attemptId⟩ ?_ r hr huncertain
        exact mem_costReconcileCandidates.mpr
          ⟨r, hbefore, rfl, hkey, huncertain, by rw [hcall]; rfl⟩
    refine ⟨outs.filterMap reconcileCharge, ?_⟩
    constructor
    case charged => exact hcharged
    case task =>
      rw [hafter]
      exact hprogress.task
    case rows =>
      rw [hafter]
      exact fun _ _ => hprogress.row_of_uncertain
    case pending =>
      rw [hafter, ← hprogress.pending]
      congr 1
      apply RowTable.total_congr
      intro id r hr
      by_cases h : r.key = key ∧ r.status = .uncertain
      · rw [if_pos h, if_pos h]
        unfold rowOwed
        rw [hleft id r hr h.1 h.2, if_neg Bool.false_ne_true]
      · rw [if_neg h, if_neg h]
    case recovered =>
      rw [hafter]
      exact hprogress.recovered
    case again =>
      rw [hafter]
      refine reconcile_again hprogress.task ?_
      intro id r hr hkey huncertain hcall
      have hbefore := hprogress.row_of_uncertain hr (by rw [huncertain]; simp)
      rw [settlingCall_congr hprogress.calls] at hcall
      refine ⟨fun hcorrupt => ?_, ?_⟩
      · have hclear := hread id r hbefore huncertain
        simp [blocksReconcile, hkey, hcall, hcorrupt] at hclear
      · rw [reconcileVerdict_congr hprogress.calls (hprogress.hasCap htask)]
        exact hleft id r hr hkey huncertain

/-- **The finalize pass**: it charges every uncertain row of the task at its estimate. -/
structure Finalized (s : Store) (key : TaskKey) (t : TaskRow) (ms : ℤ) (costs : List ℕ) :
    Prop where
  charged : finalizeCharged s key ms = min costs.sum u64Max
  task : (afterFinalize s key ms).tasks key =
    some { t with spentCostMicro := foldCosts t.spentCostMicro costs }
  total : costs.sum = s.pending key fun r => r.predictedMicro
  recovered : Recovered s → Recovered (afterFinalize s key ms)
  none : ∀ id r, (afterFinalize s key ms).reservations.get? id = some r → r.key = key →
    r.status ≠ .uncertain

theorem exists_finalized (htask : s.tasks key = some t)
    (hfit : ∀ id r, s.reservations.get? id = some r → r.status = .uncertain → r.predictedMicro ≤ i64Max)
    (ms : ℤ) : ∃ costs, Finalized s key t ms costs := by
  obtain ⟨outs, s', hrun, hprogress⟩ := costFinalizeJob_ok htask hfit ms
  obtain ⟨hafter, hcharged⟩ := finalize_of_ok hrun
  have hnone : ∀ id r, s'.reservations.get? id = some r → r.key = key → r.status ≠ .uncertain := by
    intro id r hr hkey huncertain
    have hbefore := hprogress.row_of_uncertain hr (by rw [huncertain]; simp)
    exact hprogress.kept ⟨id, r.attemptId⟩
      (mem_costFinalizeCandidates.mpr ⟨r, hbefore, rfl, hkey, huncertain⟩) r hr huncertain
  refine ⟨outs.filterMap finalizeCharge, ?_⟩
  constructor
  case charged => exact hcharged
  case task =>
    rw [hafter]
    exact hprogress.task
  case total =>
    rw [← hprogress.pending]
    have hzero : s'.pending key (fun r => r.predictedMicro) = 0 := by
      unfold Store.pending
      rw [RowTable.total_congr (fun id r hr => if_neg fun h => hnone id r hr h.1 h.2)]
      simp [RowTable.total]
    omega
  case recovered =>
    rw [hafter]
    exact hprogress.recovered
  case none =>
    rw [hafter]
    exact hnone

/-! ## A clean completion -/

/-- The store after recover, reconcile and finalize. -/
def afterPasses (s : Store) (key : TaskKey) (recoverMs reconcileMs finalizeMs : ℤ) : Store :=
  afterFinalize (afterReconcile (afterRecover s recoverMs) key reconcileMs) key finalizeMs

/-- What the passes report as charged; the recovery charges nothing. -/
def passesCharged (s : Store) (key : TaskKey) (recoverMs reconcileMs finalizeMs : ℤ) : ℕ :=
  reconcileCharged (afterRecover s recoverMs) key reconcileMs +
    finalizeCharged (afterReconcile (afterRecover s recoverMs) key reconcileMs) key finalizeMs

/-- The three passes do what a completion needs of them. -/
structure CompletesCleanly (s : Store) (key : TaskKey) (recoverMs reconcileMs finalizeMs : ℤ) :
    Prop where
  /-- No row of the task is reserved, dispatched or uncertain. -/
  closed : ∀ id r, (afterPasses s key recoverMs reconcileMs finalizeMs).reservations.get? id =
    some r → r.key = key → r.status.holds = false
  balance : ∃ b, completionAccountingBalance
    (afterPasses s key recoverMs reconcileMs finalizeMs) key = .ok b ∧ b.isZero = true
  recoverTwice : ∀ ms, costRecoverOpenReservations (afterRecover s recoverMs) ms =
    ((0, 0), afterRecover s recoverMs)
  reconcileTwice : ∀ ms,
    afterReconcile (afterReconcile (afterRecover s recoverMs) key reconcileMs) key ms =
      afterReconcile (afterRecover s recoverMs) key reconcileMs ∧
    reconcileCharged (afterReconcile (afterRecover s recoverMs) key reconcileMs) key ms = 0
  finalizeTwice : ∀ ms,
    afterFinalize (afterPasses s key recoverMs reconcileMs finalizeMs) key ms =
      afterPasses s key recoverMs reconcileMs finalizeMs ∧
    finalizeCharged (afterPasses s key recoverMs reconcileMs finalizeMs) key ms = 0
  allTwice : ∀ recoverMs' reconcileMs' finalizeMs',
    afterPasses (afterPasses s key recoverMs reconcileMs finalizeMs) key recoverMs' reconcileMs'
        finalizeMs' = afterPasses s key recoverMs reconcileMs finalizeMs ∧
    passesCharged (afterPasses s key recoverMs reconcileMs finalizeMs) key recoverMs' reconcileMs'
        finalizeMs' = 0
  /-- The charges reported are the increase of the spent total. -/
  charged : ∃ t t' n m, s.tasks key = some t ∧ t.spentCostMicro = .int n ∧
    (afterPasses s key recoverMs reconcileMs finalizeMs).tasks key = some t' ∧
    t'.spentCostMicro = .int m ∧ m = n + passesCharged s key recoverMs reconcileMs finalizeMs

/-- The monetary columns hold what a 64-bit column can. -/
structure ColumnsFit (s : Store) (key : TaskKey) : Prop where
  spent : ∀ t n, s.tasks key = some t → t.spentCostMicro = .int n → n ≤ i64Max
  predicted : ∀ id r, s.reservations.get? id = some r → r.predictedMicro ≤ i64Max

/-- The three passes one after the other: the costs they fold add up to what was owed, the charges
they report are those costs as far as the fields go, and everything but the spent total is as a
completion needs it. -/
theorem exists_passes (htask : s.tasks key = some t) (hfit : ColumnsFit s key)
    (recoverMs reconcileMs finalizeMs : ℤ) : ∃ first second : List ℕ,
    (first ++ second).sum = s.owedAtCompletion key ∧
    passesCharged s key recoverMs reconcileMs finalizeMs =
      min first.sum u64Max + min second.sum u64Max ∧
    (afterPasses s key recoverMs reconcileMs finalizeMs).tasks key =
      some { t with spentCostMicro := foldCosts t.spentCostMicro (first ++ second) } ∧
    Recovered (afterPasses s key recoverMs reconcileMs finalizeMs) ∧
    (∀ id r, (afterPasses s key recoverMs reconcileMs finalizeMs).reservations.get? id = some r →
      r.key = key → r.status ≠ .uncertain) ∧
    ∀ ms, afterReconcile (afterReconcile (afterRecover s recoverMs) key reconcileMs) key ms =
        afterReconcile (afterRecover s recoverMs) key reconcileMs ∧
      reconcileCharged (afterReconcile (afterRecover s recoverMs) key reconcileMs) key ms = 0 := by
  obtain ⟨first, hfirst⟩ := exists_reconciled (s := afterRecover s recoverMs) htask
    (reconcileBlocked_iff s recoverMs key) reconcileMs
  have hpredicted : ∀ id r, (afterReconcile (afterRecover s recoverMs) key reconcileMs).reservations.get?
      id = some r → r.status = .uncertain → r.predictedMicro ≤ i64Max := by
    intro id r hr huncertain
    have hrow := hfirst.rows id r hr (by rw [huncertain]; simp)
    rw [get?_afterRecover, Option.map_eq_some_iff] at hrow
    obtain ⟨q, hq, rfl⟩ := hrow
    obtain ⟨status, settled, reason, hsame⟩ := recoverRow_eq recoverMs q
    rw [hsame]
    exact hfit.predicted id q hq
  obtain ⟨second, hsecond⟩ := exists_finalized hfirst.task hpredicted finalizeMs
  refine ⟨first, second, ?_, ?_, ?_, ?_, hsecond.none, hfirst.again⟩
  · have howed := hfirst.pending
    rw [pending_afterRecover] at howed
    rw [List.sum_append, hsecond.total]
    exact howed
  · unfold passesCharged
    rw [hfirst.charged, hsecond.charged]
  · rw [foldCosts_append]
    exact hsecond.task
  · exact hsecond.recovered (hfirst.recovered (recovered_afterRecover s recoverMs))

/-- One task under a cap of 100: an attempt with a completed, priced call, one without a call, and one
that was never dispatched. -/
def crashedStore : Store :=
  (run (cappedLedger 100) [
    .reserveAttempt ⟨1, 1⟩ ⟨7, 8, 0⟩ 40 1 (some (.snapshot ⟨some ⟨2000000, 0, 0, 0⟩, .exact⟩)) none,
    .reserveAttempt ⟨1, 1⟩ ⟨7, 9, 1⟩ 30 2 none none,
    .reserveAttempt ⟨1, 1⟩ ⟨7, 10, 2⟩ 5 3 none none,
    .markDispatched 1 4, .markDispatched 2 5,
    .recordProviderCall ⟨1, 7, some 8, some 1, "p", "m", "completed", some 10, some 0⟩]).store

end CostLedger
