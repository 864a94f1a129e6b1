/-
# The cost-ledger transactions

The store operations of `crates/store/src/billing.rs` that move money: the two reserve entry
points, dispatch and failure marks, refund, the two settlements, crash recovery, and the
reconcile and finalize passes over uncertain reservations.

Each operation is a function from a store to its typed result and the store it commits.  An
`error` commits nothing; an `ok` that refuses returns the store it was given, which is the
code's `tx.rollback()`.  A pass reads its candidates first and hands them to one writer job:
`costReconcileCandidates` and `costReconcileJob` are the two halves of
`cost_reconcile_uncertain`, so that other operations can come between them.
-/
import Faktor.CostLedger

open Sqlite

namespace CostLedger

/-! ## Reserve -/

/-- `CostReserveOutcome`. -/
inductive CostReserveOutcome
  | granted (id : ℕ)
  | exceeded (free : ℕ)
  deriving DecidableEq, Repr

/-- `ModelCallAttempt`. -/
structure ModelCallAttempt where
  logicalOpId : OpId
  attemptOpId : OpId
  ordinal : ℕ
  deriving DecidableEq, Repr

/-- The task-row part of both reserve transactions: the row must exist and its state must be
known and permit a new provider operation (`provider_operation_gate_terms`). -/
def providerOperationGate (s : Store) (key : TaskKey) : StoreResult TaskRow :=
  match s.tasks key with
  | none =>
    .error (.conflict s!"cost reserve: task {key.taskId} of session {key.sessionId} has no row")
  | some t =>
    match t.state with
    | none => .error (.corrupt ["cost reserve: task row state is not a known task state"])
    | some state =>
      if taskStatePermitsProviderOperation state then .ok t
      else .error (.conflict
        s!"cost reserve: task state {state.label} forbids a new provider operation")

/-- `SELECT spent_cost_micro` read as `i64`. -/
def readSpent (t : TaskRow) : StoreResult ℕ :=
  match t.spentCostMicro.readInt with
  | some n => .ok n
  | none => .error (.sqlite "Invalid column type Real at index: 0, name: spent_cost_micro")

/-- The rows of the task that still hold budget, which both open sums range over. -/
def heldRows (s : Store) (key : TaskKey) : List (ℕ × CostReservation) :=
  s.reservations.select (fun _ r => decide (r.key = key) && r.status.holds)

/-- The predictions of the task's rows that still hold budget. -/
def heldPredictions (s : Store) (key : TaskKey) : List ℕ :=
  (heldRows s key).map (fun r => r.2.predictedMicro)

/-- `COALESCE(SUM(predicted_micro), 0)` of the attempt-keyed reserve. -/
def openSumExact (held : List ℕ) : StoreResult ℕ :=
  match sqlSum held with
  | some n => .ok n
  | none => .error (.sqlite "integer overflow")

/-- `CAST(MIN(total(…), 9223372036854774784.0) AS INTEGER)` of the legacy reserve. -/
def openSumTotal (held : List ℕ) : StoreResult ℕ := .ok (sqlTotal 9223372036854774784 held)

/-- The transaction both reserve entry points share.  `NULL` and `0` caps are unlimited. -/
def costReserveTx (s : Store) (key : TaskKey) (openSum : List ℕ → StoreResult ℕ)
    (predictedMicro : ℕ) (row : CostReservation) : StoreResult (CostReserveOutcome × Store) := do
  let t ← providerOperationGate s key
  let spent ← readSpent t
  let held ← openSum (heldPredictions s key)
  let capLimit := t.maxCostMicro.getD 0
  -- truncated subtraction is the code's `saturating_sub` followed by `.max(0)`
  let free := capLimit - spent - held
  if 0 < capLimit ∧ free < clampI64 predictedMicro then
    return (.exceeded free, s)
  else
    return (.granted (s.reservations.seq + 1),
      { s with reservations := s.reservations.insert row })

/-- The columns a reserve leaves at their defaults. -/
def freshReservation (key : TaskKey) (opId : OpId) (attemptOpId parentOpId : Option OpId)
    (predictedMicro : ℕ) (createdMs : ℤ) (pricingSnapshotJson : Option SnapshotJson)
    (executionClass : Option ExecutionClass) : CostReservation where
  key := key
  opId := opId
  attemptOpId := attemptOpId
  parentOpId := parentOpId
  predictedMicro := clampI64 predictedMicro
  status := .reserved
  createdMs := createdMs
  settledMs := none
  dispatchedMs := none
  pricingSnapshotJson := pricingSnapshotJson
  providerCostMicro := none
  providerReportedMicro := none
  routeDecisionJson := none
  requestId := none
  deliveryState := none
  failureReasonCode := none
  costBasis := none
  providerReportedCostMicro := none
  estimatedCostMicro := some (clampI64 predictedMicro)
  settledCostMicro := none
  executionClass := executionClass

/-- `cost_reserve_inner`, the legacy entry point keyed by the shared logical op. -/
def costReserveInner (s : Store) (key : TaskKey) (opId : OpId) (predictedMicro : ℕ)
    (createdMs : ℤ) (pricingSnapshotJson : Option SnapshotJson)
    (executionClass : Option ExecutionClass) : StoreResult (CostReserveOutcome × Store) :=
  costReserveTx s key openSumTotal predictedMicro
    (freshReservation key opId none none predictedMicro createdMs pricingSnapshotJson
      executionClass)

/-- `cost_reserve_attempt`: the row keys by the attempt's own op id and names its logical
parent. -/
def costReserveAttempt (s : Store) (key : TaskKey) (attempt : ModelCallAttempt)
    (predictedMicro : ℕ) (createdMs : ℤ) (pricingSnapshotJson : Option SnapshotJson)
    (executionClass : Option ExecutionClass) : StoreResult (CostReserveOutcome × Store) :=
  costReserveTx s key openSumExact predictedMicro
    (freshReservation key attempt.attemptOpId (some attempt.attemptOpId)
      (some attempt.logicalOpId) predictedMicro createdMs pricingSnapshotJson executionClass)

/-! ## Marks and refund -/

/-- `CostReservationState`. -/
inductive CostReservationState
  | applied
  | notOpen (current : ReservationStatus)
  | missing
  deriving DecidableEq, Repr

/-- `cost_mark_dispatched`: status, marker and delivery state in one statement. -/
def costMarkDispatched (s : Store) (id : ℕ) (dispatchedMs : ℤ) :
    StoreResult (CostReservationState × Store) :=
  match s.reservations.get? id with
  | none => .ok (.missing, s)
  | some r =>
    if r.status ≠ .reserved ∧ r.status ≠ .dispatched then .ok (.notOpen r.status, s)
    else .ok (.applied, s.updateReservation id fun r =>
      { r with
        status := .dispatched
        dispatchedMs := some dispatchedMs
        deliveryState := some .dispatched })

/-- `cost_mark_uncertain`. -/
def costMarkUncertain (s : Store) (id : ℕ) (reasonCode : String) (requestId : Option String)
    (atMs : ℤ) : StoreResult (CostReservationState × Store) :=
  match s.reservations.get? id with
  | none => .ok (.missing, s)
  | some r =>
    if r.status ≠ .dispatched then .ok (.notOpen r.status, s)
    else .ok (.applied, s.updateReservation id fun r =>
      { r with
        status := .uncertain
        settledMs := some atMs
        failureReasonCode := some reasonCode
        requestId := requestId
        deliveryState := some .failed })

/-- `RefundOutcome`. -/
inductive RefundOutcome
  | applied
  | blocked (current : ReservationStatus) (dispatchedMs : Option ℤ)
  | missing
  deriving DecidableEq, Repr

/-- The guard of every refund: `status IN ('reserved', 'open') AND dispatched_ms IS NULL`. -/
def refundable (r : CostReservation) : Bool :=
  (sqlAnd (some (decide (r.status = .reserved))) (sqlIsNull r.dispatchedMs)).holds

/-- `cost_refund`: the guarded `UPDATE` alone frees money. -/
def costRefund (s : Store) (id : ℕ) (settledMs : ℤ) : StoreResult (RefundOutcome × Store) :=
  match s.reservations.get? id with
  | none => .ok (.missing, s)
  | some r =>
    if refundable r then
      .ok (.applied, s.updateReservation id fun r =>
        { r with status := .refunded, settledMs := some settledMs })
    else .ok (.blocked r.status r.dispatchedMs, s)

/-! ## Settlement -/

/-- `cost_settle`, the legacy numeric settlement. -/
def costSettle (s : Store) (id actualMicro : ℕ) (providerCostMicro providerReportedMicro : Option ℕ)
    (routeDecisionJson : Option String) (settledMs : ℤ) :
    StoreResult (CostReservationState × Store) :=
  match s.reservations.get? id with
  | none => .ok (.missing, s)
  | some r =>
    if r.status ≠ .reserved ∧ r.status ≠ .dispatched then .ok (.notOpen r.status, s)
    else
      let actual := clampI64 actualMicro
      let basis : CostBasis :=
        if providerReportedMicro.isSome then .providerReported else .routeSnapshotEstimate
      let closed := s.updateReservation id fun r =>
        { r with
          status := .settled
          settledMs := some settledMs
          deliveryState := some .completed
          providerCostMicro := providerCostMicro.map clampI64
          providerReportedMicro := providerReportedMicro.map clampI64
          providerReportedCostMicro := providerReportedMicro.map clampI64
          settledCostMicro := some actual
          costBasis := some basis
          routeDecisionJson := routeDecisionJson }
      match closed.foldSpent r.key actual with
      | none =>
        .error (.conflict "cost settle: task has no row; the task machine owns creation")
      | some folded =>
        .ok (.applied, folded.insertBillingOutbox
          { reservationId := id
            key := r.key
            attemptId := r.attemptId
            provider := ""
            model := ""
            usage := ⟨0, 0, 0, 0⟩
            reasoningTokens := 0
            providerCostMicro := actual
            providerReportedMicro := providerReportedMicro
            occurredAtMs := settledMs
            sourceOperation := .costSettle })

/-- `CostSettleOutcome`. -/
inductive CostSettleOutcome
  | applied (actualMicro : ℕ)
  | appliedUnknown
  | notOpen (current : ReservationStatus)
  | missing
  | unknownPrice (reservation : ℕ)
  deriving DecidableEq, Repr

/-- The chosen actual: the higher of the reported and the locally priced amount, `none` when
neither exists. -/
def chosenActual (reported priced : Option ℕ) : Option ℕ :=
  match reported, priced with
  | some r, some l => some (max r l)
  | some r, none => some r
  | none, some l => some l
  | none, none => none

/-- `cost_settle_usage_with_context`. -/
def costSettleUsageWithContext (s : Store) (id : ℕ) (usage : TokenUsage)
    (providerReportedMicro : Option ℕ) (routeDecisionJson : Option String) (settledMs : ℤ)
    (provider model : String) : StoreResult (CostSettleOutcome × Store) :=
  match s.reservations.get? id with
  | none => .ok (.missing, s)
  | some r =>
    let outboxFact (cost : ℕ) : BillingOutboxFact :=
      { reservationId := id
        key := r.key
        attemptId := r.attemptId
        provider := provider
        model := model
        usage := usage
        reasoningTokens := 0
        providerCostMicro := cost
        providerReportedMicro := providerReportedMicro
        occurredAtMs := settledMs
        sourceOperation := .costSettleUsage }
    if r.status ≠ .reserved ∧ r.status ≠ .dispatched then .ok (.notOpen r.status, s)
    else do
      let snapshot ← parseSnapshot (snapshotContext id) r.pricingSnapshotJson
      let priced := (snapshot.bind (fun p => p.settleCost usage)).map clampI64
      let reported := providerReportedMicro.map clampI64
      match chosenActual reported priced with
      | none =>
        if s.hasCap r.key then return (.unknownPrice id, s)
        else
          let closed := s.updateReservation id fun r =>
            { r with
              status := .settled
              settledMs := some settledMs
              deliveryState := some .completed
              providerCostMicro := none
              providerReportedMicro := none
              providerReportedCostMicro := none
              settledCostMicro := none
              costBasis := some .unknown
              routeDecisionJson := routeDecisionJson }
          return (.appliedUnknown, closed.insertBillingOutbox (outboxFact 0))
      | some chosen =>
        let basis : CostBasis :=
          if reported = some chosen then .providerReported else .routeSnapshotEstimate
        let closed := s.updateReservation id fun r =>
          { r with
            status := .settled
            settledMs := some settledMs
            deliveryState := some .completed
            providerCostMicro := priced
            providerReportedMicro := reported
            providerReportedCostMicro := reported
            settledCostMicro := some chosen
            costBasis := some basis
            routeDecisionJson := routeDecisionJson }
        match closed.foldSpent r.key chosen with
        | none =>
          throw (.conflict "cost settle: task has no row; the task machine owns creation")
        | some folded =>
          return (.applied chosen, folded.insertBillingOutbox (outboxFact chosen))

/-! ## Crash recovery -/

/-- The first statement of `cost_recover_open_reservations`: rows whose dispatch never provably
began are refunded. -/
def recoverRefund (s : Store) (atMs : ℤ) : Store :=
  { s with
    reservations := s.reservations.updateWhere (fun _ r => refundable r) fun r =>
      { r with status := .refunded, settledMs := some atMs } }

/-- `status = 'dispatched' OR (status IN ('reserved', 'open') AND dispatched_ms IS NOT NULL)`. -/
def maybeDispatched (r : CostReservation) : Bool :=
  (sqlOr (some (decide (r.status = .dispatched)))
    (sqlAnd (some (decide (r.status = .reserved))) (sqlIsNotNull r.dispatchedMs))).holds

/-- The second statement: rows that may have been dispatched become uncertain. -/
def recoverUncertain (s : Store) (atMs : ℤ) : Store :=
  { s with
    reservations := s.reservations.updateWhere (fun _ r => maybeDispatched r) fun r =>
      { r with
        status := .uncertain
        settledMs := some atMs
        failureReasonCode := some "crash_recovery_post_dispatch_marker" } }

/-- `cost_recover_open_reservations`: two autocommitted statements over every task, and the
number of rows each of them changed. -/
def costRecoverOpenReservations (s : Store) (atMs : ℤ) : (ℕ × ℕ) × Store :=
  let refunded := (s.reservations.select (fun _ r => refundable r)).length
  let s' := recoverRefund s atMs
  let uncertain := (s'.reservations.select (fun _ r => maybeDispatched r)).length
  ((refunded, uncertain), recoverUncertain s' atMs)

/-! ## The reconcile pass -/

/-- The join condition between a reservation and the provider call it may settle from, in SQL's
three-valued logic. -/
def callMatches (cr : CostReservation) (p : ProviderCall) : SqlBool :=
  sqlAnd (sqlEq (some p.sessionId) (some cr.key.sessionId))
    (sqlAnd (sqlEq (some p.status) (some "completed"))
      (sqlOr
        (sqlAnd (sqlIsNotNull cr.attemptOpId) (sqlEq p.attemptOpId cr.attemptOpId))
        (sqlAnd (sqlIsNull cr.attemptOpId)
          (sqlAnd (sqlIsNull p.attemptOpId) (sqlEq (some p.opId) (some cr.opId))))))

/-- `… ORDER BY p.id DESC LIMIT 1`: the newest completed call of the reservation's attempt. -/
def settlingCall (s : Store) (cr : CostReservation) : Option ProviderCall :=
  ((s.calls.select (fun _ p => (callMatches cr p).holds)).getLast?).map Prod.snd

/-- The read half of `cost_reconcile_uncertain`: the task's uncertain rows for which a matching
completed call exists, in reservation order. -/
def costReconcileCandidates (s : Store) (key : TaskKey) : List Candidate :=
  (s.reservations.select (fun _ cr =>
    decide (cr.key = key) && decide (cr.status = .uncertain) &&
      s.calls.rows.any (fun p => (callMatches cr p.2).holds))).map
    (fun r => ⟨r.1, r.2.attemptId⟩)

/-- `CostReconcileOutcome`. -/
inductive CostReconcileOutcome
  | skipped
  | leftUncertain
  | closedUnknown
  | settled (cost : ℕ)
  deriving DecidableEq, Repr

/-- The usage a settling call supplies: input and output tokens only, negative counts as zero. -/
def ProviderCall.usage (p : ProviderCall) : TokenUsage :=
  ⟨(p.tokensIn.getD 0).toNat, 0, 0, (p.tokensOut.getD 0).toNat⟩

/-- One candidate of the reconcile job, inside its savepoint. -/
def reconcileCandidate (key : TaskKey) (atMs : ℤ) (s : Store) (c : Candidate) :
    StoreResult (CostReconcileOutcome × Store) :=
  match s.reservations.get? c.reservationId with
  | none => .ok (.skipped, s)
  | some r =>
    if r.status ≠ .uncertain then .ok (.skipped, s)
    else do
      let snapshot ← parseSnapshot (snapshotContext c.reservationId) r.pricingSnapshotJson
      match settlingCall s r with
      | none => return (.leftUncertain, s)
      | some p =>
        let outboxFact (cost : ℕ) : BillingOutboxFact :=
          { reservationId := c.reservationId
            key := key
            attemptId := c.attemptId
            provider := p.provider
            model := p.model
            usage := p.usage
            reasoningTokens := 0
            providerCostMicro := cost
            providerReportedMicro := none
            occurredAtMs := atMs
            sourceOperation := .costReconcileUncertain }
        match snapshot.bind (fun snap => snap.settleCost p.usage) with
        | some actual =>
          let cost := clampI64 actual
          let closed := s.updateReservation c.reservationId fun r =>
            { r with
              status := .settled
              settledMs := some atMs
              providerCostMicro := some cost
              providerReportedMicro := none
              providerReportedCostMicro := none
              settledCostMicro := some cost
              estimatedCostMicro := some (r.estimatedCostMicro.getD r.predictedMicro)
              costBasis := some .routeSnapshotEstimate
              deliveryState := none }
          match closed.foldSpent key cost with
          | none => return (.leftUncertain, s)
          | some folded => return (.settled cost, folded.insertBillingOutbox (outboxFact cost))
        | none =>
          if s.hasCap key then return (.leftUncertain, s)
          else
            let closed := s.updateReservation c.reservationId fun r =>
              { r with
                status := .settled
                settledMs := some atMs
                providerCostMicro := none
                providerReportedMicro := none
                providerReportedCostMicro := none
                settledCostMicro := none
                costBasis := some .unknown
                deliveryState := none }
            return (.closedUnknown, closed.insertBillingOutbox (outboxFact 0))

/-- The candidates of a job one after the other; an error abandons the whole job. -/
def runCandidates {O : Type} (f : Store → Candidate → StoreResult (O × Store)) :
    Store → List Candidate → StoreResult (List O × Store)
  | s, [] => .ok ([], s)
  | s, c :: cs => do
    let (outcome, s') ← f s c
    let (outcomes, s'') ← runCandidates f s' cs
    return (outcome :: outcomes, s'')

/-- The writer job of a reconcile pass. -/
def costReconcileJob (s : Store) (key : TaskKey) (candidates : List Candidate) (atMs : ℤ) :
    StoreResult (List CostReconcileOutcome × Store) :=
  runCandidates (reconcileCandidate key atMs) s candidates

/-- `CostReconcileReport`. -/
structure CostReconcileReport where
  settled : ℕ
  closedUnknown : ℕ
  leftUncertain : ℕ
  chargedMicro : ℕ
  deriving DecidableEq, Repr

/-- The report fold of a reconcile pass. -/
def reconcileReport (outcomes : List CostReconcileOutcome) : CostReconcileReport :=
  outcomes.foldl (fun report outcome =>
    match outcome with
    | .skipped => report
    | .leftUncertain => { report with leftUncertain := report.leftUncertain + 1 }
    | .closedUnknown => { report with closedUnknown := report.closedUnknown + 1 }
    | .settled cost =>
      { report with
        settled := report.settled + 1
        chargedMicro := min (report.chargedMicro + cost) u64Max }) ⟨0, 0, 0, 0⟩

/-- `cost_reconcile_uncertain` with nothing between its two halves. -/
def costReconcileUncertain (s : Store) (key : TaskKey) (atMs : ℤ) :
    StoreResult (CostReconcileReport × Store) := do
  let (outcomes, s') ← costReconcileJob s key (costReconcileCandidates s key) atMs
  return (reconcileReport outcomes, s')

/-! ## The finalize pass -/

/-- The read half of `cost_finalize_uncertain`. -/
def costFinalizeCandidates (s : Store) (key : TaskKey) : List Candidate :=
  (s.reservations.select (fun _ cr => decide (cr.key = key) && decide (cr.status = .uncertain))).map
    (fun r => ⟨r.1, r.2.attemptId⟩)

/-- `CostFinalizeOutcome`. -/
inductive CostFinalizeOutcome
  | skipped
  | leftUncertain
  | settled (predicted : ℕ)
  deriving DecidableEq, Repr

/-- `SELECT provider, model FROM provider_call WHERE session_id = ? AND reservation_id = ?
ORDER BY id DESC LIMIT 1`. -/
def reservationCall (s : Store) (sessionId : SessionId) (reservationId : ℕ) :
    Option ProviderCall :=
  ((s.calls.select (fun _ p => decide (p.sessionId = sessionId) &&
    (sqlEq p.reservationId (some reservationId)).holds)).getLast?).map Prod.snd

/-- One candidate of the finalize job: an uncertain row settles at its reserved estimate. -/
def finalizeCandidate (key : TaskKey) (atMs : ℤ) (s : Store) (c : Candidate) :
    StoreResult (CostFinalizeOutcome × Store) :=
  match s.reservations.get? c.reservationId with
  | none => .ok (.skipped, s)
  | some r =>
    if r.status ≠ .uncertain then .ok (.skipped, s)
    else
      let predicted := r.predictedMicro
      let cost := clampI64 predicted
      let closed := s.updateReservation c.reservationId fun r =>
        { r with
          status := .settled
          settledMs := some atMs
          providerCostMicro := some cost
          providerReportedMicro := none
          providerReportedCostMicro := none
          settledCostMicro := some cost
          estimatedCostMicro := some (r.estimatedCostMicro.getD r.predictedMicro)
          costBasis := some .conservativeReservation
          deliveryState := none }
      match closed.foldSpent key cost with
      | none => .ok (.leftUncertain, s)
      | some folded =>
        let call := reservationCall s key.sessionId c.reservationId
        .ok (.settled predicted, folded.insertBillingOutbox
          { reservationId := c.reservationId
            key := key
            attemptId := c.attemptId
            provider := (call.map (·.provider)).getD ""
            model := (call.map (·.model)).getD ""
            usage := ⟨0, 0, 0, 0⟩
            reasoningTokens := 0
            providerCostMicro := predicted
            providerReportedMicro := none
            occurredAtMs := atMs
            sourceOperation := .costFinalizeUncertain })

/-- The writer job of a finalize pass. -/
def costFinalizeJob (s : Store) (key : TaskKey) (candidates : List Candidate) (atMs : ℤ) :
    StoreResult (List CostFinalizeOutcome × Store) :=
  runCandidates (finalizeCandidate key atMs) s candidates

/-- `CostFinalizeReport`. -/
structure CostFinalizeReport where
  settled : ℕ
  leftUncertain : ℕ
  chargedMicro : ℕ
  deriving DecidableEq, Repr

/-- The report fold of a finalize pass. -/
def finalizeReport (outcomes : List CostFinalizeOutcome) : CostFinalizeReport :=
  outcomes.foldl (fun report outcome =>
    match outcome with
    | .skipped => report
    | .leftUncertain => { report with leftUncertain := report.leftUncertain + 1 }
    | .settled predicted =>
      { report with
        settled := report.settled + 1
        chargedMicro := min (report.chargedMicro + predicted) u64Max }) ⟨0, 0, 0⟩

/-- `cost_finalize_uncertain` with nothing between its two halves. -/
def costFinalizeUncertain (s : Store) (key : TaskKey) (atMs : ℤ) :
    StoreResult (CostFinalizeReport × Store) := do
  let (outcomes, s') ← costFinalizeJob s key (costFinalizeCandidates s key) atMs
  return (finalizeReport outcomes, s')

end CostLedger
