/-
# The durable cost ledger: rows, prices and the settlement outbox

The data model of `crates/store/src/billing.rs` (schema v18 and the v45 outbox), with the
price arithmetic of `crates/core/src/model.rs` and the billing period of
`crates/core/src/billing.rs` that its transactions call.

A reservation holds `predictedMicro` of its task's monetary budget from `reserved` until it
is refunded or settled; a settlement folds its cost into the task row's `spentCostMicro` and
writes one outbox row in the same transaction.  Status texts outside the schema's `CHECK`
vocabulary (`open`, `abandoned`) cannot be stored, so the guards `IN ('reserved', 'open')`
read `reserved` here.  Identifiers are naturals: the code's `u64 as i64` casts are injective.
-/
import Faktor.Sqlite
import Faktor.RowTable

open Sqlite

namespace CostLedger

/-! ## Identifiers and enumerations -/

abbrev SessionId := ℕ
abbrev TaskId := ℕ
abbrev OpId := ℕ

/-- `u64::MAX`. -/
def u64Max : ℕ := 2 ^ 64 - 1

/-- `u128::MAX`. -/
def u128Max : ℕ := 2 ^ 128 - 1

/-- `v.min(i64::MAX as u64) as i64`, the clamp every stored amount goes through. -/
def clampI64 (v : ℕ) : ℕ := min v i64Max

/-- The `(session_id, task_id)` primary key of a task row. -/
structure TaskKey where
  sessionId : SessionId
  taskId : TaskId
  deriving DecidableEq, Repr

/-- The task machine's states (`TaskState`). -/
inductive TaskState
  | pending | planning | running | waiting | blocked
  | needsVerification | verifying | verifiedComplete | failed | cancelled
  deriving DecidableEq, Repr

/-- `TaskState::is_terminal`. -/
def TaskState.isTerminal : TaskState → Bool
  | .verifiedComplete | .failed | .cancelled => true
  | _ => false

/-- `TaskState::is_completion_relevant`. -/
def TaskState.isCompletionRelevant : TaskState → Bool
  | .needsVerification | .verifying | .verifiedComplete => true
  | _ => false

/-- `TaskState::label`. -/
def TaskState.label : TaskState → String
  | .pending => "pending"
  | .planning => "planning"
  | .running => "running"
  | .waiting => "waiting"
  | .blocked => "blocked"
  | .needsVerification => "needs_verification"
  | .verifying => "verifying"
  | .verifiedComplete => "verified_complete"
  | .failed => "failed"
  | .cancelled => "cancelled"

/-- `Store::task_state_permits_provider_operation`. -/
def taskStatePermitsProviderOperation (state : TaskState) : Bool :=
  !state.isTerminal && !state.isCompletionRelevant

/-- The ledger's status vocabulary, as the v17 `CHECK` admits it. -/
inductive ReservationStatus
  | reserved | dispatched | settled | refunded | uncertain
  deriving DecidableEq, Repr

/-- The statuses that hold their prediction against the cap
(`status IN ('reserved', 'dispatched', 'uncertain')`). -/
def ReservationStatus.holds : ReservationStatus → Bool
  | .reserved | .dispatched | .uncertain => true
  | .settled | .refunded => false

/-- `settled` and `refunded` rows are closed. -/
def ReservationStatus.closed : ReservationStatus → Bool
  | .settled | .refunded => true
  | _ => false

/-- The `cost_basis` tags. -/
inductive CostBasis
  | providerReported | routeSnapshotEstimate | conservativeReservation | unknown
  deriving DecidableEq, Repr

/-- The `delivery_state` tags. -/
inductive DeliveryState
  | dispatched | completed | failed
  deriving DecidableEq, Repr

/-- The route-time execution class; `none` in a row is the stored `NULL` (`Unknown`). -/
inductive ExecutionClass
  | localRuntime | hostedEconomy | hostedBalanced | frontier
  deriving DecidableEq, Repr

/-! ## Prices -/

/-- `PriceAuthority`. -/
inductive PriceAuthority
  | exact | conservativeCeiling | localZero | unknown
  deriving DecidableEq, Repr

/-- `PriceQuote`: microUSD per million tokens, one line per category. -/
structure PriceQuote where
  input : ℕ
  output : ℕ
  cacheRead : ℕ
  cacheWrite : ℕ
  deriving DecidableEq, Repr

/-- `TokenUsage`. -/
structure TokenUsage where
  uncachedInputTokens : ℕ
  cacheReadTokens : ℕ
  cacheWriteTokens : ℕ
  outputTokens : ℕ
  deriving DecidableEq, Repr

/-- `u128::saturating_mul` of two `u64` values. -/
def satMul (a b : ℕ) : ℕ := min (a * b) u128Max

/-- `u128::saturating_add`. -/
def satAdd (a b : ℕ) : ℕ := min (a + b) u128Max

/-- `PriceQuote::quote_cost_micro`: the four category numerators summed, then one ceiling
division by a million, clamped to `u64`. -/
def PriceQuote.quoteCostMicro (q : PriceQuote) (usage : TokenUsage) : ℕ :=
  let numerator :=
    satAdd (satAdd (satAdd (satMul q.input usage.uncachedInputTokens)
      (satMul q.cacheRead usage.cacheReadTokens))
      (satMul q.cacheWrite usage.cacheWriteTokens))
      (satMul q.output usage.outputTokens)
  min (satAdd numerator 999999 / 1000000) u64Max

/-- `PricingSnapshot`, the fields that settlement reads. -/
structure PricingSnapshot where
  quote : Option PriceQuote
  authority : PriceAuthority
  deriving DecidableEq, Repr

/-- `PricingSnapshot::settle_cost`. -/
def PricingSnapshot.settleCost (s : PricingSnapshot) (usage : TokenUsage) : Option ℕ :=
  if s.authority = .unknown then none
  else s.quote.map (fun q => q.quoteCostMicro usage)

/-- The `pricing_snapshot_json` text of a row: it parses to a snapshot, or it does not and
`parse_json` reports the row as corrupt. -/
inductive SnapshotJson
  | snapshot (s : PricingSnapshot)
  | unparsable
  deriving DecidableEq, Repr

/-! ## Errors -/

/-- The `StoreError` variants the ledger raises. -/
inductive StoreError
  | sqlite (message : String)
  | corrupt (messages : List String)
  | conflict (message : String)
  deriving DecidableEq, Repr

/-- `StoreResult` of a writer job: the transaction commits a new store only on `ok`; an error
drops it, which rolls everything back. -/
abbrev StoreResult (α : Type) := Except StoreError α

/-- `parse_json::<PricingSnapshot>` of a nullable column. -/
def parseSnapshot (context : String) : Option SnapshotJson → StoreResult (Option PricingSnapshot)
  | none => .ok none
  | some (.snapshot s) => .ok (some s)
  | some .unparsable => .error (.corrupt [context])

/-- `format!("reservation {reservation_id} pricing_snapshot_json")`. -/
def snapshotContext (reservationId : ℕ) : String :=
  s!"reservation {reservationId} pricing_snapshot_json"

/-! ## Rows -/

/-- The monetary columns of a task row.  `state` is `none` when the stored text is not a known
task state. -/
structure TaskRow where
  maxCostMicro : Option ℕ
  spentCostMicro : SqlNum
  state : Option TaskState
  deriving DecidableEq, Repr

/-- One `cost_reservation` row; its `reservation_id` is the table's rowid. -/
structure CostReservation where
  key : TaskKey
  opId : OpId
  attemptOpId : Option OpId
  parentOpId : Option OpId
  predictedMicro : ℕ
  status : ReservationStatus
  createdMs : ℤ
  settledMs : Option ℤ
  dispatchedMs : Option ℤ
  pricingSnapshotJson : Option SnapshotJson
  providerCostMicro : Option ℕ
  providerReportedMicro : Option ℕ
  routeDecisionJson : Option String
  requestId : Option String
  deliveryState : Option DeliveryState
  failureReasonCode : Option String
  costBasis : Option CostBasis
  providerReportedCostMicro : Option ℕ
  estimatedCostMicro : Option ℕ
  settledCostMicro : Option ℕ
  executionClass : Option ExecutionClass
  deriving DecidableEq, Repr

/-- `attempt_op_id.unwrap_or(op_id).to_string()`. -/
def CostReservation.attemptId (r : CostReservation) : String :=
  toString (r.attemptOpId.getD r.opId)

/-- One `provider_call` row; `tokens_in`/`tokens_out` are stored `as i64` and may be negative
after the cast.  `status` is free text. -/
structure ProviderCall where
  sessionId : SessionId
  opId : OpId
  attemptOpId : Option OpId
  reservationId : Option ℕ
  provider : String
  model : String
  status : String
  tokensIn : Option ℤ
  tokensOut : Option ℤ
  deriving DecidableEq, Repr

/-- `BillingPeriod`. -/
structure BillingPeriod where
  id : String
  startMs : ℤ
  endMs : ℤ
  deriving DecidableEq, Repr

/-- `BillingPeriod::unconfigured`. -/
def BillingPeriod.unconfigured : BillingPeriod := ⟨"all-time", 0, i64Max⟩

/-- `MAX_BILLING_PERIOD_MS`. -/
def maxBillingPeriodMs : ℤ := 10 * 366 * 24 * 60 * 60 * 1000

/-- `MAX_BILLING_PERIOD_ID_BYTES`. -/
def maxBillingPeriodIdBytes : ℕ := 64

/-- `i64::try_from` of an `i128`. -/
def fitsI64 (v : ℤ) : Bool := decide (-2 ^ 63 ≤ v ∧ v ≤ (i64Max : ℤ))

/-- `BillingPeriod::derive`. -/
def BillingPeriod.derive (anchorMs periodMs atMs : ℤ) : Option BillingPeriod :=
  if anchorMs < 0 ∨ periodMs ≤ 0 ∨ periodMs > maxBillingPeriodMs then none
  else
    let elapsed := atMs - anchorMs
    let index := if elapsed ≤ 0 then 0 else elapsed / periodMs
    let start := anchorMs + index * periodMs
    let stop := start + periodMs
    if fitsI64 start && fitsI64 stop then
      let id := s!"bp_{start}_{stop}"
      if id.utf8ByteSize > maxBillingPeriodIdBytes then none else some ⟨id, start, stop⟩
    else none

/-- `BillingPeriod::derive_or_unconfigured`. -/
def BillingPeriod.deriveOrUnconfigured (anchorMs : Option ℤ) (periodMs atMs : ℤ) :
    BillingPeriod :=
  (anchorMs.bind (fun anchor => BillingPeriod.derive anchor periodMs atMs)).getD .unconfigured

/-- The operation a settlement fact comes from (`source_operation`). -/
inductive SourceOperation
  | costSettle | costSettleUsage | costReconcileUncertain | costFinalizeUncertain
  deriving DecidableEq, Repr

/-- `BillingOutboxFact`. -/
structure BillingOutboxFact where
  reservationId : ℕ
  key : TaskKey
  attemptId : String
  provider : String
  model : String
  usage : TokenUsage
  reasoningTokens : ℕ
  providerCostMicro : ℕ
  providerReportedMicro : Option ℕ
  occurredAtMs : ℤ
  sourceOperation : SourceOperation
  deriving DecidableEq, Repr

/-- One `billing_outbox` row: the stored fact and its period.  The unique `idempotency_key` is
the text `reservation:<id>` of the fact's reservation id; `state` is always `settled`. -/
structure BillingOutboxRow where
  fact : BillingOutboxFact
  period : BillingPeriod
  deriving DecidableEq, Repr

/-! ## The store -/

/-- One candidate of a reconcile or finalize pass, prepared on the caller's thread. -/
structure Candidate where
  reservationId : ℕ
  attemptId : String
  deriving DecidableEq, Repr

/-- The durable tables the cost ledger touches. -/
structure Store where
  tasks : TaskKey → Option TaskRow
  reservations : RowTable CostReservation
  calls : RowTable ProviderCall
  outbox : RowTable BillingOutboxRow
  billingPeriodConfig : Option (ℤ × ℤ)

/-- `SELECT max_cost_micro > 0 FROM task …` read as a boolean: a missing row or a `NULL` cap
reads `false`. -/
def Store.hasCap (s : Store) (key : TaskKey) : Bool :=
  match s.tasks key with
  | some t => decide (0 < t.maxCostMicro.getD 0)
  | none => false

/-- The row an outbox insert stores: every count and amount clamped to `i64`. -/
def BillingOutboxFact.stored (f : BillingOutboxFact) : BillingOutboxFact :=
  { f with
    usage :=
      { uncachedInputTokens := clampI64 f.usage.uncachedInputTokens
        cacheReadTokens := clampI64 f.usage.cacheReadTokens
        cacheWriteTokens := clampI64 f.usage.cacheWriteTokens
        outputTokens := clampI64 f.usage.outputTokens }
    reasoningTokens := clampI64 f.reasoningTokens
    providerCostMicro := clampI64 f.providerCostMicro
    providerReportedMicro := f.providerReportedMicro.map clampI64 }

/-- The period of a fact under the stored `billing_period_config` row. -/
def Store.periodAt (s : Store) (atMs : ℤ) : BillingPeriod :=
  match s.billingPeriodConfig with
  | some (anchor, periodMs) => BillingPeriod.deriveOrUnconfigured (some anchor) periodMs atMs
  | none => .unconfigured

/-- `insert_billing_outbox_tx`: `INSERT OR IGNORE` on the unique idempotency key. -/
def Store.insertBillingOutbox (s : Store) (fact : BillingOutboxFact) : Store :=
  if s.outbox.rows.any (fun r => r.2.fact.reservationId == fact.reservationId) then s
  else { s with outbox := s.outbox.insert ⟨fact.stored, s.periodAt fact.occurredAtMs⟩ }

/-- `UPDATE task SET spent_cost_micro = spent_cost_micro + ?`: `none` when no row matches
(`n == 0`). -/
def Store.foldSpent (s : Store) (key : TaskKey) (amount : ℕ) : Option Store :=
  (s.tasks key).map fun t =>
    { s with
      tasks := Function.update s.tasks key
        (some { t with spentCostMicro := (sqlAdd t.spentCostMicro amount).store }) }

/-- `UPDATE cost_reservation SET … WHERE reservation_id = ?`. -/
def Store.updateReservation (s : Store) (id : ℕ) (f : CostReservation → CostReservation) : Store :=
  { s with reservations := s.reservations.update id f }

end CostLedger
