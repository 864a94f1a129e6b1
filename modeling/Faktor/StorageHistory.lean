/-
# The history of the storage ledger

The append-only history tables of the ledger (`ledger.rs`): loss markers, evictions and refusals,
with their lifetime counters, and `prune_history`, which keeps the newest rows of each table as
detail and compacts everything older into hourly aggregates.  A compacted loss marker leaves a
tombstone, which is what keeps a loss from being recorded twice.

Two places write loss markers: `record_loss_marker_on`, which looks at the detail rows and at the
tombstones, and the full scan, which looks at the detail rows alone.
-/
import Faktor.GroupTotals
import Faktor.RowTable
import Faktor.StorageLedger

namespace Storage

open Sqlite (i64Max SqlNum sqlAdd sqlSum bind_eq_ok)
open GroupTotals (groups group groupSum)

/-! ## Rows -/

/-- A row of `refusal`. -/
structure RefusalRow where
  storageClass : StorageClass
  requested : ℕ
  available : ℕ
  reason : String
  detail : String
  createdMs : ℤ
  deriving DecidableEq, Repr

/-- The history tables, by the tag their aggregates carry. -/
inductive HistoryKind
  | lossMarker | eviction | refusal
  deriving DecidableEq, Repr

/-- The key of an aggregate: kind, bucket, class and reason. -/
abbrev AggregateKey := HistoryKind × ℤ × StorageClass × String

/-- A row of `history_aggregate`. -/
structure AggregateRow where
  kind : HistoryKind
  bucketMs : ℤ
  storageClass : StorageClass
  reason : String
  /-- A number of rows, whose rowids are 64-bit integers, so it stays one. -/
  events : ℕ
  bytes : SqlNum
  deriving DecidableEq, Repr

def AggregateRow.key (a : AggregateRow) : AggregateKey :=
  (a.kind, a.bucketMs, a.storageClass, a.reason)

/-- The key under which a loss is recorded once. -/
abbrev LossKey := StorageClass × String × String

def LossRow.lossKey (r : LossRow) : LossKey := (r.storageClass, r.key, r.reason)

/-- The columns of a detail row that its aggregate is made of. -/
structure Detail where
  storageClass : StorageClass
  reason : String
  bytes : ℕ
  createdMs : ℤ

def LossRow.columns (r : LossRow) : Detail := ⟨r.storageClass, r.reason, r.bytes, r.createdMs⟩

def EvictionRow.columns (r : EvictionRow) : Detail :=
  ⟨r.storageClass, r.reason, r.bytes, r.createdMs⟩

/-- The bytes of a refusal are those requested. -/
def RefusalRow.columns (r : RefusalRow) : Detail :=
  ⟨r.storageClass, r.reason, r.requested, r.createdMs⟩

/-- `HISTORY_AGGREGATE_BUCKET_MS`. -/
def historyAggregateBucketMs : ℤ := 60 * 60 * 1000

/-- `(created_ms / ?2) * ?2`, an integer division that truncates. -/
def Detail.bucketMs (d : Detail) : ℤ :=
  d.createdMs.tdiv historyAggregateBucketMs * historyAggregateBucketMs

/-- The aggregate a detail row of a table goes to. -/
def Detail.aggregateKey (kind : HistoryKind) (d : Detail) : AggregateKey :=
  (kind, d.bucketMs, d.storageClass, d.reason)

/-! ## The tables -/

/-- The aggregates. -/
abbrev Aggregates := KeyTable AggregateRow.key

/-- The tombstones of compacted loss markers. -/
abbrev Tombstones := KeyTable LossRow.lossKey

/-- The history tables and their counters. -/
structure History where
  lossMarkers : RowTable LossRow
  evictions : RowTable EvictionRow
  refusals : RowTable RefusalRow
  aggregates : Aggregates
  lossTombstones : Tombstones
  lossMarkerCount : ℕ
  evictionCount : ℕ
  refusalCount : ℕ

/-- The history of a ledger that was just opened. -/
def History.fresh : History where
  lossMarkers := .empty
  evictions := .empty
  refusals := .empty
  aggregates := .empty
  lossTombstones := .empty
  lossMarkerCount := 0
  evictionCount := 0
  refusalCount := 0

/-- `INSERT` with an autoincrement rowid, which fails after the largest one. -/
def insertRow {D : Type} (t : RowTable D) (d : D) : Except GovernorError (RowTable D) :=
  if t.seq < i64Max then .ok (t.insert d) else .error (.constraint "database or disk is full")

theorem insertRow_eq_ok {D : Type} {t t' : RowTable D} {d : D} :
    insertRow t d = .ok t' ↔ t.seq < i64Max ∧ t' = t.insert d := by
  unfold insertRow
  split
  · next h => simp [h, eq_comm]
  · next h => simp [h]

/-! ## Recording -/

/-- The loss is among the detail rows. -/
def History.hasMarker (h : History) (k : LossKey) : Bool :=
  h.lossMarkers.rows.any fun r => r.2.lossKey = k

/-- The loss is among the tombstones. -/
def History.hasTombstone (h : History) (k : LossKey) : Bool := (h.lossTombstones.get? k).isSome

/-- The insert of a loss marker, with its counter. -/
def History.insertMarker (h : History) (row : LossRow) : Except GovernorError History := do
  let markers ← insertRow h.lossMarkers { row with bytes := toI64 row.bytes }
  return { h with lossMarkers := markers, lossMarkerCount := h.lossMarkerCount + 1 }

/-- `record_loss_marker_on`. -/
def History.recordLossMarkerOn (h : History) (row : LossRow) : Except GovernorError History :=
  if h.hasMarker row.lossKey || h.hasTombstone row.lossKey then .ok h else h.insertMarker row

/-- The loss marker of an archive object that a full scan misses; the tombstones are not asked. -/
def History.recordMissingOn (h : History) (row : LossRow) : Except GovernorError History :=
  if h.hasMarker row.lossKey then .ok h else h.insertMarker row

/-- `Ledger::record_eviction`. -/
def History.recordEviction (h : History) (row : EvictionRow) : Except GovernorError History := do
  let evictions ← insertRow h.evictions { row with bytes := toI64 row.bytes }
  return { h with evictions := evictions, evictionCount := h.evictionCount + 1 }

/-- The loss marker of the object that an eviction removed. -/
def EvictionRow.lossRow (row : EvictionRow) : LossRow where
  storageClass := row.storageClass
  key := row.key
  digest := row.digest
  bytes := row.bytes
  reason := "archive_evicted"
  createdMs := row.createdMs

/-- `Ledger::remove_object_and_record_eviction`, as far as it writes history. -/
def History.recordRemoval (h : History) (row : EvictionRow) : Except GovernorError History := do
  let evicted ← h.recordEviction row
  if row.storageClass.requiresLossMarker then evicted.recordLossMarkerOn row.lossRow
  else return evicted

/-- `Ledger::record_refusal`. -/
def History.recordRefusal (h : History) (row : RefusalRow) : Except GovernorError History := do
  let refusals ← insertRow h.refusals
    { row with requested := toI64 row.requested, available := toI64 row.available }
  return { h with refusals := refusals, refusalCount := h.refusalCount + 1 }

/-- The marker of an object that a full scan misses. -/
def missingMarker (now : ℤ) (row : ObjectRow) : LossRow where
  storageClass := row.storageClass
  key := row.key
  digest := row.digest
  bytes := row.bytes
  reason := "missing_on_reconcile"
  createdMs := now

/-- `Ledger::set_inventory_scanned_at`, as far as it writes history: the objects of the class that
the scan misses, if the class is an archive. -/
def History.recordMissing (h : History) (c : StorageClass) (now : ℤ) (missing : List ObjectRow) :
    Except GovernorError History :=
  if c.requiresLossMarker then
    missing.foldlM (fun h row => h.recordMissingOn (missingMarker now row)) h
  else .ok h

/-! ## Pruning -/

/-- `ON CONFLICT(kind, bucket_ms, class, reason) DO UPDATE`: events and bytes are added. -/
def upsertAggregate (aggregates : Aggregates) (k : AggregateKey) (events bytes : ℕ) : Aggregates :=
  match aggregates.insert? ⟨k.1, k.2.1, k.2.2.1, k.2.2.2, events, .int bytes⟩ with
  | some inserted => inserted
  | none => aggregates.modify k
      (fun a => { a with events := a.events + events, bytes := (sqlAdd a.bytes bytes).store })
      (fun _ => rfl)

/-- The aggregates after one group of a batch; its `SUM` fails when it overflows. -/
def compactGroup (kind : HistoryKind) (batch : List Detail) (aggregates : Aggregates)
    (k : AggregateKey) : Except GovernorError Aggregates :=
  match sqlSum ((group (Detail.aggregateKey kind) batch k).map Detail.bytes) with
  | none => .error (.constraint "integer overflow")
  | some bytes =>
    .ok (upsertAggregate aggregates k (groupSum (Detail.aggregateKey kind) (fun _ => 1) batch k)
      bytes)

/-- `INSERT INTO history_aggregate … SELECT … GROUP BY class, reason, bucket`. -/
def compactBatch (kind : HistoryKind) (batch : List Detail) (aggregates : Aggregates) :
    Except GovernorError Aggregates :=
  (groups (Detail.aggregateKey kind) batch).foldlM (compactGroup kind batch) aggregates

/-- `INSERT OR IGNORE INTO loss_tombstone`: a tombstone has the time of the compaction. -/
def buryMarker (now : ℤ) (tombstones : Tombstones) (row : LossRow) : Tombstones :=
  (tombstones.insert? { row with createdMs := now }).getD tombstones

/-- What the pruning of one table touches: its rows, the aggregates and the tombstones. -/
structure KindTables (D : Type) where
  rows : RowTable D
  aggregates : Aggregates
  tombstones : Tombstones

/-- What tells the three tables apart: the tag of the aggregates, the columns they are made of, and
what becomes of the tombstones. -/
structure KindSpec (D : Type) where
  kind : HistoryKind
  columns : D → Detail
  bury : Tombstones → D → Tombstones

/-- `PRUNE_BATCH_ROWS`. -/
def pruneBatchRows : ℕ := 4096

section Prune

variable {D : Type}

/-- `COALESCE(MAX(id), 0)`. -/
def maxId (t : RowTable D) : ℕ := (t.rows.getLast?.map Prod.fst).getD 0

/-- `MAX(id)` of the first rows up to the cutoff, as many as a batch takes. -/
def batchMax (t : RowTable D) (cutoff : ℕ) : Option ℕ :=
  (((t.select fun id _ => id ≤ cutoff).take pruneBatchRows).getLast?).map Prod.fst

/-- One batch: the rows up to `id` are aggregated, buried and deleted in one transaction. -/
def pruneBatch (spec : KindSpec D) (t : KindTables D) (id : ℕ) :
    Except GovernorError (ℕ × KindTables D) := do
  let batch := t.rows.select fun i _ => i ≤ id
  let aggregates ← compactBatch spec.kind (batch.map fun r => spec.columns r.2) t.aggregates
  return (batch.length,
    { rows := t.rows.deleteWhere fun i _ => i ≤ id
      aggregates := aggregates
      tombstones := batch.foldl (fun tombstones r => spec.bury tombstones r.2) t.tombstones })

/-- The loop of `prune_history_kind`, with fuel; a failed batch leaves the batches before it. -/
def pruneLoop (spec : KindSpec D) (keep : ℕ) :
    ℕ → ℕ → KindTables D → Option (KindTables D × Except GovernorError ℕ)
  | 0, _, _ => none
  | fuel + 1, compacted, t =>
    -- `count ≤ max_id`, so the subtraction below neither saturates nor goes under zero
    if maxId t.rows = 0 ∨ t.rows.rows.length ≤ keep then some (t, .ok compacted)
    else match batchMax t.rows (maxId t.rows - keep) with
      | none => some (t, .ok compacted)
      | some id =>
        match pruneBatch spec t id with
        | .error e => some (t, .error e)
        | .ok (deleted, t') =>
          if deleted = 0 then some (t', .ok (compacted + deleted))
          else pruneLoop spec keep fuel (compacted + deleted) t'

/-- `prune_history_kind`; `none` stands for a loop that does not end. -/
def pruneHistoryKind (spec : KindSpec D) (detailKeep : ℕ) (t : KindTables D) :
    Option (KindTables D × Except GovernorError ℕ) :=
  pruneLoop spec (min detailKeep i64Max) (t.rows.rows.length + 1) 0 t

end Prune

/-- The three tables. -/
def lossSpec (now : ℤ) : KindSpec LossRow := ⟨.lossMarker, LossRow.columns, buryMarker now⟩

def evictionSpec : KindSpec EvictionRow := ⟨.eviction, EvictionRow.columns, fun t _ => t⟩

def refusalSpec : KindSpec RefusalRow := ⟨.refusal, RefusalRow.columns, fun t _ => t⟩

/-- `Ledger::prune_history` without the vacuum: the history it leaves and what it returns; the
first table that fails ends it. -/
def History.pruneHistory (h : History) (detailKeep : ℕ) (now : ℤ) :
    Option (History × Except GovernorError ℕ) := do
  let (losses, lost) ← pruneHistoryKind (lossSpec now) detailKeep
    ⟨h.lossMarkers, h.aggregates, h.lossTombstones⟩
  let h := { h with lossMarkers := losses.rows, aggregates := losses.aggregates,
                    lossTombstones := losses.tombstones }
  match lost with
  | .error e => return (h, .error e)
  | .ok lost =>
    let (evictions, evicted) ← pruneHistoryKind evictionSpec detailKeep
      ⟨h.evictions, h.aggregates, h.lossTombstones⟩
    let h := { h with evictions := evictions.rows, aggregates := evictions.aggregates }
    match evicted with
    | .error e => return (h, .error e)
    | .ok evicted =>
      let (refusals, refused) ← pruneHistoryKind refusalSpec detailKeep
        ⟨h.refusals, h.aggregates, h.lossTombstones⟩
      let h := { h with refusals := refusals.rows, aggregates := refusals.aggregates }
      match refused with
      | .error e => return (h, .error e)
      | .ok refused => return (h, .ok (lost + evicted + refused))

/-! ## Runs -/

/-- What happens to the history. -/
inductive HistoryOp
  | loss (row : LossRow)
  | eviction (row : EvictionRow)
  | removal (row : EvictionRow)
  | refusal (row : RefusalRow)
  | reconcile (storageClass : StorageClass) (now : ℤ) (missing : List ObjectRow)
  | prune (detailKeep : ℕ) (now : ℤ)

/-- A transaction that fails leaves the history as it was. -/
def History.commit (h : History) (result : Except GovernorError History) : History :=
  match result with
  | .ok h' => h'
  | .error _ => h

/-- One operation. -/
def History.step (h : History) : HistoryOp → History
  | .loss row => h.commit (h.recordLossMarkerOn row)
  | .eviction row => h.commit (h.recordEviction row)
  | .removal row => h.commit (h.recordRemoval row)
  | .refusal row => h.commit (h.recordRefusal row)
  | .reconcile c now missing => h.commit (h.recordMissing c now missing)
  | .prune keep now =>
    match h.pruneHistory keep now with
    | some (h', _) => h'
    | none => h

/-- A run. -/
def History.run (h : History) (ops : List HistoryOp) : History := ops.foldl History.step h

end Storage
