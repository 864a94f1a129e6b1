/-
# The typed session ledger

The typed durable ledger of one session (`session/src/ledger/mod.rs` over the `ledger_entry` and
`ledger_head` tables of the store crate): an append-only stream of entries, a materialized head
that folds a prefix of it, and the compaction that deletes entries the head has folded.

A row is modelled decoded: the store's JSON columns are the typed values they encode.  The sizes of
the serialized values (`json_bytes`) are the parameters `JsonBytes`.  The columns of nested records
that no function here reads are kept as one text, `rest`.
-/
import Mathlib

namespace TypedLedger

/-! ## Entries -/

/-- `LedgerCheckRun`, as its JSON text. -/
abbrev LedgerCheckRun := String

/-- `PresentationState`. -/
inductive PresentationState
  | foreground | background
  deriving DecidableEq, Repr

/-- `EditTxnLedgerFile`. -/
structure EditTxnLedgerFile where
  path : String
  baseDigest : String
  baseBytesLen : ℕ
  deriving DecidableEq, Repr

/-- `IntegrationRecordRow`. -/
structure IntegrationRecordRow where
  taskId : ℕ
  rest : String
  deriving DecidableEq, Repr

/-- `RunBaseRecord`. -/
structure RunBaseRecord where
  runId : String
  rest : String
  deriving DecidableEq, Repr

/-- `VerifiedGitArtifact`. -/
structure VerifiedGitArtifact where
  taskId : ℕ
  revision : ℕ
  rest : String
  deriving DecidableEq, Repr

/-- `IntegrationTxnRow`. -/
structure IntegrationTxnRow where
  runId : String
  rest : String
  deriving DecidableEq, Repr

/-- `ExternalOperationRow`. -/
structure ExternalOperationRow where
  operationKey : String
  rest : String
  deriving DecidableEq, Repr

/-- `TerminalDurableRow`, as its JSON text. -/
abbrev TerminalDurableRow := String

/-- `LedgerPayload`. -/
inductive LedgerPayload
  | goalSet (goal : String) (taskId revision : Option ℕ)
  | criteriaSet (criteria : List String) (canonical : String)
  | blockerOpened (reason : String)
  | blockerResolved (reason : String)
  | decision (step choice rationale : String)
  | planStepAdded (stepIndex : ℕ) (text : String) (parentIndex : Option ℕ)
  | childAgentStarted (agentId taskId worktreeId : ℕ) (purpose : String)
  | childAgentFinished (agentId : ℕ) (outcome : String)
  | routingDecision (turn : ℕ) (provider model reasoning : String) (costMicro : ℕ)
  | epochBumped (fromEpoch : Option ℕ) (toEpoch : ℕ)
  | failureRecorded (failure : String)
  | verifyRun (checks : List LedgerCheckRun) (outcome : String)
  | turnCompleted (turn : ℕ)
  | learningRecord (record payload : String)
  | editTxnPrepared (txnId : ℕ) (session : String) (files : List EditTxnLedgerFile)
      (strategy : String)
  | editTxnProgress (txnId seq : ℕ) (path outcome : String)
  | editTxnCommitted (txnId : ℕ) (committed conflicted skipped : List String)
  | editTxnRolledBack (txnId : ℕ) (rolledBack rollbackConflicts : List String)
  | tournamentStarted (tournamentId rest : String)
  | candidateSettled (tournamentId rest : String)
  | tournamentDecided (tournamentId : String) (winner : Option String) (outcome rationale : String)
  | childPresentationChanged (childId : String) (fromState toState : PresentationState) (atMs : ℤ)
  | boardPost (boardId postId : ℕ) (authorChild : Option ℕ) (authorSession : ℕ)
      (subject body : String) (refs : List String) (revision : ℕ)
  | boardRead (boardId child postId : ℕ)
  | boardReceipt (boardId : ℕ) (child : Option ℕ) (postId : ℕ) (action note : String)
  | boardReset (boardId previousRevision newRevision : ℕ)
  | completionContractSet (taskId revision : ℕ) (contract : String)
  | completionStepStatus (taskId revision : ℕ) (step status detail : String)
      (snapshot : Option String) (atMs : ℤ)
  | integrationRecorded (record : IntegrationRecordRow)
  | runBaseRecorded (record : RunBaseRecord)
  | verifiedGitArtifactRecorded (artifact : VerifiedGitArtifact)
  | integrationTxnRecorded (row : IntegrationTxnRow)
  | externalOperationRecorded (record : ExternalOperationRow)
  | terminalCreated (row : TerminalDurableRow)
  | terminalRunning (row : TerminalDurableRow)
  | terminalExited (row : TerminalDurableRow) (exitCode : Option ℤ)
  | terminalKilled (row : TerminalDurableRow) (reason : String)
  | terminalLost (row : TerminalDurableRow) (reason : String)
  | terminalReconciled (row : TerminalDurableRow) (disposition : String)
  deriving DecidableEq, Repr

/-- `TypedLedgerEntry`: a decoded row of `ledger_entry`. -/
structure LedgerEntry where
  seq : ℕ
  payload : LedgerPayload
  createdMs : ℤ
  deriving DecidableEq, Repr

/-! ## The head and its fold -/

structure LedgerDecision where
  step : String
  choice : String
  rationale : String
  deriving DecidableEq, Repr

structure LedgerPlanStep where
  stepIndex : ℕ
  text : String
  parentIndex : Option ℕ
  deriving DecidableEq, Repr

structure LedgerChild where
  agentId : ℕ
  taskId : ℕ
  worktreeId : ℕ
  purpose : String
  outcome : Option String
  deriving DecidableEq, Repr

structure LedgerRouting where
  turn : ℕ
  provider : String
  model : String
  reasoning : String
  costMicro : ℕ
  deriving DecidableEq, Repr

structure LedgerVerifySummary where
  checks : List LedgerCheckRun
  outcome : String
  deriving DecidableEq, Repr

/-- `LedgerHead`.  The schema version is constant and left out; the presentation map is the list
of its entries. -/
structure LedgerHead where
  goal : String := ""
  goalTaskId : Option ℕ := none
  goalRevision : Option ℕ := none
  criteria : List String := []
  canonicalCriteria : String := ""
  openBlockers : List String := []
  decisions : List LedgerDecision := []
  planSteps : List LedgerPlanStep := []
  children : List LedgerChild := []
  routingCount : ℕ := 0
  routingTail : List LedgerRouting := []
  epoch : Option ℕ := none
  lastVerify : Option LedgerVerifySummary := none
  boardRevision : ℕ := 0
  presentations : List (String × PresentationState) := []
  checkpointSeq : ℕ := 0
  deriving DecidableEq, Repr

def maxLedgerOpenBlockers : ℕ := 256
def maxLedgerRoutingTail : ℕ := 128

/-- Replace the first element that satisfies `p`, or do `otherwise`. -/
def replaceFirst {α : Type} (p : α → Bool) (f : α → α) (otherwise : List α → List α)
    (l : List α) : List α :=
  match l.findIdx? p with
  | some i => l.modify i f
  | none => otherwise l

/-- `BTreeMap::insert` on the list of a map's entries. -/
def mapInsert (key : String) (value : PresentationState) :
    List (String × PresentationState) → List (String × PresentationState)
  | [] => [(key, value)]
  | (k, v) :: rest =>
    if key < k then (key, value) :: (k, v) :: rest
    else if key = k then (key, value) :: rest
    else (k, v) :: mapInsert key value rest

/-- `fold`. -/
def fold (head : LedgerHead) : LedgerPayload → LedgerHead
  | .goalSet goal taskId revision =>
    { head with goal := goal, goalTaskId := taskId, goalRevision := revision }
  | .criteriaSet criteria canonical =>
    { head with criteria := criteria, canonicalCriteria := canonical }
  | .blockerOpened reason =>
    if head.openBlockers.any (· == reason) then head
    else { head with openBlockers := head.openBlockers ++ [reason] }
  | .blockerResolved reason =>
    { head with openBlockers := head.openBlockers.filter (· != reason) }
  | .decision step choice rationale =>
    let entry := ⟨step, choice, rationale⟩
    if head.decisions.head? = some entry then head
    else { head with decisions := (entry :: head.decisions).take maxLedgerOpenBlockers }
  | .planStepAdded stepIndex text parentIndex =>
    let row : LedgerPlanStep := ⟨stepIndex, text, parentIndex⟩
    { head with
      planSteps := replaceFirst (·.stepIndex == stepIndex) (fun _ => row)
        (fun l => (l ++ [row]).insertionSort (·.stepIndex ≤ ·.stepIndex)) head.planSteps }
  | .childAgentStarted agentId taskId worktreeId purpose =>
    let row : LedgerChild := ⟨agentId, taskId, worktreeId, purpose, none⟩
    { head with
      children := replaceFirst (·.agentId == agentId) (fun _ => row) (· ++ [row]) head.children }
  | .childAgentFinished agentId outcome =>
    { head with
      children := replaceFirst (fun c => c.agentId == agentId && c.outcome.isNone)
        (fun c => { c with outcome := some outcome }) id head.children }
  | .routingDecision turn provider model reasoning costMicro =>
    let tail := head.routingTail ++ [⟨turn, provider, model, reasoning, costMicro⟩]
    { head with
      routingCount := min (head.routingCount + 1) (2 ^ 64 - 1)
      routingTail := if maxLedgerRoutingTail < tail.length then tail.tail else tail }
  | .epochBumped _ toEpoch => { head with epoch := some toEpoch }
  | .verifyRun checks outcome => { head with lastVerify := some ⟨checks, outcome⟩ }
  | .childPresentationChanged childId _ toState _ =>
    { head with presentations := mapInsert childId toState head.presentations }
  | .boardPost _ _ _ _ _ _ _ revision =>
    { head with boardRevision := max head.boardRevision revision }
  | .boardReset _ _ newRevision =>
    { head with boardRevision := max head.boardRevision newRevision }
  | .failureRecorded _ | .turnCompleted _ | .learningRecord _ _
  | .editTxnPrepared _ _ _ _ | .editTxnProgress _ _ _ _ | .editTxnCommitted _ _ _ _
  | .editTxnRolledBack _ _ _ | .tournamentStarted _ _ | .candidateSettled _ _
  | .tournamentDecided _ _ _ _ | .boardRead _ _ _ | .boardReceipt _ _ _ _ _
  | .completionContractSet _ _ _ | .completionStepStatus _ _ _ _ _ _ _
  | .integrationRecorded _ | .runBaseRecorded _ | .integrationTxnRecorded _
  | .verifiedGitArtifactRecorded _ | .externalOperationRecorded _
  | .terminalCreated _ | .terminalRunning _ | .terminalExited _ _ | .terminalKilled _ _
  | .terminalLost _ _ | .terminalReconciled _ _ => head

/-- One entry of `fold_entries`: the fold, then the checkpoint. -/
def foldEntry (head : LedgerHead) (e : LedgerEntry) : LedgerHead :=
  { fold head e.payload with checkpointSeq := e.seq }

/-- `fold_entries`. -/
def foldEntries (head : LedgerHead) (entries : List LedgerEntry) : LedgerHead :=
  entries.foldl foldEntry head

/-! ## The tables -/

/-- A row of `ledger_head`: the head, and the checkpoint column written next to it. -/
structure HeadRow where
  head : LedgerHead
  checkpointSeq : ℕ
  deriving DecidableEq, Repr

/-- The `ledger_entry` rows of the session in key order, and its `ledger_head` row. -/
structure LedgerStore where
  entries : List LedgerEntry
  head : Option HeadRow
  deriving DecidableEq, Repr

/-- `SELECT COALESCE(MAX(seq), 0) FROM ledger_entry`. -/
def LedgerStore.ledgerMaxSeq (s : LedgerStore) : ℕ := (s.entries.map (·.seq)).foldl max 0

/-- `ledger_entries(after_seq, u64::MAX)`. -/
def LedgerStore.ledgerEntries (s : LedgerStore) : Option ℕ → List LedgerEntry
  | some after => s.entries.filter fun e => after < e.seq
  | none => s.entries

/-- `SELECT COALESCE(MAX(checkpoint_seq), 0) FROM ledger_head`. -/
def LedgerStore.checkpointColumn (s : LedgerStore) : ℕ :=
  match s.head with
  | some row => row.checkpointSeq
  | none => 0

/-- The errors of the ledger calls. -/
inductive LedgerError
  | oversized (message : String)
  | corrupt (message : String)
  | malformed (message : String)
  | conflict (message : String)
  deriving DecidableEq, Repr

/-- `append_ledger_entry`: the next sequence number is above the newest entry and above the
checkpoint column. -/
def LedgerStore.appendLedgerEntry (s : LedgerStore) (payload : LedgerPayload) (now : ℤ) :
    Except LedgerError (ℕ × LedgerStore) :=
  let highWater := max s.ledgerMaxSeq s.checkpointColumn
  if highWater + 1 < 2 ^ 63 then
    .ok (highWater + 1, { s with entries := s.entries ++ [⟨highWater + 1, payload, now⟩] })
  else .error (.corrupt "typed ledger sequence exhausted SQLite signed range")

/-- `put_ledger_head`. -/
def LedgerStore.putLedgerHead (s : LedgerStore) (head : LedgerHead) (checkpointSeq : ℕ) :
    LedgerStore :=
  { s with head := some ⟨head, checkpointSeq⟩ }

/-- `compact_ledger`: one transaction deletes every entry below `belowSeq` outside `protect` and
rewrites the head. -/
def LedgerStore.compactLedger (s : LedgerStore) (belowSeq : ℕ) (protect : List ℕ)
    (head : LedgerHead) (checkpointSeq : ℕ) : LedgerStore :=
  { entries := s.entries.filter fun e => !(e.seq < belowSeq && !protect.contains e.seq)
    head := some ⟨head, checkpointSeq⟩ }

/-! ## Bounds on serialized sizes -/

/-- `json_bytes` of a payload and of a head: the serializer is not part of the model. -/
structure JsonBytes where
  payload : LedgerPayload → ℕ
  head : LedgerHead → ℕ

def maxLedgerEntryBytes : ℕ := 16 * 1024
def maxLedgerHeadBytes : ℕ := 2 ^ 20

variable (bytes : JsonBytes)

/-- `check_payload_bytes`. -/
def checkPayloadBytes (payload : LedgerPayload) : Except LedgerError Unit :=
  if maxLedgerEntryBytes < bytes.payload payload then
    .error (.oversized s!"ledger entry payload of {bytes.payload payload} bytes exceeds MAX_LEDGER_ENTRY_BYTES")
  else .ok ()

/-- `head_to_value`. -/
def headToValue (head : LedgerHead) : Except LedgerError LedgerHead :=
  if maxLedgerHeadBytes < bytes.head head then
    .error (.oversized (s!"ledger head of {bytes.head head} bytes exceeds MAX_LEDGER_HEAD_BYTES; " ++
      "the ledger cannot be compacted to a larger head"))
  else .ok head

/-- `append_entry`: the typed append tail every appender goes through. -/
def LedgerStore.appendEntry (s : LedgerStore) (payload : LedgerPayload) (now : ℤ) :
    Except LedgerError (ℕ × LedgerStore) := do
  checkPayloadBytes bytes payload
  s.appendLedgerEntry payload now

/-! ## The refresh of the head -/

/-- The head a refresh starts from: the stored one, or the empty one. -/
def LedgerStore.baseHead (s : LedgerStore) : LedgerHead :=
  match s.head with
  | some row => row.head
  | none => {}

/-- The cursor a refresh reads entries after. -/
def LedgerStore.cursor (s : LedgerStore) : Option ℕ := s.head.map (·.head.checkpointSeq)

/-- `stale` of `ledger_ensure_head`. -/
def stale (cursor : Option ℕ) (maxSeq : ℕ) : Bool :=
  match cursor with
  | some checkpoint => checkpoint < maxSeq
  | none => 0 < maxSeq

/-- `ledger_ensure_head`: fold the entries above the stored head's checkpoint onto it and store
the result. -/
def ledgerEnsureHead (s : LedgerStore) : Except LedgerError LedgerHead × LedgerStore :=
  if stale s.cursor s.ledgerMaxSeq then
    let head := foldEntries s.baseHead (s.ledgerEntries s.cursor)
    match headToValue bytes head with
    | .error e => (.error e, s)
    | .ok value => (.ok value, s.putLedgerHead value value.checkpointSeq)
  else (.ok s.baseHead, s)

/-! ## Compaction -/

/-- The kinds every row of which is pinned. -/
def LedgerPayload.pinnedKind : LedgerPayload → Bool
  | .learningRecord _ _
  | .tournamentStarted _ _ | .candidateSettled _ _ | .tournamentDecided _ _ _ _
  | .boardPost _ _ _ _ _ _ _ _ | .boardRead _ _ _ | .boardReceipt _ _ _ _ _ | .boardReset _ _ _
  | .completionContractSet _ _ _ | .completionStepStatus _ _ _ _ _ _ _
  | .integrationRecorded _
  | .runBaseRecorded _ | .integrationTxnRecorded _
  | .externalOperationRecorded _
  | .terminalCreated _ | .terminalRunning _ | .terminalExited _ _ | .terminalKilled _ _
  | .terminalLost _ _ | .terminalReconciled _ _ => true
  | _ => false

/-- The kinds of which the last row is pinned. -/
inductive LastKind
  | goalSet | criteriaSet | decision
  deriving DecidableEq, Repr

/-- The kind a row counts as in the `last` map. -/
def LedgerPayload.lastKind? : LedgerPayload → Option LastKind
  | .goalSet _ _ _ => some .goalSet
  | .criteriaSet _ _ => some .criteriaSet
  | .decision _ _ _ => some .decision
  | _ => none

/-- The row of the `last` map under a kind. -/
def lastOf (entries : List LedgerEntry) (kind : LastKind) : Option ℕ :=
  ((entries.filter fun e => e.payload.lastKind? = some kind).getLast?).map (·.seq)

/-- A `BlockerOpened` row whose blocker the head still has open. -/
def LedgerPayload.opensBlocker (head : LedgerHead) : LedgerPayload → Bool
  | .blockerOpened reason => head.openBlockers.any (· == reason)
  | _ => false

/-- The transaction a `prepared` row opens. -/
def LedgerPayload.preparedId? : LedgerPayload → Option ℕ
  | .editTxnPrepared txnId _ _ _ => some txnId
  | _ => none

/-- The transaction a terminal row closes. -/
def LedgerPayload.terminalId? : LedgerPayload → Option ℕ
  | .editTxnCommitted txnId _ _ _ => some txnId
  | .editTxnRolledBack txnId _ _ => some txnId
  | _ => none

/-- The transaction a `prepared` or `progress` row belongs to. -/
def LedgerPayload.editTxnId? : LedgerPayload → Option ℕ
  | .editTxnPrepared txnId _ _ _ => some txnId
  | .editTxnProgress txnId _ _ _ => some txnId
  | _ => none

/-- An open edit transaction: a prepared row and no terminal row. -/
def openEditTxn (entries : List LedgerEntry) (txnId : ℕ) : Bool :=
  entries.any (fun e => e.payload.preparedId? = some txnId) &&
    !entries.any (fun e => e.payload.terminalId? = some txnId)

/-- A `prepared` or `progress` row of an open edit transaction. -/
def openEditRow (entries : List LedgerEntry) (e : LedgerEntry) : Bool :=
  e.payload.editTxnId?.any (openEditTxn entries)

/-- The pinned never-evict set of `compact_typed_ledger`, sorted and deduplicated. -/
def pinnedSeqs (entries : List LedgerEntry) (head : LedgerHead) : List ℕ :=
  (((entries.filter (openEditRow entries)).map (·.seq) ++
    (lastOf entries .criteriaSet).toList ++ (lastOf entries .decision).toList ++
    (lastOf entries .goalSet).toList ++
    (entries.filter (·.payload.opensBlocker head)).map (·.seq) ++
    (entries.filter (·.payload.pinnedKind)).map (·.seq)).insertionSort (· ≤ ·)).dedup

/-- `LedgerCompactReport`. -/
structure LedgerCompactReport where
  entriesBefore : ℕ
  deleted : ℕ
  kept : ℕ
  pinned : List ℕ
  checkpointSeq : ℕ
  deriving DecidableEq, Repr

/-- `compact_typed_ledger`. -/
def compactTypedLedger (s : LedgerStore) : Except LedgerError LedgerCompactReport × LedgerStore :=
  match s.entries.getLast? with
  | none => (.ok ⟨0, 0, 0, [], 0⟩, s)
  | some last =>
    match ledgerEnsureHead bytes s with
    | (.error e, s₁) => (.error e, s₁)
    | (.ok refreshed, s₁) =>
      let head :=
        if refreshed.checkpointSeq < last.seq then
          foldEntries refreshed (s₁.ledgerEntries (some refreshed.checkpointSeq))
        else refreshed
      let pinned := pinnedSeqs s.entries head
      match headToValue bytes head with
      | .error e => (.error e, s₁)
      | .ok value =>
        let s₂ := s₁.compactLedger (last.seq + 1) pinned value last.seq
        let deleted := s₁.entries.length - s₂.entries.length
        (.ok ⟨s.entries.length, deleted, s.entries.length - deleted, pinned, last.seq⟩, s₂)

end TypedLedger
