/-
# The durable state of one session and the transactions over it

The rows the store keeps for one session and every transaction the session layer calls, each as a
function of the tables: what it replies and the tables it leaves.  A transaction that is refused
leaves the tables as they were, with one exception in the source: `resolvePermissionAndEvent`
commits the expiry of a row before it refuses to resolve it.

Every table is a list in primary-key order, so `ORDER BY … LIMIT 1` is the first or the last row
that matches.
-/
import Faktor.SessionJournal

namespace Session

/-! ## Rows -/

/-- A text column that holds JSON, as a reader decodes it. -/
inductive Column (α : Type)
  | valid (a : α)
  | corrupt
  deriving DecidableEq, Repr

/-- The session row. -/
structure SessionRow where
  id : ℕ
  workspaceId : ℕ
  worktreeId : ℕ
  state : AgentState
  lifecycle : SessionLifecycle
  updatedMs : ℤ
  deriving DecidableEq, Repr

/-- The `decision` column of a permission. -/
inductive Decision
  | pending
  | allow
  | deny
  | expired
  deriving DecidableEq, Repr

structure PermissionRow where
  id : ℕ
  opId : ℕ
  decision : Decision
  resolvedMs : Option ℤ
  expiresMs : ℤ
  deriving DecidableEq, Repr

/-- The `status` column of a tool run. -/
inductive ToolStatus
  | running
  | completed
  | failed
  | cancelled
  | interrupted
  deriving DecidableEq, Repr

inductive EffectStatus
  | unknown
  | verified
  | applied
  | failed
  deriving DecidableEq, Repr

/-- A content digest. -/
abbrev FileHash := ℕ

/-- What to do with an unfinished operation after a crash. -/
inductive RecoveryStrategy
  | verifyHash (path : String) (expected : FileHash)
  | markUnknown
  | idempotent
  | manual
  | noAction
  deriving DecidableEq, Repr

/-- The workspace write a tool declared. -/
structure FilePostcondition where
  workspaceId : ℕ
  worktreeId : ℕ
  relativePath : String
  expectedHash : FileHash
  deriving DecidableEq, Repr

structure ToolRunRow where
  opId : ℕ
  tool : String
  status : ToolStatus
  effect : EffectStatus
  recovery : Column RecoveryStrategy
  expectedHash : Option FileHash
  postcondition : Option (Column FilePostcondition)
  deriving DecidableEq, Repr

/-- The `status` column of a logical turn. -/
inductive TurnStatus
  | active
  | completed
  | cancelled
  | failed
  deriving DecidableEq, Repr

structure TurnRecordRow where
  turnOpId : ℕ
  queueSeq : Option ℕ
  promptMessageId : Option ℕ
  startedAt : ℤ
  status : TurnStatus
  deriving DecidableEq, Repr

/-- The `status` column of a queued prompt. -/
inductive QueueStatus
  | pending
  | claimed
  | running
  | done
  | cancelled
  deriving DecidableEq, Repr

structure QueuedPrompt where
  queueSeq : ℕ
  opId : ℕ
  prompt : String
  files : List String
  status : QueueStatus
  deriving DecidableEq, Repr

inductive Role
  | user
  | assistant
  | system
  deriving DecidableEq, Repr

inductive PartKind
  | text
  | reasoning
  | summary
  | toolCall
  | toolResult
  deriving DecidableEq, Repr

/-- A part of a message; `toolCallId` is empty where the part names no call. -/
structure PartRow where
  kind : PartKind
  toolCallId : String
  deriving DecidableEq, Repr

/-- A message with its parts.  `materialized` is a history field, not a column: the queue row
whose admission inserted the message. -/
structure MessageRow where
  seq : ℕ
  role : Role
  text : String
  parts : List PartRow
  materialized : Option ℕ
  deriving DecidableEq, Repr

/-- The rows of one session. -/
structure Db where
  row : SessionRow
  events : List Event
  permissions : List PermissionRow
  toolRuns : List ToolRunRow
  turnRecords : List TurnRecordRow
  queue : List QueuedPrompt
  messages : List MessageRow
  checkpoints : List ℕ
  deriving DecidableEq, Repr

/-! ## Refusals and transactions -/

/-- The store's refusals that a session command can meet. -/
inductive StoreError
  | conflict (message : String)
  | corrupt (problems : List String)
  | migration (message : String)
  | constraintFailed (message : String)
  deriving DecidableEq, Repr

/-- `map_store_err`. -/
def mapStoreErr : StoreError → SessionError
  | .conflict message => .conflict message
  | .constraintFailed message => .conflict s!"store constraint violation: {message}"
  | .corrupt problems => .store s!"store is corrupted: integrity check failed with {problems}"
  | .migration message => .store s!"migration failed: {message}"

/-- A transaction: its tables are kept when it commits and dropped when it is refused. -/
def transaction {α : Type} (db : Db) (body : Except StoreError (α × Db)) :
    Except StoreError α × Db :=
  match body with
  | .ok (a, db') => (.ok a, db')
  | .error e => (.error e, db)

/-- `i64::MAX`, the largest value of an INTEGER column. -/
def i64Max : ℕ := 2 ^ 63 - 1

/-- The sequence number of the newest event; 0 when there is none. -/
def lastSeq (events : List Event) : ℕ :=
  (events.getLast?.map Event.seq).getD 0

/-- `JournalInvariants::monotonic_ts`. -/
def monotonicTs (prev : Option ℤ) (now : ℤ) : ℤ :=
  match prev with
  | none => now
  | some p => if p ≤ now then now else p

/-- The journal half of a session command. -/
structure CommandEvent where
  kind : EventKind
  state : AgentState
  opId : Option ℕ
  tsMs : ℤ
  deriving DecidableEq, Repr

/-- `insert_event_locked`: the next sequence number, the clamped timestamp, and the session row
projected onto the event. -/
def insertEventLocked (db : Db) (e : CommandEvent) : Except StoreError (ℕ × Db) :=
  let seq := lastSeq db.events + 1
  if i64Max < seq then
    .error (.corrupt [s!"event journal of session {db.row.id} event seq overflow"])
  else
    let ts := monotonicTs (db.events.getLast?.map Event.tsMs) e.tsMs
    .ok (seq, { db with
      events := db.events ++
        [{ seq := seq, opId := e.opId, kind := e.kind, state := e.state, tsMs := ts }]
      row := { db.row with state := e.state, updatedMs := ts } })

/-- `SessionCommandTxn::begin_prepared`: the session must be exactly in the expected state. -/
def beginPrepared (db : Db) (expected : AgentState) : Except StoreError Unit :=
  if db.row.state = expected then .ok ()
  else .error (.conflict (s!"session {db.row.id} state is not the expected {expected.debugName}; "
    ++ "session command refused before any write"))

/-! ## Session rows and the journal -/

/-- `create_session`: the row and its seed event. -/
def createSession (id workspaceId worktreeId : ℕ) (now : ℤ) : Db :=
  { row := { id := id, workspaceId := workspaceId, worktreeId := worktreeId, state := .idle,
             lifecycle := .opened, updatedMs := now }
    events := [{ seq := 1, opId := none, kind := .sessionCreated, state := .idle, tsMs := now }]
    permissions := []
    toolRuns := []
    turnRecords := []
    queue := []
    messages := []
    checkpoints := [] }

/-- `append_event_v`: no expectation on the session's state. -/
def appendEventV (db : Db) (e : CommandEvent) : Except StoreError ℕ × Db :=
  transaction db (insertEventLocked db e)

/-- The arguments of `transition_session`. -/
structure SessionTransition where
  expectedLifecycle : SessionLifecycle
  newLifecycle : SessionLifecycle
  expectedState : AgentState
  newState : AgentState
  eventKind : EventKind
  deriving DecidableEq, Repr

/-- `transition_session`: lifecycle, state and event together. -/
def transitionSession (db : Db) (t : SessionTransition) (now : ℤ) : Except StoreError ℕ × Db :=
  if db.row.lifecycle ≠ t.expectedLifecycle then
    (.error (.conflict (s!"session {db.row.id} lifecycle is {db.row.lifecycle.debugName}, "
      ++ s!"expected {t.expectedLifecycle.debugName}")), db)
  else if db.row.state ≠ t.expectedState then
    (.error (.conflict (s!"session {db.row.id} state is {db.row.state.debugName}, "
      ++ s!"expected {t.expectedState.debugName}")), db)
  else
    transaction db (insertEventLocked
      { db with row := { db.row with lifecycle := t.newLifecycle, state := t.newState,
                                     updatedMs := now } }
      { kind := t.eventKind, state := t.newState, opId := none, tsMs := now })

/-- `set_lifecycle_if`. -/
def setLifecycleIf (db : Db) (expected new : SessionLifecycle) (now : ℤ) : Bool × Db :=
  if db.row.lifecycle = expected then
    (true, { db with row := { db.row with lifecycle := new, updatedMs := now } })
  else (false, db)

/-! ## Permissions -/

def permissionWindowMs : ℤ := 60000

/-- A row a sweep at `now` terminalizes: pending, and its deadline is over. -/
def PermissionRow.isExpired (now : ℤ) (p : PermissionRow) : Bool :=
  decide (p.decision = .pending) && decide (p.expiresMs ≤ now)

/-- `expired_pending_permissions`. -/
def expiredPendingPermissions (db : Db) (now : ℤ) : List (ℕ × ℕ) :=
  (db.permissions.filter (PermissionRow.isExpired now)).map fun p => (p.id, p.opId)

/-- `pending_permission`: the operation of a still-resolvable permission. -/
def pendingPermission (db : Db) (id : ℕ) (now : ℤ) : Option ℕ :=
  (db.permissions.find? fun p =>
    decide (p.id = id) && decide (p.decision = .pending) && decide (now < p.expiresMs)).map
      PermissionRow.opId

/-- `insert_permission_and_event`; replies with the permission's id and its deadline. -/
def insertPermissionAndEvent (db : Db) (opId : ℕ) (expected : AgentState) (e : CommandEvent)
    (now : ℤ) : Except StoreError (ℕ × ℤ) × Db :=
  transaction db do
    beginPrepared db expected
    let id := (db.permissions.map PermissionRow.id).foldl max 0 + 1
    let row : PermissionRow :=
      { id := id, opId := opId, decision := .pending, resolvedMs := none,
        expiresMs := now + permissionWindowMs }
    let (_, db') ← insertEventLocked { db with permissions := db.permissions ++ [row] } e
    return ((id, now + permissionWindowMs), db')

/-- The row update of an expiry at `now`. -/
def PermissionRow.expire (now : ℤ) (p : PermissionRow) : PermissionRow :=
  { p with decision := .expired, resolvedMs := some now }

/-- `resolve_permission_and_event`: the expiry of the row is committed even where the resolution
is refused. -/
def resolvePermissionAndEvent (db : Db) (id : ℕ) (decision : Decision) (expected : AgentState)
    (e : CommandEvent) (now : ℤ) : Except StoreError ℕ × Db :=
  match beginPrepared db expected with
  | .error err => (.error err, db)
  | .ok () =>
    let rows := db.permissions.map fun p =>
      if p.id = id ∧ p.isExpired now then p.expire now else p
    let resolvable (p : PermissionRow) : Bool :=
      decide (p.id = id) && decide (p.decision = .pending) && decide (now < p.expiresMs)
    match rows.filter resolvable with
    | [row] =>
      transaction db (insertEventLocked
        { db with permissions := rows.map fun p =>
            if resolvable p then { p with decision := decision, resolvedMs := some now } else p }
        { e with opId := some row.opId })
    | _ => (.error (.conflict s!"permission {id} is not pending"), { db with permissions := rows })

/-- `expire_pending_permissions_for_session`: every expired row and one event, or nothing. -/
def expirePendingPermissionsForSession (db : Db) (now : ℤ) (expected : AgentState)
    (e : CommandEvent) : Except StoreError (List (ℕ × ℕ)) × Db :=
  if e.kind ≠ .permissionExpired then
    (.error (.migration (s!"expire_pending_permissions_for_session requires a PermissionExpired "
      ++ s!"event, got {e.kind.debugName}")), db)
  else
    transaction db do
      beginPrepared db expected
      let expired := expiredPendingPermissions db now
      if expired.isEmpty then
        return ([], db)
      else
        let opId := match e.opId, expired with
          | none, [(_, op)] => some op
          | op, _ => op
        let (_, db') ← insertEventLocked
          { db with permissions := db.permissions.map fun p =>
              if p.isExpired now then p.expire now else p }
          { e with opId := opId }
        return (expired, db')

/-! ## Tool runs -/

def ToolRunRow.isRunning (r : ToolRunRow) : Bool := decide (r.status = .running)

/-- `pending_tool_runs`. -/
def pendingToolRuns (db : Db) : List ToolRunRow := db.toolRuns.filter ToolRunRow.isRunning

/-- `start_tool_run_and_event`; `tool_run.op_id` is unique. -/
def startToolRunAndEvent (db : Db) (opId : ℕ) (tool : String) (recovery : RecoveryStrategy)
    (expectedHash : Option FileHash) (expected : AgentState) (e : CommandEvent) :
    Except StoreError ℕ × Db :=
  transaction db do
    beginPrepared db expected
    if db.toolRuns.any (fun r => decide (r.opId = opId)) then
      .error (.constraintFailed "UNIQUE constraint failed: tool_run.op_id")
    else
      let row : ToolRunRow :=
        { opId := opId, tool := tool, status := .running, effect := .unknown,
          recovery := .valid recovery, expectedHash := expectedHash, postcondition := none }
      insertEventLocked { db with toolRuns := db.toolRuns ++ [row] } e

/-- The rows one `UPDATE … WHERE op_id = ? AND status = 'running'` changes. -/
def runningWithOp (opId : ℕ) (r : ToolRunRow) : Bool :=
  decide (r.opId = opId) && r.isRunning

/-- The tool runs after the running row of `opId` got its terminal status. -/
def finishRows (opId : ℕ) (status : ToolStatus) (effect : EffectStatus)
    (rows : List ToolRunRow) : List ToolRunRow :=
  rows.map fun r => if runningWithOp opId r then { r with status := status, effect := effect } else r

/-- `finish_tool_run_and_event`: exactly one running row must change. -/
def finishToolRunAndEvent (db : Db) (opId : ℕ) (status : ToolStatus) (effect : EffectStatus)
    (expected : AgentState) (e : CommandEvent) : Except StoreError ℕ × Db :=
  transaction db do
    beginPrepared db expected
    if (db.toolRuns.filter (runningWithOp opId)).length ≠ 1 then
      .error (.conflict s!"tool run {opId} is not running")
    else
      insertEventLocked { db with toolRuns := finishRows opId status effect db.toolRuns } e

/-- `finish_recovered_tool_run_and_event`: `state` is both the expected and the landing state, and
the event is stamped with the store clock. -/
def finishRecoveredToolRunAndEvent (db : Db) (opId : ℕ) (status : ToolStatus)
    (effect : EffectStatus) (kind : EventKind) (state : AgentState) (now : ℤ) :
    Except StoreError ℕ × Db :=
  transaction db do
    beginPrepared db state
    if (db.toolRuns.filter (runningWithOp opId)).length ≠ 1 then
      .error (.conflict s!"recovered tool run {opId} is not running")
    else
      insertEventLocked { db with toolRuns := finishRows opId status effect db.toolRuns }
        { kind := kind, state := state, opId := some opId, tsMs := now }

/-- `record_tool_postcondition`. -/
def recordToolPostcondition (db : Db) (opId : ℕ) (postcondition : FilePostcondition) :
    Except StoreError Unit × Db :=
  if (db.toolRuns.filter (runningWithOp opId)).isEmpty then
    (.error (.migration "record_tool_postcondition: no running row"), db)
  else
    let annotate (r : ToolRunRow) : ToolRunRow :=
      if runningWithOp opId r then { r with postcondition := some (.valid postcondition) } else r
    (.ok (), { db with toolRuns := db.toolRuns.map annotate })

/-! ## Turn records -/

def TurnRecordRow.isActive (r : TurnRecordRow) : Bool := decide (r.status = .active)

/-- `start_turn_record`: any other active record fails, and the record of `turnOp` is inserted or
made active again. -/
def startTurnRecord (db : Db) (turnOp : ℕ) (queueSeq promptMessageId : Option ℕ) (now : ℤ) : Db :=
  let others := db.turnRecords.map fun r =>
    if r.isActive ∧ r.turnOpId ≠ turnOp then { r with status := .failed } else r
  let row : TurnRecordRow :=
    { turnOpId := turnOp, queueSeq := queueSeq, promptMessageId := promptMessageId,
      startedAt := now, status := .active }
  { db with turnRecords :=
      if others.any (fun r => decide (r.turnOpId = turnOp)) then
        others.map fun r => if r.turnOpId = turnOp then row else r
      else others ++ [row] }

/-- `active_turn_record`: the newest active record. -/
def activeTurnRecord (db : Db) : Option TurnRecordRow :=
  (db.turnRecords.filter TurnRecordRow.isActive).foldl
    (fun best r => match best with
      | none => some r
      | some b => if b.startedAt ≤ r.startedAt then some r else some b) none

/-- `finish_turn_record`. -/
def finishTurnRecord (db : Db) (turnOp : ℕ) (status : TurnStatus) : Bool × Db :=
  (db.turnRecords.any fun r => decide (r.turnOpId = turnOp) && r.isActive,
   { db with turnRecords := db.turnRecords.map fun r =>
      if r.turnOpId = turnOp ∧ r.isActive then { r with status := status } else r })

/-! ## Messages -/

/-- `put_message`; `(session_id, seq)` is unique. -/
def putMessage (db : Db) (seq : ℕ) (role : Role) (text : String) : Except StoreError Unit × Db :=
  if db.messages.any (fun m => decide (m.seq = seq)) then
    (.error (.constraintFailed "UNIQUE constraint failed: message.session_id, message.seq"), db)
  else
    (.ok (), { db with messages := db.messages ++
      [{ seq := seq, role := role, text := text, parts := [], materialized := none }] })

/-- `put_part`, on the message of a sequence number. -/
def putPart (db : Db) (seq : ℕ) (part : PartRow) : Db :=
  { db with messages := db.messages.map fun m =>
      if m.seq = seq then { m with parts := m.parts ++ [part] } else m }

/-- The number of messages a sibling scan looks at. -/
def maxScan : ℕ := 128

/-- The messages newest first. -/
def newestFirst (messages : List MessageRow) : List MessageRow :=
  messages.insertionSort fun a b => b.seq ≤ a.seq

/-- The message walk of `open_batch_has_pending_siblings`: back through the messages that carry a
tool part, at least two calls of the batch must still await a result. -/
def siblingScan (messages : List MessageRow) : Bool :=
  let named (kind : PartKind) (m : MessageRow) : List String :=
    (m.parts.filter fun p => decide (p.kind = kind) && !p.toolCallId.isEmpty).map
      PartRow.toolCallId
  let cluster := ((newestFirst messages).take maxScan).takeWhile fun m =>
    !(named .toolCall m).isEmpty || !(named .toolResult m).isEmpty
  let calls := (cluster.flatMap (named .toolCall)).dedup
  let answered := cluster.flatMap (named .toolResult)
  decide (1 < (calls.filter fun c => !answered.contains c).length)

/-! ## The prompt queue -/

/-- `enqueue_prompt`: replies with the new row's sequence number. -/
def enqueuePrompt (db : Db) (opId : ℕ) (prompt : String) (files : List String) :
    Except StoreError ℕ × Db :=
  let prev := (db.queue.map QueuedPrompt.queueSeq).foldl max 0
  if i64Max < prev + 1 then
    (.error (.corrupt ["prompt queue sequence exhausted SQLite signed range"]), db)
  else
    (.ok (prev + 1), { db with queue := db.queue ++
      [{ queueSeq := prev + 1, opId := opId, prompt := prompt, files := files,
         status := .pending }] })

/-- What an admission hands to the turn it opens. -/
structure AdmittedPrompt where
  queueSeq : ℕ
  opId : ℕ
  prompt : String
  files : List String
  messageSeq : ℕ
  deriving DecidableEq, Repr

def QueuedPrompt.isPending (q : QueuedPrompt) : Bool := decide (q.status = .pending)

/-- `admit_queue_head`: claim the oldest pending row, insert its user message after the journal's
last event and move the session row, with no event. -/
def admitQueueHead (db : Db) (eligible : List AgentState) (target : AgentState) (now : ℤ) :
    Except StoreError (Option AdmittedPrompt) × Db :=
  match db.queue.find? QueuedPrompt.isPending with
  | none => (.ok none, db)
  | some head =>
    if ¬ eligible.contains db.row.state then (.ok none, db)
    else
      let messageSeq := lastSeq db.events + 1
      if db.messages.any (fun m => decide (m.seq = messageSeq)) then
        (.error (.constraintFailed "UNIQUE constraint failed: message.session_id, message.seq"), db)
      else
        (.ok (some { queueSeq := head.queueSeq, opId := head.opId, prompt := head.prompt,
                     files := head.files, messageSeq := messageSeq }),
         { db with
            queue := db.queue.map fun q =>
              if q.queueSeq = head.queueSeq then { q with status := .claimed } else q
            messages := db.messages ++
              [{ seq := messageSeq, role := .user, text := head.prompt, parts := [],
                 materialized := some head.queueSeq }]
            row := { db.row with state := target, updatedMs := now } })

/-- The statuses the queue runner writes with `mark_queue_status`. -/
inductive QueueMark
  | running
  | done
  | cancelled
  deriving DecidableEq, Repr

def QueueMark.status : QueueMark → QueueStatus
  | running => .running
  | done => .done
  | cancelled => .cancelled

/-- `mark_queue_status`. -/
def markQueueStatus (db : Db) (queueSeq : ℕ) (mark : QueueMark) : Db :=
  { db with queue := db.queue.map fun q =>
      if q.queueSeq = queueSeq then { q with status := mark.status } else q }

/-- A row that `abort` can still cancel. -/
def QueuedPrompt.isOpen (q : QueuedPrompt) : Bool :=
  decide (q.status = .pending) || decide (q.status = .claimed) || decide (q.status = .running)

/-- `queue_op_ids`. -/
def queueOpIds (db : Db) : List ℕ :=
  (db.queue.filter QueuedPrompt.isOpen).map QueuedPrompt.opId

/-- `cancel_queued_ops`: replies with the number of rows cancelled. -/
def cancelQueuedOps (db : Db) (ops : List ℕ) : ℕ × Db :=
  let hit (q : QueuedPrompt) : Bool := ops.contains q.opId && q.isOpen
  ((db.queue.filter hit).length,
   { db with queue := db.queue.map fun q => if hit q then { q with status := .cancelled } else q })

/-- Whether the row's logical turn is still recorded as active. -/
def hasActiveTurn (db : Db) (opId : ℕ) : Bool :=
  db.turnRecords.any fun r => decide (r.turnOpId = opId) && r.isActive

/-- `recover_claimed_queue_rows`: claimed rows return to pending, running rows without an active
turn are retired. -/
def recoverClaimedQueueRows (db : Db) : ℕ × Db :=
  ((db.queue.filter fun q => decide (q.status = .claimed)).length,
   { db with queue := db.queue.map fun q =>
      if q.status = .claimed then { q with status := .pending }
      else if q.status = .running ∧ ¬ hasActiveTurn db q.opId then { q with status := .done }
      else q })

/-! ## Checkpoints and compactions -/

/-- `put_checkpoint_and_event`. -/
def putCheckpointAndEvent (db : Db) (sequence : ℕ) (expected : AgentState) (e : CommandEvent) :
    Except StoreError ℕ × Db :=
  transaction db do
    beginPrepared db expected
    if db.checkpoints.contains sequence then
      .error (.conflict s!"checkpoint sequence {sequence} already exists")
    else
      insertEventLocked { db with checkpoints := db.checkpoints ++ [sequence] } e

/-- `record_compaction_and_event`, without the compaction row. -/
def recordCompactionAndEvent (db : Db) (expected : AgentState) (e : CommandEvent) :
    Except StoreError ℕ × Db :=
  transaction db do
    beginPrepared db expected
    insertEventLocked db e

end Session
