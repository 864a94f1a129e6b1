/-
# The commands of a session

Every command of the session layer as a program of atomic actions: the transactions and reads of
the store, the in-memory registries, the clock, and the per-session command lock.  The actions of
a command stand in the order of the source; what the source does between two of them is not
observable by another command.

The lock serialises the commands that take it, from their first read to their last write.  Two of
the writers do not hold it: the append of `appendJournalEvent`, which runs on the actor after the
lock is dropped, and `admitNextQueued`.
-/
import Faktor.AtomicProgram
import Faktor.SessionStore

namespace Session

open AtomicProgram
open AtomicProgram.Prog

/-! ## Actions -/

/-- The kind of a tracked operation. -/
inductive OpKind
  | turn
  | tool
  deriving DecidableEq, Repr

/-- One file-verification outcome over the session's workspace. -/
inductive FileVerification
  | hashed (actual : FileHash)
  | missing
  | refused
  deriving DecidableEq, Repr

/-- The atomic actions. -/
inductive Call
  | now
  | lock
  | unlock
  -- reads of the store
  | getSession
  | lastEventSeq
  | pendingToolRuns
  | siblingScan
  | pendingPermission (id : ℕ)
  | expiredPendingPermissions (now : ℤ)
  | queueOpIds
  | activeTurnRecord
  -- transactions of the store
  | appendEventV (e : CommandEvent)
  | transitionSession (t : SessionTransition)
  | setLifecycleIf (expected new : SessionLifecycle)
  | insertPermissionAndEvent (opId : ℕ) (expected : AgentState) (e : CommandEvent)
  | resolvePermissionAndEvent (id : ℕ) (decision : Decision) (expected : AgentState)
      (e : CommandEvent)
  | expirePendingPermissionsForSession (now : ℤ) (expected : AgentState) (e : CommandEvent)
  | startToolRunAndEvent (opId : ℕ) (tool : String) (recovery : RecoveryStrategy)
      (expectedHash : Option FileHash) (expected : AgentState) (e : CommandEvent)
  | finishToolRunAndEvent (opId : ℕ) (status : ToolStatus) (effect : EffectStatus)
      (expected : AgentState) (e : CommandEvent)
  | finishRecoveredToolRunAndEvent (opId : ℕ) (status : ToolStatus) (effect : EffectStatus)
      (state : AgentState)
  | recordToolPostcondition (opId : ℕ) (postcondition : FilePostcondition)
  | startTurnRecord (turnOp : ℕ) (queueSeq promptMessageId : Option ℕ)
  | finishTurnRecord (turnOp : ℕ) (status : TurnStatus)
  | putMessage (seq : ℕ) (role : Role) (text : String)
  | putPart (seq : ℕ) (part : PartRow)
  | enqueuePrompt (opId : ℕ) (prompt : String) (files : List String)
  | admitQueueHead
  | markQueueStatus (queueSeq : ℕ) (mark : QueueMark)
  | cancelQueuedOps (ops : List ℕ)
  | recoverClaimedQueueRows
  | putCheckpointAndEvent (sequence : ℕ) (expected : AgentState) (e : CommandEvent)
  | recordCompactionAndEvent (expected : AgentState) (e : CommandEvent)
  -- the in-memory registries
  | opKind (op : ℕ)
  | allOps
  | registerOp (op : ℕ) (kind : OpKind)
  | unregisterOp (op : ℕ)
  | allProcesses
  | drainProcesses
  | registerProcess (pid : ℕ)
  | releaseProcess (pid : ℕ)
  -- the workspace files
  | openSessionWorkspace
  | legacyRelativePathWithin (path : String)
  | workspaceRelativePathRejection (path : String)
  | hashFileStreaming (path : String)

/-- What each action replies. -/
@[reducible] def Call.Reply : Call → Type
  | .now => ℤ
  | .lock | .unlock => Unit
  | .getSession => SessionRow
  | .lastEventSeq => Option ℕ
  | .pendingToolRuns => List ToolRunRow
  | .siblingScan => Bool
  | .pendingPermission _ => Option ℕ
  | .expiredPendingPermissions _ => List (ℕ × ℕ)
  | .queueOpIds => List ℕ
  | .activeTurnRecord => Option TurnRecordRow
  | .appendEventV _ => Except StoreError ℕ
  | .transitionSession _ => Except StoreError ℕ
  | .setLifecycleIf _ _ => Bool
  | .insertPermissionAndEvent _ _ _ => Except StoreError (ℕ × ℤ)
  | .resolvePermissionAndEvent _ _ _ _ => Except StoreError ℕ
  | .expirePendingPermissionsForSession _ _ _ => Except StoreError (List (ℕ × ℕ))
  | .startToolRunAndEvent _ _ _ _ _ _ => Except StoreError ℕ
  | .finishToolRunAndEvent _ _ _ _ _ => Except StoreError ℕ
  | .finishRecoveredToolRunAndEvent _ _ _ _ => Except StoreError ℕ
  | .recordToolPostcondition _ _ => Except StoreError Unit
  | .startTurnRecord _ _ _ => Unit
  | .finishTurnRecord _ _ => Bool
  | .putMessage _ _ _ => Except StoreError Unit
  | .putPart _ _ => Unit
  | .enqueuePrompt _ _ _ => Except StoreError ℕ
  | .admitQueueHead => Except StoreError (Option AdmittedPrompt)
  | .markQueueStatus _ _ => Unit
  | .cancelQueuedOps _ => ℕ
  | .recoverClaimedQueueRows => ℕ
  | .putCheckpointAndEvent _ _ _ => Except StoreError ℕ
  | .recordCompactionAndEvent _ _ => Except StoreError ℕ
  | .opKind _ => Option OpKind
  | .allOps => List ℕ
  | .registerOp _ _ => Unit
  | .unregisterOp _ => Unit
  | .allProcesses => List ℕ
  | .drainProcesses => List ℕ
  | .registerProcess _ => Unit
  | .releaseProcess _ => Unit
  | .openSessionWorkspace => Bool
  | .legacyRelativePathWithin _ => Option String
  | .workspaceRelativePathRejection _ => Bool
  | .hashFileStreaming _ => FileVerification

/-- The actions of a session, with their replies. -/
@[reducible] def actions : Interface := ⟨Call, Call.Reply⟩

/-- A session command that returns an `α`. -/
abbrev Cmd (α : Type) := Prog actions SessionError α

/-- Take one action. -/
def take (c : Call) : Cmd c.Reply := @act actions SessionError c

/-- The `?` on a pure check. -/
def require {α : Type} (x : Except SessionError α) : Cmd α := fromExcept x

/-- The `map_err(map_store_err)?` on a reply of the store. -/
def stored {α : Type} (x : Except StoreError α) : Cmd α := fromExcept (x.mapError mapStoreErr)

/-- A command under the session's command lock. -/
def withGuard {α : Type} (body : Cmd α) : Cmd α := do
  take .lock
  ensuring body (take .unlock)

/-! ## Journaled transitions -/

def state : Cmd AgentState := do
  let row ← take .getSession
  return row.state

/-- `transition_locked_inner`: validated against the row just read, appended without an
expectation. -/
def transitionLocked (kind : EventKind) (target : AgentState) (opId : Option ℕ) : Cmd ℕ := do
  let current ← state
  require (validateTransition current kind target)
  let now ← take .now
  stored (← take (.appendEventV { kind := kind, state := target, opId := opId, tsMs := now }))

def appendEvent (kind : EventKind) (target : AgentState) (opId : Option ℕ) : Cmd ℕ :=
  withGuard (transitionLocked kind target opId)

/-- `force_append_event`: no validation. -/
def forceAppendEvent (kind : EventKind) (target : AgentState) (opId : Option ℕ) : Cmd ℕ := do
  let now ← take .now
  stored (← take (.appendEventV { kind := kind, state := target, opId := opId, tsMs := now }))

/-- `append_journal_event`: validated under the lock, appended by the actor after it. -/
def appendJournalEvent (kind : EventKind) (target : AgentState) (opId : Option ℕ) : Cmd ℕ := do
  withGuard do
    let current ← state
    require (validateTransition current kind target)
  let now ← take .now
  stored (← take (.appendEventV { kind := kind, state := target, opId := opId, tsMs := now }))

/-- Return a failed-recoverable session to `Idle`. -/
def reset : Cmd ℕ := appendEvent .recoveryApplied .idle none

/-- `mark_failed`. -/
def markFailed (permanent : Bool) : Cmd ℕ :=
  appendEvent .failed (if permanent then .failedPermanent else .failedRecoverable) none

/-- `record_file_change`. -/
def recordFileChange : Cmd ℕ := appendEvent .fileChanged .executingTool none

/-! ## Prompts and the queue -/

def maxPromptBytes : ℕ := 512 * 1024
def maxFilesPerPrompt : ℕ := 64
def maxFilePathBytes : ℕ := 4096

/-- States from which a new prompt may start a fresh turn. -/
def promptable : List AgentState :=
  [.idle, .readyForNextTurn, .needsUserInput, .failedRecoverable, .cancelled, .suspended]

/-- The bounds a prompt must meet before anything is written. -/
def checkPromptBounds (prompt : String) (files : List String) : Except SessionError Unit :=
  if maxPromptBytes < prompt.utf8ByteSize then
    .error (.oversized s!"prompt of {prompt.utf8ByteSize} bytes exceeds MAX_PROMPT_BYTES")
  else if maxFilesPerPrompt < files.length then
    .error (.oversized s!"{files.length} files exceed MAX_FILES_PER_PROMPT")
  else
    match files.find? fun f => decide (maxFilePathBytes < f.utf8ByteSize) with
    | some f =>
      .error (.oversized s!"file path of {f.utf8ByteSize} bytes exceeds MAX_FILE_PATH_BYTES")
    | none => .ok ()

/-- Receipt of an accepted prompt. -/
structure PromptReceipt where
  opId : ℕ
  eventSeq : ℕ
  queued : Bool
  deriving DecidableEq, Repr

/-- The lifetime gate of `submit_prompt`: only an open session takes a prompt, and a suspended one
is resumed by it. -/
def openForPrompt (id : ℕ) (lifecycle : SessionLifecycle) : Cmd Unit := do
  if lifecycle.canAcceptPrompts then
    return ()
  else if lifecycle = .suspended then
    let resumed ← take (.setLifecycleIf .suspended .opened)
    if ¬ resumed then
      fail (.conflict s!"session {id} lifecycle changed while auto-resuming; expected Suspended")
    else
      return ()
  else
    fail (.conflict s!"session {id} lifecycle is {lifecycle.debugName}; cannot accept prompts")

/-- `submit_prompt_with_op_id`; the operation id is the reserved or freshly minted one. -/
def submitPrompt (prompt : String) (files : List String) (opId : ℕ) : Cmd PromptReceipt := do
  require (checkPromptBounds prompt files)
  withGuard do
    let row ← take .getSession
    let current := row.state
    if current.isTerminal then
      fail (.conflict s!"session {row.id} is {current.debugName}; cannot accept prompts")
    else
      let lifecycle := (← take .getSession).lifecycle
      openForPrompt row.id lifecycle
      let queued := !promptable.contains current
      let target := if queued then current else .preparing
      let eventSeq ← transitionLocked .promptReceived target (some opId)
      if queued then
        -- the message is materialised at admission
        stored (← take (.enqueuePrompt opId prompt files))
        return { opId := opId, eventSeq := eventSeq, queued := true }
      else
        stored (← take (.putMessage eventSeq .user prompt))
        take (.registerOp opId .turn)
        take (.startTurnRecord opId none (some eventSeq))
        return { opId := opId, eventSeq := eventSeq, queued := false }

/-- The states a queued prompt is admitted from. -/
def admissible : List AgentState := [.idle, .readyForNextTurn, .cancelled, .failedRecoverable]

/-- `admit_next_queued`: outside the command lock. -/
def admitNextQueued : Cmd (Option AdmittedPrompt) := do
  let admitted ← stored (← take .admitQueueHead)
  match admitted with
  | none => return none
  | some a =>
    take (.registerOp a.opId .turn)
    take (.startTurnRecord a.opId (some a.queueSeq) (some a.messageSeq))
    return (some a)

/-! ## Tool runs -/

def maxToolArgsBytes : ℕ := 4 * 2 ^ 20

/-- The envelope of an operation. -/
structure OpMeta where
  operationId : ℕ
  sessionId : ℕ
  deadlineMs : ℤ
  cancelled : Bool
  recovery : RecoveryStrategy
  deriving DecidableEq, Repr

/-- `ensure_alive`. -/
def OpMeta.ensureAlive (op : OpMeta) (now : ℤ) : Except SessionError Unit :=
  if op.cancelled then .error .cancelled
  else if op.deadlineMs ≤ now then
    .error (.timeout s!"operation {op.operationId} deadline exceeded at {now}")
  else .ok ()

/-- The redundant hash column of a verified write. -/
def RecoveryStrategy.expectedHash : RecoveryStrategy → Option FileHash
  | verifyHash _ expected => some expected
  | _ => none

/-- `start_tool_run`; `argsBytes` is the size of the serialised arguments. -/
def startToolRun (op : OpMeta) (tool : String) (argsBytes : ℕ) : Cmd Unit := do
  let row ← take .getSession
  if op.sessionId ≠ row.id then
    fail (.notFound
      s!"op {op.operationId} belongs to session {op.sessionId}, not {row.id}")
  else
    require (op.ensureAlive (← take .now))
    if tool.isEmpty ∨ 256 < tool.utf8ByteSize then
      fail (.malformed s!"invalid tool name {repr tool}")
    else if maxToolArgsBytes < argsBytes then
      fail (.oversized s!"tool args of {argsBytes} bytes exceed MAX_TOOL_ARGS_BYTES")
    else
      withGuard do
        let current ← state
        require (validateTransition current .toolStarted .executingTool)
        let now ← take .now
        let _ ← stored (← take (.startToolRunAndEvent op.operationId tool op.recovery
          op.recovery.expectedHash current
          { kind := .toolStarted, state := .executingTool, opId := some op.operationId,
            tsMs := now }))
        take (.registerOp op.operationId .tool)

/-- How a tool run ends. -/
inductive FinishStatus
  | completed
  | failed
  | cancelled
  deriving DecidableEq, Repr

def FinishStatus.row : FinishStatus → ToolStatus
  | completed => .completed
  | failed => .failed
  | cancelled => .cancelled

def FinishStatus.event : FinishStatus → EventKind × AgentState
  | completed => (.toolCompleted, .validating)
  | failed => (.toolCompleted, .failedRecoverable)
  | cancelled => (.toolCancelled, .cancelled)

/-- `finish_tool_run`. -/
def finishToolRun (op : ℕ) (status : FinishStatus) (effect : EffectStatus) : Cmd Unit :=
  withGuard do
    let pending ← take .pendingToolRuns
    if ¬ pending.any (fun r => decide (r.opId = op)) then
      fail (.notFound s!"tool run {op} is not running")
    else
      let (kind, target) := status.event
      let current ← state
      require (validateTransition current kind target)
      let now ← take .now
      let _ ← stored (← take (.finishToolRunAndEvent op status.row effect current
        { kind := kind, state := target, opId := some op, tsMs := now }))
      take (.unregisterOp op)

/-! ## Permissions -/

/-- `request_permission`; `capabilityBytes` is the size of the serialised capability. -/
def requestPermission (op capabilityBytes : ℕ) : Cmd (ℕ × ℤ) :=
  withGuard do
    if (← take (.opKind op)).isNone then
      fail (.notFound s!"operation {op} is not tracked")
    else if 4096 < capabilityBytes then
      fail (.oversized "capability too large")
    else
      let current ← state
      require (validateTransition current .toolRequested .waitingForPermission)
      let now ← take .now
      stored (← take (.insertPermissionAndEvent op current
        { kind := .toolRequested, state := .waitingForPermission, opId := some op, tsMs := now }))

/-- `open_batch_has_pending_siblings`. -/
def openBatchHasPendingSiblings : Cmd Bool := do
  if !(← take .pendingToolRuns).isEmpty then
    return true
  else
    take .siblingScan

/-- The first legal landing of a negative permission outcome. -/
def landing (siblings : Bool) (current : AgentState) : AgentState :=
  let preferred : AgentState := if siblings then .executingTool else .readyForNextTurn
  if current.canTransition preferred then preferred
  else if current.canTransition .readyForNextTurn then .readyForNextTurn
  else current

/-- `negative_permission_landing`. -/
def negativePermissionLanding (current : AgentState) : Cmd AgentState := do
  let siblings ← openBatchHasPendingSiblings
  return landing siblings current

/-- The caller's decision on a permission. -/
inductive PermissionDecision
  | allow
  | deny
  | ask
  deriving DecidableEq, Repr

/-- Whether a reply is for an operation the session no longer owns; a session that tracks nothing
(a restarted daemon) takes every reply. -/
def staleReply : Option ℕ → Cmd Bool
  | none => return false
  | some op => do
    if (← take .allOps).isEmpty then
      return false
    else
      let kind ← take (.opKind op)
      return kind.isNone

/-- The part of `resolve_permission` that settles a decision, under the lock. -/
def resolvePermissionLocked (id : ℕ) (decision : Decision) (kind : EventKind) : Cmd ℕ :=
  withGuard do
    let pending ← take (.pendingPermission id)
    let stale ← staleReply pending
    if stale then
      fail (.conflict (s!"permission {id} belongs to operation {pending.getD 0}, "
        ++ "which is not currently tracked"))
    else
      let current ← state
      let target ← if kind = .permissionDenied then negativePermissionLanding current
        else pure .executingTool
      require (validateTransition current kind target)
      let now ← take .now
      stored (← take (.resolvePermissionAndEvent id decision current
        { kind := kind, state := target, opId := pending, tsMs := now }))

/-- `resolve_permission`. -/
def resolvePermission (id : ℕ) : PermissionDecision → Cmd ℕ
  | .allow => resolvePermissionLocked id .allow .permissionGranted
  | .deny => resolvePermissionLocked id .deny .permissionDenied
  | .ask => fail (.malformed "a permission cannot be resolved with Ask")

/-- `expire_pending_permissions_locked_until`: `now` is both the deadline compared with and the
timestamp of the event. -/
def expirePendingPermissionsLockedUntil (now : ℤ) : Cmd (List (ℕ × ℕ)) := do
  let expired ← take (.expiredPendingPermissions now)
  if expired.isEmpty then
    return []
  else
    let current ← state
    let target ← negativePermissionLanding current
    require (validateTransition current .permissionExpired target)
    let opId := match expired with
      | [(_, op)] => some op
      | _ => none
    stored (← take (.expirePendingPermissionsForSession now current
      { kind := .permissionExpired, state := target, opId := opId, tsMs := now }))

/-- `expire_pending_permissions`. -/
def expirePendingPermissions : Cmd (List (ℕ × ℕ)) :=
  withGuard do
    let now ← take .now
    expirePendingPermissionsLockedUntil now

/-- `expire_ownerless_pending_permissions`: every pending row, whatever its deadline. -/
def expireOwnerlessPendingPermissions : Cmd (List (ℕ × ℕ)) :=
  withGuard (expirePendingPermissionsLockedUntil i64Max)

/-! ## Abort -/

/-- Receipt of an abort. -/
structure AbortReceipt where
  opIds : List ℕ
  eventSeq : ℕ
  cancelledAll : Bool
  deriving DecidableEq, Repr

/-- The durable cancellation of one affected operation; `expected` is the state the earlier ones
left. -/
def abortOp (expected : AgentState) (o : ℕ) : Cmd AgentState := do
  let isTool := decide ((← take (.opKind o)) = some .tool)
  if isTool then
    require (validateTransition expected .toolCancelled .cancelled)
    let now ← take .now
    let _ ← stored (← take (.finishToolRunAndEvent o .cancelled .unknown expected
      { kind := .toolCancelled, state := .cancelled, opId := some o, tsMs := now }))
    return .cancelled
  else
    let _ ← transitionLocked .failed .cancelled (some o)
    return .cancelled

/-- The abort of tracked operations, and of the whole session's queue where `queuedIds` lists
it. -/
def abortTracked (current : AgentState) (affected queuedIds : List ℕ) (all : Bool) :
    Cmd AbortReceipt := do
  let _ ← foldl abortOp current affected
  if affected.isEmpty then
    -- nothing tracked still ends the turn
    let _ ← transitionLocked .failed .cancelled none
  let eventSeq ← transitionLocked .turnCompleted .readyForNextTurn affected.head?
  foldl (fun _ o => take (.unregisterOp o)) () affected
  if ¬ queuedIds.isEmpty then
    let _ ← take (.cancelQueuedOps queuedIds)
  return { opIds := affected ++ (queuedIds.filter fun q => !affected.contains q).dedup,
           eventSeq := eventSeq, cancelledAll := all }

/-- `abort`: one operation, or with `none` every tracked operation and every queued prompt. -/
def abort (opId : Option ℕ) : Cmd AbortReceipt :=
  withGuard do
    let row ← take .getSession
    let current := row.state
    if current.isTerminal then
      fail (.conflict s!"session {row.id} is already {current.debugName}")
    else
      match opId with
      | some o =>
        if (← take (.opKind o)).isNone then
          -- a queued prompt is a durable row, not a tracked turn
          let n ← take (.cancelQueuedOps [o])
          if n = 0 then
            fail (.notFound s!"operation {o}")
          else
            let last := (← take .lastEventSeq).getD 1
            return { opIds := [o], eventSeq := last, cancelledAll := false }
        else
          abortTracked current [o] [] false
      | none =>
        let affected ← take .allOps
        let queuedIds ← take .queueOpIds
        abortTracked current (affected.insertionSort (· ≤ ·)) queuedIds true

/-! ## Lifecycle -/

/-- `suspend`. -/
def suspend : Cmd ℕ :=
  withGuard do
    let current ← state
    require (validateTransition current .suspended .suspended)
    stored (← take (.transitionSession
      { expectedLifecycle := .opened, newLifecycle := .suspended, expectedState := current,
        newState := .suspended, eventKind := .suspended }))

/-- `resume`, into `Idle` or `Preparing`. -/
def resume (target : AgentState) : Cmd ℕ := do
  if target ≠ .idle ∧ target ≠ .preparing then
    fail (.malformed "resume target must be Idle or Preparing")
  else
    withGuard do
      let current ← state
      require (validateTransition current .resumed target)
      stored (← take (.transitionSession
        { expectedLifecycle := .suspended, newLifecycle := .opened, expectedState := current,
          newState := target, eventKind := .resumed }))

/-- `end_session`. -/
def endSession : Cmd ℕ := do
  let owned ← take .allProcesses
  if ¬ owned.isEmpty then
    let row ← take .getSession
    fail (.conflict (s!"session {row.id} still owns {owned.length} child process(es); "
      ++ "release or transfer them first"))
  else
    withGuard do
      let row ← take .getSession
      let lifecycle := row.lifecycle
      if lifecycle.isTerminal then
        fail (.conflict s!"session {row.id} is already {lifecycle.debugName}")
      else
        let current ← state
        require (validateTransition current .sessionEnded .completed)
        stored (← take (.transitionSession
          { expectedLifecycle := lifecycle, newLifecycle := .closed, expectedState := current,
            newState := .completed, eventKind := .sessionEnded }))

/-! ## Checkpoints and compactions -/

/-- `put_checkpoint`: the session stays where it is. -/
def putCheckpoint (sequence : ℕ) : Cmd ℕ :=
  withGuard do
    let current ← state
    require (validateTransition current .checkpointCreated current)
    let now ← take .now
    stored (← take (.putCheckpointAndEvent sequence current
      { kind := .checkpointCreated, state := current, opId := none, tsMs := now }))

/-- `record_compaction`: the session stays where it is. -/
def recordCompaction (accepted : Bool) : Cmd ℕ :=
  withGuard do
    let kind : EventKind := if accepted then .contextCompacted else .compactRejected
    let current ← state
    require (validateTransition current kind current)
    let now ← take .now
    stored (← take (.recordCompactionAndEvent current
      { kind := kind, state := current, opId := none, tsMs := now }))

/-! ## Crash recovery -/

/-- The state a crashed session may honestly land on: the first legal one of the list. -/
def crashTarget (current : AgentState) : AgentState :=
  ([AgentState.failedRecoverable, .waitingForPermission, .needsUserInput].find?
    current.canTransition).getD current

/-- What recovery decided for one crashed operation. -/
inductive RecoveryAction
  | verified (expected actual : FileHash)
  | notApplied (expected : FileHash) (actual : Option FileHash)
  | unknownEffect
  | rerunAllowed
  | needsHuman
  | noAction
  deriving DecidableEq, Repr

/-- One recovered tool run. -/
structure RecoveredOp where
  opId : ℕ
  tool : String
  status : ToolStatus
  effect : EffectStatus
  action : RecoveryAction
  deriving DecidableEq, Repr

/-- `parse_recovery`. -/
def parseRecovery (row : ToolRunRow) : Except SessionError RecoveryStrategy :=
  match row.recovery with
  | .valid s => .ok s
  | .corrupt =>
    .error (.malformed s!"tool_run {row.opId} carries an invalid recovery strategy")

/-- `classify_verification`. -/
def classifyVerification (expected : FileHash) :
    FileVerification → ToolStatus × EffectStatus × RecoveryAction
  | .hashed actual =>
    if actual = expected then (.completed, .verified, .verified expected actual)
    else (.failed, .failed, .notApplied expected (some actual))
  | .missing => (.failed, .failed, .notApplied expected none)
  | .refused => (.failed, .unknown, .needsHuman)

/-- `verify_through_handle`: the relative-path grammar is refused before any read. -/
def verifyThroughHandle (relative : String) : Cmd FileVerification := do
  if ← take (.workspaceRelativePathRejection relative) then
    return .refused
  else
    take (.hashFileStreaming relative)

/-- `finish_recovered`: the terminal row and its `RecoveryApplied` event in one transaction. -/
def finishRecovered (row : ToolRunRow) (state : AgentState)
    (outcome : ToolStatus × EffectStatus × RecoveryAction) : Cmd RecoveredOp := do
  let (status, effect, action) := outcome
  let _ ← stored (← take (.finishRecoveredToolRunAndEvent row.opId status effect state))
  return { opId := row.opId, tool := row.tool, status := status, effect := effect,
           action := action }

/-- `migrate_legacy_verify_row`: the workspace-relative identity of a legacy path, recorded before
any read; `none` where containment cannot be proven. -/
def migrateLegacyVerifyRow (row : ToolRunRow) (legacyPath : String) (expected : FileHash) :
    Cmd (Option FilePostcondition) := do
  let identity ← take .getSession
  if ¬ (← take .openSessionWorkspace) then
    return none
  else
    match ← take (.legacyRelativePathWithin legacyPath) with
    | none => return none
    | some relative =>
      if ← take (.workspaceRelativePathRejection relative) then
        return none
      else
        let postcondition : FilePostcondition :=
          { workspaceId := identity.workspaceId, worktreeId := identity.worktreeId,
            relativePath := relative, expectedHash := expected }
        stored (← take (.recordToolPostcondition row.opId postcondition))
        return (some postcondition)

/-- `apply_strategy`: a recorded postcondition is verified first, the recovery column is consulted
only where there is none. -/
def applyStrategy (row : ToolRunRow) (strategy : RecoveryStrategy) (state : AgentState) :
    Cmd RecoveredOp :=
  match row.postcondition with
  | some .corrupt =>
    fail (.malformed s!"tool_run {row.opId} carries a corrupt postcondition")
  | some (.valid pc) => do
    let identity ← take .getSession
    let opened ← if pc.workspaceId = identity.workspaceId then take .openSessionWorkspace
      else pure false
    if ¬ opened then
      finishRecovered row state (.failed, .unknown, .needsHuman)
    else
      let verification ← verifyThroughHandle pc.relativePath
      finishRecovered row state (classifyVerification pc.expectedHash verification)
  | none =>
    match strategy with
    | .verifyHash path expected => do
      -- the expected_hash column is redundant: a mismatch is tampering
      if row.expectedHash.any fun col => decide (col ≠ expected) then
        fail (.malformed (s!"tool_run {row.opId} expected_hash column "
          ++ s!"{row.expectedHash.getD 0} disagrees with strategy {expected}"))
      else
        match ← migrateLegacyVerifyRow row path expected with
        | none => finishRecovered row state (.failed, .unknown, .needsHuman)
        | some postcondition =>
          let verification ← verifyThroughHandle postcondition.relativePath
          finishRecovered row state (classifyVerification expected verification)
    | .markUnknown => finishRecovered row state (.interrupted, .unknown, .unknownEffect)
    | .idempotent => finishRecovered row state (.failed, .unknown, .rerunAllowed)
    | .manual => finishRecovered row state (.interrupted, .unknown, .needsHuman)
    | .noAction => finishRecovered row state (.interrupted, .unknown, .noAction)

/-- The outcome of a recovery sweep over one session. -/
structure RecoveryReport where
  state : AgentState
  crashedOps : List RecoveredOp
  orphans : List ℕ
  interruptedTurn : Bool
  contradiction : Bool
  applied : Bool
  deriving DecidableEq, Repr

/-- `close_active_turn_record_if_any`. -/
def closeActiveTurnRecordIfAny (report : RecoveryReport) : Cmd RecoveryReport := do
  match ← take .activeTurnRecord with
  | none => return report
  | some record =>
    let _ ← take (.finishTurnRecord record.turnOpId .failed)
    return { report with interruptedTurn := true, applied := true }

/-- The sweep of one running tool row. -/
def recoverRow (crashState : AgentState) (ops : List RecoveredOp) (row : ToolRunRow) :
    Cmd (List RecoveredOp) := do
  let strategy ← require (parseRecovery row)
  let op ← applyStrategy row strategy crashState
  return ops ++ [op]

/-- The sweep without running tool rows: only the turn itself can have been interrupted. -/
def recoverTurn (current : AgentState) (report : RecoveryReport) : Cmd RecoveryReport := do
  if current.isOpActive then
    let target := crashTarget current
    let _ ← transitionLocked .crashDetected target none
    closeActiveTurnRecordIfAny
      { report with state := target, interruptedTurn := true, applied := true }
  else
    closeActiveTurnRecordIfAny report

/-- The sweep of the running tool rows. -/
def recoverToolRuns (current : AgentState) (pending : List ToolRunRow) (report : RecoveryReport) :
    Cmd RecoveryReport := do
  -- idle, suspended or terminal with running rows: fix the rows and keep the state
  let contradiction := !current.isOpActive
  let crashState := if current.isOpActive then crashTarget current else current
  let _ ← transitionLocked .crashDetected crashState none
  let ops ← foldl (recoverRow crashState) [] pending
  closeActiveTurnRecordIfAny
    { report with state := crashState, crashedOps := ops, contradiction := contradiction,
                  applied := true }

/-- `recover_all`. -/
def recoverAll : Cmd RecoveryReport :=
  withGuard do
    let now ← take .now
    let expired ← expirePendingPermissionsLockedUntil now
    let current ← state
    let pending ← take .pendingToolRuns
    let orphans ← take .drainProcesses
    let report : RecoveryReport :=
      { state := current, crashedOps := [], orphans := orphans, interruptedTurn := false,
        contradiction := false, applied := !expired.isEmpty }
    if pending.isEmpty then
      recoverTurn current report
    else
      recoverToolRuns current pending report

end Session
