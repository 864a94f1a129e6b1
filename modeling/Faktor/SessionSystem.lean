/-
# A session as a system of concurrent commands

The shared state of a session is its durable rows, the command lock and the in-memory registries.
Any number of handles run commands on it at once, one atomic action at a time in any order; a
crash drops every running command, the lock and the registries, and keeps the rows.  The clock and
the files are the environment's: each action reads them afresh and nothing is assumed of them.

`exec_journal` says once what an action can do to the session row and the journal; the invariants
of the journal are derived from it.
-/
import Faktor.SessionCommands

namespace Session

open AtomicProgram

/-! ## Shared state and environment -/

/-- What recovery can find out about the workspace. -/
structure Files where
  workspaceOpens : Bool
  legacyRelativePathWithin : String → Option String
  workspaceRelativePathRejection : String → Bool
  hashFileStreaming : String → FileVerification

/-- What an action reads outside the session: the clock and the files. -/
structure Env where
  now : ℤ
  files : Files

/-- The durable rows, the command lock, the tracked operations and the child processes. -/
structure Shared where
  db : Db
  locked : Bool
  ops : List (ℕ × OpKind)
  processes : List ℕ

/-- The reply and the tables of a transaction, in the shared state. -/
def commit {α : Type} (s : Shared) (x : α × Db) : Option (Shared × α) :=
  some ({ s with db := x.2 }, x.1)

/-- One action. -/
def exec (s : Shared) : (c : Call) → Env → Option (Shared × c.Reply)
  | .now, env => some (s, env.now)
  | .lock, _ => if s.locked then none else some ({ s with locked := true }, ())
  | .unlock, _ => some ({ s with locked := false }, ())
  | .getSession, _ => some (s, s.db.row)
  | .lastEventSeq, _ => some (s, s.db.events.getLast?.map Event.seq)
  | .pendingToolRuns, _ => some (s, pendingToolRuns s.db)
  | .siblingScan, _ => some (s, siblingScan s.db.messages)
  | .pendingPermission id, env => some (s, pendingPermission s.db id env.now)
  | .expiredPendingPermissions now, _ => some (s, expiredPendingPermissions s.db now)
  | .queueOpIds, _ => some (s, queueOpIds s.db)
  | .activeTurnRecord, _ => some (s, activeTurnRecord s.db)
  | .appendEventV e, _ => commit s (appendEventV s.db e)
  | .transitionSession t, env => commit s (transitionSession s.db t env.now)
  | .setLifecycleIf expected new, env => commit s (setLifecycleIf s.db expected new env.now)
  | .insertPermissionAndEvent opId expected e, env =>
    commit s (insertPermissionAndEvent s.db opId expected e env.now)
  | .resolvePermissionAndEvent id decision expected e, env =>
    commit s (resolvePermissionAndEvent s.db id decision expected e env.now)
  | .expirePendingPermissionsForSession now expected e, _ =>
    commit s (expirePendingPermissionsForSession s.db now expected e)
  | .startToolRunAndEvent opId tool recovery expectedHash expected e, _ =>
    commit s (startToolRunAndEvent s.db opId tool recovery expectedHash expected e)
  | .finishToolRunAndEvent opId status effect expected e, _ =>
    commit s (finishToolRunAndEvent s.db opId status effect expected e)
  | .finishRecoveredToolRunAndEvent opId status effect state, env =>
    commit s (finishRecoveredToolRunAndEvent s.db opId status effect .recoveryApplied state env.now)
  | .recordToolPostcondition opId postcondition, _ =>
    commit s (recordToolPostcondition s.db opId postcondition)
  | .startTurnRecord turnOp queueSeq promptMessageId, env =>
    commit s ((), startTurnRecord s.db turnOp queueSeq promptMessageId env.now)
  | .finishTurnRecord turnOp status, _ => commit s (finishTurnRecord s.db turnOp status)
  | .putMessage seq role text, _ => commit s (putMessage s.db seq role text)
  | .putPart seq part, _ => commit s ((), putPart s.db seq part)
  | .enqueuePrompt opId prompt files, _ => commit s (enqueuePrompt s.db opId prompt files)
  | .admitQueueHead, env => commit s (admitQueueHead s.db admissible .preparing env.now)
  | .markQueueStatus queueSeq mark, _ => commit s ((), markQueueStatus s.db queueSeq mark)
  | .cancelQueuedOps ops, _ => commit s (cancelQueuedOps s.db ops)
  | .recoverClaimedQueueRows, _ => commit s (recoverClaimedQueueRows s.db)
  | .putCheckpointAndEvent sequence expected e, _ =>
    commit s (putCheckpointAndEvent s.db sequence expected e)
  | .recordCompactionAndEvent expected e, _ =>
    commit s (recordCompactionAndEvent s.db expected e)
  | .opKind op, _ => some (s, (s.ops.find? fun o => decide (o.1 = op)).map Prod.snd)
  | .allOps, _ => some (s, s.ops.map Prod.fst)
  | .registerOp op kind, _ =>
    some ({ s with ops := (s.ops.filter fun o => decide (o.1 ≠ op)) ++ [(op, kind)] }, ())
  | .unregisterOp op, _ => some ({ s with ops := s.ops.filter fun o => decide (o.1 ≠ op) }, ())
  | .allProcesses, _ => some (s, s.processes)
  | .drainProcesses, _ => some ({ s with processes := [] }, s.processes)
  | .registerProcess pid, _ => some ({ s with processes := s.processes ++ [pid] }, ())
  | .releaseProcess pid, _ => some ({ s with processes := s.processes.erase pid }, ())
  | .openSessionWorkspace, env => some (s, env.files.workspaceOpens)
  | .legacyRelativePathWithin path, env => some (s, env.files.legacyRelativePathWithin path)
  | .workspaceRelativePathRejection path, env =>
    some (s, env.files.workspaceRelativePathRejection path)
  | .hashFileStreaming path, env => some (s, env.files.hashFileStreaming path)

/-- A crash keeps the rows. -/
def crashed (s : Shared) : Shared := { db := s.db, locked := false, ops := [], processes := [] }

/-! ## Commands -/

/-- Everything a handle can be asked to do. -/
inductive Command
  | appendEvent (kind : EventKind) (target : AgentState) (opId : Option ℕ)
  | appendJournalEvent (kind : EventKind) (target : AgentState) (opId : Option ℕ)
  | forceAppendEvent (kind : EventKind) (target : AgentState) (opId : Option ℕ)
  | submitPrompt (prompt : String) (files : List String) (opId : ℕ)
  | admitNextQueued
  | cancelQueuedOps (ops : List ℕ)
  | recoverQueuedRows
  | markQueuedStatus (queueSeq : ℕ) (mark : QueueMark)
  | abort (opId : Option ℕ)
  | suspend
  | resume (target : AgentState)
  | reset
  | endSession
  | markFailed (permanent : Bool)
  | recordFileChange
  | startToolRun (op : OpMeta) (tool : String) (argsBytes : ℕ)
  | finishToolRun (op : ℕ) (status : FinishStatus) (effect : EffectStatus)
  | recordToolPostcondition (op : ℕ) (postcondition : FilePostcondition)
  | requestPermission (op capabilityBytes : ℕ)
  | resolvePermission (id : ℕ) (decision : PermissionDecision)
  | expirePendingPermissions
  | expireOwnerlessPendingPermissions
  | recoverAll
  | startTurnRecord (turnOp : ℕ) (queueSeq promptMessageId : Option ℕ)
  | finishTurnRecord (turnOp : ℕ) (status : TurnStatus)
  | registerResumedTurn (op : ℕ)
  | unregisterTurn (op : ℕ)
  | putMessage (seq : ℕ) (role : Role) (text : String)
  | putPart (seq : ℕ) (part : PartRow)
  | putCheckpoint (sequence : ℕ)
  | recordCompaction (accepted : Bool)
  | registerProcess (pid : ℕ)
  | releaseProcess (pid : ℕ)

/-- `register_resumed_turn`: idempotent. -/
def registerResumedTurn (op : ℕ) : Cmd Unit := do
  if (← take (.opKind op)).isSome then
    return ()
  else
    take (.registerOp op .turn)

/-- Forget what a command returns. -/
def ignore {α : Type} (c : Cmd α) : Cmd Unit := do
  let _ ← c
  return ()

/-- The program of each command. -/
def Command.program : Command → Cmd Unit
  | .appendEvent kind target opId => ignore (Session.appendEvent kind target opId)
  | .appendJournalEvent kind target opId => ignore (Session.appendJournalEvent kind target opId)
  | .forceAppendEvent kind target opId => ignore (Session.forceAppendEvent kind target opId)
  | .submitPrompt prompt files opId => ignore (Session.submitPrompt prompt files opId)
  | .admitNextQueued => ignore Session.admitNextQueued
  | .cancelQueuedOps ops => ignore (take (.cancelQueuedOps ops))
  | .recoverQueuedRows => ignore (take .recoverClaimedQueueRows)
  | .markQueuedStatus queueSeq mark => take (.markQueueStatus queueSeq mark)
  | .abort opId => ignore (Session.abort opId)
  | .suspend => ignore Session.suspend
  | .resume target => ignore (Session.resume target)
  | .reset => ignore Session.reset
  | .endSession => ignore Session.endSession
  | .markFailed permanent => ignore (Session.markFailed permanent)
  | .recordFileChange => ignore Session.recordFileChange
  | .startToolRun op tool argsBytes => Session.startToolRun op tool argsBytes
  | .finishToolRun op status effect => Session.finishToolRun op status effect
  | .recordToolPostcondition op postcondition => do
    stored (← take (.recordToolPostcondition op postcondition))
  | .requestPermission op capabilityBytes => ignore (Session.requestPermission op capabilityBytes)
  | .resolvePermission id decision => ignore (Session.resolvePermission id decision)
  | .expirePendingPermissions => ignore Session.expirePendingPermissions
  | .expireOwnerlessPendingPermissions => ignore Session.expireOwnerlessPendingPermissions
  | .recoverAll => ignore Session.recoverAll
  | .startTurnRecord turnOp queueSeq promptMessageId =>
    take (.startTurnRecord turnOp queueSeq promptMessageId)
  | .finishTurnRecord turnOp status => ignore (take (.finishTurnRecord turnOp status))
  | .registerResumedTurn op => Session.registerResumedTurn op
  | .unregisterTurn op => take (.unregisterOp op)
  | .putMessage seq role text => do stored (← take (.putMessage seq role text))
  | .putPart seq part => take (.putPart seq part)
  | .putCheckpoint sequence => ignore (Session.putCheckpoint sequence)
  | .recordCompaction accepted => ignore (Session.recordCompaction accepted)
  | .registerProcess pid => take (.registerProcess pid)
  | .releaseProcess pid => take (.releaseProcess pid)

/-- The system of a session. -/
def system : System actions SessionError Shared Env Command where
  exec := exec
  crash := crashed
  program := Command.program

/-- A world of one session, and what can happen next in it. -/
abbrev World := System.World actions SessionError Shared
abbrev Happening := System.Event Env Command

/-- One event of a session. -/
abbrev step : World → Happening → Option World := system.step

/-- A session just created, with nothing running. -/
def created (id workspaceId worktreeId : ℕ) (now : ℤ) : World :=
  { shared := { db := createSession id workspaceId worktreeId now, locked := false, ops := [],
                processes := [] }
    threads := [] }

/-- Every action of a run meets a condition in the state it is taken in. -/
def Throughout (cond : Shared → Call → Env → Prop) (w : World) (es : List Happening) : Prop :=
  Trace.Along step (System.OnCall cond) w es

instance decidableThroughout (cond : Shared → Call → Env → Prop)
    [∀ s c env, Decidable (cond s c env)] (w : World) (es : List Happening) :
    Decidable (Throughout cond w es) :=
  have : ∀ (w : World) (e : Happening), Decidable (System.OnCall cond w e) :=
    fun w e => System.decidableOnCall (I := actions) cond w e
  Trace.decidableAlong w es

/-- A condition that asks nothing. -/
theorem throughout_true (w : World) (fs : List Happening) :
    Throughout (fun _ _ _ => True) w fs :=
  Trace.along_of_forall (fun _ _ _ _ => trivial) w fs

/-- A command run as thread `i` for its `n` actions with nothing in between. -/
def uninterrupted (i n : ℕ) (cmd : Command) (env : Env) : List Happening :=
  .start cmd :: List.replicate n (.step i env)

/-- An environment at a given time, where no file can be verified. -/
def Env.at (now : ℤ) : Env :=
  { now := now
    files := { workspaceOpens := false, legacyRelativePathWithin := fun _ => none,
               workspaceRelativePathRejection := fun _ => false,
               hashFileStreaming := fun _ => .missing } }

/-- A turn whose tool call waits for a permission. -/
def waitingTurn : List Happening :=
  uninterrupted 0 10 (.submitPrompt "a" [] 1) (.at 5) ++
    uninterrupted 1 5 (.appendEvent .contextPrepared .buildingContext none) (.at 5) ++
    uninterrupted 2 5 (.appendEvent .modelStarted .waitingForModel none) (.at 5) ++
    uninterrupted 3 5 (.appendEvent .modelChunkReceived .streaming none) (.at 5) ++
    uninterrupted 4 6 (.requestPermission 1 0) (.at 5)

end Session
