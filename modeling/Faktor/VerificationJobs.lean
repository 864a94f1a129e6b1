/-
# Verification attempts and their jobs

The verification tables of the store (`tasks.rs`, schema v22).  An attempt to verify a task is begun
in one transaction, with the files it certifies and its required checks: an inline check carries its
outcome from the start, a background check is a job that an executor claims and resolves.  An
attempt that was superseded is cancelled, and a restart puts the running jobs back in the queue.

Attempt ids are 64-bit and unsigned; the column that holds them is signed.  The store compares an
attempt with the newest one of its task, which it reads as the maximum of the column.
-/
import Faktor.KeyTable
import Faktor.Sqlite
import Faktor.Trace

namespace Verification

open Sqlite (refuseWhen)

/-! ## Rows -/

abbrev SessionId := ℕ
abbrev TaskId := ℕ
abbrev TaskRevision := ℕ

/-- A raw `u64` operation id; the column holds the same bits as a signed number. -/
abbrev OpId := BitVec 64

/-- The refusals of the store that a verification call can meet; `constraint` is a key or a foreign
key of the schema. -/
inductive StoreError
  | malformed (message : String)
  | oversized (message : String)
  | conflict (message : String)
  | corrupt (problems : List String)
  | constraint (table : String)
  deriving DecidableEq, Repr

/-- `VERIFICATION_JOB_STATES`. -/
inductive JobState
  | queued | running | passed | failed | unavailable | cancelled
  deriving DecidableEq, Repr

namespace JobState

def text : JobState → String
  | queued => "queued"
  | running => "running"
  | passed => "passed"
  | failed => "failed"
  | unavailable => "unavailable"
  | cancelled => "cancelled"

def all : List JobState := [queued, running, passed, failed, unavailable, cancelled]

/-- `VERIFICATION_INLINE_STATES`. -/
def inlineStates : List JobState := [passed, failed, unavailable]

/-- The state a text names. -/
def ofText (text : String) : Option JobState := all.find? fun state => state.text = text

/-- `state IN ('queued', 'running')`. -/
def isOpen (state : JobState) : Bool := state = queued || state = running

end JobState

/-- `VerificationAttemptRow`. -/
structure VerificationAttemptRow where
  sessionId : SessionId
  taskId : TaskId
  attemptOpId : OpId
  taskRevision : TaskRevision
  workspaceRoot : String
  environmentFingerprintJson : Option String
  createdMs : ℤ
  deriving DecidableEq, Repr

/-- The key of an attempt. -/
abbrev AttemptKey := SessionId × TaskId × OpId

def VerificationAttemptRow.key (a : VerificationAttemptRow) : AttemptKey :=
  (a.sessionId, a.taskId, a.attemptOpId)

/-- A row of `verification_attempt_changed_file`. -/
structure ChangedFileRow where
  attempt : AttemptKey
  ordinal : ℕ
  path : String
  deriving DecidableEq, Repr

def ChangedFileRow.key (c : ChangedFileRow) : AttemptKey × ℕ := (c.attempt, c.ordinal)

/-- `VerificationJobRow`, over the type of its two state fields: a caller hands in texts, the column
holds states.  The result of a job is a row of its own table. -/
structure VerificationJobRow (σ : Type) where
  sessionId : SessionId
  taskId : TaskId
  attemptOpId : OpId
  checkId : String
  ordinal : ℕ
  taskRevision : TaskRevision
  workspaceRoot : String
  kind : String
  command : String
  program : String
  argsJson : String
  specJson : Option String
  budgetMs : BitVec 64
  inlineStatus : Option σ
  state : σ
  note : Option String
  opId : Option OpId
  environmentFingerprintJson : Option String
  createdMs : ℤ
  updatedMs : ℤ
  finishedMs : Option ℤ
  deriving DecidableEq, Repr

/-- A check as `verification_attempt_begin` is handed it. -/
abbrev CheckRow := VerificationJobRow String

/-- A row of `verification_job`. -/
abbrev JobRow := VerificationJobRow JobState

/-- The key of a job and of its result. -/
abbrev JobKey := AttemptKey × String

def VerificationJobRow.attempt {σ : Type} (j : VerificationJobRow σ) : AttemptKey :=
  (j.sessionId, j.taskId, j.attemptOpId)

def VerificationJobRow.key {σ : Type} (j : VerificationJobRow σ) : JobKey := (j.attempt, j.checkId)

/-- A row of `verification_job_result`. -/
structure ResultRow where
  key : JobKey
  resultJson : String
  finishedMs : ℤ
  deriving DecidableEq, Repr

/-- A background job that is neither claimed nor resolved, or claimed and not resolved. -/
def openBackground (j : JobRow) : Bool := j.inlineStatus.isNone && j.state.isOpen

/-- The tables; `sessions` are the rows that the attempts' foreign key refers to. -/
structure Store where
  sessions : List SessionId
  attempts : KeyTable VerificationAttemptRow.key
  changedFiles : KeyTable ChangedFileRow.key
  jobs : KeyTable (VerificationJobRow.key (σ := JobState))
  results : KeyTable ResultRow.key

/-- No attempt was begun yet. -/
def Store.fresh (sessions : List SessionId) : Store where
  sessions := sessions
  attempts := .empty
  changedFiles := .empty
  jobs := .empty
  results := .empty

/-! ## Bounds -/

def maxAttemptChanged : ℕ := 4096
def maxAttemptChecks : ℕ := 256
def maxJobCheckIdBytes : ℕ := 128
def maxJobKindBytes : ℕ := 16
def maxJobCommandBytes : ℕ := 512
def maxJobProgramBytes : ℕ := 4096
def maxJobArgs : ℕ := 32
def maxJobArgBytes : ℕ := 1024
def maxJobSpecJsonBytes : ℕ := 64 * 1024
def maxJobResultJsonBytes : ℕ := 64 * 1024
def maxJobNoteBytes : ℕ := 512
def maxAttemptPathBytes : ℕ := 4096
def maxJobRootBytes : ℕ := 4096
def maxJobBudgetMs : ℕ := 3600000
def maxJobFingerprintJsonBytes : ℕ := 64 * 1024

/-- A text of one to `bound` bytes. -/
def checkBytes (what text : String) (bound : ℕ) : Except StoreError Unit :=
  refuseWhen (text.utf8ByteSize = 0 ∨ bound < text.utf8ByteSize)
    (.oversized s!"{what} of {text.utf8ByteSize} bytes outside 1..={bound}")

/-- An absent text, or one of one to `bound` bytes. -/
def checkBytesOpt (what : String) (text : Option String) (bound : ℕ) : Except StoreError Unit :=
  match text with
  | none => .ok ()
  | some text => checkBytes what text bound

/-- A quoted text. -/
def debugText (text : String) : String := "\"" ++ text ++ "\""

/-- A quoted list of states. -/
def debugStates (states : List JobState) : String :=
  "[" ++ ", ".intercalate (states.map fun state => debugText state.text) ++ "]"

section Validation

-- the argument list that the JSON text of a check decodes to, or the decoder's complaint
variable (parseArgs : String → Except String (List String))

/-- The arguments of a check. -/
def checkArgs (check : CheckRow) : Except StoreError Unit := do
  match parseArgs check.argsJson with
  | .error e => throw (.corrupt [s!"verification job {check.checkId} args: {e}"])
  | .ok args =>
    refuseWhen (maxJobArgs < args.length)
      (.oversized s!"{args.length} check args exceed MAX_VERIFICATION_JOB_ARGS ({maxJobArgs})")
    args.forM fun arg => refuseWhen (maxJobArgBytes < arg.utf8ByteSize)
      (.oversized
        s!"a check arg of {arg.utf8ByteSize} bytes exceeds MAX_VERIFICATION_JOB_ARG_BYTES ({maxJobArgBytes})")

/-- The outcome of an inline check. -/
def checkInline (check : CheckRow) (inline : String) : Except StoreError Unit := do
  refuseWhen (inline ∉ JobState.inlineStates.map JobState.text) (.malformed
    ("inline status " ++ debugText inline ++ " is not one of " ++ debugStates JobState.inlineStates))
  refuseWhen (check.specJson.isSome = true)
    (.malformed s!"inline check '{check.checkId}' must not carry a background spec")
  refuseWhen (check.state ≠ inline) (.malformed
    (s!"inline check '{check.checkId}' state " ++ debugText check.state
      ++ " must equal its inline status " ++ debugText inline))

/-- The job of a background check. -/
def checkBackground (check : CheckRow) : Except StoreError Unit := do
  match check.specJson with
  | none =>
    throw (.malformed s!"background check '{check.checkId}' must carry its typed spec")
  | some spec =>
    checkBytes "check kind" check.kind maxJobKindBytes
    checkBytes "job spec JSON" spec maxJobSpecJsonBytes
    refuseWhen (check.budgetMs.toNat = 0 ∨ maxJobBudgetMs < check.budgetMs.toNat)
      (.oversized s!"job budget_ms {check.budgetMs.toNat} outside 1..={maxJobBudgetMs}")
    refuseWhen (check.state ∉ JobState.all.map JobState.text) (.malformed
      ("job state " ++ debugText check.state ++ " is not one of " ++ debugStates JobState.all))

/-- One check of an attempt, after the checks with the ids and ordinals seen. -/
def validateCheck (attempt : VerificationAttemptRow) (checkSeen : List String)
    (ordinalSeen : List ℕ) (check : CheckRow) : Except StoreError Unit := do
  refuseWhen (check.attempt ≠ attempt.key)
    (.malformed s!"check '{check.checkId}' does not belong to its attempt identity")
  checkBytes "check_id" check.checkId maxJobCheckIdBytes
  refuseWhen (check.checkId ∈ checkSeen)
    (.malformed s!"duplicate check '{check.checkId}' in one attempt")
  refuseWhen (check.ordinal ∈ ordinalSeen)
    (.malformed s!"duplicate derivation ordinal {check.ordinal} in one attempt")
  checkBytes "check command" check.command maxJobCommandBytes
  refuseWhen (maxJobProgramBytes < check.program.utf8ByteSize) (.oversized
    s!"check program of {check.program.utf8ByteSize} bytes exceeds MAX_VERIFICATION_JOB_PROGRAM_BYTES ({maxJobProgramBytes})")
  checkArgs parseArgs check
  checkBytesOpt "job note" check.note maxJobNoteBytes
  refuseWhen (check.opId = some 0) (.malformed s!"check '{check.checkId}' carries a zero op id")
  checkBytesOpt "job fingerprint JSON" check.environmentFingerprintJson maxJobFingerprintJsonBytes
  match check.inlineStatus with
  | some inline => checkInline check inline
  | none => checkBackground check

/-- The loop over the checks. -/
def validateChecks (attempt : VerificationAttemptRow) :
    List String → List ℕ → List CheckRow → Except StoreError Unit
  | _, _, [] => .ok ()
  | checkSeen, ordinalSeen, check :: rest => do
    validateCheck parseArgs attempt checkSeen ordinalSeen check
    validateChecks attempt (check.checkId :: checkSeen) (check.ordinal :: ordinalSeen) rest

/-- `validate_verification_attempt`. -/
def validateVerificationAttempt (attempt : VerificationAttemptRow) (changed : List String)
    (checks : List CheckRow) : Except StoreError Unit := do
  refuseWhen (attempt.sessionId = 0 ∨ attempt.taskId = 0 ∨ attempt.attemptOpId = 0
      ∨ attempt.taskRevision = 0)
    (.malformed "verification attempt identity must be non-zero")
  checkBytes "attempt workspace_root" attempt.workspaceRoot maxJobRootBytes
  checkBytesOpt "environment fingerprint JSON" attempt.environmentFingerprintJson
    maxJobFingerprintJsonBytes
  refuseWhen (maxAttemptChanged < changed.length) (.oversized
    s!"{changed.length} changed files exceed MAX_VERIFICATION_ATTEMPT_CHANGED ({maxAttemptChanged})")
  changed.forM fun path => checkBytes "changed path" path maxAttemptPathBytes
  refuseWhen (checks.length = 0 ∨ maxAttemptChecks < checks.length)
    (.oversized s!"{checks.length} required checks outside 1..={maxAttemptChecks}")
  validateChecks parseArgs attempt [] [] checks

/-! ## Operations -/

/-- `newest_attempt_op`: the maximum of the signed column, read back as the unsigned id. -/
def newestAttemptOp (s : Store) (sessionId : SessionId) (taskId : TaskId) : Option OpId :=
  let column := (s.attempts.select fun a => a.sessionId = sessionId && a.taskId = taskId).map
    fun a => a.attemptOpId.toInt
  column.max?.map (BitVec.ofInt 64)

/-- An open background job of the check in another attempt of the task. -/
def openElsewhere (s : Store) (attempt : VerificationAttemptRow) (check : CheckRow) : Bool :=
  s.jobs.rows.any fun j => j.sessionId = attempt.sessionId && j.taskId = attempt.taskId
    && j.checkId = check.checkId && openBackground j && j.attemptOpId ≠ attempt.attemptOpId

/-- The refusal of a check that is open elsewhere. -/
def openJobConflict (s : Store) (attempt : VerificationAttemptRow) (check : CheckRow) :
    Except StoreError Unit :=
  if check.inlineStatus.isSome then .ok ()
  else refuseWhen (openElsewhere s attempt check = true) (.conflict
    (s!"check '{check.checkId}' has an open job; supersede that attempt before beginning "
      ++ s!"attempt {attempt.attemptOpId.toNat}"))

/-- One `INSERT`; a taken key is a constraint of the schema. -/
def insertRow {α κ : Type} [DecidableEq κ] {key : α → κ} (table : String) (t : KeyTable key)
    (a : α) : Except StoreError (KeyTable key) :=
  match t.insert? a with
  | none => .error (.constraint table)
  | some t' => .ok t'

/-- The row of a check.  A text that names no state was refused by the validation. -/
def jobRow (check : CheckRow) : Except StoreError JobRow :=
  match JobState.ofText check.state, check.inlineStatus.mapM JobState.ofText with
  | some state, some inlineStatus => .ok { check with state := state, inlineStatus := inlineStatus }
  | _, _ => .error (.constraint "verification_job")

/-- The check rows, one `INSERT` each. -/
def insertChecks : KeyTable (VerificationJobRow.key (σ := JobState)) → List CheckRow →
    Except StoreError (KeyTable (VerificationJobRow.key (σ := JobState)))
  | jobs, [] => .ok jobs
  | jobs, check :: rest => do
    let row ← jobRow check
    let jobs' ← insertRow "verification_job" jobs row
    insertChecks jobs' rest

/-- The changed files, one `INSERT` each. -/
def insertChangedFiles (attempt : AttemptKey) :
    KeyTable ChangedFileRow.key → List (ℕ × String) → Except StoreError (KeyTable ChangedFileRow.key)
  | files, [] => .ok files
  | files, (ordinal, path) :: rest => do
    let files' ← insertRow "verification_attempt_changed_file" files
      { attempt := attempt, ordinal := ordinal, path := path }
    insertChangedFiles attempt files' rest

/-- `verification_attempt_begin`. -/
def verificationAttemptBegin (s : Store) (attempt : VerificationAttemptRow) (changed : List String)
    (checks : List CheckRow) : Except StoreError (Bool × Store) := do
  validateVerificationAttempt parseArgs attempt changed checks
  if (s.attempts.get? attempt.key).isSome then return (false, s)
  checks.forM (openJobConflict s attempt)
  refuseWhen (attempt.sessionId ∉ s.sessions) (.constraint "verification_attempt")
  let attempts ← insertRow "verification_attempt" s.attempts attempt
  let changedFiles ← insertChangedFiles attempt.key s.changedFiles
    (changed.zipIdx.map fun c => (c.2, c.1))
  let jobs ← insertChecks s.jobs checks
  return (true, { s with attempts := attempts, changedFiles := changedFiles, jobs := jobs })

end Validation

/-- `verification_attempt_cancel`. -/
def verificationAttemptCancel (s : Store) (attempt : AttemptKey) (reason : String) (now : ℤ) :
    Except StoreError (ℕ × Store) := do
  checkBytes "cancel note" reason maxJobNoteBytes
  let cancels : JobRow → Bool := fun j => j.attempt = attempt && openBackground j
  let cancelled : JobRow → JobRow := fun j =>
    { j with state := .cancelled, note := some reason, updatedMs := now, finishedMs := some now }
  let jobs := s.jobs.updateWhere cancels cancelled fun _ => rfl
  return ((s.jobs.select cancels).length, { s with jobs := jobs })

/-- `VerificationJobRefusal`. -/
inductive VerificationJobRefusal
  | missing (checkId : String)
  | notOpen (checkId : String) (state : JobState)
  | superseded (attemptOpId newestAttemptOpId : OpId)
  | resultExists (checkId : String)
  deriving DecidableEq, Repr

/-- A job as it is read, with the result that is joined to it. -/
structure JobView where
  job : JobRow
  resultJson : Option String
  deriving DecidableEq, Repr

/-- The inline status of a row that is read is a known one and agrees with the state. -/
def inlineAgrees (j : JobRow) : Except StoreError Unit := do
  match j.inlineStatus with
  | none => return ()
  | some inline =>
    refuseWhen (inline ∉ JobState.inlineStates) (.malformed
      (s!"verification_job '{j.checkId}' carries unknown inline status " ++ debugText inline.text))
    refuseWhen (j.state ≠ inline) (.malformed
      (s!"verification_job '{j.checkId}' inline status " ++ debugText inline.text
        ++ " disagrees with its state " ++ debugText j.state.text))

/-- `verification_job_map`: what a row has to meet to be read.  A negative budget column reads as
zero. -/
def verificationJobMap (s : Store) (j : JobRow) : Except StoreError JobView := do
  refuseWhen (j.attemptOpId = 0) (.corrupt ["verification_job attempt_op_id 0: OpId cannot be 0"])
  refuseWhen (j.taskRevision = 0) (.corrupt
    [s!"verification_job task_revision {j.sessionId}/{j.taskId}/{j.attemptOpId.toInt}: "
      ++ "TaskRevision cannot be 0"])
  inlineAgrees j
  refuseWhen (j.sessionId = 0)
    (.corrupt ["verification_job session_id 0: SessionId cannot be 0"])
  refuseWhen (j.taskId = 0) (.corrupt ["verification_job task_id 0: TaskId cannot be 0"])
  refuseWhen (j.opId = some 0) (.corrupt ["verification_job op_id 0: OpId cannot be 0"])
  return { job := { j with budgetMs := if j.budgetMs.toInt < 0 then 0 else j.budgetMs }
           resultJson := (s.results.get? j.key).map ResultRow.resultJson }

/-- `verification_job_get`. -/
def verificationJobGet (s : Store) (key : JobKey) : Except StoreError (Option JobView) :=
  match s.jobs.get? key with
  | none => .ok none
  | some j => (verificationJobMap s j).map some

/-- The refusal of a call on an attempt that is older than the newest one. -/
def superseded (s : Store) (attempt : AttemptKey) : Option VerificationJobRefusal :=
  match newestAttemptOp s attempt.1 attempt.2.1 with
  | none => none
  | some newest =>
    if attempt.2.2 < newest then some (.superseded attempt.2.2 newest) else none

/-- What a claim or a resolve answers: the job, or the reason why it stays as it is. -/
abbrev JobAnswer := Except VerificationJobRefusal JobView

/-- `verification_job_claim`. -/
def verificationJobClaim (s : Store) (attempt : AttemptKey) (checkId : String) (opId : OpId)
    (now : ℤ) : Except StoreError (JobAnswer × Store) := do
  refuseWhen (opId = 0) (.malformed "job claim op_id must be non-zero")
  match superseded s attempt with
  | some refusal => return (.error refusal, s)
  | none =>
    match ← verificationJobGet s (attempt, checkId) with
    | none => return (.error (.missing checkId), s)
    | some view =>
      if view.job.inlineStatus.isSome ∨ view.job.state ≠ .queued then
        return (.error (.notOpen checkId view.job.state), s)
      let claimed : JobRow → JobRow := fun j =>
        { j with state := .running, opId := some opId, updatedMs := now }
      let jobs := s.jobs.updateWhere (fun j => j.key = (attempt, checkId) && j.state = .queued)
        claimed fun _ => rfl
      return (.ok { view with job := claimed view.job }, { s with jobs := jobs })

/-- The result of a job, when it has one. -/
def insertResult (results : KeyTable ResultRow.key) (key : JobKey) (resultJson : Option String)
    (now : ℤ) : Except StoreError (KeyTable ResultRow.key) :=
  match resultJson with
  | none => .ok results
  | some result =>
    insertRow "verification_job_result" results
      { key := key, resultJson := result, finishedMs := now }

/-- `verification_job_resolve`. -/
def verificationJobResolve (s : Store) (attempt : AttemptKey) (checkId state : String)
    (note resultJson : Option String) (now : ℤ) : Except StoreError (JobAnswer × Store) := do
  let some terminal := (JobState.ofText state).filter fun state => !state.isOpen
    | throw (.malformed ("resolve state " ++ debugText state ++ " is not terminal"))
  checkBytesOpt "resolve note" note maxJobNoteBytes
  checkBytesOpt "result json" resultJson maxJobResultJsonBytes
  match superseded s attempt with
  | some refusal => return (.error refusal, s)
  | none =>
    match ← verificationJobGet s (attempt, checkId) with
    | none => return (.error (.missing checkId), s)
    | some view =>
      if view.job.inlineStatus.isSome ∨ view.job.state ≠ .running then
        return (.error (.notOpen checkId view.job.state), s)
      if resultJson.isSome ∧ (s.results.get? (attempt, checkId)).isSome then
        return (.error (.resultExists checkId), s)
      let results ← insertResult s.results (attempt, checkId) resultJson now
      let resolved : JobRow → JobRow := fun j =>
        { j with state := terminal, note := note, updatedMs := now, finishedMs := some now }
      let jobs := s.jobs.updateWhere (fun j => j.key = (attempt, checkId) && j.state = .running)
        resolved fun _ => rfl
      let answer : JobView :=
        { job := resolved view.job, resultJson := resultJson.orElse fun _ => view.resultJson }
      return (.ok answer, { s with results := results, jobs := jobs })

/-- `VerificationJobRecovery`. -/
structure VerificationJobRecovery where
  requeued : ℕ
  orphaned : ℕ
  deriving DecidableEq, Repr

def orphanedNote : String := "orphaned job: its attempt record is missing; never certified"

def requeuedNote : String :=
  "re-queued after a restart: the previous executor died mid-check and never produced a verdict; "
    ++ "the check re-runs deterministically"

/-- `verification_jobs_requeue_running`: the jobs of a missing attempt are given up, the running
ones go back to the queue. -/
def verificationJobsRequeueRunning (s : Store) (sessionId : SessionId) (now : ℤ) :
    VerificationJobRecovery × Store :=
  let orphan : JobRow → Bool := fun j => j.sessionId = sessionId && j.state.isOpen
    && (s.attempts.get? j.attempt).isNone
  let orphaned : JobRow → JobRow := fun j =>
    { j with state := .unavailable, finishedMs := some now, updatedMs := now,
             note := some orphanedNote }
  let jobs := s.jobs.updateWhere orphan orphaned fun _ => rfl
  let running : JobRow → Bool := fun j => j.sessionId = sessionId && j.state = .running
  let requeued : JobRow → JobRow := fun j =>
    { j with state := .queued, opId := none, note := some requeuedNote, updatedMs := now,
             finishedMs := none }
  ({ requeued := (jobs.select running).length, orphaned := (s.jobs.select orphan).length },
    { s with jobs := jobs.updateWhere running requeued fun _ => rfl })

/-! ## Runs -/

/-- The calls on the verification tables. -/
inductive Call
  | begin (attempt : VerificationAttemptRow) (changed : List String) (checks : List CheckRow)
  | claim (attempt : AttemptKey) (checkId : String) (opId : OpId) (now : ℤ)
  | resolve (attempt : AttemptKey) (checkId state : String) (note resultJson : Option String)
      (now : ℤ)
  | cancel (attempt : AttemptKey) (reason : String) (now : ℤ)
  | requeueRunning (sessionId : SessionId) (now : ℤ)
  deriving DecidableEq, Repr

/-- The store after a transaction: an error rolls it back. -/
def committed {α : Type} (s : Store) : Except StoreError (α × Store) → Store
  | .ok (_, s') => s'
  | .error _ => s

section Runs

variable (parseArgs : String → Except String (List String))

/-- One call. -/
def exec (s : Store) : Call → Store
  | .begin attempt changed checks =>
    committed s (verificationAttemptBegin parseArgs s attempt changed checks)
  | .claim attempt checkId opId now => committed s (verificationJobClaim s attempt checkId opId now)
  | .resolve attempt checkId state note resultJson now =>
    committed s (verificationJobResolve s attempt checkId state note resultJson now)
  | .cancel attempt reason now => committed s (verificationAttemptCancel s attempt reason now)
  | .requeueRunning sessionId now => (verificationJobsRequeueRunning s sessionId now).2

/-- Every call can happen at any time. -/
def step (s : Store) (c : Call) : Option Store := some (exec parseArgs s c)

end Runs

end Verification
