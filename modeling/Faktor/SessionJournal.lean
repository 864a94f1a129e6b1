/-
# The session's state machines and its journal

The turn machine (`AgentState`), the session lifetime machine (`SessionLifecycle`), the rules an
event must meet to be journaled (`validateTransition`) and the reconstruction of a session from
its journal (`replay`).

The journal is replayed event by event.  `replay_concat` says what one more event must satisfy for
a journal that replays to replay again: the next sequence number, a timestamp that does not go
back, and a transition that is legal from the replayed state.
-/
import Mathlib

namespace Session

/-! ## The two machines -/

/-- The state of the turn machine. -/
inductive AgentState
  | idle
  | preparing
  | buildingContext
  | waitingForModel
  | streaming
  | toolRequested
  | waitingForPermission
  | executingTool
  | validating
  | updatingMemory
  | readyForNextTurn
  | completed
  | cancelled
  | failedRecoverable
  | failedPermanent
  | needsUserInput
  | suspended
  deriving DecidableEq, Repr

namespace AgentState

/-- All states a session may legally transition into from a state. -/
def allowedTransitions : AgentState → List AgentState
  | idle => [preparing, suspended, completed, cancelled]
  | preparing => [buildingContext, failedRecoverable, cancelled, suspended]
  | buildingContext => [waitingForModel, failedRecoverable, cancelled, suspended]
  | waitingForModel => [streaming, failedRecoverable, cancelled, suspended, needsUserInput]
  | streaming =>
    [toolRequested, validating, waitingForModel, failedRecoverable, cancelled, suspended]
  | toolRequested => [waitingForPermission, executingTool, validating, cancelled, suspended]
  | waitingForPermission =>
    [executingTool, readyForNextTurn, cancelled, suspended, needsUserInput]
  | executingTool => [validating, toolRequested, failedRecoverable, cancelled, suspended]
  | validating =>
    [updatingMemory, toolRequested, executingTool, failedRecoverable, completed, cancelled,
      suspended]
  | updatingMemory =>
    [readyForNextTurn, waitingForModel, completed, failedRecoverable, cancelled, suspended]
  | readyForNextTurn => [preparing, completed, cancelled, suspended, needsUserInput]
  | completed => []
  | cancelled => [preparing, readyForNextTurn, suspended]
  | failedPermanent => []
  | failedRecoverable => [preparing, idle, cancelled, suspended, needsUserInput]
  | needsUserInput => [readyForNextTurn, preparing, cancelled, suspended]
  | suspended => [idle, preparing, cancelled, completed]

def isTerminal : AgentState → Bool
  | completed | failedPermanent => true
  | _ => false

/-- States that mean "an operation is in flight" (used by crash recovery). -/
def isOpActive : AgentState → Bool
  | preparing | buildingContext | waitingForModel | streaming | toolRequested
  | waitingForPermission | executingTool | validating | updatingMemory => true
  | _ => false

/-- Human label used by the state display and by refusals. -/
def label : AgentState → String
  | idle => "idle"
  | preparing => "preparing"
  | buildingContext => "building context"
  | waitingForModel => "waiting for model"
  | streaming => "streaming"
  | toolRequested => "tool requested"
  | waitingForPermission => "waiting for permission"
  | executingTool => "executing tool"
  | validating => "validating"
  | updatingMemory => "updating memory"
  | readyForNextTurn => "ready"
  | completed => "completed"
  | cancelled => "cancelled"
  | failedRecoverable => "failed, retrying"
  | failedPermanent => "failed"
  | needsUserInput => "needs input"
  | suspended => "suspended"

/-- The variant's name, as a diagnostic prints it. -/
def debugName : AgentState → String
  | idle => "Idle"
  | preparing => "Preparing"
  | buildingContext => "BuildingContext"
  | waitingForModel => "WaitingForModel"
  | streaming => "Streaming"
  | toolRequested => "ToolRequested"
  | waitingForPermission => "WaitingForPermission"
  | executingTool => "ExecutingTool"
  | validating => "Validating"
  | updatingMemory => "UpdatingMemory"
  | readyForNextTurn => "ReadyForNextTurn"
  | completed => "Completed"
  | cancelled => "Cancelled"
  | failedRecoverable => "FailedRecoverable"
  | failedPermanent => "FailedPermanent"
  | needsUserInput => "NeedsUserInput"
  | suspended => "Suspended"

/-- `StateMachine::transition(target).is_ok()`: self-transitions are legal and idempotent. -/
def canTransition (current target : AgentState) : Bool :=
  decide (current = target) || current.allowedTransitions.contains target

@[simp] theorem canTransition_self (s : AgentState) : s.canTransition s = true := by
  simp [canTransition]

end AgentState

/-- The session lifetime machine. -/
inductive SessionLifecycle
  | opened
  | suspended
  | closing
  | closed
  | failedPermanent
  deriving DecidableEq, Repr

namespace SessionLifecycle

def canAcceptPrompts : SessionLifecycle → Bool
  | opened => true
  | _ => false

def isTerminal : SessionLifecycle → Bool
  | closed | failedPermanent => true
  | _ => false

/-- The variant's name, as a diagnostic prints it. -/
def debugName : SessionLifecycle → String
  | opened => "Open"
  | suspended => "Suspended"
  | closing => "Closing"
  | closed => "Closed"
  | failedPermanent => "FailedPermanent"

end SessionLifecycle

/-! ## Events -/

/-- What a journal event records. -/
inductive EventKind
  | sessionCreated
  | promptReceived
  | contextPrepared
  | modelStarted
  | modelChunkReceived
  | toolRequested
  | toolStarted
  | fileChanged
  | toolCompleted
  | toolCancelled
  | checkpointCreated
  | contextCompacted
  | compactRejected
  | subagentStarted
  | subagentCompleted
  | turnCompleted
  | permissionGranted
  | permissionDenied
  | permissionExpired
  | promptAdmitted
  | phaseChanged
  | replayStarted
  | crashDetected
  | recoveryApplied
  | sessionEnded
  | suspended
  | resumed
  | failed
  deriving DecidableEq, Repr

/-- The variant's name, as a diagnostic prints it. -/
def EventKind.debugName : EventKind → String
  | sessionCreated => "SessionCreated"
  | promptReceived => "PromptReceived"
  | contextPrepared => "ContextPrepared"
  | modelStarted => "ModelStarted"
  | modelChunkReceived => "ModelChunkReceived"
  | toolRequested => "ToolRequested"
  | toolStarted => "ToolStarted"
  | fileChanged => "FileChanged"
  | toolCompleted => "ToolCompleted"
  | toolCancelled => "ToolCancelled"
  | checkpointCreated => "CheckpointCreated"
  | contextCompacted => "ContextCompacted"
  | compactRejected => "CompactRejected"
  | subagentStarted => "SubagentStarted"
  | subagentCompleted => "SubagentCompleted"
  | turnCompleted => "TurnCompleted"
  | permissionGranted => "PermissionGranted"
  | permissionDenied => "PermissionDenied"
  | permissionExpired => "PermissionExpired"
  | promptAdmitted => "PromptAdmitted"
  | phaseChanged => "PhaseChanged"
  | replayStarted => "ReplayStarted"
  | crashDetected => "CrashDetected"
  | recoveryApplied => "RecoveryApplied"
  | sessionEnded => "SessionEnded"
  | suspended => "Suspended"
  | resumed => "Resumed"
  | failed => "Failed"

/-- One journal event. -/
structure Event where
  seq : ℕ
  opId : Option ℕ
  kind : EventKind
  state : AgentState
  tsMs : ℤ
  deriving DecidableEq, Repr

/-- The refusals of a session command. -/
inductive SessionError
  | notFound (message : String)
  | illegalTransition (source target : AgentState) (message : String)
  | store (message : String)
  | malformed (message : String)
  | oversized (message : String)
  | conflict (message : String)
  | cancelled
  | timeout (message : String)
  | internal (message : String)
  deriving DecidableEq, Repr

namespace SessionError

def illegal (source target : AgentState) : SessionError :=
  .illegalTransition source target s!"{source.label} -> {target.label}"

/-- The error as it is printed. -/
def display : SessionError → String
  | notFound m => s!"session resource not found: {m}"
  | illegalTransition source target m =>
    s!"illegal state transition {source.debugName} -> {target.debugName}: {m}"
  | store m => s!"store failure: {m}"
  | malformed m => s!"malformed input: {m}"
  | oversized m => s!"input exceeds bound: {m}"
  | conflict m => s!"conflict: {m}"
  | cancelled => "operation cancelled"
  | timeout m => s!"deadline exceeded: {m}"
  | internal m => s!"internal invariant violation: {m}"

end SessionError

/-! ## What an event may record -/

/-- Validate that an event of `kind` may land on `target` from `current`.  `ToolRequested` events
record the result of two hops, and a `Failed` event may record `FailedPermanent` where
`FailedRecoverable` could be reached. -/
def validateTransition (current : AgentState) (kind : EventKind) (target : AgentState) :
    Except SessionError Unit :=
  -- every failing hop reports the endpoints of the whole transition
  let hop (source next : AgentState) : Except SessionError Unit :=
    if source.canTransition next then .ok () else .error (.illegal current target)
  match kind with
  | .toolRequested =>
    if target ≠ .waitingForPermission then
      .error (.malformed "ToolRequested events must record state WaitingForPermission")
    else do
      hop current .toolRequested
      hop .toolRequested .waitingForPermission
  | .failed =>
    if target = .failedPermanent then hop current .failedRecoverable else hop current target
  | _ => hop current target

/-- The kinds whose events record a plain transition of the turn machine. -/
theorem validateTransition_eq {kind : EventKind} (htool : kind ≠ .toolRequested)
    (hfailed : kind ≠ .failed) (current target : AgentState) :
    validateTransition current kind target
      = if current.canTransition target then .ok () else .error (.illegal current target) := by
  cases kind <;> first | rfl | exact absurd rfl htool | exact absurd rfl hfailed

/-- Re-recording the current state is legal for every kind but `ToolRequested`. -/
theorem validateTransition_self {kind : EventKind} (htool : kind ≠ .toolRequested)
    (hfailed : kind ≠ .failed) (s : AgentState) : validateTransition s kind s = .ok () := by
  rw [validateTransition_eq htool hfailed, AgentState.canTransition_self, if_pos rfl]

/-! ## Replay -/

/-- The result of replaying a session journal. -/
structure ReplayOutcome where
  state : AgentState
  lastSeq : ℕ
  eventCount : ℕ
  deriving DecidableEq, Repr

def corruption (message : String) : SessionError :=
  .internal s!"journal corruption: {message}"

/-- The loop variables of `replay`. -/
structure ReplayCursor where
  index : ℕ
  machine : AgentState
  expectedSeq : ℕ
  previousTs : ℤ
  deriving DecidableEq, Repr

/-- `u64::MAX`. -/
def u64Max : ℕ := 2 ^ 64 - 1

/-- One iteration of the replay loop. -/
def replayStep (c : ReplayCursor) (e : Event) : Except SessionError ReplayCursor :=
  if e.seq ≠ c.expectedSeq then
    .error (corruption s!"event seq is {e.seq}, expected {c.expectedSeq}")
  else if u64Max < c.expectedSeq + 1 then
    .error (corruption "journal sequence overflow")
  else if e.tsMs < c.previousTs then
    .error (corruption
      s!"event {e.seq} timestamp {e.tsMs} is before previous timestamp {c.previousTs}")
  else if c.index = 0 then
    -- the seed event has no predecessor to be legal from
    .ok { index := 1, machine := c.machine, expectedSeq := c.expectedSeq + 1, previousTs := e.tsMs }
  else
    match validateTransition c.machine e.kind e.state with
    | .error err => .error (corruption s!"at seq {e.seq}: {err.display}")
    | .ok () => .ok
        { index := c.index + 1, machine := e.state, expectedSeq := c.expectedSeq + 1,
          previousTs := e.tsMs }

/-- Replay a session's journal, enforcing first seq 1, first state `Idle`, gapless sequences,
non-decreasing timestamps, and the transition rules of the live append path. -/
def replay (events : List Event) : Except SessionError ReplayOutcome :=
  match events with
  | [] => .error (corruption "session has no events; missing SessionCreated")
  | first :: rest =>
    if first.seq ≠ 1 then
      .error (corruption s!"first event seq is {first.seq}, expected 1")
    else if first.kind ≠ .sessionCreated then
      .error (corruption s!"first event is {first.kind.debugName}, not SessionCreated")
    else if first.state ≠ .idle then
      .error (corruption s!"first event state is {first.state.debugName}, expected Idle")
    else do
      let c ← (first :: rest).foldlM replayStep
        { index := 0, machine := first.state, expectedSeq := 1, previousTs := first.tsMs }
      return { state := c.machine, lastSeq := ((first :: rest).getLast (by simp)).seq,
               eventCount := (first :: rest).length }

/-- The timestamp of the last event; `before` when there is none. -/
def lastTs (before : ℤ) (events : List Event) : ℤ :=
  (events.getLast?.map Event.tsMs).getD before

@[simp] theorem lastTs_concat (before : ℤ) (events : List Event) (e : Event) :
    lastTs before (events ++ [e]) = e.tsMs := by
  simp [lastTs]

/-- One iteration advances the loop variables past the event it accepted. -/
theorem replayStep_ok {c c' : ReplayCursor} {e : Event} (h : replayStep c e = .ok c') :
    c'.index = c.index + 1 ∧ c'.expectedSeq = c.expectedSeq + 1 ∧ c'.previousTs = e.tsMs := by
  rw [replayStep] at h
  split_ifs at h with hseq hmax hts hindex
  · obtain rfl := Except.ok.inj h
    exact ⟨by simp [hindex], rfl, rfl⟩
  · split at h
    · exact absurd h (by simp)
    · obtain rfl := Except.ok.inj h
      exact ⟨rfl, rfl, rfl⟩

/-- The loop variables after the events the loop accepted. -/
theorem foldlM_replayStep {c c' : ReplayCursor} {events : List Event}
    (h : events.foldlM replayStep c = .ok c') :
    c'.index = c.index + events.length ∧ c'.expectedSeq = c.expectedSeq + events.length ∧
      c'.previousTs = lastTs c.previousTs events := by
  induction events using List.reverseRecOn generalizing c' with
  | nil =>
    obtain rfl := Except.ok.inj h
    exact ⟨rfl, rfl, rfl⟩
  | append_singleton events e ih =>
    rw [List.foldlM_append] at h
    rcases hfold : events.foldlM replayStep c with err | c₁
    · rw [hfold] at h
      exact absurd h (by simp [bind, Except.bind])
    · rw [hfold] at h
      obtain ⟨hindex, hseq, -⟩ := ih hfold
      have hlast : replayStep c₁ e = .ok c' := by
        rcases hs : replayStep c₁ e with err | c₂
        · simp [bind, Except.bind, hs] at h
        · simpa [bind, Except.bind, pure, Except.pure, hs] using h
      obtain ⟨hindex', hseq', hts'⟩ := replayStep_ok hlast
      refine ⟨?_, ?_, ?_⟩
      · rw [hindex', hindex, List.length_append, List.length_singleton, Nat.add_assoc]
      · rw [hseq', hseq, List.length_append, List.length_singleton, Nat.add_assoc]
      · rw [hts', lastTs_concat]

/-- The loop variables of a replay that has accepted all of `events` and stands in `s`. -/
def ReplayCursor.past (events : List Event) (s : AgentState) : ReplayCursor :=
  { index := events.length, machine := s, expectedSeq := events.length + 1,
    previousTs := lastTs 0 events }

/-- **Replaying one more event**: a journal that replays to `s` replays with one event more
exactly when the loop accepts that event. -/
theorem replay_concat {events : List Event} {o : ReplayOutcome} (h : replay events = .ok o)
    (e : Event) :
    replay (events ++ [e]) = (replayStep (.past events o.state) e).map fun c =>
      { state := c.machine, lastSeq := e.seq, eventCount := events.length + 1 } := by
  match events with
  | [] => exact absurd h (by simp [replay])
  | first :: rest =>
    simp only [replay, List.cons_append] at h ⊢
    split_ifs at h ⊢ with hseq hkind hstate
    rcases hfold : (first :: rest).foldlM replayStep
        { index := 0, machine := first.state, expectedSeq := 1, previousTs := first.tsMs }
      with err | c
    · rw [hfold] at h
      exact absurd h (by simp [bind, Except.bind])
    · rw [hfold] at h
      obtain ⟨hindex, hexp, hts⟩ := foldlM_replayStep hfold
      have ho : o.state = c.machine := by
        obtain rfl := Except.ok.inj h
        rfl
      have hc : c = .past (first :: rest) o.state := by
        rw [ReplayCursor.past, ho]
        obtain ⟨index, machine, expectedSeq, previousTs⟩ := c
        simp only at hindex hexp hts
        simp only [ReplayCursor.mk.injEq, true_and]
        refine ⟨?_, ?_, ?_⟩
        · omega
        · omega
        · rw [hts, lastTs, lastTs, List.getLast?_eq_some_getLast (List.cons_ne_nil _ _)]
          rfl
      have happ : first :: (rest ++ [e]) = (first :: rest) ++ [e] := rfl
      simp only [happ, List.foldlM_append, hfold, List.foldlM_cons, List.foldlM_nil,
        List.getLast_append_singleton, List.length_append, List.length_singleton]
      rw [← hc]
      rcases hs : replayStep c e with err | c' <;>
        simp [bind, Except.bind, pure, Except.pure, Except.map, hs]

/-- A legal next event replays. -/
theorem replay_concat_ok {events : List Event} {o : ReplayOutcome} (h : replay events = .ok o)
    {e : Event} (hseq : e.seq = events.length + 1) (hmax : events.length + 2 ≤ u64Max)
    (hts : lastTs 0 events ≤ e.tsMs) (hlegal : validateTransition o.state e.kind e.state = .ok ()) :
    replay (events ++ [e])
      = .ok { state := e.state, lastSeq := events.length + 1, eventCount := events.length + 1 } := by
  have hne : events ≠ [] := by
    rintro rfl
    exact absurd h (by simp [replay])
  have hlen : events.length ≠ 0 := by simpa using hne
  rw [replay_concat h, replayStep, ReplayCursor.past]
  simp only [hseq, ne_eq, not_true_eq_false, if_false, hlegal, hlen]
  rw [if_neg (by omega), if_neg (by omega)]
  rfl

end Session
