/-
# What the commands guarantee

Every action of every command, whatever the other commands do in between:

* a transaction that expects the session in a state journals an event that is legal from that
  state;
* a lifecycle transaction opens the session, suspends it into `Suspended` or closes it into
  `Completed`, and the conditional lifecycle update only opens it;
* the timestamps a command hands to the store satisfy whatever its clock readings satisfy.

`program_keeps` proves this once for all commands, over an arbitrary predicate on timestamps.  The
sweep of ownerless permissions compares with a sentinel instead of a reading; it keeps the
guarantee where it finds no row to terminalize.
-/
import Faktor.SessionSystem

namespace Session

open AtomicProgram
open AtomicProgram.Prog

/-- The lifecycle and the state a lifecycle transaction leaves belong together. -/
def SessionTransition.Settled (t : SessionTransition) : Prop :=
  match t.newLifecycle with
  | .opened => t.eventKind = .resumed
  | .suspended => t.newState = .suspended
  | .closed => t.newState = .completed
  | _ => False

/-- The guarantee on an action: `Stamp` is what the clock readings satisfy. -/
def Call.Keeps (Stamp : ℤ → Prop) : Call → Prop
  | .appendEventV e => Stamp e.tsMs
  | .transitionSession t =>
    validateTransition t.expectedState t.eventKind t.newState = .ok () ∧ t.Settled
  | .setLifecycleIf _ new => new = .opened
  | .insertPermissionAndEvent _ expected e =>
    validateTransition expected e.kind e.state = .ok () ∧ Stamp e.tsMs
  | .resolvePermissionAndEvent _ _ expected e =>
    validateTransition expected e.kind e.state = .ok () ∧ Stamp e.tsMs
  | .expirePendingPermissionsForSession deadline expected e =>
    validateTransition expected e.kind e.state = .ok () ∧ Stamp e.tsMs ∧ Stamp deadline
  | .startToolRunAndEvent _ _ _ _ expected e =>
    validateTransition expected e.kind e.state = .ok () ∧ Stamp e.tsMs
  | .finishToolRunAndEvent _ _ _ expected e =>
    validateTransition expected e.kind e.state = .ok () ∧ Stamp e.tsMs
  | .putCheckpointAndEvent _ expected e =>
    validateTransition expected e.kind e.state = .ok () ∧ Stamp e.tsMs
  | .recordCompactionAndEvent expected e =>
    validateTransition expected e.kind e.state = .ok () ∧ Stamp e.tsMs
  | _ => True

/-- The assumption on a reply: a clock reading satisfies `Stamp`, and a sweep at a time that does
not satisfy it finds nothing. -/
def Call.Replies (Stamp : ℤ → Prop) : (c : Call) → c.Reply → Prop
  | .now, t => Stamp t
  | .expiredPendingPermissions deadline, rows => ¬ Stamp deadline → rows = []
  | _, _ => True

variable {α : Type} {Stamp : ℤ → Prop}

/-- The guarantee of a program under the assumption, with a postcondition. -/
abbrev Keeping (Stamp : ℤ → Prop) (Q : α → Prop) (p : Cmd α) : Prop :=
  wp (I := actions) (Call.Keeps Stamp) (Call.Replies Stamp) Q p

section Rules

variable {Q : α → Prop}

@[simp] theorem keeping_require {x : Except SessionError α} :
    Keeping Stamp Q (require x) ↔ ∀ a, x = .ok a → Q a := wp_fromExcept x

@[simp] theorem keeping_stored {x : Except StoreError α} :
    Keeping Stamp Q (stored x) ↔ ∀ a, x = .ok a → Q a := by
  rw [stored, Keeping, wp_fromExcept]
  cases x <;> simp [Except.mapError]

/-- The lock adds nothing to the guarantee. -/
@[simp] theorem keeping_withGuard {body : Cmd α} :
    Keeping Stamp Q (withGuard body) ↔ Keeping Stamp Q body := by
  constructor
  · intro h
    have hbody : Keeping Stamp Q (body.ensuring (take .unlock)) := h.2 () trivial
    clear h
    induction body with
    | ret a => exact hbody.2 () trivial
    | fail e => trivial
    | call c k ih => exact ⟨hbody.1, fun r hr => ih r (hbody.2 r hr)⟩
  · intro h
    exact ⟨trivial, fun _ _ => wp_ensuring h ⟨trivial, fun _ _ => trivial⟩⟩

@[simp] theorem keeping_state {Q : AgentState → Prop} : Keeping Stamp Q state ↔ ∀ s, Q s := by
  constructor
  · intro h s
    exact h.2 ⟨0, 0, 0, s, .opened, 0⟩ trivial
  · intro h
    exact ⟨trivial, fun r _ => h r.state⟩

theorem keeping_transitionLocked {Q : ℕ → Prop} (h : ∀ n, Q n) (kind : EventKind)
    (target : AgentState) (opId : Option ℕ) :
    Keeping Stamp Q (transitionLocked kind target opId) := by
  simp +contextual [transitionLocked, take, act, Call.Keeps, Call.Replies, h]

end Rules

/-! ## Commands -/

section Commands

variable {Q : α → Prop}

section

variable (kind : EventKind) (target : AgentState) (opId : Option ℕ)
include kind target opId

theorem keeping_appendEvent :
    Keeping Stamp (fun _ => True) (appendEvent kind target opId) := by
  rw [appendEvent, keeping_withGuard]
  exact keeping_transitionLocked (fun _ => trivial) kind target opId

theorem keeping_forceAppendEvent :
    Keeping Stamp (fun _ => True) (forceAppendEvent kind target opId) := by
  simp [forceAppendEvent, take, act, Call.Keeps, Call.Replies]

theorem keeping_appendJournalEvent :
    Keeping Stamp (fun _ => True) (appendJournalEvent kind target opId) := by
  simp [appendJournalEvent, take, act, Call.Keeps, Call.Replies]

end

theorem keeping_submitPrompt (prompt : String) (files : List String) (opId : ℕ) :
    Keeping Stamp (fun _ => True) (submitPrompt prompt files opId) := by
  simp [submitPrompt, openForPrompt, transitionLocked, take, act, Call.Keeps, Call.Replies]

theorem keeping_admitNextQueued : Keeping Stamp (fun _ => True) admitNextQueued := by
  simp only [admitNextQueued, bind_def, wp_bind]
  refine ⟨trivial, fun r _ => keeping_stored.mpr fun a _ => ?_⟩
  cases a with
  | none => trivial
  | some a => simp [take, act, Call.Keeps]

theorem keeping_startToolRun (op : OpMeta) (tool : String) (argsBytes : ℕ) :
    Keeping Stamp (fun _ => True) (startToolRun op tool argsBytes) := by
  simp +contextual [startToolRun, take, act, Call.Keeps, Call.Replies]

theorem keeping_finishToolRun (op : ℕ) (status : FinishStatus) (effect : EffectStatus) :
    Keeping Stamp (fun _ => True) (finishToolRun op status effect) := by
  simp +contextual [finishToolRun, take, act, Call.Keeps, Call.Replies]

theorem keeping_requestPermission (op capabilityBytes : ℕ) :
    Keeping Stamp (fun _ => True) (requestPermission op capabilityBytes) := by
  simp +contextual [requestPermission, take, act, Call.Keeps, Call.Replies]

theorem keeping_staleReply {Q : Bool → Prop} (h : ∀ b, Q b) (pending : Option ℕ) :
    Keeping Stamp Q (staleReply pending) := by
  cases pending with
  | none => exact h false
  | some op => simp [staleReply, take, act, Call.Keeps, h]

theorem keeping_resolvePermissionLocked (id : ℕ) (decision : Decision) (kind : EventKind) :
    Keeping Stamp (fun _ => True) (resolvePermissionLocked id decision kind) := by
  rw [resolvePermissionLocked, keeping_withGuard]
  simp only [bind_def, wp_bind]
  refine ⟨trivial, fun pending _ => keeping_staleReply (fun stale => ?_) pending⟩
  simp +contextual [negativePermissionLanding, openBatchHasPendingSiblings, take, act, Call.Keeps,
    Call.Replies]

theorem keeping_resolvePermission (id : ℕ) (decision : PermissionDecision) :
    Keeping Stamp (fun _ => True) (resolvePermission id decision) := by
  cases decision with
  | allow => exact keeping_resolvePermissionLocked id .allow .permissionGranted
  | deny => exact keeping_resolvePermissionLocked id .deny .permissionDenied
  | ask => trivial

/-- A sweep at a time that is no reading keeps the guarantee: it writes only where it found a
row. -/
theorem keeping_expirePendingPermissionsLockedUntil {Q : List (ℕ × ℕ) → Prop} (h : ∀ xs, Q xs)
    (deadline : ℤ) : Keeping Stamp Q (expirePendingPermissionsLockedUntil deadline) := by
  rw [expirePendingPermissionsLockedUntil]
  simp only [bind_def, wp_bind]
  refine ⟨trivial, fun expired hexpired => ?_⟩
  rw [wp_ret, wp_ite]
  refine ⟨fun _ => h [], fun hne => ?_⟩
  have hstamp : Stamp deadline := by
    by_contra hnot
    exact hne (by rw [hexpired hnot]; rfl)
  simp +contextual [negativePermissionLanding, openBatchHasPendingSiblings, take, act, Call.Keeps,
    h, hstamp]

theorem keeping_expirePendingPermissions :
    Keeping Stamp (fun _ => True) expirePendingPermissions := by
  rw [expirePendingPermissions, keeping_withGuard]
  exact ⟨trivial, fun now _ => keeping_expirePendingPermissionsLockedUntil (fun _ => trivial) now⟩

theorem keeping_expireOwnerlessPendingPermissions :
    Keeping Stamp (fun _ => True) expireOwnerlessPendingPermissions := by
  rw [expireOwnerlessPendingPermissions, keeping_withGuard]
  exact keeping_expirePendingPermissionsLockedUntil (fun _ => trivial) _

theorem keeping_abortOp (expected : AgentState) (o : ℕ) :
    Keeping Stamp (fun _ => True) (abortOp expected o) := by
  simp +contextual [abortOp, transitionLocked, take, act, Call.Keeps, Call.Replies]

theorem keeping_abortTracked (current : AgentState) (affected queuedIds : List ℕ) (all : Bool) :
    Keeping Stamp (fun _ => True) (abortTracked current affected queuedIds all) := by
  rw [abortTracked]
  simp only [bind_def, wp_bind]
  refine wp_mono (wp_foldl (J := fun _ => True) (fun s _ o _ => keeping_abortOp s o) trivial)
    fun s _ => ?_
  have hunregister (ops : List ℕ) :
      Keeping Stamp (fun _ => True) (foldl (fun _ o => call (Call.unregisterOp o) ret) () ops) := by
    induction ops with
    | nil => trivial
    | cons o ops ih => exact ⟨trivial, fun _ _ => ih⟩
  simp +contextual [transitionLocked, take, act, Call.Keeps, Call.Replies, hunregister]

theorem keeping_abort (opId : Option ℕ) : Keeping Stamp (fun _ => True) (abort opId) := by
  rw [abort, keeping_withGuard]
  cases opId with
  | none => simp [take, act, Call.Keeps, keeping_abortTracked]
  | some o => simp [take, act, Call.Keeps, keeping_abortTracked]

theorem keeping_suspend : Keeping Stamp (fun _ => True) suspend := by
  simp +contextual [suspend, take, act, Call.Keeps, SessionTransition.Settled]

theorem keeping_resume (target : AgentState) : Keeping Stamp (fun _ => True) (resume target) := by
  simp +contextual [resume, take, act, Call.Keeps, SessionTransition.Settled]

theorem keeping_endSession : Keeping Stamp (fun _ => True) endSession := by
  simp +contextual [endSession, take, act, Call.Keeps, SessionTransition.Settled]

theorem keeping_putCheckpoint (sequence : ℕ) :
    Keeping Stamp (fun _ => True) (putCheckpoint sequence) := by
  simp +contextual [putCheckpoint, take, act, Call.Keeps, Call.Replies]

theorem keeping_recordCompaction (accepted : Bool) :
    Keeping Stamp (fun _ => True) (recordCompaction accepted) := by
  simp +contextual [recordCompaction, take, act, Call.Keeps, Call.Replies]

/-! ### Recovery -/

theorem keeping_finishRecovered {Q : RecoveredOp → Prop} (h : ∀ op, Q op) (row : ToolRunRow)
    (crashState : AgentState) (outcome : ToolStatus × EffectStatus × RecoveryAction) :
    Keeping Stamp Q (finishRecovered row crashState outcome) := by
  simp [finishRecovered, take, act, Call.Keeps, h]

theorem keeping_migrateLegacyVerifyRow {Q : Option FilePostcondition → Prop} (h : ∀ pc, Q pc)
    (row : ToolRunRow) (path : String) (expected : FileHash) :
    Keeping Stamp Q (migrateLegacyVerifyRow row path expected) := by
  rw [migrateLegacyVerifyRow]
  simp only [bind_def, wp_bind]
  refine ⟨trivial, fun identity _ => ⟨trivial, fun opened _ => ?_⟩⟩
  rw [wp_ret, wp_ite]
  refine ⟨fun _ => h none, fun _ => ⟨trivial, fun relative _ => ?_⟩⟩
  cases relative with
  | none => exact h none
  | some relative => simp [take, act, Call.Keeps, h]

theorem keeping_applyStrategy {Q : RecoveredOp → Prop} (h : ∀ op, Q op) (row : ToolRunRow)
    (strategy : RecoveryStrategy) (crashState : AgentState) :
    Keeping Stamp Q (applyStrategy row strategy crashState) := by
  unfold applyStrategy
  split
  · trivial
  · simp [verifyThroughHandle, finishRecovered, take, act, Call.Keeps, h]
  · split
    · next path expected =>
      rw [Keeping, wp_ite]
      refine ⟨fun _ => trivial, fun _ => ?_⟩
      rw [bind_def, wp_bind]
      refine keeping_migrateLegacyVerifyRow (fun pc => ?_) row path expected
      cases pc with
      | none => exact keeping_finishRecovered h row crashState _
      | some pc => simp [verifyThroughHandle, finishRecovered, take, act, Call.Keeps, h]
    all_goals exact keeping_finishRecovered h row crashState _

theorem keeping_closeActiveTurnRecordIfAny (report : RecoveryReport) :
    Keeping Stamp (fun _ => True) (closeActiveTurnRecordIfAny report) := by
  refine ⟨trivial, fun record _ => ?_⟩
  cases record with
  | none => trivial
  | some record => exact ⟨trivial, fun _ _ => trivial⟩

theorem keeping_recoverAll : Keeping Stamp (fun _ => True) recoverAll := by
  rw [recoverAll, keeping_withGuard]
  simp only [bind_def, wp_bind]
  refine ⟨trivial, fun now _ => ?_⟩
  rw [wp_ret]
  refine keeping_expirePendingPermissionsLockedUntil (fun expired => ?_) now
  refine keeping_state.mpr fun current => ?_
  refine ⟨trivial, fun pending _ => ⟨trivial, fun orphans _ => ?_⟩⟩
  rw [wp_ret, wp_ite]
  refine ⟨fun _ => ?_, fun _ => ?_⟩
  · rw [recoverTurn, wp_ite]
    simp +contextual [transitionLocked, keeping_closeActiveTurnRecordIfAny, take, act, Call.Keeps,
      Call.Replies]
  · rw [recoverToolRuns]
    simp only [bind_def, wp_bind]
    refine keeping_transitionLocked (fun _ => ?_) _ _ _
    refine wp_mono (wp_foldl (J := fun _ => True) (fun ops _ row _ => ?_) trivial)
      fun _ _ => keeping_closeActiveTurnRecordIfAny _
    rw [recoverRow]
    simp only [bind_def, wp_bind]
    refine keeping_require.mpr fun strategy _ => ?_
    exact keeping_applyStrategy (fun _ => trivial) row strategy _

end Commands

theorem keeping_ignore {p : Cmd α} (h : Keeping Stamp (fun _ => True) p) :
    Keeping Stamp (fun _ => True) (ignore p) := by
  rw [ignore, bind_def, Keeping, wp_bind]
  exact wp_mono h fun _ _ => trivial

/-- **Every command keeps the guarantee.** -/
theorem program_keeps (Stamp : ℤ → Prop) (cmd : Command) :
    Keeping Stamp (fun _ => True) cmd.program := by
  cases cmd with
  | appendEvent kind target opId => exact keeping_ignore (keeping_appendEvent kind target opId)
  | appendJournalEvent kind target opId =>
    exact keeping_ignore (keeping_appendJournalEvent kind target opId)
  | forceAppendEvent kind target opId =>
    exact keeping_ignore (keeping_forceAppendEvent kind target opId)
  | submitPrompt prompt files opId =>
    exact keeping_ignore (keeping_submitPrompt prompt files opId)
  | admitNextQueued => exact keeping_ignore keeping_admitNextQueued
  | abort opId => exact keeping_ignore (keeping_abort opId)
  | suspend => exact keeping_ignore keeping_suspend
  | resume target => exact keeping_ignore (keeping_resume target)
  | reset => exact keeping_ignore (keeping_appendEvent _ _ _)
  | endSession => exact keeping_ignore keeping_endSession
  | markFailed permanent => exact keeping_ignore (keeping_appendEvent _ _ _)
  | recordFileChange => exact keeping_ignore (keeping_appendEvent _ _ _)
  | startToolRun op tool argsBytes => exact keeping_startToolRun op tool argsBytes
  | finishToolRun op status effect => exact keeping_finishToolRun op status effect
  | requestPermission op capabilityBytes =>
    exact keeping_ignore (keeping_requestPermission op capabilityBytes)
  | resolvePermission id decision => exact keeping_ignore (keeping_resolvePermission id decision)
  | expirePendingPermissions => exact keeping_ignore keeping_expirePendingPermissions
  | expireOwnerlessPendingPermissions =>
    exact keeping_ignore keeping_expireOwnerlessPendingPermissions
  | recoverAll => exact keeping_ignore keeping_recoverAll
  | putCheckpoint sequence => exact keeping_ignore (keeping_putCheckpoint sequence)
  | recordCompaction accepted => exact keeping_ignore (keeping_recordCompaction accepted)
  | _ =>
    -- one action over rows or registries the guarantee does not constrain
    simp [Command.program, ignore, registerResumedTurn, take, act, Call.Keeps]

end Session
