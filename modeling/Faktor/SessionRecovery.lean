/-
# Crash recovery twice

`recover_all` run on its own, with the clock and the files held fixed, and then once more.  A first
sweep that returns leaves no tool row running and no expired permission pending (`Rested`), and the
turn in a state the source calls the crash target.

The crash target of `WaitingForPermission` is `WaitingForPermission` itself, and that of
`ToolRequested` is `WaitingForPermission`: both count as interrupted again.  A second sweep from
such a rest appends another `CrashDetected` (`second_sweep_of_waiting`); from every other rest it
changes nothing (`second_sweep_idle_iff`).  The turn record is closed too, where the session has
one active turn at most; every run keeps it so (`run_oneActiveTurn`).
-/
import Faktor.SessionEffects

namespace Session

open AtomicProgram
open AtomicProgram.Prog

/-- Whatever a command returns when it runs alone, and the state it leaves, meets `Q`. -/
abbrev Ends {α : Type} (env : Env) (p : Cmd α) (s : Shared) (Q : α → Shared → Prop) : Prop :=
  Returns system env p s Q

section Rules

variable {α β : Type} {env : Env} {s s' : Shared} {Q : α → Shared → Prop}

theorem ends_take {c : Call} {r : c.Reply} {Q : c.Reply → Shared → Prop}
    (h : exec s c env = some (s', r)) : Ends env (take c) s Q ↔ Q r s' :=
  (returns_call h).trans (returns_ret r)

theorem ends_bind {p : Cmd α} {f : α → Cmd β} {R : β → Shared → Prop} :
    Ends env (p >>= f) s R ↔ Ends env p s fun a s' => Ends env (f a) s' R := returns_bind

/-- One action, then the rest. -/
theorem ends_take_bind {c : Call} {r : c.Reply} {f : c.Reply → Cmd α}
    (h : exec s c env = some (s', r)) : Ends env (take c >>= f) s Q ↔ Ends env (f r) s' Q := by
  rw [ends_bind, ends_take h]

theorem ends_require {x : Except SessionError α} :
    Ends env (require x) s Q ↔ ∀ a, x = .ok a → Q a s := returns_fromExcept x

theorem ends_stored {x : Except StoreError α} :
    Ends env (stored x) s Q ↔ ∀ a, x = .ok a → Q a s := by
  rw [stored, Ends, returns_fromExcept]
  cases x <;> simp [Except.mapError]

theorem ends_pure {a : α} : Ends env (pure a) s Q ↔ Q a s := returns_ret a

theorem ends_state {Q : AgentState → Shared → Prop} : Ends env state s Q ↔ Q s.db.row.state s := by
  rw [state, ends_take_bind rfl, ends_pure]

end Rules

/-! ## The sweep of the tool rows -/

section ToolRuns

variable {env : Env} {s : Shared}

/-- The operations whose tool rows are running. -/
def runningOps (db : Db) : List ℕ := (pendingToolRuns db).map ToolRunRow.opId

/-- What the sweep of a tool row keeps: the turn, the permissions and the turn records; no row
starts running. -/
structure Kept (db db' : Db) : Prop where
  state : db'.row.state = db.row.state
  permissions : db'.permissions = db.permissions
  turnRecords : db'.turnRecords = db.turnRecords
  running : runningOps db' ⊆ runningOps db

theorem Kept.refl (db : Db) : Kept db db := ⟨rfl, rfl, rfl, List.Subset.refl _⟩

variable {db db' : Db}

theorem Kept.trans {db'' : Db} (h : Kept db db') (h' : Kept db' db'') : Kept db db'' :=
  ⟨h'.state.trans h.state, h'.permissions.trans h.permissions,
    h'.turnRecords.trans h.turnRecords, List.Subset.trans h'.running h.running⟩

theorem mem_runningOps {o : ℕ} :
    o ∈ runningOps db ↔ ∃ r ∈ db.toolRuns, r.isRunning = true ∧ r.opId = o := by
  simp [runningOps, pendingToolRuns, and_assoc]

variable {effect : EffectStatus}

/-- A finished row runs no more, and the others are as before. -/
theorem mem_runningOps_finishRows {op o : ℕ} {status : ToolStatus} (hstatus : status ≠ .running)
    (hrows : db'.toolRuns = finishRows op status effect db.toolRuns) (ho : o ∈ runningOps db') :
    o ∈ runningOps db ∧ o ≠ op := by
  obtain ⟨r', hr', hrunning, rfl⟩ := mem_runningOps.mp ho
  rw [hrows, finishRows] at hr'
  obtain ⟨r, hr, rfl⟩ := List.mem_map.mp hr'
  split_ifs at hrunning ⊢ with hop
  · exact absurd hrunning (by simp [ToolRunRow.isRunning, hstatus])
  · refine ⟨mem_runningOps.mpr ⟨r, hr, hrunning, rfl⟩, fun heq => hop ?_⟩
    simp [runningWithOp, heq, hrunning]

/-- A recovered row that is finished. -/
theorem finishRecoveredToolRunAndEvent_ok {op : ℕ} {status : ToolStatus} {kind : EventKind} {crashState : AgentState} {now : ℤ} {seq : ℕ}
    (hstatus : status ≠ .running)
    (h : finishRecoveredToolRunAndEvent db op status effect kind crashState now = (.ok seq, db')) :
    Kept db db' ∧ op ∉ runningOps db' := by
  obtain ⟨hstate, hbody⟩ := beginPrepared_bind (transaction_eq_ok h)
  split_ifs at hbody
  obtain ⟨hj, hpermissions, htools, hturns, -⟩ := insertEventLocked_ok hbody
  have hrunning (o : ℕ) := mem_runningOps_finishRows (o := o) hstatus htools
  refine ⟨⟨?_, hpermissions, hturns, fun o ho => (hrunning o ho).1⟩, fun ho => ?_⟩
  · rw [hj.row]
    exact hstate.symm
  · exact (hrunning op ho).2 rfl

theorem ends_finishRecovered (row : ToolRunRow) (crashState : AgentState)
    {outcome : ToolStatus × EffectStatus × RecoveryAction} (hstatus : outcome.1 ≠ .running) :
    Ends env (finishRecovered row crashState outcome) s fun _ s' =>
      Kept s.db s'.db ∧ row.opId ∉ runningOps s'.db := by
  rw [finishRecovered, ends_take_bind rfl, ends_bind, ends_stored]
  intro seq hseq
  rw [ends_pure]
  exact finishRecoveredToolRunAndEvent_ok hstatus (Prod.ext hseq rfl)

theorem classifyVerification_not_running (expected : FileHash) (v : FileVerification) :
    (classifyVerification expected v).1 ≠ .running := by
  cases v with
  | hashed actual =>
    rw [classifyVerification]
    split_ifs <;> simp
  | missing => simp [classifyVerification]
  | refused => simp [classifyVerification]

/-- Recording a postcondition runs no row. -/
theorem recordToolPostcondition_kept (db : Db) (op : ℕ) (pc : FilePostcondition) :
    Kept db (recordToolPostcondition db op pc).2 := by
  rw [recordToolPostcondition]
  split_ifs
  · exact .refl db
  · refine ⟨rfl, rfl, rfl, fun o ho => ?_⟩
    obtain ⟨r', hr', hrunning, rfl⟩ := mem_runningOps.mp ho
    obtain ⟨r, hr, rfl⟩ := List.mem_map.mp hr'
    refine mem_runningOps.mpr ⟨r, hr, ?_, ?_⟩
    · split_ifs at hrunning <;> exact hrunning
    · split_ifs <;> rfl

theorem ends_verifyThroughHandle {Q : FileVerification → Shared → Prop} (relative : String)
    (h : ∀ v, Q v s) : Ends env (verifyThroughHandle relative) s Q := by
  rw [verifyThroughHandle, ends_take_bind rfl]
  split_ifs
  · exact ends_pure.mpr (h _)
  · exact (ends_take rfl).mpr (h _)

theorem ends_migrateLegacyVerifyRow (row : ToolRunRow) (path : String) (expected : FileHash) :
    Ends env (migrateLegacyVerifyRow row path expected) s fun _ s' => Kept s.db s'.db := by
  rw [migrateLegacyVerifyRow, ends_take_bind rfl, ends_take_bind rfl]
  split
  · exact ends_pure.mpr (Kept.refl _)
  · rw [ends_take_bind rfl]
    split
    · exact ends_pure.mpr (Kept.refl _)
    · rw [ends_take_bind rfl]
      split
      · exact ends_pure.mpr (Kept.refl _)
      · dsimp only
        rw [ends_take_bind rfl, ends_bind, ends_stored]
        intro _ _
        exact ends_pure.mpr (recordToolPostcondition_kept _ _ _)

/-- The strategy of a row ends it, whatever the files say. -/
theorem ends_applyStrategy (row : ToolRunRow) (strategy : RecoveryStrategy)
    (crashState : AgentState) :
    Ends env (applyStrategy row strategy crashState) s fun _ s' =>
      Kept s.db s'.db ∧ row.opId ∉ runningOps s'.db := by
  unfold applyStrategy
  split
  · exact returns_fail _
  · next pc _ =>
    have hclassified (opened : Bool) :
        Ends env (if ¬ opened then finishRecovered row crashState (.failed, .unknown, .needsHuman)
          else do
            let verification ← verifyThroughHandle pc.relativePath
            finishRecovered row crashState (classifyVerification pc.expectedHash verification)) s
          fun _ s' => Kept s.db s'.db ∧ row.opId ∉ runningOps s'.db := by
      split
      · exact ends_finishRecovered row crashState (by simp)
      · rw [ends_bind]
        refine ends_verifyThroughHandle _ fun v => ?_
        exact ends_finishRecovered row crashState (classifyVerification_not_running _ v)
    rw [ends_take_bind rfl]
    dsimp only
    split
    · exact (ends_take_bind rfl).mpr (hclassified _)
    · exact hclassified false
  · split
    · next path expected =>
      split
      · exact returns_fail _
      · rw [ends_bind]
        refine (ends_migrateLegacyVerifyRow row path expected).mono fun migrated s₁ hmigrated => ?_
        cases migrated with
        | none =>
          refine (ends_finishRecovered row crashState (by simp)).mono fun _ s₂ h => ?_
          exact ⟨hmigrated.trans h.1, h.2⟩
        | some pc =>
          dsimp only
          rw [ends_bind]
          refine ends_verifyThroughHandle _ fun v => ?_
          refine (ends_finishRecovered row crashState
            (classifyVerification_not_running _ v)).mono fun _ s₂ h => ?_
          exact ⟨hmigrated.trans h.1, h.2⟩
    all_goals exact ends_finishRecovered row crashState (by simp)

/-- Where the sweep of `rows` stands: of them only the `rest` may be running still. -/
def SweptBut (rows rest : List ToolRunRow) (db db' : Db) : Prop :=
  Kept db db' ∧ ∀ o ∈ runningOps db', o ∈ rows.map ToolRunRow.opId → o ∈ rest.map ToolRunRow.opId

theorem ends_recoverRow (crashState : AgentState) {rows rest : List ToolRunRow} {row : ToolRunRow}
    {ops : List RecoveredOp} (h : SweptBut rows (row :: rest) db s.db) :
    Ends env (recoverRow crashState ops row) s fun _ s' => SweptBut rows rest db s'.db := by
  rw [recoverRow, ends_bind]
  refine ends_require.mpr fun strategy _ => ?_
  rw [ends_bind]
  refine (ends_applyStrategy row strategy crashState).mono fun op s' happlied => ends_pure.mpr ?_
  refine ⟨h.1.trans happlied.1, fun o ho hmem => ?_⟩
  rcases List.mem_cons.mp (h.2 o (happlied.1.running ho) hmem) with rfl | hin
  · exact absurd ho happlied.2
  · exact hin

/-- The sweep of the tool rows leaves none of them running. -/
theorem ends_recoverRows (crashState : AgentState) (rows : List ToolRunRow) :
    Ends env (foldl (recoverRow crashState) [] rows) s fun _ s' =>
      Kept s.db s'.db ∧ ∀ o ∈ runningOps s'.db, o ∉ rows.map ToolRunRow.opId := by
  have hstart : SweptBut rows rows s.db s.db := ⟨.refl _, fun _ _ h => h⟩
  have hfold : Ends env (foldl (recoverRow crashState) [] rows) s
      fun _ s' => SweptBut rows [] s.db s'.db :=
    Returns.foldl (J := fun rest _ (s' : Shared) => SweptBut rows rest s.db s'.db)
      (fun row rest ops s₁ h => ends_recoverRow crashState h) hstart
  exact hfold.mono fun _ s' h => ⟨h.1, fun o ho hmem => absurd (h.2 o ho hmem) (by simp)⟩

end ToolRuns

/-! ## The sweep of the permissions -/

section Permissions

variable {env : Env} {s : Shared}

/-- The batch of the open turn has other calls to answer. -/
def siblings (db : Db) : Bool := !(pendingToolRuns db).isEmpty || siblingScan db.messages

/-- The state the sweep of the expired permissions leaves. -/
def sweptState (db : Db) (now : ℤ) : AgentState :=
  if (expiredPendingPermissions db now).isEmpty then db.row.state
  else landing (siblings db) db.row.state

/-- What the sweep of the permissions leaves. -/
structure Swept (now : ℤ) (db db' : Db) : Prop where
  state : db'.row.state = sweptState db now
  expired : expiredPendingPermissions db' now = []
  toolRuns : db'.toolRuns = db.toolRuns
  turnRecords : db'.turnRecords = db.turnRecords

theorem ends_negativePermissionLanding {Q : AgentState → Shared → Prop} {current : AgentState}
    (h : Q (landing (siblings s.db) current) s) :
    Ends env (negativePermissionLanding current) s Q := by
  rw [negativePermissionLanding, openBatchHasPendingSiblings, ends_bind, ends_take_bind rfl]
  rw [siblings] at h
  split
  · next hpending =>
    rw [hpending, Bool.true_or] at h
    exact ends_pure.mpr (ends_pure.mpr h)
  · next hpending =>
    rw [Bool.not_eq_true] at hpending
    rw [hpending, Bool.false_or] at h
    exact (ends_take rfl).mpr (ends_pure.mpr h)

variable {db db' : Db}

/-- No row is left that is pending past its deadline. -/
theorem expiredPendingPermissions_expire {now : ℤ}
    (h : db'.permissions
      = db.permissions.map fun p => if p.isExpired now then p.expire now else p) :
    expiredPendingPermissions db' now = [] := by
  rw [expiredPendingPermissions, h, List.map_eq_nil_iff, List.filter_eq_nil_iff]
  intro p hp
  obtain ⟨q, hq, rfl⟩ := List.mem_map.mp hp
  split_ifs with hexpired
  · simp [PermissionRow.isExpired, PermissionRow.expire]
  · exact hexpired

theorem expirePendingPermissionsForSession_ok {now : ℤ} {e : CommandEvent}
    {rows : List (ℕ × ℕ)} (hsome : ¬ (expiredPendingPermissions db now).isEmpty)
    (hstate : e.state = landing (siblings db) db.row.state)
    (h : expirePendingPermissionsForSession db now db.row.state e = (.ok rows, db')) :
    Swept now db db' := by
  rw [expirePendingPermissionsForSession] at h
  split_ifs at h
  · exact absurd h (by simp)
  · obtain ⟨-, hbody⟩ := beginPrepared_bind (transaction_eq_ok h)
    dsimp only at hbody
    rw [if_neg hsome] at hbody
    obtain ⟨seq, hins, -⟩ := insertEventLocked_bind hbody
    obtain ⟨hj, hpermissions, htools, hturns, -⟩ := insertEventLocked_ok hins
    refine ⟨?_, expiredPendingPermissions_expire hpermissions, htools, hturns⟩
    rw [hj.row, sweptState, if_neg hsome]
    exact hstate

theorem ends_expirePendingPermissionsLockedUntil (now : ℤ) :
    Ends env (expirePendingPermissionsLockedUntil now) s fun _ s' => Swept now s.db s'.db := by
  rw [expirePendingPermissionsLockedUntil, ends_take_bind rfl]
  split
  · next hnone =>
    refine ends_pure.mpr ⟨?_, List.isEmpty_iff.mp hnone, rfl, rfl⟩
    rw [sweptState, if_pos hnone]
  · next hsome =>
    rw [ends_bind, ends_state, ends_bind]
    refine ends_negativePermissionLanding ?_
    rw [ends_bind, ends_require]
    intro _ _
    dsimp only
    rw [ends_take_bind rfl, ends_stored]
    intro rows hrows
    exact expirePendingPermissionsForSession_ok hsome rfl (Prod.ext hrows rfl)

end Permissions

/-! ## The turn -/

section Turn

variable {env : Env} {s : Shared}

/-- The journal got one more event into `target`; permissions, tool rows and turn records are as
before. -/
structure Appended (target : AgentState) (db db' : Db) : Prop where
  state : db'.row.state = target
  events : db'.events ≠ db.events
  permissions : db'.permissions = db.permissions
  toolRuns : db'.toolRuns = db.toolRuns
  turnRecords : db'.turnRecords = db.turnRecords

variable {db db' : Db}

theorem appendEventV_ok {e : CommandEvent} {seq : ℕ}
    (h : appendEventV db e = (.ok seq, db')) : Appended e.state db db' := by
  obtain ⟨hj, hpermissions, htools, hturns, -⟩ := insertEventLocked_ok (transaction_eq_ok h)
  obtain ⟨op, hevents⟩ := hj.events
  refine ⟨by rw [hj.row], ?_, hpermissions, htools, hturns⟩
  rw [hevents]
  simp

theorem ends_transitionLocked (kind : EventKind) (target : AgentState) (opId : Option ℕ) :
    Ends env (transitionLocked kind target opId) s fun _ s' => Appended target s.db s'.db := by
  rw [transitionLocked, ends_bind, ends_state, ends_bind, ends_require]
  intro _ _
  rw [ends_take_bind rfl, ends_take_bind rfl, ends_stored]
  intro seq hseq
  exact appendEventV_ok (Prod.ext hseq rfl)

/-- The active turn record is failed. -/
def closedTurn (db : Db) : Db :=
  match activeTurnRecord db with
  | none => db
  | some record => (finishTurnRecord db record.turnOpId .failed).2

theorem closedTurn_turnRecords_congr (h : db'.turnRecords = db.turnRecords) :
    (closedTurn db').turnRecords = (closedTurn db).turnRecords := by
  have hactive : activeTurnRecord db' = activeTurnRecord db := by
    rw [activeTurnRecord, activeTurnRecord, h]
  rw [closedTurn, closedTurn, hactive]
  cases activeTurnRecord db with
  | none => exact h
  | some record => simp only [finishTurnRecord, h]

theorem ends_closeActiveTurnRecordIfAny (report : RecoveryReport) :
    Ends env (closeActiveTurnRecordIfAny report) s fun _ s' => s'.db = closedTurn s.db := by
  rw [closeActiveTurnRecordIfAny, ends_take_bind rfl]
  rw [closedTurn]
  cases activeTurnRecord s.db with
  | none => exact ends_pure.mpr rfl
  | some record =>
    dsimp only
    rw [ends_take_bind rfl, ends_pure]

end Turn

/-! ## One sweep -/

section Sweep

variable {env : Env} {s : Shared}

/-- The state a sweep leaves: the crash target of an interrupted turn. -/
def restState (db : Db) (now : ℤ) : AgentState :=
  if (sweptState db now).isOpActive then crashTarget (sweptState db now) else sweptState db now

/-- What a sweep that returns leaves. -/
structure Rested (now : ℤ) (db db' : Db) : Prop where
  state : db'.row.state = restState db now
  expired : expiredPendingPermissions db' now = []
  toolRuns : pendingToolRuns db' = []
  turnRecords : db'.turnRecords = (closedTurn db).turnRecords

variable {db db' : Db}

theorem expiredPendingPermissions_congr (h : db'.permissions = db.permissions)
    (now : ℤ) : expiredPendingPermissions db' now = expiredPendingPermissions db now := by
  rw [expiredPendingPermissions, expiredPendingPermissions, h]

theorem pendingToolRuns_congr (h : db'.toolRuns = db.toolRuns) :
    pendingToolRuns db' = pendingToolRuns db := by
  rw [pendingToolRuns, pendingToolRuns, h]

@[simp] theorem closedTurn_row (db : Db) : (closedTurn db).row = db.row := by
  rw [closedTurn]
  split <;> rfl

@[simp] theorem closedTurn_events (db : Db) : (closedTurn db).events = db.events := by
  rw [closedTurn]
  split <;> rfl

@[simp] theorem closedTurn_permissions (db : Db) :
    (closedTurn db).permissions = db.permissions := by
  rw [closedTurn]
  split <;> rfl

@[simp] theorem closedTurn_toolRuns (db : Db) : (closedTurn db).toolRuns = db.toolRuns := by
  rw [closedTurn]
  split <;> rfl

/-- Closing the turn after the rest of the sweep. -/
theorem Rested.of_closedTurn {now : ℤ} {db₁ : Db} (h : db' = closedTurn db₁)
    (hstate : db₁.row.state = restState db now) (hexpired : expiredPendingPermissions db₁ now = [])
    (htools : pendingToolRuns db₁ = []) (hturns : db₁.turnRecords = db.turnRecords) :
    Rested now db db' := by
  subst h
  refine ⟨by rw [closedTurn_row, hstate], ?_, ?_, closedTurn_turnRecords_congr hturns⟩
  · rw [expiredPendingPermissions_congr (closedTurn_permissions db₁), hexpired]
  · rw [pendingToolRuns_congr (closedTurn_toolRuns db₁), htools]

theorem ends_recoverTurn (hswept : Swept env.now db s.db)
    (htools : pendingToolRuns s.db = []) (report : RecoveryReport) :
    Ends env (recoverTurn s.db.row.state report) s fun _ s' => Rested env.now db s'.db := by
  rw [recoverTurn]
  split
  · next hactive =>
    rw [ends_bind]
    refine (ends_transitionLocked _ _ _).mono fun _ s₁ happended => ?_
    refine (ends_closeActiveTurnRecordIfAny _).mono fun _ s₂ hclosed => ?_
    refine .of_closedTurn hclosed ?_ ?_ ?_ (happended.turnRecords.trans hswept.turnRecords)
    · rw [happended.state, restState, ← hswept.state, if_pos hactive]
    · rw [expiredPendingPermissions_congr happended.permissions, hswept.expired]
    · rw [pendingToolRuns_congr happended.toolRuns, htools]
  · next hidle =>
    refine (ends_closeActiveTurnRecordIfAny _).mono fun _ s₂ hclosed => ?_
    refine .of_closedTurn hclosed ?_ hswept.expired htools hswept.turnRecords
    rw [restState, ← hswept.state, if_neg hidle]

theorem ends_recoverToolRuns (hswept : Swept env.now db s.db)
    (report : RecoveryReport) :
    Ends env (recoverToolRuns s.db.row.state (pendingToolRuns s.db) report) s fun _ s' =>
      Rested env.now db s'.db := by
  rw [recoverToolRuns, ends_bind]
  refine (ends_transitionLocked _ _ _).mono fun _ s₁ happended => ?_
  rw [ends_bind]
  refine (ends_recoverRows _ _).mono fun ops s₂ ⟨hkept, hrows⟩ => ?_
  refine (ends_closeActiveTurnRecordIfAny _).mono fun _ s₃ hclosed => ?_
  have hrunning : runningOps s₁.db = runningOps s.db := by
    rw [runningOps, runningOps, pendingToolRuns_congr happended.toolRuns]
  refine .of_closedTurn hclosed ?_ ?_ ?_
    (hkept.turnRecords.trans (happended.turnRecords.trans hswept.turnRecords))
  · rw [hkept.state, happended.state, restState, ← hswept.state]
  · rw [expiredPendingPermissions_congr (hkept.permissions.trans happended.permissions),
      hswept.expired]
  · -- a row still running was running before, and every such row was swept
    by_contra hne
    obtain ⟨r, hr⟩ := List.exists_mem_of_ne_nil _ hne
    have ho : r.opId ∈ runningOps s₂.db := List.mem_map_of_mem hr
    have hbefore : r.opId ∈ runningOps s.db := hrunning ▸ hkept.running ho
    exact hrows _ ho hbefore

/-- The command lock is held for the body and released after it. -/
theorem Ends.withGuard {α : Type} {body : Cmd α} {Q : α → Shared → Prop}
    (h : Ends env body { s with locked := true } fun a s' => Q a { s' with locked := false }) :
    Ends env (withGuard body) s Q := by
  cases hlocked : s.locked with
  | true =>
    -- the lock is taken: the command does not get past its first action
    intro a s' hrun
    simp [Session.withGuard, take, act, system, exec, hlocked] at hrun
  | false =>
    have hlock : exec s .lock env = some ({ s with locked := true }, ()) := by simp [exec, hlocked]
    rw [Session.withGuard, ends_take_bind hlock]
    refine Returns.ensuring (h.mono fun a s' hQ => ?_)
    exact (ends_take rfl).mpr hQ

/-- **One sweep.** -/
theorem ends_recoverAll :
    Ends env recoverAll s fun _ s' => s'.locked = false ∧ Rested env.now s.db s'.db := by
  rw [recoverAll]
  refine .withGuard ?_
  rw [ends_take_bind rfl, ends_bind]
  refine (ends_expirePendingPermissionsLockedUntil env.now).mono fun expired s₁ hswept => ?_
  rw [ends_bind, ends_state, ends_take_bind rfl, ends_take_bind rfl]
  dsimp only
  split
  · next hnone =>
    refine (ends_recoverTurn (s := { s₁ with processes := [] }) hswept
      (List.isEmpty_iff.mp hnone) _).mono fun _ s₂ hrested => ⟨rfl, hrested⟩
  · refine (ends_recoverToolRuns (s := { s₁ with processes := [] }) hswept _).mono
      fun _ s₂ hrested => ⟨rfl, hrested⟩

end Sweep

/-! ## A second sweep -/

section Second

variable {env : Env} {s : Shared}

/-- The turns the session is in: the source keeps one. -/
def OneActiveTurn (db : Db) : Prop :=
  ∀ r ∈ db.turnRecords, ∀ r' ∈ db.turnRecords, r.isActive → r'.isActive →
    r.turnOpId = r'.turnOpId

/-- The turn is parked on a permission that a sweep at `now` does not settle. -/
def Parked (db : Db) (now : ℤ) : Prop :=
  (db.row.state = .waitingForPermission ∧ expiredPendingPermissions db now = []) ∨
    db.row.state = .toolRequested ∧
      (expiredPendingPermissions db now = [] ∨ siblings db = false)

instance decidableOneActiveTurn (db : Db) : Decidable (OneActiveTurn db) :=
  inferInstanceAs (Decidable (∀ r ∈ db.turnRecords, ∀ r' ∈ db.turnRecords, _))

instance decidableParked (db : Db) (now : ℤ) : Decidable (Parked db now) :=
  inferInstanceAs (Decidable (_ ∨ _))

/-- Where a sweep leaves an interrupted turn interrupted. -/
theorem isOpActive_restState (db : Db) (now : ℤ) :
    (restState db now).isOpActive = true ↔ Parked db now := by
  have hrest (current : AgentState) :
      (if current.isOpActive then crashTarget current else current).isOpActive = true
        ↔ current = .waitingForPermission ∨ current = .toolRequested := by
    cases current <;> decide
  rw [restState, hrest, sweptState, Parked]
  by_cases hnone : expiredPendingPermissions db now = []
  · simp [hnone]
  · rw [if_neg (by simpa using hnone)]
    simp only [hnone, and_false, false_or]
    -- the sweep settles the permission of a waiting turn; a requested tool stays only alone
    cases siblings db <;> cases db.row.state <;> decide

/-- The active record is one of the active rows, and there is one unless none is active. -/
theorem activeTurnRecord_cases (db : Db) :
    (activeTurnRecord db = none ∧ db.turnRecords.filter TurnRecordRow.isActive = []) ∨
      ∃ record ∈ db.turnRecords.filter TurnRecordRow.isActive,
        activeTurnRecord db = some record := by
  rw [activeTurnRecord]
  generalize db.turnRecords.filter TurnRecordRow.isActive = l
  induction l using List.reverseRecOn with
  | nil => exact .inl ⟨rfl, rfl⟩
  | append_singleton l r ih =>
    refine .inr ?_
    rw [List.foldl_append, List.foldl_cons, List.foldl_nil]
    rcases ih with ⟨hnone, -⟩ | ⟨b, hb, hbest⟩
    · rw [hnone]
      exact ⟨r, by simp, rfl⟩
    · rw [hbest]
      dsimp only
      split_ifs
      · exact ⟨r, by simp, rfl⟩
      · exact ⟨b, List.mem_append_left _ hb, rfl⟩

variable {db : Db}

theorem activeTurnRecord_eq_none :
    activeTurnRecord db = none ↔ ∀ r ∈ db.turnRecords, r.isActive = false := by
  have hfilter : db.turnRecords.filter TurnRecordRow.isActive = []
      ↔ ∀ r ∈ db.turnRecords, r.isActive = false := by
    simp [List.filter_eq_nil_iff]
  rw [← hfilter]
  rcases activeTurnRecord_cases db with ⟨hnone, hnil⟩ | ⟨record, hrecord, hsome⟩
  · simp [hnone, hnil]
  · simp [hsome, List.ne_nil_of_mem hrecord]

theorem activeTurnRecord_some {record : TurnRecordRow}
    (h : activeTurnRecord db = some record) :
    record ∈ db.turnRecords ∧ record.isActive = true := by
  rcases activeTurnRecord_cases db with ⟨hnone, -⟩ | ⟨r, hr, hsome⟩
  · exact absurd (hnone.symm.trans h) (by simp)
  · rw [hsome, Option.some.injEq] at h
    exact List.mem_filter.mp (h ▸ hr)

/-- Closing the active record closes every turn exactly where there is one. -/
theorem activeTurnRecord_closedTurn (db : Db) :
    activeTurnRecord (closedTurn db) = none ↔ OneActiveTurn db := by
  rw [activeTurnRecord_eq_none, closedTurn]
  cases hactive : activeTurnRecord db with
  | none =>
    have hnone := activeTurnRecord_eq_none.mp hactive
    refine ⟨fun _ r hr r' _ h => absurd h (by simp [hnone r hr]), fun _ => hnone⟩
  | some record =>
    obtain ⟨hmem, hrecord⟩ := activeTurnRecord_some hactive
    dsimp only [finishTurnRecord]
    constructor
    · intro h r hr r' hr' hractive hractive'
      -- a record of another turn would still be active
      have hclosed (q : TurnRecordRow) (hq : q ∈ db.turnRecords) (hqactive : q.isActive) :
          q.turnOpId = record.turnOpId := by
        by_contra hne
        have hstill := h _ (List.mem_map_of_mem hq)
        rw [if_neg fun hc => hne hc.1] at hstill
        exact absurd hstill (by simp [hqactive])
      rw [hclosed r hr hractive, hclosed r' hr' hractive']
    · intro h r hr
      obtain ⟨q, hq, rfl⟩ := List.mem_map.mp hr
      split_ifs with hhit
      · simp [TurnRecordRow.isActive]
      · by_contra hqactive
        rw [Bool.not_eq_false] at hqactive
        exact hhit ⟨h q hq record hmem hqactive hrecord, hqactive⟩

/-- A sweep that finds nothing to do does nothing. -/
theorem recoverAll_idle (hlocked : s.locked = false)
    (hexpired : expiredPendingPermissions s.db env.now = [])
    (htools : pendingToolRuns s.db = []) (hidle : s.db.row.state.isOpActive = false)
    (hturn : activeTurnRecord s.db = none) :
    ∃ report s', runAlone system env recoverAll s = some (.ok report, s') ∧ s'.db = s.db := by
  simp [recoverAll, withGuard, expirePendingPermissionsLockedUntil, state, recoverTurn,
    closeActiveTurnRecordIfAny, take, act, runAlone_bind, runAlone_ensuring, system, exec, hlocked,
    hexpired, htools, hidle, hturn, ensuring, Except.bind]

/-- A sweep that finds the turn interrupted journals it. -/
theorem ends_recoverAll_active (hexpired : expiredPendingPermissions s.db env.now = [])
    (htools : pendingToolRuns s.db = []) (hactive : s.db.row.state.isOpActive = true) :
    Ends env recoverAll s fun _ s' => s'.db.events ≠ s.db.events := by
  rw [recoverAll]
  refine .withGuard ?_
  rw [ends_take_bind rfl, expirePendingPermissionsLockedUntil, ends_bind, ends_take_bind rfl,
    if_pos (by simp [hexpired]), ends_pure, ends_bind, ends_state, ends_take_bind rfl,
    ends_take_bind rfl]
  dsimp only
  rw [if_pos (by simp [htools]), recoverTurn, if_pos hactive, ends_bind]
  refine (ends_transitionLocked _ _ _).mono fun _ s₁ happended => ?_
  refine (ends_closeActiveTurnRecordIfAny _).mono fun _ s₂ hclosed => ?_
  rw [hclosed, closedTurn_events]
  exact happended.events

/-- **A second sweep.**  After a sweep that returned, with the clock and the files as before, a
second one returns and changes nothing, no tool row runs and no turn is active, exactly when the
turn was not parked on a permission the sweep leaves pending and one turn at most was active. -/
theorem second_sweep_idle_iff {s₁ : Shared} {report : RecoveryReport}
    (hfirst : runAlone system env recoverAll s = some (.ok report, s₁)) :
    ((∃ report' s₂, runAlone system env recoverAll s₁ = some (.ok report', s₂) ∧ s₂.db = s₁.db) ∧
        (∀ r ∈ s₁.db.toolRuns, r.status ≠ .running) ∧
        ∀ r ∈ s₁.db.turnRecords, r.status ≠ .active)
      ↔ ¬ Parked s.db env.now ∧ OneActiveTurn s.db := by
  obtain ⟨hlocked, hrested⟩ := ends_recoverAll report s₁ hfirst
  have htools : ∀ r ∈ s₁.db.toolRuns, r.status ≠ .running := by
    simpa [pendingToolRuns, ToolRunRow.isRunning, List.filter_eq_nil_iff] using hrested.toolRuns
  have hturns : (∀ r ∈ s₁.db.turnRecords, r.status ≠ .active) ↔ OneActiveTurn s.db := by
    rw [← activeTurnRecord_closedTurn, activeTurnRecord_eq_none, hrested.turnRecords]
    simp [TurnRecordRow.isActive]
  have hactive : s₁.db.row.state.isOpActive = true ↔ Parked s.db env.now := by
    rw [hrested.state, isOpActive_restState]
  rw [hturns, ← hactive]
  constructor
  · rintro ⟨⟨report', s₂, hsecond, hsame⟩, -, hone⟩
    refine ⟨fun hparked => ?_, hone⟩
    refine ends_recoverAll_active hrested.expired hrested.toolRuns hparked report' s₂ hsecond ?_
    rw [hsame]
  · rintro ⟨hidle, hone⟩
    refine ⟨recoverAll_idle hlocked hrested.expired hrested.toolRuns (by simpa using hidle) ?_,
      htools, hone⟩
    rw [activeTurnRecord_eq_none]
    simpa [TurnRecordRow.isActive] using hturns.mpr hone

/-- A turn that died while its tool ran, with the file it was to write not there. -/
def diedInTool : Shared :=
  { db := { createSession 1 1 1 0 with
              row := { id := 1, workspaceId := 1, worktreeId := 1, state := .executingTool,
                       lifecycle := .opened, updatedMs := 0 }
              toolRuns := [{ opId := 2, tool := "write_file", status := .running,
                             effect := .unknown, recovery := .valid (.verifyHash "a.txt" 7),
                             expectedHash := some 7, postcondition := none }]
              turnRecords := [{ turnOpId := 1, queueSeq := none, promptMessageId := some 2,
                                startedAt := 0, status := .active }] }
    locked := false
    ops := []
    processes := [] }

theorem exists_ok_of_toBool {ε α : Type} {x : Except ε α} (h : x.toBool = true) :
    ∃ a, x = .ok a := by
  cases x with
  | error e => exact absurd h (by simp [Except.toBool])
  | ok a => exact ⟨a, rfl⟩

theorem diedInTool_swept_once :
    ∃ report s₁, runAlone system (.at 5) recoverAll diedInTool = some (.ok report, s₁) ∧
      s₁.db.events.length = 3 ∧ s₁.db.row.state = .failedRecoverable ∧
      (∃ report' s₂, runAlone system (.at 5) recoverAll s₁ = some (.ok report', s₂) ∧
        s₂.db = s₁.db) ∧
      (∀ r ∈ s₁.db.toolRuns, r.status ≠ .running) ∧
      ∀ r ∈ s₁.db.turnRecords, r.status ≠ .active := by
  have hrun : (runAlone system (.at 5) recoverAll diedInTool).map
      (fun x => (x.1.toBool, x.2.db.events.length, x.2.db.row.state))
      = some (true, 3, .failedRecoverable) := by decide
  obtain ⟨⟨x, s₁⟩, hfirst, hfacts⟩ := Option.map_eq_some_iff.mp hrun
  simp only [Prod.mk.injEq] at hfacts
  obtain ⟨hok, hevents, hstate⟩ := hfacts
  obtain ⟨report, rfl⟩ := exists_ok_of_toBool hok
  have hsettled := (second_sweep_idle_iff hfirst).mpr ⟨by decide, by decide⟩
  exact ⟨report, s₁, hfirst, hevents, hstate, hsettled⟩

/-- A process that dies while a permission is pending, and a clock before its deadline: every
sweep of the restarted one journals the crash again. -/
theorem second_sweep_of_waiting :
    ∃ w report s₁ report' s₂,
      Trace.run step (created 1 1 1 0) (waitingTurn ++ [.crash]) = some w ∧
      runAlone system (.at 6) recoverAll w.shared = some (.ok report, s₁) ∧
      runAlone system (.at 6) recoverAll s₁ = some (.ok report', s₂) ∧
      s₂.db.events.length = s₁.db.events.length + 1 := by
  have hrun : ((Trace.run step (created 1 1 1 0) (waitingTurn ++ [.crash])).bind fun w =>
      (runAlone system (.at 6) recoverAll w.shared).bind fun x =>
        (runAlone system (.at 6) recoverAll x.2).map fun y =>
          (x.1.toBool, y.1.toBool, x.2.db.events.length, y.2.db.events.length))
      = some (true, true, 7, 8) := by decide
  obtain ⟨w, hw, hsweeps⟩ := Option.bind_eq_some_iff.mp hrun
  obtain ⟨⟨x, s₁⟩, hfirst, hrest⟩ := Option.bind_eq_some_iff.mp hsweeps
  obtain ⟨⟨y, s₂⟩, hsecond, hfacts⟩ := Option.map_eq_some_iff.mp hrest
  simp only [Prod.mk.injEq] at hfacts
  obtain ⟨hx, hy, hevents, hevents'⟩ := hfacts
  obtain ⟨report, rfl⟩ := exists_ok_of_toBool hx
  obtain ⟨report', rfl⟩ := exists_ok_of_toBool hy
  exact ⟨w, report, s₁, report', s₂, hw, hfirst, hsecond, by rw [hevents, hevents']⟩

end Second

end Session
