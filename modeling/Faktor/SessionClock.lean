/-
# Timestamps and the clock

Every timestamp a session records is a reading of the clock, clamped so that the journal never goes
back in time.  The clamp can carry an old stamp forward, so a bound on the readings is a bound on
the journal, the session row and the resolved permissions only as long as nothing else is stamped.

The sweep of ownerless permissions compares deadlines with `i64::MAX` and stamps its event and the
rows it settles with the same value.  A run in which such a sweep finds no pending row keeps the
bound (`recorded_by`); one that does find a row stamps the end of time, and every later event of
the session inherits it (`ownerless_sweep_stamps_i64Max`).
-/
import Faktor.SessionEffects
import Faktor.SessionGuarantees

namespace Session

open AtomicProgram

/-- Nothing in the tables is stamped after `T`. -/
structure RecordedBy (T : ℤ) (db : Db) : Prop where
  events : ∀ e ∈ db.events, e.tsMs ≤ T
  updated : db.row.updatedMs ≤ T
  resolved : ∀ p ∈ db.permissions, ∀ t ∈ p.resolvedMs, t ≤ T

/-- The time a read of the expired permissions compares deadlines with. -/
def Call.sweepsAt : Call → Option ℤ
  | .expiredPendingPermissions deadline => some deadline
  | _ => none

/-- The clock reads at most `T`, and a sweep of permissions at a later time finds none. -/
def Punctual (T : ℤ) (s : Shared) (c : Call) (env : Env) : Prop :=
  env.now ≤ T ∧
    ∀ deadline ∈ c.sweepsAt, T < deadline → expiredPendingPermissions s.db deadline = []

instance decidablePunctual (T : ℤ) (s : Shared) (c : Call) (env : Env) :
    Decidable (Punctual T s c env) :=
  inferInstanceAs (Decidable (_ ∧ _))

variable {T : ℤ}

/-- The clamp never runs ahead: it returns the stamp or one recorded before. -/
theorem monotonicTs_le {events : List Event} {ts : ℤ} (hevents : ∀ e ∈ events, e.tsMs ≤ T)
    (hts : ts ≤ T) : monotonicTs (events.getLast?.map Event.tsMs) ts ≤ T := by
  rcases hlast : events.getLast? with _ | e
  · exact hts
  · have he : e.tsMs ≤ T := hevents e (List.mem_of_getLast? hlast)
    dsimp only [Option.map_some, monotonicTs]
    split_ifs <;> assumption

/-- A journaled write with a stamp up to `T`. -/
theorem Journaled.recordedBy {db db' : Db} {lifecycle : SessionLifecycle} {kind : EventKind}
    {state : AgentState} {ts : ℤ} (h : Journaled db db' lifecycle kind state ts)
    (hdb : RecordedBy T db) (hts : ts ≤ T) :
    (∀ e ∈ db'.events, e.tsMs ≤ T) ∧ db'.row.updatedMs ≤ T := by
  have hclamped := monotonicTs_le hdb.events hts
  obtain ⟨opId, hevents⟩ := h.events
  refine ⟨fun e he => ?_, by rw [h.row]; exact hclamped⟩
  rw [hevents] at he
  rcases List.mem_append.mp he with he | he
  · exact hdb.events e he
  · rw [List.mem_singleton.mp he]
    exact hclamped

/-- The stamp of an action that keeps the guarantee. -/
theorem Call.Keeps.stamp {c : Call} (h : c.Keeps (· ≤ T)) {now : ℤ} (hnow : now ≤ T)
    {w : JournalWrite} (hw : c.journals now = some w) : w.tsMs ≤ T := by
  cases c <;> simp only [Call.journals, Option.some.injEq, reduceCtorEq] at hw <;> subst hw
  case appendEventV e => exact h
  case expirePendingPermissionsForSession => exact h.2.1
  case finishRecoveredToolRunAndEvent => exact hnow
  all_goals exact h.2

theorem Call.Keeps.resolves {c : Call} (h : c.Keeps (· ≤ T)) {now : ℤ} (hnow : now ≤ T) {t : ℤ}
    (ht : c.resolvesAt now = some t) : t ≤ T := by
  cases c <;> simp only [Call.resolvesAt, Option.some.injEq, reduceCtorEq] at ht <;> subst ht
  case resolvePermissionAndEvent => exact hnow
  case expirePendingPermissionsForSession => exact h.2.2

/-- **One action** that keeps its guarantee records nothing after `T`. -/
theorem exec_recordedBy {s s' : Shared} {c : Call} {env : Env} {r : c.Reply}
    (h : RecordedBy T s.db) (hkeeps : c.Keeps (· ≤ T)) (hnow : env.now ≤ T)
    (hexec : exec s c env = some (s', r)) : RecordedBy T s'.db := by
  have hjournal : (∀ e ∈ s'.db.events, e.tsMs ≤ T) ∧ s'.db.row.updatedMs ≤ T := by
    cases exec_journal hexec with
    | keep hrow hevents => exact ⟨hevents ▸ h.events, hrow ▸ h.updated⟩
    | append w hc hguard hj => exact hj.recordedBy h (hkeeps.stamp hnow hc)
    | transition t hc hlifecycle hstate hj => exact hj.recordedBy h hnow
    | lifecycle expected new hc hexpected hrow hevents =>
      exact ⟨hevents ▸ h.events, by rw [hrow]; exact hnow⟩
    | admission hc hstate hrow hevents hmessage =>
      exact ⟨hevents ▸ h.events, by rw [hrow]; exact hnow⟩
  refine ⟨hjournal.1, hjournal.2, fun p hp t ht => ?_⟩
  rcases exec_permissions hexec p hp t ht with ⟨q, hq, hqt⟩ | htime
  · exact h.resolved q hq t hqt
  · exact hkeeps.resolves hnow htime

/-- The replies of a punctual action. -/
theorem Punctual.replies {s s' : Shared} {c : Call} {env : Env} {r : c.Reply}
    (h : Punctual T s c env) (hexec : exec s c env = some (s', r)) : c.Replies (· ≤ T) r := by
  cases c with
  | now =>
    obtain ⟨-, rfl⟩ := Prod.mk.inj (Option.some.inj hexec)
    exact h.1
  | expiredPendingPermissions deadline =>
    obtain ⟨-, rfl⟩ := Prod.mk.inj (Option.some.inj hexec)
    intro hlate
    exact h.2 deadline rfl (by omega)
  | _ => trivial

variable {id workspaceId worktreeId : ℕ} {now : ℤ} {es : List Happening} {w : World}

/-- **No stamp from the future.**  In every run whose clock readings are at most `T`, and whose
sweeps of permissions at a later time find none, every event's timestamp, the session's
`updated_ms` and every permission's `resolved_ms` are at most `T`. -/
theorem recorded_by (hcreated : now ≤ T)
    (hrun : Trace.run step (created id workspaceId worktreeId now) es = some w)
    (hpunctual : Throughout (Punctual T) (created id workspaceId worktreeId now) es) :
    (∀ e ∈ w.shared.db.events, e.tsMs ≤ T) ∧ w.shared.db.row.updatedMs ≤ T ∧
      ∀ p ∈ w.shared.db.permissions, ∀ t ∈ p.resolvedMs, t ≤ T := by
  have hinitial : RecordedBy T (createSession id workspaceId worktreeId now) := by
    refine ⟨fun e he => ?_, hcreated, fun p hp => absurd hp List.not_mem_nil⟩
    rw [List.mem_singleton.mp he]
    exact hcreated
  have hsafe := System.run_invariant (P := Call.Keeps (· ≤ T)) (R := Call.Replies (· ≤ T))
    (program_keeps _)
    (fun s c env s' r (hinv : RecordedBy T s.db) hkeeps hcond hexec =>
      (⟨exec_recordedBy hinv hkeeps hcond.1 hexec, hcond.replies hexec⟩ : RecordedBy T s'.db ∧ _))
    (fun _ h => h)
    ⟨hinitial, fun _ hp => absurd hp List.not_mem_nil⟩ hpunctual hrun
  exact ⟨hsafe.1.events, hsafe.1.updated, hsafe.1.resolved⟩

/-- The permission is granted, and the sweep of ownerless ones finds nothing left. -/
def grantedBeforeSweep : List Happening :=
  waitingTurn ++
    uninterrupted 5 8 (.resolvePermission 1 .allow) (.at 6) ++
    uninterrupted 6 3 .expireOwnerlessPendingPermissions (.at 7)

theorem grantedBeforeSweep_recorded :
    ∃ w, Trace.run step (created 1 1 1 0) grantedBeforeSweep = some w ∧
      w.shared.db.permissions.map PermissionRow.resolvedMs = [some 6] ∧
      (∀ e ∈ w.shared.db.events, e.tsMs ≤ 7) ∧ w.shared.db.row.updatedMs ≤ 7 ∧
      ∀ p ∈ w.shared.db.permissions, ∀ t ∈ p.resolvedMs, t ≤ 7 := by
  have hrun : ((Trace.run step (created 1 1 1 0) grantedBeforeSweep).map
      fun w => w.shared.db.permissions.map PermissionRow.resolvedMs) = some [some 6] := by decide
  obtain ⟨w, hw, hresolved⟩ := Option.map_eq_some_iff.mp hrun
  exact ⟨w, hw, hresolved, recorded_by (by decide) hw (by decide)⟩

/-- The permission is still pending when the restarted process sweeps the ownerless ones; one more
event follows. -/
def ownerlessSweep : List Happening :=
  waitingTurn ++ [.crash] ++
    uninterrupted 0 7 .expireOwnerlessPendingPermissions (.at 6) ++
    uninterrupted 1 5 (.appendEvent .promptReceived .preparing none) (.at 7)

/-- Every reading is at most 7, and the sweep stamps its event, the permission and through the
clamp every later event with `i64::MAX`. -/
theorem ownerless_sweep_stamps_i64Max :
    ∃ w, Trace.run step (created 1 1 1 0) ownerlessSweep = some w ∧
      Throughout (fun _ _ env => env.now ≤ 7) (created 1 1 1 0) ownerlessSweep ∧
      w.shared.db.events.map Event.tsMs = [0, 5, 5, 5, 5, 5, i64Max, i64Max] ∧
      w.shared.db.row.updatedMs = i64Max ∧
      w.shared.db.permissions.map PermissionRow.resolvedMs = [some (i64Max : ℤ)] := by
  have hrun : ((Trace.run step (created 1 1 1 0) ownerlessSweep).map fun w =>
      (w.shared.db.events.map Event.tsMs, w.shared.db.row.updatedMs,
        w.shared.db.permissions.map PermissionRow.resolvedMs))
      = some ([0, 5, 5, 5, 5, 5, (i64Max : ℤ), i64Max], (i64Max : ℤ), [some (i64Max : ℤ)]) := by
    decide
  obtain ⟨w, hw, hfacts⟩ := Option.map_eq_some_iff.mp hrun
  simp only [Prod.mk.injEq] at hfacts
  exact ⟨w, hw, by decide, hfacts⟩

end Session
