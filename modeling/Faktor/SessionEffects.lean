/-
# What an action can do

One inversion lemma for each group of rows.  `exec_journal` covers the session row and the
journal: an action keeps both, appends one event, moves the lifecycle, or admits a queued prompt.
`exec_permissions` covers the permission rows, `exec_queue` the prompt queue and the messages, and
`exec_turnRecords` the turn records.  The invariants of the following modules are derived from
these and never unfold a transaction.
-/
import Faktor.SessionSystem

namespace Session

open AtomicProgram

/-! ## Transactions -/

/-- The event `insert_event_locked` writes for `kind`, `state` and a stamp. -/
def nextEvent (events : List Event) (opId : Option ℕ) (kind : EventKind) (state : AgentState)
    (ts : ℤ) : Event :=
  { seq := lastSeq events + 1, opId := opId, kind := kind, state := state,
    tsMs := monotonicTs (events.getLast?.map Event.tsMs) ts }

/-- `db'` has one more event than `db`, and its row is projected onto that event. -/
structure Journaled (db db' : Db) (lifecycle : SessionLifecycle) (kind : EventKind)
    (state : AgentState) (ts : ℤ) : Prop where
  room : lastSeq db.events < i64Max
  events : ∃ opId, db'.events = db.events ++ [nextEvent db.events opId kind state ts]
  row : db'.row = { db.row with lifecycle := lifecycle, state := state,
                                updatedMs := monotonicTs (db.events.getLast?.map Event.tsMs) ts }

variable {db' : Db} {e : CommandEvent} {seq : ℕ}

theorem insertEventLocked_ok {db : Db} (h : insertEventLocked db e = .ok (seq, db')) :
    Journaled db db' db.row.lifecycle e.kind e.state e.tsMs ∧
      db'.permissions = db.permissions ∧ db'.toolRuns = db.toolRuns ∧
      db'.turnRecords = db.turnRecords ∧ db'.queue = db.queue ∧ db'.messages = db.messages ∧
      db'.checkpoints = db.checkpoints := by
  rw [insertEventLocked] at h
  split_ifs at h with hroom
  obtain ⟨rfl, rfl⟩ := Prod.mk.inj (Except.ok.inj h)
  exact ⟨⟨by omega, ⟨e.opId, rfl⟩, rfl⟩, rfl, rfl, rfl, rfl, rfl, rfl⟩

/-- A transaction either commits what its body computed or leaves the tables alone. -/
theorem transaction_cases {α : Type} (db : Db) (body : Except StoreError (α × Db)) :
    (transaction db body).2 = db ∨
      ∃ a, body = .ok (a, (transaction db body).2) ∧ (transaction db body).1 = .ok a := by
  rcases body with err | ⟨a, db'⟩
  · exact .inl rfl
  · exact .inr ⟨a, rfl, rfl⟩

/-- A transaction that replies with a value committed. -/
theorem transaction_eq_ok {α : Type} {db : Db} {body : Except StoreError (α × Db)} {a : α}
    (h : transaction db body = (.ok a, db')) : body = .ok (a, db') := by
  rcases body with err | ⟨b, db₁⟩
  · exact absurd h (by simp [transaction])
  · obtain ⟨hb, rfl⟩ := Prod.mk.inj h
    rw [Except.ok.inj hb]

variable {expected : AgentState}

theorem beginPrepared_bind {α : Type} {db : Db} {body : Unit → Except StoreError α} {a : α}
    (h : (beginPrepared db expected >>= body) = .ok a) :
    db.row.state = expected ∧ body () = .ok a := by
  rw [beginPrepared] at h
  split_ifs at h with hstate
  · exact ⟨hstate, h⟩
  · exact absurd h (by simp [bind, Except.bind])

/-- A guarded transaction leaves the tables alone, or its body went through in the expected
state. -/
theorem guarded_cases {α : Type} {S : Db → Prop} {db : Db} {body : Unit → Except StoreError (α × Db)}
    (hkeep : S db) (hbody : db.row.state = expected → ∀ a db', body () = .ok (a, db') → S db') :
    S (transaction db (beginPrepared db expected >>= body)).2 := by
  rcases transaction_cases db (beginPrepared db expected >>= body) with h | ⟨a, h, -⟩
  · rw [h]
    exact hkeep
  · obtain ⟨hstate, hok⟩ := beginPrepared_bind h
    exact hbody hstate a _ hok

/-- The insertion behind a transaction that replies with something else than the sequence
number. -/
theorem insertEventLocked_bind {α : Type} {db : Db} {a b : α}
    (h : (insertEventLocked db e >>= fun x => pure (b, x.2)) = .ok (a, db')) :
    ∃ seq, insertEventLocked db e = .ok (seq, db') ∧ a = b := by
  rcases hins : insertEventLocked db e with err | ⟨seq, db₁⟩
  · rw [hins] at h
    exact absurd h (by simp [bind, Except.bind])
  · rw [hins] at h
    obtain ⟨rfl, rfl⟩ := Prod.mk.inj (Except.ok.inj h)
    exact ⟨seq, rfl, rfl⟩

/-! ## The session row and the journal -/

/-- What an action is about to journal: the state it expects to find, if any, and the event. -/
structure JournalWrite where
  expected : Option AgentState
  kind : EventKind
  state : AgentState
  tsMs : ℤ
  deriving DecidableEq, Repr

/-- The write of a command event under an expectation. -/
def CommandEvent.write (e : CommandEvent) (expected : Option AgentState) : JournalWrite :=
  { expected := expected, kind := e.kind, state := e.state, tsMs := e.tsMs }

/-- The event an action appends besides `transition_session`, which also moves the lifecycle. -/
def Call.journals : Call → ℤ → Option JournalWrite
  | .appendEventV e, _ => some (e.write none)
  | .insertPermissionAndEvent _ expected e, _ => some (e.write (some expected))
  | .resolvePermissionAndEvent _ _ expected e, _ => some (e.write (some expected))
  | .expirePendingPermissionsForSession _ expected e, _ => some (e.write (some expected))
  | .startToolRunAndEvent _ _ _ _ expected e, _ => some (e.write (some expected))
  | .finishToolRunAndEvent _ _ _ expected e, _ => some (e.write (some expected))
  | .finishRecoveredToolRunAndEvent _ _ _ state, stamp =>
    some { expected := some state, kind := .recoveryApplied, state := state, tsMs := stamp }
  | .putCheckpointAndEvent _ expected e, _ => some (e.write (some expected))
  | .recordCompactionAndEvent expected e, _ => some (e.write (some expected))
  | _, _ => none

/-- What an action can do to the session row and the journal. -/
inductive JournalStep (c : Call) (env : Env) (db db' : Db) : Prop
  | keep (hrow : db'.row = db.row) (hevents : db'.events = db.events)
  | append (w : JournalWrite) (hc : c.journals env.now = some w)
      (hguard : ∀ x ∈ w.expected, db.row.state = x)
      (h : Journaled db db' db.row.lifecycle w.kind w.state w.tsMs)
  | transition (t : SessionTransition) (hc : c = .transitionSession t)
      (hlifecycle : db.row.lifecycle = t.expectedLifecycle)
      (hstate : db.row.state = t.expectedState)
      (h : Journaled db db' t.newLifecycle t.eventKind t.newState env.now)
  | lifecycle (expected new : SessionLifecycle) (hc : c = .setLifecycleIf expected new)
      (hexpected : db.row.lifecycle = expected)
      (hrow : db'.row = { db.row with lifecycle := new, updatedMs := env.now })
      (hevents : db'.events = db.events)
  | admission (hc : c = .admitQueueHead) (hstate : db.row.state ∈ admissible)
      (hrow : db'.row = { db.row with state := .preparing, updatedMs := env.now })
      (hevents : db'.events = db.events)
      (hmessage : ∃ m ∈ db'.messages, m.seq = lastSeq db.events + 1 ∧ m.materialized.isSome)

variable {db₁ : Db}

/-- An insertion over tables that differ only in side rows. -/
theorem Journaled.of_side (db : Db) (h : insertEventLocked db₁ e = .ok (seq, db')) (hrow : db₁.row = db.row)
    (hevents : db₁.events = db.events) :
    Journaled db db' db.row.lifecycle e.kind e.state e.tsMs := by
  have hj := (insertEventLocked_ok h).1
  exact ⟨hevents ▸ hj.room, hevents ▸ hj.events, by rw [← hrow, ← hevents]; exact hj.row⟩

section Writers

variable {db : Db} {env : Env}

/-- The journal side of a guarded transaction: its body, once past the guard, inserts the event
over tables that differ in side rows only. -/
theorem guarded_journal {α : Type} {c : Call} {expected : AgentState} {e : CommandEvent}
    {body : Unit → Except StoreError (α × Db)}
    (hc : c.journals env.now = some (e.write (some expected)))
    (hbody : ∀ a db', body () = .ok (a, db') →
      (db'.row = db.row ∧ db'.events = db.events) ∨
        Journaled db db' db.row.lifecycle e.kind e.state e.tsMs) :
    JournalStep c env db (transaction db (beginPrepared db expected >>= body)).2 := by
  refine guarded_cases (.keep rfl rfl) fun hstate a db' hok => ?_
  rcases hbody a db' hok with ⟨hrow, hevents⟩ | hj
  · exact .keep hrow hevents
  · refine .append (e.write (some expected)) hc ?_ hj
    intro x hx
    rw [← Option.some.inj (show some expected = some x from hx)]
    exact hstate

theorem appendEventV_journal (e : CommandEvent) :
    JournalStep (.appendEventV e) env db (appendEventV db e).2 := by
  rw [appendEventV]
  rcases transaction_cases db (insertEventLocked db e) with h | ⟨a, h, -⟩
  · exact .keep (by rw [h]) (by rw [h])
  · exact .append (e.write none) rfl (fun x hx => absurd hx (by simp [CommandEvent.write]))
      (insertEventLocked_ok h).1

theorem transitionSession_journal (t : SessionTransition) :
    JournalStep (.transitionSession t) env db (transitionSession db t env.now).2 := by
  rw [transitionSession]
  split_ifs with hlifecycle hstate
  · exact .keep rfl rfl
  · exact .keep rfl rfl
  · push Not at hlifecycle hstate
    rcases transaction_cases db _ with h | ⟨a, h, -⟩
    · exact .keep (by rw [h]) (by rw [h])
    · have hj := (insertEventLocked_ok h).1
      exact .transition t rfl hlifecycle hstate ⟨hj.room, hj.events, hj.row⟩

theorem resolvePermissionAndEvent_journal (id : ℕ) (decision : Decision) (expected : AgentState)
    (e : CommandEvent) :
    JournalStep (.resolvePermissionAndEvent id decision expected e) env db
      (resolvePermissionAndEvent db id decision expected e env.now).2 := by
  rw [resolvePermissionAndEvent]
  split
  · exact .keep rfl rfl
  · next hguard =>
    dsimp only
    split
    · rcases transaction_cases db _ with h | ⟨a, h, -⟩
      · exact .keep (by rw [h]) (by rw [h])
      · have hbegin : (beginPrepared db expected >>= Except.ok) = .ok () := by
          rw [hguard]
          rfl
        have hstate : db.row.state = expected := (beginPrepared_bind hbegin).1
        have hj := Journaled.of_side db h rfl rfl
        refine .append (e.write (some expected)) rfl ?_ hj
        intro x hx
        rw [← Option.some.inj (show some expected = some x from hx)]
        exact hstate
    · exact .keep rfl rfl

theorem expirePendingPermissionsForSession_journal (now : ℤ) (expected : AgentState)
    (e : CommandEvent) :
    JournalStep (.expirePendingPermissionsForSession now expected e) env db
      (expirePendingPermissionsForSession db now expected e).2 := by
  rw [expirePendingPermissionsForSession]
  split
  · exact .keep rfl rfl
  · refine guarded_journal rfl fun a db' hbody => ?_
    dsimp only at hbody
    split_ifs at hbody with hempty
    · obtain ⟨-, rfl⟩ := Prod.mk.inj (Except.ok.inj hbody)
      exact .inl ⟨rfl, rfl⟩
    · obtain ⟨seq, hins, -⟩ := insertEventLocked_bind hbody
      have hj := Journaled.of_side db hins rfl rfl
      exact .inr hj

theorem admitQueueHead_journal :
    JournalStep .admitQueueHead env db (admitQueueHead db admissible .preparing env.now).2 := by
  rw [admitQueueHead]
  split
  · exact .keep rfl rfl
  · split
    · exact .keep rfl rfl
    · next hstate =>
      dsimp only
      split
      · exact .keep rfl rfl
      · exact .admission rfl (by simpa using hstate) rfl rfl
          ⟨_, List.mem_append_right _ List.mem_cons_self, rfl, rfl⟩

end Writers

variable {s s' : Shared} {c : Call}

/-- **What an action can do to the session row and the journal.** -/
theorem exec_journal {env : Env} {r : c.Reply} (h : exec s c env = some (s', r)) :
    JournalStep c env s.db s'.db := by
  cases c with
  | lock =>
    rw [exec] at h
    split_ifs at h
    obtain ⟨rfl, -⟩ := Prod.mk.inj (Option.some.inj h)
    exact .keep rfl rfl
  | appendEventV e =>
    obtain ⟨rfl, -⟩ := Prod.mk.inj (Option.some.inj h)
    exact appendEventV_journal e
  | transitionSession t =>
    obtain ⟨rfl, -⟩ := Prod.mk.inj (Option.some.inj h)
    exact transitionSession_journal t
  | setLifecycleIf expected new =>
    obtain ⟨rfl, -⟩ := Prod.mk.inj (Option.some.inj h)
    dsimp only [setLifecycleIf]
    split_ifs with hexpected
    · exact .lifecycle expected new rfl hexpected rfl rfl
    · exact .keep rfl rfl
  | insertPermissionAndEvent opId expected e =>
    obtain ⟨rfl, -⟩ := Prod.mk.inj (Option.some.inj h)
    refine guarded_journal rfl fun a db' hbody => .inr ?_
    dsimp only at hbody
    obtain ⟨seq, hins, -⟩ := insertEventLocked_bind hbody
    exact Journaled.of_side s.db hins rfl rfl
  | resolvePermissionAndEvent id decision expected e =>
    obtain ⟨rfl, -⟩ := Prod.mk.inj (Option.some.inj h)
    exact resolvePermissionAndEvent_journal id decision expected e
  | expirePendingPermissionsForSession now expected e =>
    obtain ⟨rfl, -⟩ := Prod.mk.inj (Option.some.inj h)
    exact expirePendingPermissionsForSession_journal now expected e
  | startToolRunAndEvent opId tool recovery expectedHash expected e =>
    obtain ⟨rfl, -⟩ := Prod.mk.inj (Option.some.inj h)
    refine guarded_journal rfl fun a db' hbody => .inr ?_
    split_ifs at hbody
    exact Journaled.of_side s.db hbody rfl rfl
  | finishToolRunAndEvent opId status effect expected e =>
    obtain ⟨rfl, -⟩ := Prod.mk.inj (Option.some.inj h)
    refine guarded_journal rfl fun a db' hbody => .inr ?_
    split_ifs at hbody
    exact Journaled.of_side s.db hbody rfl rfl
  | finishRecoveredToolRunAndEvent opId status effect state =>
    obtain ⟨rfl, -⟩ := Prod.mk.inj (Option.some.inj h)
    refine guarded_journal
      (e := { kind := .recoveryApplied, state := state, opId := some opId, tsMs := env.now })
      rfl fun a db' hbody => .inr ?_
    split_ifs at hbody
    exact Journaled.of_side s.db hbody rfl rfl
  | putCheckpointAndEvent sequence expected e =>
    obtain ⟨rfl, -⟩ := Prod.mk.inj (Option.some.inj h)
    refine guarded_journal rfl fun a db' hbody => .inr ?_
    split_ifs at hbody
    exact Journaled.of_side s.db hbody rfl rfl
  | recordCompactionAndEvent expected e =>
    obtain ⟨rfl, -⟩ := Prod.mk.inj (Option.some.inj h)
    exact guarded_journal rfl fun a db' hbody => .inr (Journaled.of_side s.db hbody rfl rfl)
  | admitQueueHead =>
    obtain ⟨rfl, -⟩ := Prod.mk.inj (Option.some.inj h)
    exact admitQueueHead_journal
  | recordToolPostcondition opId postcondition =>
    obtain ⟨rfl, -⟩ := Prod.mk.inj (Option.some.inj h)
    dsimp only [recordToolPostcondition]
    split_ifs <;> exact .keep rfl rfl
  | putMessage seq role text =>
    obtain ⟨rfl, -⟩ := Prod.mk.inj (Option.some.inj h)
    dsimp only [putMessage]
    split_ifs <;> exact .keep rfl rfl
  | enqueuePrompt opId prompt files =>
    obtain ⟨rfl, -⟩ := Prod.mk.inj (Option.some.inj h)
    dsimp only [enqueuePrompt]
    split_ifs <;> exact .keep rfl rfl
  | _ =>
    -- reads, the registries, and rows the journal does not project
    obtain ⟨rfl, -⟩ := Prod.mk.inj (Option.some.inj h)
    exact .keep rfl rfl

/-! ## Messages and the prompt queue -/

/-- What identifies a message: its place in the conversation and the queue row it came from. -/
def MessageRow.origin (m : MessageRow) : ℕ × Option ℕ := (m.seq, m.materialized)

/-- The row a claim leaves. -/
def QueuedPrompt.claimedIf (head : QueuedPrompt) (q : QueuedPrompt) : QueuedPrompt :=
  if q.queueSeq = head.queueSeq then { q with status := .claimed } else q

/-- What an action can do to the prompt queue and the messages. -/
inductive QueueStep (c : Call) (db db' : Db) : Prop
  | keep (hqueue : db'.queue = db.queue)
      (hmessages : db'.messages.map MessageRow.origin = db.messages.map MessageRow.origin)
  | message (seq : ℕ) (hqueue : db'.queue = db.queue)
      (hmessages : db'.messages.map MessageRow.origin
        = db.messages.map MessageRow.origin ++ [(seq, none)])
  | enqueue (row : QueuedPrompt)
      (hseq : row.queueSeq = (db.queue.map QueuedPrompt.queueSeq).foldl max 0 + 1)
      (hstatus : row.status = .pending) (hqueue : db'.queue = db.queue ++ [row])
      (hmessages : db'.messages = db.messages)
  | admission (head : QueuedPrompt) (hc : c = .admitQueueHead)
      (hhead : db.queue.find? QueuedPrompt.isPending = some head)
      (hstate : db.row.state ∈ admissible)
      (hqueue : db'.queue = db.queue.map head.claimedIf)
      (hmessages : db'.messages.map MessageRow.origin
        = db.messages.map MessageRow.origin ++ [(lastSeq db.events + 1, some head.queueSeq)])
  | mark (queueSeq : ℕ) (m : QueueMark)
      (hqueue : db'.queue = (markQueueStatus db queueSeq m).queue)
      (hmessages : db'.messages = db.messages)
  | cancel (ops : List ℕ) (hqueue : db'.queue = (cancelQueuedOps db ops).2.queue)
      (hmessages : db'.messages = db.messages)
  | recover (hc : c = .recoverClaimedQueueRows)
      (hqueue : db'.queue = (recoverClaimedQueueRows db).2.queue)
      (hmessages : db'.messages = db.messages)

/-- The time an action writes into the permission rows it settles. -/
def Call.resolvesAt : Call → ℤ → Option ℤ
  | .resolvePermissionAndEvent _ _ _ _, clock => some clock
  | .expirePendingPermissionsForSession deadline _ _, _ => some deadline
  | _, _ => none

/-- Every resolution time of `rows'` stands in `rows` already or is the one just written. -/
def ResolvedAt (time : Option ℤ) (rows rows' : List PermissionRow) : Prop :=
  ∀ p ∈ rows', ∀ t ∈ p.resolvedMs, (∃ q ∈ rows, t ∈ q.resolvedMs) ∨ time = some t

theorem ResolvedAt.refl (time : Option ℤ) (rows : List PermissionRow) :
    ResolvedAt time rows rows := fun p hp _ ht => .inl ⟨p, hp, ht⟩

variable {rows : List PermissionRow}

/-- An update of some rows that resolves them at `time`. -/
theorem ResolvedAt.map {time : ℤ} {hit : PermissionRow → Prop} [DecidablePred hit]
    {f : PermissionRow → PermissionRow} (hf : ∀ p, (f p).resolvedMs = some time) :
    ResolvedAt (some time) rows (rows.map fun p => if hit p then f p else p) := by
  intro p hp t ht
  obtain ⟨q, hq, rfl⟩ := List.mem_map.mp hp
  split_ifs at ht
  · rw [hf q] at ht
    exact .inr ht
  · exact .inl ⟨q, hq, ht⟩

variable {time : Option ℤ}

/-- A new row has no resolution time. -/
theorem ResolvedAt.append {row : PermissionRow} (h : row.resolvedMs = none) :
    ResolvedAt time rows (rows ++ [row]) := by
  intro p hp t ht
  rcases List.mem_append.mp hp with hp | hp
  · exact .inl ⟨p, hp, ht⟩
  · rw [List.mem_singleton.mp hp, h] at ht
    exact absurd ht (by simp)

theorem ResolvedAt.trans {rows' rows'' : List PermissionRow} (h : ResolvedAt time rows rows')
    (h' : ResolvedAt time rows' rows'') :
    ResolvedAt time rows rows'' := by
  intro p hp t ht
  rcases h' p hp t ht with ⟨q, hq, hqt⟩ | htime
  · exact h q hq t hqt
  · exact .inr htime

/-- The tables a journaled write leaves alone, and what it can do to the permissions. -/
structure SideFrame (time : Option ℤ) (db db' : Db) : Prop where
  turnRecords : db'.turnRecords = db.turnRecords
  queue : db'.queue = db.queue
  messages : db'.messages = db.messages
  permissions : ResolvedAt time db.permissions db'.permissions

theorem SideFrame.refl (time : Option ℤ) (db : Db) : SideFrame time db db :=
  ⟨rfl, rfl, rfl, .refl _ _⟩

theorem SideFrame.of_insert {db : Db} (h : insertEventLocked db₁ e = .ok (seq, db'))
    (hside : SideFrame time db db₁) :
    SideFrame time db db' := by
  obtain ⟨-, hpermissions, -, hturns, hqueue, hmessages, -⟩ := insertEventLocked_ok h
  exact ⟨hturns.trans hside.turnRecords, hqueue.trans hside.queue,
    hmessages.trans hside.messages, hpermissions ▸ hside.permissions⟩

/-- An action that journals touches neither the queue nor the messages nor the turn records, and
resolves permissions at its own time only. -/
theorem exec_sideFrame {env : Env} {r : c.Reply}
    (hc : c.journals env.now ≠ none ∨ ∃ t, c = .transitionSession t) (h : exec s c env = some (s', r)) :
    SideFrame (c.resolvesAt env.now) s.db s'.db := by
  cases c with
  | appendEventV e =>
    obtain ⟨rfl, -⟩ := Prod.mk.inj (Option.some.inj h)
    rcases transaction_cases s.db (insertEventLocked s.db e) with hkeep | ⟨a, hins, -⟩
    · rw [show (appendEventV s.db e).2 = s.db from hkeep]
      exact .refl _ _
    · exact .of_insert hins (.refl _ _)
  | transitionSession t =>
    obtain ⟨rfl, -⟩ := Prod.mk.inj (Option.some.inj h)
    dsimp only [transitionSession]
    split_ifs
    · exact .refl _ _
    · exact .refl _ _
    · rcases transaction_cases s.db _ with hkeep | ⟨a, hins, -⟩
      · rw [hkeep]
        exact .refl _ _
      · exact .of_insert hins ⟨rfl, rfl, rfl, .refl _ _⟩
  | insertPermissionAndEvent opId expected e =>
    obtain ⟨rfl, -⟩ := Prod.mk.inj (Option.some.inj h)
    refine guarded_cases (.refl _ _) fun _ a db' hbody => ?_
    dsimp only at hbody
    obtain ⟨seq, hins, -⟩ := insertEventLocked_bind hbody
    exact .of_insert hins ⟨rfl, rfl, rfl, .append rfl⟩
  | resolvePermissionAndEvent id decision expected e =>
    obtain ⟨rfl, -⟩ := Prod.mk.inj (Option.some.inj h)
    dsimp only [resolvePermissionAndEvent]
    split
    · exact .refl _ _
    · split
      · rcases transaction_cases s.db _ with hkeep | ⟨a, hins, -⟩
        · rw [hkeep]
          exact .refl _ _
        · exact .of_insert hins ⟨rfl, rfl, rfl, .trans (.map fun _ => rfl) (.map fun _ => rfl)⟩
      · exact ⟨rfl, rfl, rfl, .map fun _ => rfl⟩
  | expirePendingPermissionsForSession now expected e =>
    obtain ⟨rfl, -⟩ := Prod.mk.inj (Option.some.inj h)
    rw [expirePendingPermissionsForSession]
    split
    · exact .refl _ _
    · refine guarded_cases (.refl _ _) fun _ a db' hbody => ?_
      dsimp only at hbody
      split_ifs at hbody with hempty
      · obtain ⟨-, rfl⟩ := Prod.mk.inj (Except.ok.inj hbody)
        exact .refl _ _
      · obtain ⟨seq, hins, -⟩ := insertEventLocked_bind hbody
        exact .of_insert hins ⟨rfl, rfl, rfl, .map fun _ => rfl⟩
  | startToolRunAndEvent opId tool recovery expectedHash expected e =>
    obtain ⟨rfl, -⟩ := Prod.mk.inj (Option.some.inj h)
    refine guarded_cases (.refl _ _) fun _ a db' hbody => ?_
    split_ifs at hbody
    exact .of_insert hbody ⟨rfl, rfl, rfl, .refl _ _⟩
  | finishToolRunAndEvent opId status effect expected e =>
    obtain ⟨rfl, -⟩ := Prod.mk.inj (Option.some.inj h)
    refine guarded_cases (.refl _ _) fun _ a db' hbody => ?_
    split_ifs at hbody
    exact .of_insert hbody ⟨rfl, rfl, rfl, .refl _ _⟩
  | finishRecoveredToolRunAndEvent opId status effect state =>
    obtain ⟨rfl, -⟩ := Prod.mk.inj (Option.some.inj h)
    refine guarded_cases (.refl _ _) fun _ a db' hbody => ?_
    split_ifs at hbody
    exact .of_insert hbody ⟨rfl, rfl, rfl, .refl _ _⟩
  | putCheckpointAndEvent sequence expected e =>
    obtain ⟨rfl, -⟩ := Prod.mk.inj (Option.some.inj h)
    refine guarded_cases (.refl _ _) fun _ a db' hbody => ?_
    split_ifs at hbody
    exact .of_insert hbody ⟨rfl, rfl, rfl, .refl _ _⟩
  | recordCompactionAndEvent expected e =>
    obtain ⟨rfl, -⟩ := Prod.mk.inj (Option.some.inj h)
    exact guarded_cases (.refl _ _) fun _ a db' hbody => .of_insert hbody (.refl _ _)
  | _ => simp [Call.journals] at hc

theorem SideFrame.queueStep {db : Db} (h : SideFrame time db db') :
    QueueStep c db db' := .keep h.queue (by rw [h.messages])

/-- **What an action can do to the prompt queue and the messages.** -/
theorem exec_queue {env : Env} {r : c.Reply} (h : exec s c env = some (s', r)) : QueueStep c s.db s'.db := by
  by_cases hc : c.journals env.now ≠ none ∨ ∃ t, c = .transitionSession t
  · exact (exec_sideFrame hc h).queueStep
  cases c with
  | lock =>
    rw [exec] at h
    split_ifs at h
    obtain ⟨rfl, -⟩ := Prod.mk.inj (Option.some.inj h)
    exact .keep rfl rfl
  | setLifecycleIf expected new =>
    obtain ⟨rfl, -⟩ := Prod.mk.inj (Option.some.inj h)
    dsimp only [setLifecycleIf]
    split_ifs <;> exact .keep rfl rfl
  | recordToolPostcondition opId postcondition =>
    obtain ⟨rfl, -⟩ := Prod.mk.inj (Option.some.inj h)
    dsimp only [recordToolPostcondition]
    split_ifs <;> exact .keep rfl rfl
  | putMessage seq role text =>
    obtain ⟨rfl, -⟩ := Prod.mk.inj (Option.some.inj h)
    dsimp only [putMessage]
    split_ifs
    · exact .keep rfl rfl
    · exact .message seq rfl (by rw [List.map_append]; rfl)
  | putPart seq part =>
    obtain ⟨rfl, -⟩ := Prod.mk.inj (Option.some.inj h)
    refine .keep rfl ?_
    rw [putPart, List.map_map]
    refine List.map_congr_left fun m _ => ?_
    rw [Function.comp_apply]
    split_ifs <;> rfl
  | enqueuePrompt opId prompt files =>
    obtain ⟨rfl, -⟩ := Prod.mk.inj (Option.some.inj h)
    dsimp only [enqueuePrompt]
    split_ifs
    · exact .keep rfl rfl
    · exact .enqueue _ rfl rfl rfl rfl
  | admitQueueHead =>
    obtain ⟨rfl, -⟩ := Prod.mk.inj (Option.some.inj h)
    rw [admitQueueHead]
    split
    · exact .keep rfl rfl
    · next head hhead =>
      split
      · exact .keep rfl rfl
      · next hstate =>
        dsimp only
        split
        · exact .keep rfl rfl
        · exact .admission head rfl hhead (by simpa using hstate) rfl
            (by rw [List.map_append]; rfl)
  | markQueueStatus queueSeq mark =>
    obtain ⟨rfl, -⟩ := Prod.mk.inj (Option.some.inj h)
    exact .mark queueSeq mark rfl rfl
  | cancelQueuedOps ops =>
    obtain ⟨rfl, -⟩ := Prod.mk.inj (Option.some.inj h)
    exact .cancel ops rfl rfl
  | recoverClaimedQueueRows =>
    obtain ⟨rfl, -⟩ := Prod.mk.inj (Option.some.inj h)
    exact .recover rfl rfl rfl
  | _ =>
    -- reads and the registries; the journaled writes are excluded by `hc`
    first
      | (obtain ⟨rfl, -⟩ := Prod.mk.inj (Option.some.inj h); exact .keep rfl rfl)
      | exact absurd (.inr ⟨_, rfl⟩) hc
      | exact absurd (.inl (Option.some_ne_none _)) hc

/-- The queue rows whose prompts were materialised as messages, in the order of the insertions. -/
def admissions (db : Db) : List ℕ := (db.messages.map MessageRow.origin).filterMap Prod.snd

/-- Only an admission materialises a prompt. -/
theorem QueueStep.admissions_eq {db : Db} (h : QueueStep c db db') :
    admissions db' = admissions db ∨
      ∃ head, c = .admitQueueHead ∧ db.queue.find? QueuedPrompt.isPending = some head ∧
        db.row.state ∈ admissible ∧ db'.queue = db.queue.map head.claimedIf ∧
        admissions db' = admissions db ++ [head.queueSeq] := by
  cases h with
  | keep hqueue hmessages => exact .inl (by rw [admissions, admissions, hmessages])
  | message seq hqueue hmessages =>
    refine .inl ?_
    rw [admissions, admissions, hmessages, List.filterMap_append]
    simp
  | admission head hc hhead hstate hqueue hmessages =>
    refine .inr ⟨head, hc, hhead, hstate, hqueue, ?_⟩
    rw [admissions, admissions, hmessages, List.filterMap_append]
    rfl
  | enqueue row hseq hstatus hqueue hmessages => exact .inl (by rw [admissions, admissions, hmessages])
  | mark queueSeq m hqueue hmessages => exact .inl (by rw [admissions, admissions, hmessages])
  | cancel ops hqueue hmessages => exact .inl (by rw [admissions, admissions, hmessages])
  | recover hc hqueue hmessages => exact .inl (by rw [admissions, admissions, hmessages])

/-! ## Permissions and turn records -/

/-- An action that does not journal leaves the permissions alone, and the turn records unless it
starts or finishes one. -/
theorem exec_unjournaled {env : Env} {r : c.Reply}
    (hc : ¬ (c.journals env.now ≠ none ∨ ∃ t, c = .transitionSession t)) (h : exec s c env = some (s', r)) :
    s'.db.permissions = s.db.permissions ∧
      (s'.db.turnRecords = s.db.turnRecords ∨
        (∃ op queueSeq message,
          s'.db.turnRecords = (startTurnRecord s.db op queueSeq message env.now).turnRecords) ∨
        ∃ op status, s'.db.turnRecords = (finishTurnRecord s.db op status).2.turnRecords) := by
  cases c with
  | lock =>
    rw [exec] at h
    split_ifs at h
    obtain ⟨rfl, -⟩ := Prod.mk.inj (Option.some.inj h)
    exact ⟨rfl, .inl rfl⟩
  | setLifecycleIf expected new =>
    obtain ⟨rfl, -⟩ := Prod.mk.inj (Option.some.inj h)
    dsimp only [setLifecycleIf]
    split_ifs <;> exact ⟨rfl, .inl rfl⟩
  | recordToolPostcondition opId postcondition =>
    obtain ⟨rfl, -⟩ := Prod.mk.inj (Option.some.inj h)
    dsimp only [recordToolPostcondition]
    split_ifs <;> exact ⟨rfl, .inl rfl⟩
  | putMessage seq role text =>
    obtain ⟨rfl, -⟩ := Prod.mk.inj (Option.some.inj h)
    dsimp only [putMessage]
    split_ifs <;> exact ⟨rfl, .inl rfl⟩
  | enqueuePrompt opId prompt files =>
    obtain ⟨rfl, -⟩ := Prod.mk.inj (Option.some.inj h)
    dsimp only [enqueuePrompt]
    split_ifs <;> exact ⟨rfl, .inl rfl⟩
  | admitQueueHead =>
    obtain ⟨rfl, -⟩ := Prod.mk.inj (Option.some.inj h)
    rw [admitQueueHead]
    split
    · exact ⟨rfl, .inl rfl⟩
    · split
      · exact ⟨rfl, .inl rfl⟩
      · dsimp only
        split <;> exact ⟨rfl, .inl rfl⟩
  | startTurnRecord op queueSeq message =>
    obtain ⟨rfl, -⟩ := Prod.mk.inj (Option.some.inj h)
    exact ⟨rfl, .inr (.inl ⟨op, queueSeq, message, rfl⟩)⟩
  | finishTurnRecord op status =>
    obtain ⟨rfl, -⟩ := Prod.mk.inj (Option.some.inj h)
    exact ⟨rfl, .inr (.inr ⟨op, status, rfl⟩)⟩
  | _ =>
    first
      | (obtain ⟨rfl, -⟩ := Prod.mk.inj (Option.some.inj h); exact ⟨rfl, .inl rfl⟩)
      | exact absurd (.inr ⟨_, rfl⟩) hc
      | exact absurd (.inl (Option.some_ne_none _)) hc

/-- **What an action can do to the resolution times of the permissions.** -/
theorem exec_permissions {env : Env} {r : c.Reply} (h : exec s c env = some (s', r)) :
    ResolvedAt (c.resolvesAt env.now) s.db.permissions s'.db.permissions := by
  by_cases hc : c.journals env.now ≠ none ∨ ∃ t, c = .transitionSession t
  · exact (exec_sideFrame hc h).permissions
  · rw [(exec_unjournaled hc h).1]
    exact .refl _ _

end Session
