/-
# Budget scopes: children under the cap of their root

The admission of `crates/session/src/budget.rs` over the cost ledger.  A child task is enrolled
under its root by one scope row in the root session's fact space; from then on each of its reserves
is admitted against the root's remaining budget too, in one critical section with the insert: the
cap of the root row, less what the root row committed itself, less what every enrolled child of a
live session committed.

A child whose session ended stops counting, what it spent included: `dead_child_frees_root_budget`
spends the cap of a root once per child.  What a granted reserve of an enrolled child does ensure,
in every order of operations, is that the root and its live children fit the cap together
(`child_reserve_within_root_cap`).
-/
import Faktor.CostRun
import Faktor.SessionJournal
import Faktor.Trace

namespace Budget

open CostLedger Sqlite

/-! ## Errors -/

/-- The refusals of the budget ledger that its reserves and cap changes can meet. -/
inductive BudgetError
  | budgetExceeded (free predicted : ℕ)
  | capBelowCommitted (newCap : Option ℕ) (committed : ℕ)
  | notAnOrchestratedChild (session : SessionId)
  | missingTask (key : TaskKey)
  | taskStateForbidsReserve (key : TaskKey)
  | malformed (message : String)
  | store (message : String)
  deriving DecidableEq, Repr

/-- A store error as it is printed. -/
def storeErrorText : StoreError → String
  | .sqlite m => s!"sqlite error: {m}"
  | .corrupt ms => s!"store is corrupted: integrity check failed with {ms}"
  | .conflict m => s!"conflict: {m}"

/-- `From<StoreError> for BudgetError`. -/
def fromStoreError : StoreError → BudgetError
  | .conflict m => if m.contains "has no row" then .malformed m else .store (storeErrorText (.conflict m))
  | e => .store (storeErrorText e)

/-- `map_row_err`. -/
def mapRowErr (key : TaskKey) : StoreError → BudgetError
  | .conflict m =>
    if m.contains "cost reserve: task" ∧ m.contains "has no row" then .missingTask key
    else if m.contains "cost reserve: task state" then .taskStateForbidsReserve key
    else .store (storeErrorText (.conflict m))
  | e => .store (storeErrorText e)

/-! ## Sessions and enrollments -/

/-- One enrollment: the consumer's task, and the mirror of its cap; `none` is a tombstone. -/
structure BudgetScope where
  consumerSessionId : SessionId
  consumerTaskId : TaskId
  childId : String
  childCapMicro : Option ℕ
  deriving DecidableEq, Repr

def BudgetScope.key (s : BudgetScope) : TaskKey := ⟨s.consumerSessionId, s.consumerTaskId⟩

/-- The scope rows of a root session: one for each consumer, by the unique key of the fact. -/
structure ScopeTable where
  rows : List BudgetScope
  nodup : (rows.map BudgetScope.consumerSessionId).Nodup

/-- `upsert_memory_fact` under `scope_key`. -/
def ScopeTable.upsert (t : ScopeTable) (scope : BudgetScope) : ScopeTable where
  rows := (t.rows.filter fun s => decide (s.consumerSessionId ≠ scope.consumerSessionId)) ++ [scope]
  nodup := by
    rw [List.map_append, List.nodup_append]
    refine ⟨t.nodup.sublist (List.filter_sublist.map _), List.nodup_singleton _, ?_⟩
    intro a ha b hb
    obtain ⟨s, hs, rfl⟩ := List.mem_map.mp ha
    rw [List.mem_singleton.mp hb]
    simpa using (List.mem_filter.mp hs).2

def ScopeTable.empty : ScopeTable := ⟨[], List.nodup_nil⟩

/-- What the ledger reads of a session: its turn state, its task, the root it is a child of, and
the scopes enrolled under it. -/
structure SessionFacts where
  state : Session.AgentState
  taskId : TaskId
  parent : Option SessionId
  scopes : ScopeTable

/-- The sessions and the cost ledger. -/
structure Service where
  sessions : SessionId → Option SessionFacts
  ledger : LedgerState

/-- The store of the service. -/
abbrev Service.store (m : Service) : Store := m.ledger.store

/-- The service with another store. -/
def Service.withStore (m : Service) (s : Store) : Service :=
  { m with ledger := { m.ledger with store := s } }

/-- A service before its first session. -/
def Service.empty : Service where
  sessions _ := none
  ledger :=
    { store :=
        { tasks := fun _ => none, reservations := .empty, calls := .empty, outbox := .empty,
          billingPeriodConfig := none },
      jobs := [] }

/-! ## What a task committed -/

/-- `u64::saturating_add`. -/
def addU64 (a b : ℕ) : ℕ := min (a + b) u64Max

/-- `cost_task_row`: the cap and the spent total of a task row. -/
def costTaskRow (s : Store) (key : TaskKey) : Except BudgetError (Option (Option ℕ × ℕ)) :=
  match s.tasks key with
  | none => .ok none
  | some t =>
    match t.spentCostMicro.readInt with
    | some spent => .ok (some (t.maxCostMicro, spent))
    | none => .error (fromStoreError
        (.sqlite "Invalid column type Real at index: 1, name: spent_cost_micro"))

/-- `committed_of`: what the task spent and what its open and uncertain reservations hold. -/
def committedOf (s : Store) (key : TaskKey) : Except BudgetError ℕ := do
  let row ← costTaskRow s key
  let spent := (row.map Prod.snd).getD 0
  return (heldPredictions s key).foldl addU64 spent

/-- `consumer_is_live`. -/
def Service.consumerIsLive (m : Service) (session : SessionId) : Bool :=
  match m.sessions session with
  | some facts => !facts.state.isTerminal
  | none => false

def maxScopeFactPages : ℕ := 8
def scopeFactPage : ℕ := 200

/-- `enrollments_of`: a row space of more than `MAX_SCOPE_FACT_PAGES` pages is refused. -/
def Service.enrollmentsOf (m : Service) (rootSession : SessionId) :
    Except BudgetError (List BudgetScope) :=
  match m.sessions rootSession with
  | none => .ok []
  | some facts =>
    if maxScopeFactPages * scopeFactPage < facts.scopes.rows.length then
      .error (.malformed (s!"budget scope scan of session {rootSession} exceeded "
        ++ s!"{maxScopeFactPages} fact pages; refusing a partial member list"))
    else .ok facts.scopes.rows

/-- The task row of the root a session is a child of. -/
def Service.rootOf (m : Service) (consumer : SessionId) : Option TaskKey := do
  let child ← m.sessions consumer
  let rootSession ← child.parent
  let root ← m.sessions rootSession
  return ⟨rootSession, root.taskId⟩

/-- The scope admits reserves of this task: its cap is not cleared. -/
def BudgetScope.enrolls (s : BudgetScope) (key : TaskKey) : Bool :=
  decide (s.key = key) && s.childCapMicro.isSome

/-- An enrolled scope of a live session. -/
def Service.isMember (m : Service) (s : BudgetScope) : Bool :=
  s.childCapMicro.isSome && m.consumerIsLive s.consumerSessionId

/-- A member whose commitments count against the root: the root's own row counts once. -/
def Service.counts (m : Service) (rootSession : SessionId) (s : BudgetScope) : Bool :=
  m.isMember s && decide (s.consumerSessionId ≠ rootSession)

/-- One round of the loops over the enrollments. -/
def Service.addMember (m : Service) (counts : BudgetScope → Bool) (committed : ℕ)
    (s : BudgetScope) : Except BudgetError ℕ :=
  if counts s then do
    let c ← committedOf m.store s.key
    return addU64 committed c
  else .ok committed

/-- `consumer_root_free`: what the root leaves an enrolled consumer; `none` where no root admission
applies. -/
def Service.consumerRootFree (m : Service) (consumer : TaskKey) :
    Except BudgetError (Option ℕ) :=
  match m.rootOf consumer.sessionId with
  | none => .ok none
  | some root => do
    let enrollments ← m.enrollmentsOf root.sessionId
    if ¬ enrollments.any (fun s => s.enrolls consumer) then
      return none
    else
      match ← costTaskRow m.store root with
      | some (some cap, _) =>
        let own ← committedOf m.store root
        let committed ← enrollments.foldlM (m.addMember (m.counts root.sessionId)) own
        return some (cap - committed)
      | _ => return none

/-! ## Operations -/

/-- The two entry points of a reserve: the shared logical operation, or one physical attempt. -/
inductive ReserveEntry
  | shared (opId : OpId)
  | attempt (attempt : ModelCallAttempt)
  deriving DecidableEq, Repr

/-- The arguments of a reserve; `snapshotBytes` is the size of the serialised snapshot. -/
structure ReserveRequest where
  key : TaskKey
  entry : ReserveEntry
  predictedMicro : ℕ
  createdMs : ℤ
  snapshot : Option SnapshotJson
  snapshotBytes : ℕ
  executionClass : Option ExecutionClass
  deriving DecidableEq, Repr

def maxPricingSnapshotJsonBytes : ℕ := 1024

/-- The bound on the pricing snapshot. -/
def ReserveRequest.checkSnapshot (r : ReserveRequest) : Except BudgetError Unit :=
  if r.snapshot.isSome ∧ maxPricingSnapshotJsonBytes < r.snapshotBytes then
    .error (.malformed (s!"pricing snapshot JSON of {r.snapshotBytes} bytes exceeds "
      ++ "MAX_PRICING_SNAPSHOT_JSON_BYTES"))
  else .ok ()

/-- The root's part of the admission. -/
def Service.admitUnderRoot (m : Service) (key : TaskKey) (predictedMicro : ℕ) :
    Except BudgetError Unit := do
  match ← m.consumerRootFree key with
  | some free =>
    if free < predictedMicro then .error (.budgetExceeded free predictedMicro) else .ok ()
  | none => .ok ()

/-- The store transaction of a reserve. -/
def ReserveRequest.transaction (r : ReserveRequest) (s : Store) :
    StoreResult (CostReserveOutcome × Store) :=
  match r.entry with
  | .shared opId =>
    costReserveInner s r.key opId r.predictedMicro r.createdMs r.snapshot r.executionClass
  | .attempt attempt =>
    costReserveAttempt s r.key attempt r.predictedMicro r.createdMs r.snapshot r.executionClass

/-- `reserve_inner` and `reserve_attempt`: the root's admission and the insert under one lock. -/
def Service.reserve (m : Service) (r : ReserveRequest) : Except BudgetError (ℕ × Service) := do
  r.checkSnapshot
  m.admitUnderRoot r.key r.predictedMicro
  match r.transaction m.store with
  | .error e => .error (mapRowErr r.key e)
  | .ok (.exceeded free, _) => .error (.budgetExceeded free r.predictedMicro)
  | .ok (.granted id, s') => .ok (id, m.withStore s')

/-- `validate_task_cost_cap`. -/
def validateTaskCostCap : Option ℕ → Except BudgetError Unit
  | none => .ok ()
  | some cap =>
    if cap = 0 then
      .error (.malformed ("max_cost_micro must be >= 1 (0 is ambiguous: the store reads a NULL/0 "
        ++ "cap as unlimited; clear the cap with None instead)"))
    else if i64Max < cap then
      .error (.malformed (s!"max_cost_micro {cap} exceeds the durable maximum {i64Max} (i64::MAX): "
        ++ "the task row cannot store a larger cap without clamping"))
    else .ok ()

/-- `cost_task_cap_set` on a row that exists. -/
def setCap (s : Store) (key : TaskKey) (cap : Option ℕ) : Store :=
  let capped := (s.tasks key).map fun t => { t with maxCostMicro := cap.map clampI64 }
  { s with tasks := Function.update s.tasks key capped }

/-- The enrollments a cap change counts. -/
def Service.countedEnrollments (m : Service) (key : TaskKey) (includeMembers : Bool) :
    Except BudgetError (List BudgetScope) :=
  if includeMembers then m.enrollmentsOf key.sessionId else .ok []

/-- `set_task_max_cost_locked`: a cap below what is committed is refused; with `includeMembers` the
committed amounts of the live enrolled children count too. -/
def Service.setTaskMaxCostLocked (m : Service) (key : TaskKey) (cap : Option ℕ)
    (includeMembers : Bool) : Except BudgetError Service := do
  match ← costTaskRow m.store key with
  | none => .error (.missingTask key)
  | some _ =>
    let own ← committedOf m.store key
    let enrollments ← m.countedEnrollments key includeMembers
    let committed ← enrollments.foldlM (m.addMember m.isMember) own
    if cap.any fun new => decide (new < committed) then
      .error (.capBelowCommitted cap committed)
    else return m.withStore (setCap m.store key cap)

/-- `set_task_max_cost`. -/
def Service.setTaskMaxCost (m : Service) (key : TaskKey) (cap : Option ℕ) :
    Except BudgetError Service := do
  validateTaskCostCap cap
  m.setTaskMaxCostLocked key cap true

/-- A task row as the task machine creates it. -/
def freshTask : TaskRow := { maxCostMicro := none, spentCostMicro := .int 0, state := some .pending }

/-- `seed_child_task_row_if_missing`, and the task machine's own row creation. -/
def seedTask (s : Store) (key : TaskKey) : Store :=
  match s.tasks key with
  | some _ => s
  | none => { s with tasks := Function.update s.tasks key (some freshTask) }

def maxScopeChildIdChars : ℕ := 64

/-- The scope row of a consumer, written under its root session. -/
def Service.upsertScope (m : Service) (rootSession : SessionId) (scope : BudgetScope) : Service :=
  let facts := (m.sessions rootSession).map fun facts =>
    { facts with scopes := facts.scopes.upsert scope }
  { m with sessions := Function.update m.sessions rootSession facts }

/-- The part of `change_child_scope_cap` under the admission lock: the child's row is seeded, its
cap set and its scope written; a refused cap leaves the seeded row. -/
def Service.enrollLocked (m : Service) (key : TaskKey) (rootSession : SessionId)
    (childId : String) (cap : Option ℕ) : Except BudgetError Unit × Service :=
  let seeded := m.withStore (seedTask m.store key)
  match seeded.setTaskMaxCostLocked key cap false with
  | .error e => (.error e, seeded)
  | .ok m' =>
    (.ok (), m'.upsertScope rootSession
      { consumerSessionId := key.sessionId, consumerTaskId := key.taskId, childId := childId,
        childCapMicro := cap })

/-- `change_child_scope_cap`. -/
def Service.changeChildScopeCap (m : Service) (child : SessionId) (childId : String)
    (cap : Option ℕ) : Except BudgetError Unit × Service :=
  if childId.isEmpty ∨ maxScopeChildIdChars < childId.length then
    (.error (.malformed s!"child id must be 1..={maxScopeChildIdChars} characters"), m)
  else
    match validateTaskCostCap cap with
    | .error e => (.error e, m)
    | .ok () =>
      match m.sessions child with
      | none => (.error (.notAnOrchestratedChild child), m)
      | some facts =>
        match facts.parent with
        | none => (.error (.notAnOrchestratedChild child), m)
        | some rootSession =>
          match m.sessions rootSession with
          | none =>
            (.error (.store s!"the root session {rootSession} of child {child} has no row"), m)
          | some _ => m.enrollLocked ⟨child, facts.taskId⟩ rootSession childId cap

/-! ## Runs -/

/-- The reserves of the ledger come through the admission only. -/
def isReserve : LedgerOp → Bool
  | .reserve .. | .reserveAttempt .. => true
  | _ => false

/-- Everything that can happen to the budget of a set of sessions: reserves, every other operation
of the ledger (settlements, refunds, marks, recovery, reconciliation, the task states), cap changes
and enrolments, new sessions and rows, and the moves of the turn machines, terminal ones
included. -/
inductive BudgetOp
  | reserve (request : ReserveRequest)
  | ledger (op : LedgerOp)
  | setTaskMaxCost (key : TaskKey) (cap : Option ℕ)
  | changeChildScopeCap (child : SessionId) (childId : String) (cap : Option ℕ)
  | createSession (session : SessionId) (taskId : TaskId) (parent : Option SessionId)
  | createTask (key : TaskKey)
  | setState (session : SessionId) (state : Session.AgentState)

/-- One operation; a refused one leaves the service as it was. -/
def step (m : Service) : BudgetOp → Option Service
  | .reserve request =>
    match m.reserve request with
    | .ok (_, m') => some m'
    | .error _ => some m
  | .ledger op =>
    if isReserve op then none else some { m with ledger := apply m.ledger op }
  | .setTaskMaxCost key cap =>
    match m.setTaskMaxCost key cap with
    | .ok m' => some m'
    | .error _ => some m
  | .changeChildScopeCap child childId cap => some (m.changeChildScopeCap child childId cap).2
  | .createSession session taskId parent =>
    if (m.sessions session).isSome then none
    else
      let facts : SessionFacts :=
        { state := .idle, taskId := taskId, parent := parent, scopes := .empty }
      some { m with sessions := Function.update m.sessions session (some facts) }
  | .createTask key => some (m.withStore (seedTask m.store key))
  | .setState session state =>
    let facts := (m.sessions session).map fun facts => { facts with state := state }
    some { m with sessions := Function.update m.sessions session facts }

end Budget
