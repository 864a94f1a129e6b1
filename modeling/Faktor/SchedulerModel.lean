/-
# The task scheduler: shared state and its locked sections

The data model of `crates/scheduler/src/lib.rs` and the functions that run under its one mutex:
`try_submit`, `try_cancel`, `terminalize`, the drain pass of `schedule_ready`, `rebuild_graph`,
`mark` and the settlement of a lease, with the gauge of `crates/core/src/resource.rs`.

An index or `unwrap` of the source that misses its entry, and a gauge underflow, is a panic.
The mutex recovers from poisoning (`faktor_core::lock::recover`), so what a panicking section
had already written stays visible: such a section returns `Except.error` with the state it left
behind.  A hash map's iteration order is an argument where the source iterates one.

`notified` is a ghost: it logs every op whose dependents were notified and nothing reads it.
Start and end times, which no scheduling decision reads, are left out.
-/
import Mathlib

namespace Scheduler

/-! ## Resources -/

abbrev OpId := ℕ
abbrev SessionId := ℕ

/-- `ResourceClass`. -/
inductive ResourceClass
  | model | diskRead | diskWrite | cpu | git | network | terminal | mcp | indexing
  deriving DecidableEq, Repr

/-- `ResourceLimits`: an absent class has limit 1. -/
structure ResourceLimits where
  limits : ResourceClass → Option ℕ

/-- `ResourceLimits::get`. -/
def ResourceLimits.get (l : ResourceLimits) (cls : ResourceClass) : ℕ := (l.limits cls).getD 1

/-- `ResourceLimits::default`. -/
def ResourceLimits.default : ResourceLimits where
  limits
    | .model => some 1
    | .diskRead => some 16
    | .diskWrite => some 4
    | .cpu => some 2
    | .git => some 1
    | .network => some 8
    | .terminal => some 2
    | .mcp => some 4
    | .indexing => some 1

/-- `ResourceGauge`: in-flight operations per class. -/
abbrev ResourceGauge := ResourceClass → ℕ

/-- `ResourceGauge::try_acquire`: `none` is `ResourceBusy`. -/
def ResourceGauge.tryAcquire (g : ResourceGauge) (cls : ResourceClass) (limits : ResourceLimits) :
    Option ResourceGauge :=
  if g cls ≥ limits.get cls then none else some (Function.update g cls (g cls + 1))

/-- `ResourceGauge::release`: `none` is the panic on underflow. -/
def ResourceGauge.release (g : ResourceGauge) (cls : ResourceClass) : Option ResourceGauge :=
  if g cls = 0 then none else some (Function.update g cls (g cls - 1))

/-! ## Ownership -/

/-- The platforms `normalize_owned_path` tells apart. -/
inductive Platform
  | windows | macos | other
  deriving DecidableEq, Repr

/-- How ownership paths are compared: the platform, and the Unicode folding of
`fold_volume_identity`, which a third-party crate defines. -/
structure PathPolicy where
  platform : Platform
  foldVolumeIdentity : String → String

/-- `OwnershipSet`: a list of path entries. -/
structure OwnershipSet where
  entries : List String
  deriving DecidableEq, Repr

/-- `str::strip_prefix`. -/
def stripLeading (lead s : String) : Option String :=
  if lead.toList.isPrefixOf s.toList then some (String.ofList (s.toList.drop lead.length))
  else none

/-- `normalize_owned_path`. -/
def normalizeOwnedPath (policy : PathPolicy) (s : String) : String :=
  match policy.platform with
  | .windows =>
    let t :=
      match stripLeading "\\\\?\\UNC\\" s with
      | some rest => "//" ++ rest
      | none => (stripLeading "\\\\?\\" s).getD s
    policy.foldVolumeIdentity
      (String.ofList (t.toList.map fun c => if c = '\\' then '/' else c))
  | .macos => policy.foldVolumeIdentity s
  | .other => s

/-- `WORKSPACE_ROOT_SENTINEL`. -/
def workspaceRootSentinel : String := "**"

/-- `s.trim_end_matches('/')`. -/
def trimEndSlashes (s : List Char) : List Char := (s.reverse.dropWhile (· = '/')).reverse

/-- `a` is a directory entry (trailing `/`) that covers `b` at a component boundary. -/
def dirCovers (a b : List Char) : Bool :=
  a.getLast? = some '/' && (trimEndSlashes a ++ ['/']).isPrefixOf (trimEndSlashes b)

/-- `path_overlaps`. -/
def pathOverlaps (policy : PathPolicy) (a b : String) : Bool :=
  if a = workspaceRootSentinel ∨ b = workspaceRootSentinel then true
  else
    let a := (normalizeOwnedPath policy a).toList
    let b := (normalizeOwnedPath policy b).toList
    if a = b then true
    else if dirCovers a b then true
    else if dirCovers b a then true
    else false

/-- `OwnershipSet::overlaps`. -/
def OwnershipSet.overlaps (policy : PathPolicy) (a b : OwnershipSet) : Bool :=
  a.entries.any fun x => b.entries.any fun y => pathOverlaps policy x y

/-! ## Tasks -/

/-- `DependencyPolicy`. -/
inductive DependencyPolicy
  | success | terminal | always
  deriving DecidableEq, Repr

/-- `TaskStatus`. -/
inductive TaskStatus
  | pending | running | done | failed | cancelled | blocked
  deriving DecidableEq, Repr

/-- `edge_satisfied`. -/
def edgeSatisfied (policy : DependencyPolicy) (upstream : TaskStatus) : Bool :=
  match policy with
  | .success => upstream = .done
  | .terminal => upstream = .done ∨ upstream = .failed ∨ upstream = .cancelled
  | .always => upstream = .done ∨ upstream = .failed ∨ upstream = .cancelled ∨ upstream = .blocked

/-- `success_edge_dead`. -/
def successEdgeDead (upstream : TaskStatus) : Bool :=
  upstream = .failed ∨ upstream = .cancelled ∨ upstream = .blocked

/-- `status_is_terminal`. -/
def statusIsTerminal (status : TaskStatus) : Bool :=
  status = .done ∨ status = .failed ∨ status = .cancelled ∨ status = .blocked

/-- `ScheduledOp`, the parts that scheduling reads; `maxAttempts` is the retry policy's bound. -/
structure ScheduledOp where
  operationId : OpId
  sessionId : SessionId
  cls : ResourceClass
  reads : OwnershipSet
  writes : OwnershipSet
  dependencies : List (OpId × DependencyPolicy)
  maxAttempts : ℕ
  deriving DecidableEq, Repr

/-- `same_registration`. -/
def sameRegistration (a b : ScheduledOp) : Bool :=
  a.operationId = b.operationId ∧ a.sessionId = b.sessionId ∧ a.cls = b.cls ∧
    a.reads = b.reads ∧ a.writes = b.writes ∧ a.dependencies = b.dependencies

/-- `TaskState`. -/
structure TaskState where
  op : ScheduledOp
  status : TaskStatus
  error : Option String
  remaining : ℕ
  blocked : ℕ
  dependents : List (OpId × DependencyPolicy)
  deriving DecidableEq, Repr

/-- `ErrorKind`, the kinds the scheduler raises. -/
inductive ErrorKind
  | oversized | conflict | notFound | deadlock | internal
  deriving DecidableEq, Repr

/-- `faktor_core::error::Error`. -/
structure Error where
  kind : ErrorKind
  message : String
  deriving DecidableEq, Repr

/-- `MAX_TASKS_PER_DAG`. -/
def maxTasksPerDag : ℕ := 1024

/-- `MAX_DEPENDENCIES_PER_TASK`. -/
def maxDependenciesPerTask : ℕ := 64

/-- `MAX_OWNERSHIP_PATHS`. -/
def maxOwnershipPaths : ℕ := 512

/-! ## The shared state -/

/-- `Inner`: what the scheduler's mutex guards. -/
structure Inner where
  tasks : AList (fun _ : OpId => TaskState)
  gauge : ResourceGauge
  ready : List OpId
  running : AList (fun _ : OpId => OwnershipSet × OwnershipSet)
  terminalized : AList (fun _ : OpId => ℕ)
  notified : List OpId

/-- `Inner::default`. -/
def Inner.empty : Inner where
  tasks := ∅
  gauge := fun _ => 0
  ready := []
  running := ∅
  terminalized := ∅
  notified := []

/-- `tasks.get(&id)`. -/
def Inner.task? (s : Inner) (id : OpId) : Option TaskState := s.tasks.lookup id

/-- Write one task record. -/
def Inner.setTask (s : Inner) (id : OpId) (t : TaskState) : Inner :=
  { s with tasks := s.tasks.insert id t }

/-- `if let Some(t) = tasks.get_mut(&id) { … }`. -/
def Inner.modify (s : Inner) (id : OpId) (f : TaskState → TaskState) : Inner :=
  match s.task? id with
  | some t => s.setTask id (f t)
  | none => s

/-- The status of a registered op. -/
def Inner.status? (s : Inner) (id : OpId) : Option TaskStatus := (s.task? id).map (·.status)

/-- A locked section: the state it leaves, as `error` when it panicked. -/
abbrev Locked := Except Inner Inner

/-- The state behind the lock after a section, panicked or not. -/
def Locked.left : Locked → Inner
  | .ok s => s
  | .error s => s

/-! ## Terminal notification -/

/-- A satisfied edge: the dependent's count goes down, and at zero it is queued. -/
def Inner.releaseEdge (s : Inner) (id : OpId) : Inner :=
  match s.task? id with
  | none => s
  | some t =>
    let t := { t with remaining := t.remaining - 1 }
    let s := s.setTask id t
    if t.remaining = 0 ∧ t.blocked = 0 ∧ t.status = .pending then
      { s with ready := s.ready ++ [id] }
    else s

/-- A dead edge: the dependent is blocked, and pushed on the worklist if it was pending. -/
def Inner.blockEdge (s : Inner) (id : OpId) (worklist : List OpId) : Inner × List OpId :=
  match s.task? id with
  | none => (s, worklist)
  | some t =>
    let t := { t with blocked := t.blocked + 1 }
    if t.status = .pending then (s.setTask id { t with status := .blocked }, id :: worklist)
    else (s.setTask id t, worklist)

/-- One dependent of an op that became terminal in state `upstream`. -/
def notifyEdge (upstream : TaskStatus) (acc : Inner × List OpId)
    (edge : OpId × DependencyPolicy) : Inner × List OpId :=
  if edgeSatisfied edge.2 upstream then (acc.1.releaseEdge edge.1, acc.2)
  else if edge.2 ≠ .always then acc.1.blockEdge edge.1 acc.2
  else acc

/-- One dependent of a transitively blocked op. -/
def blockSub (acc : Inner × List OpId) (edge : OpId × DependencyPolicy) : Inner × List OpId :=
  match edge.2 with
  | .always => (acc.1.releaseEdge edge.1, acc.2)
  | .success => acc.1.blockEdge edge.1 acc.2
  | .terminal => acc.1.blockEdge edge.1 acc.2

/-- The transitive-blocking loop over its stack.  Every push turns a pending task into a blocked
one, so `fuel` bounds the pops. -/
def blockLoop : ℕ → Inner → List OpId → Inner
  | 0, s, _ => s
  | _ + 1, s, [] => s
  | fuel + 1, s, id :: worklist =>
    let subs := ((s.task? id).map (·.dependents)).getD []
    let next := subs.foldl blockSub ({ s with notified := id :: s.notified }, worklist)
    blockLoop fuel next.1 next.2

/-- The number of pending tasks, which bounds the pushes of `blockLoop`. -/
def Inner.pendingCount (s : Inner) : ℕ :=
  s.tasks.entries.countP (fun e => e.2.status = .pending)

/-- An op recorded as terminalized, out of the running map, with its reverse edges taken out. -/
def Inner.detach (s : Inner) (id : OpId) (t : TaskState) : Inner :=
  { s.setTask id { t with dependents := [] } with
    terminalized := s.terminalized.insert id 1
    running := s.running.erase id
    notified := id :: s.notified }

/-- `terminalize`: the second terminal event of an op is refused and only counted. -/
def terminalize (s : Inner) (id : OpId) : Locked :=
  match s.terminalized.lookup id with
  | some attempts =>
    .ok { s with terminalized := s.terminalized.insert id (min (attempts + 1) (2 ^ 32 - 1)) }
  | none =>
    match s.task? id with
    | none =>
      .error { s with
        terminalized := s.terminalized.insert id 1
        running := s.running.erase id }
    | some t =>
      let acc := t.dependents.foldl (notifyEdge t.status) (s.detach id t, [])
      .ok (blockLoop (acc.2.length + acc.1.pendingCount) acc.1 acc.2)

/-! ## Submission and cancellation -/

/-- One declared dependency of a new op `id`: the state, the open count and the dead count. -/
def submitEdge (id : OpId) (acc : Inner × ℕ × ℕ) (edge : OpId × DependencyPolicy) :
    Inner × ℕ × ℕ :=
  match acc.1.task? edge.1 with
  | none => (acc.1, acc.2.1 + 1, acc.2.2)
  | some dep =>
    if edgeSatisfied edge.2 dep.status then acc
    else if edge.2 = .success ∧ successEdgeDead dep.status = true then
      (acc.1, acc.2.1, acc.2.2 + 1)
    else
      (acc.1.setTask edge.1 { dep with dependents := dep.dependents ++ [(id, edge.2)] },
        acc.2.1 + 1, acc.2.2)

/-- The registration part of `try_submit`, after its checks. -/
def register (s : Inner) (op : ScheduledOp) : Inner :=
  let id := op.operationId
  let acc := op.dependencies.foldl (submitEdge id) (s, 0, 0)
  let status : TaskStatus := if 0 < acc.2.2 then .blocked else .pending
  let s := acc.1.setTask id
    { op := op
      status := status
      error := none
      remaining := acc.2.1
      blocked := acc.2.2
      dependents := [] }
  if acc.2.1 = 0 ∧ acc.2.2 = 0 ∧ status = .pending then { s with ready := s.ready ++ [id] } else s

/-- `try_submit`. -/
def trySubmit (s : Inner) (op : ScheduledOp) : Except Error Inner :=
  let id := op.operationId
  let deps := op.dependencies.length
  let paths := op.reads.entries.length + op.writes.entries.length
  if deps > maxDependenciesPerTask then
    .error ⟨.oversized, s!"op {id} declares {deps} dependencies; cap is {maxDependenciesPerTask}"⟩
  else if paths > maxOwnershipPaths then
    .error ⟨.oversized, s!"op {id} declares {paths} ownership paths; cap is {maxOwnershipPaths}"⟩
  else
    match s.task? id with
    | some existing =>
      if sameRegistration existing.op op then .ok s
      else .error ⟨.conflict, s!"op {id} already submitted with a different payload"⟩
    | none =>
      let held := s.tasks.keys.length
      if held ≥ maxTasksPerDag then
        .error ⟨.oversized, s!"dag already holds {held} tasks; cap is {maxTasksPerDag}"⟩
      else .ok (register s op)

/-- `{:?}` of a status. -/
def TaskStatus.debug : TaskStatus → String
  | .pending => "Pending"
  | .running => "Running"
  | .done => "Done"
  | .failed => "Failed"
  | .cancelled => "Cancelled"
  | .blocked => "Blocked"

/-- `try_cancel`; firing the op's cancellation token is not part of the scheduler's state. -/
def tryCancel (s : Inner) (id : OpId) : Except Error Locked :=
  match s.task? id with
  | none => .error ⟨.notFound, s!"op {id} is not registered"⟩
  | some t =>
    if statusIsTerminal t.status then
      .error ⟨.conflict, s!"op {id} is already terminal in state {t.status.debug}; " ++
        "cancellation is exactly-once and cannot fire a second terminal event"⟩
    else if t.status = .pending then
      .ok (terminalize (s.setTask id { t with status := .cancelled }) id)
    else .ok (.ok s)

/-! ## Completion -/

/-- `mark`: an already terminal task is never overwritten. -/
def mark (s : Inner) (id : OpId) (status : TaskStatus) (error : Option String) : Inner :=
  s.modify id fun t =>
    if statusIsTerminal t.status then t else { t with status := status, error := error }

/-- `Scheduler::release` under its lock. -/
def Inner.release (s : Inner) (cls : ResourceClass) : Locked :=
  match s.gauge.release cls with
  | some gauge => .ok { s with gauge := gauge }
  | none => .error s

/-- A task still running when its lease is settled was aborted. -/
def TaskState.cancelRunning (t : TaskState) : TaskState :=
  if t.status = .running then { t with status := .cancelled } else t

/-- `RunningLease::settle` of an armed lease: give back a permit still held, cancel a task still
running, and terminalize. -/
def settle (s : Inner) (id : OpId) (cls : ResourceClass) (permit : Bool) : Locked :=
  match (if permit then s.release cls else .ok s) with
  | .error left => .error left
  | .ok s => terminalize (s.modify id TaskState.cancelRunning) id

/-! ## The drain pass of `schedule_ready` -/

/-- What a scheduler is configured with. -/
structure Config where
  limits : ResourceLimits
  paths : PathPolicy

/-- A ready op conflicts with a running one. -/
def conflicts (policy : PathPolicy) (op : ScheduledOp) (owned : OwnershipSet × OwnershipSet) :
    Bool :=
  op.writes.overlaps policy owned.2 || op.writes.overlaps policy owned.1 ||
    op.reads.overlaps policy owned.2

/-- The inner loop over the ready queue: `n` its length at the start, `deferred` the entries put
back so far, `spawned` the ops started.  Every round either shortens the queue or defers, so
`fuel` of twice the queue's length is enough. -/
def drainLoop (cfg : Config) (n : ℕ) : ℕ → Inner → ℕ → List (OpId × ScheduledOp) →
    Except (Inner × List (OpId × ScheduledOp)) (Inner × List (OpId × ScheduledOp))
  | 0, s, _, spawned => .ok (s, spawned)
  | fuel + 1, s, deferred, spawned =>
    if deferred < n then
      match s.ready with
      | [] => .ok (s, spawned)
      | id :: ready =>
        let s := { s with ready := ready }
        match s.task? id with
        | none => .error (s, spawned)
        | some t =>
          if t.status ≠ .pending ∨ t.remaining ≠ 0 then drainLoop cfg n fuel s deferred spawned
          else if s.running.entries.any (fun e => conflicts cfg.paths t.op e.2) then
            drainLoop cfg n fuel { s with ready := s.ready ++ [id] } (deferred + 1) spawned
          else
            match s.gauge.tryAcquire t.op.cls cfg.limits with
            | none => drainLoop cfg n fuel { s with ready := s.ready ++ [id] } (deferred + 1) spawned
            | some gauge =>
              let s := { s.setTask id { t with status := .running } with
                gauge := gauge
                running := s.running.insert id (t.op.reads, t.op.writes) }
              drainLoop cfg n fuel s deferred (spawned ++ [(id, t.op)])
    else .ok (s, spawned)

/-- One locked pass of `schedule_ready`, with the ops it starts. -/
def drainReady (cfg : Config) (s : Inner) :
    Except (Inner × List (OpId × ScheduledOp)) (Inner × List (OpId × ScheduledOp)) :=
  drainLoop cfg s.ready.length (2 * s.ready.length) s 0 []

/-! ## `rebuild_graph` -/

/-- One dependency of task `id` during the rebuild, by the status snapshot. -/
def rebuildEdge (statuses : OpId → Option TaskStatus) (id : OpId) (acc : Inner × ℕ × ℕ)
    (edge : OpId × DependencyPolicy) : Except Inner (Inner × ℕ × ℕ) :=
  match statuses edge.1 with
  | none => .error acc.1
  | some status =>
    if edgeSatisfied edge.2 status then .ok acc
    else if edge.2 = .success ∧ successEdgeDead status = true then
      .ok (acc.1, acc.2.1, acc.2.2 + 1)
    else
      match acc.1.task? edge.1 with
      | none => .error acc.1
      | some dep =>
        .ok (acc.1.setTask edge.1 { dep with dependents := dep.dependents ++ [(id, edge.2)] },
          acc.2.1 + 1, acc.2.2)

/-- One task of the rebuild: its counts, and whether it is newly blocked. -/
def rebuildTask (statuses : OpId → Option TaskStatus) (acc : Inner × List OpId) (id : OpId) :
    Except Inner (Inner × List OpId) :=
  match acc.1.task? id with
  | none => .error acc.1
  | some t => do
    let (s, remaining, blocked) ←
      t.op.dependencies.foldlM (rebuildEdge statuses id) (acc.1, 0, 0)
    match s.task? id with
    | none => .error s
    | some t =>
      let t := { t with remaining := remaining, blocked := blocked }
      if 0 < blocked ∧ t.status = .pending then
        .ok (s.setTask id { t with status := .blocked }, acc.2 ++ [id])
      else .ok (s.setTask id t, acc.2)

/-- Queue a task whose dependencies are all satisfied. -/
def queueIfReady (s : Inner) (id : OpId) : Locked :=
  match s.task? id with
  | none => .error s
  | some t =>
    if t.status = .pending ∧ t.remaining = 0 ∧ t.blocked = 0 then
      .ok { s with ready := s.ready ++ [id] }
    else .ok s

/-- The counts and reverse edges of a task forgotten before they are recomputed. -/
def TaskState.reset (t : TaskState) : TaskState :=
  { t with remaining := 0, blocked := 0, dependents := [] }

/-- `rebuild_graph`, visiting the tasks in the order `ids` of the map's keys. -/
def rebuildGraph (s : Inner) (ids : List OpId) : Locked := do
  let statuses := s.status?
  let s := { s with ready := [] }
  let s := ids.foldl (fun s id => s.modify id TaskState.reset) s
  let (s, newlyBlocked) ← ids.foldlM (rebuildTask statuses) (s, [])
  let s ← newlyBlocked.foldlM terminalize s
  ids.foldlM queueIfReady s

end Scheduler
