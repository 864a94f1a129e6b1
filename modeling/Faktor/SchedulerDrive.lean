/-
# `run_to_completion` as a state machine

The driver of a run and its spawned tasks.  The driver validates, rebuilds, and then loops: it
listens for permit releases, makes passes of `schedule_ready` until one starts nothing, and
either waits for a task or a permit, or decides that the run is over.  Each locked section is one
step, so submissions may fall between any two of them; `submit` is the only event of the
environment, every other event is a step of the run.

The `JoinSet` holds the tasks of the leases and the finished ones not yet joined (`unjoined`,
with `false` for one that panicked).  A run is dropped by its caller or goes on; the drop is the
`settle` events of `SchedulerWorld.lean` and is no step here.
-/
import Faktor.SchedulerAdmission
import Faktor.SchedulerValidate

namespace Scheduler

/-! ## The driver -/

/-- Where the driver stands. -/
inductive DrivePhase
  | start
  | validated
  | looping
  | scheduling
  | drained
  | rebuilding
  | collecting
  | stuck
  | waiting
  | returned (result : Except Error (List OpId))
  | panicked
  deriving DecidableEq

/-- A run in progress: `rebuilt` is `rebuilt_once`, `woken` whether the permit notification the
driver listens for has fired. -/
structure Drive where
  world : World
  phase : DrivePhase
  rebuilt : Bool
  woken : Bool
  unjoined : List Bool

/-- `run_to_completion` called on a scheduler. -/
def Drive.start (w : World) : Drive := ⟨w, .start, false, false, []⟩

/-- The steps of a run, and a submission that falls between them. -/
inductive DriveEvent
  | validate (ids : List OpId)
  | rebuild (ids : List OpId)
  | listen
  | pass
  | check
  | collect
  | diagnose
  | permit
  | join
  | record (l : Lease) (o : Outcome)
  | retry (l : Lease)
  | wake (l : Lease)
  | reacquire (l : Lease)
  | settle (l : Lease)
  | submit (op : ScheduledOp)

/-- Some task is pending. -/
def Inner.anyPending (s : Inner) : Bool :=
  s.tasks.entries.any fun e => e.2.status = .pending

/-- Some pending task waits for nothing. -/
def Inner.readyStuck (s : Inner) : Bool :=
  s.tasks.entries.any fun e => e.2.status = .pending ∧ e.2.remaining = 0

/-- The ops that ended done, sorted. -/
def Inner.doneOps (s : Inner) : List OpId :=
  ((s.tasks.entries.filter fun e => e.2.status = .done).map Sigma.fst).insertionSort (· ≤ ·)

/-- The settlement of a lease panicked. -/
def settlePanics (s : Inner) (l : Lease) : Bool :=
  match settle s l.id l.cls l.permit with
  | .ok _ => false
  | .error _ => true

/-- One step of the run, `none` when it is not enabled. -/
def Drive.step (cfg : Config) (d : Drive) : DriveEvent → Option Drive
  | .validate ids =>
    match d.phase with
    | .start =>
      if ids.Perm d.world.inner.tasks.keys then
        match Scheduler.validate d.world.inner ids with
        | .ok () => some { d with phase := .validated }
        | .error (some e) => some { d with phase := .returned (.error e) }
        | .error none => none
      else none
    | _ => none
  | .rebuild ids =>
    match d.phase with
    | .validated | .rebuilding =>
      if ids.Perm d.world.inner.tasks.keys then
        match rebuildGraph d.world.inner ids with
        | .ok s => some { d with world := { d.world with inner := s }, phase := .looping }
        | .error s => some { d with world := { d.world with inner := s }, phase := .panicked }
      else none
    | _ => none
  | .listen =>
    match d.phase with
    | .looping => some { d with woken := false, phase := .scheduling }
    | _ => none
  | .pass =>
    match d.phase with
    | .scheduling =>
      match drainReady cfg d.world.inner with
      | .ok (s, spawned) =>
        some { d with
          world := ⟨s, d.world.leases ++ spawned.map fun x => .start true x.1 x.2⟩
          phase := if spawned = [] then .drained else .scheduling }
      | .error (s, spawned) =>
        some { d with
          world := ⟨s, d.world.leases ++ spawned.map fun x => .start true x.1 x.2⟩
          phase := .panicked }
    | _ => none
  | .check =>
    match d.phase with
    | .drained =>
      if d.world.leases = [] ∧ d.unjoined = [] then
        if d.world.inner.anyPending then
          if d.rebuilt then some { d with phase := .stuck }
          else some { d with rebuilt := true, phase := .rebuilding }
        else some { d with phase := .collecting }
      else some { d with phase := .waiting }
    | _ => none
  | .collect =>
    match d.phase with
    | .collecting => some { d with phase := .returned (.ok d.world.inner.doneOps) }
    | _ => none
  | .diagnose =>
    match d.phase with
    | .stuck =>
      some { d with phase := .returned (.error ⟨.deadlock,
        if d.world.inner.readyStuck then "resource budgets prevent any ready task from starting"
        else "no ready tasks and work remains; cycle or unscheduled dependency"⟩) }
    | _ => none
  | .permit =>
    match d.phase with
    | .waiting => if d.woken then some { d with woken := false, phase := .looping } else none
    | _ => none
  | .join =>
    match d.phase with
    | .waiting =>
      match d.unjoined with
      | [] => none
      | true :: unjoined => some { d with unjoined := unjoined, phase := .looping }
      | false :: unjoined =>
        some { d with
          unjoined := unjoined
          phase := .returned (.error ⟨.internal, "scheduler task failed unexpectedly"⟩) }
    | _ => none
  | .record l o => (d.world.step cfg (.record l o)).map fun w => { d with world := w }
  | .retry l =>
    (d.world.step cfg (.retry l)).map fun w => { d with world := w, woken := d.woken || l.permit }
  | .wake l => (d.world.step cfg (.wake l)).map fun w => { d with world := w }
  | .reacquire l => (d.world.step cfg (.reacquire l)).map fun w => { d with world := w }
  | .settle l =>
    if l.phase = .recorded then
      (d.world.step cfg (.settle l)).map fun w =>
        { d with
          world := w
          woken := d.woken || l.permit
          unjoined := (!settlePanics d.world.inner l) :: d.unjoined }
    else none
  | .submit op => (d.world.step cfg (.submit op)).map fun w => { d with world := w }

/-- One event; one that is not enabled changes nothing. -/
def Drive.apply (cfg : Config) (d : Drive) (e : DriveEvent) : Drive := (d.step cfg e).getD d

/-- A run with its interleaved submissions. -/
def Drive.run (cfg : Config) (d : Drive) (events : List DriveEvent) : Drive :=
  events.foldl (Drive.apply cfg) d

theorem Drive.run_cons (cfg : Config) (d : Drive) (e : DriveEvent) (events : List DriveEvent) :
    d.run cfg (e :: events) = (d.apply cfg e).run cfg events := rfl

/-! ## What a step can do -/

/-- The world after a drain pass. -/
def World.spawn (w : World) (r : Draining) : World :=
  ⟨r.1, w.leases ++ r.2.map fun x => .start true x.1 x.2⟩

/-- **The cases of an enabled step**, with the guards it passed. -/
inductive DriveStep (cfg : Config) (d : Drive) : DriveEvent → Drive → Prop
  | validate (ids : List OpId) (hphase : d.phase = .start)
      (hids : ids.Perm d.world.inner.tasks.keys) (hok : validate d.world.inner ids = .ok ()) :
      DriveStep cfg d (.validate ids) { d with phase := .validated }
  | refuse (ids : List OpId) (e : Error) (hphase : d.phase = .start)
      (hids : ids.Perm d.world.inner.tasks.keys)
      (herror : validate d.world.inner ids = .error (some e)) :
      DriveStep cfg d (.validate ids) { d with phase := .returned (.error e) }
  | rebuild (ids : List OpId) (s : Inner) (hphase : d.phase = .validated ∨ d.phase = .rebuilding)
      (hids : ids.Perm d.world.inner.tasks.keys) (hok : rebuildGraph d.world.inner ids = .ok s) :
      DriveStep cfg d (.rebuild ids)
        { d with world := { d.world with inner := s }, phase := .looping }
  | rebuildPanic (ids : List OpId) (s : Inner)
      (hphase : d.phase = .validated ∨ d.phase = .rebuilding)
      (hids : ids.Perm d.world.inner.tasks.keys)
      (herror : rebuildGraph d.world.inner ids = .error s) :
      DriveStep cfg d (.rebuild ids)
        { d with world := { d.world with inner := s }, phase := .panicked }
  | listen (hphase : d.phase = .looping) :
      DriveStep cfg d .listen { d with woken := false, phase := .scheduling }
  | pass (r : Draining) (hphase : d.phase = .scheduling)
      (hok : drainReady cfg d.world.inner = .ok r) :
      DriveStep cfg d .pass { d with
        world := d.world.spawn r
        phase := if r.2 = [] then .drained else .scheduling }
  | passPanic (r : Draining) (hphase : d.phase = .scheduling)
      (herror : drainReady cfg d.world.inner = .error r) :
      DriveStep cfg d .pass { d with world := d.world.spawn r, phase := .panicked }
  | finish (hphase : d.phase = .drained) (hset : d.world.leases = [] ∧ d.unjoined = [])
      (hpending : d.world.inner.anyPending = false) :
      DriveStep cfg d .check { d with phase := .collecting }
  | again (hphase : d.phase = .drained) (hset : d.world.leases = [] ∧ d.unjoined = [])
      (hpending : d.world.inner.anyPending = true) (hrebuilt : d.rebuilt = false) :
      DriveStep cfg d .check { d with rebuilt := true, phase := .rebuilding }
  | giveUp (hphase : d.phase = .drained) (hset : d.world.leases = [] ∧ d.unjoined = [])
      (hpending : d.world.inner.anyPending = true) (hrebuilt : d.rebuilt = true) :
      DriveStep cfg d .check { d with phase := .stuck }
  | await (hphase : d.phase = .drained) (hset : ¬ (d.world.leases = [] ∧ d.unjoined = [])) :
      DriveStep cfg d .check { d with phase := .waiting }
  | collect (hphase : d.phase = .collecting) :
      DriveStep cfg d .collect { d with phase := .returned (.ok d.world.inner.doneOps) }
  | diagnose (message : String) (hphase : d.phase = .stuck) :
      DriveStep cfg d .diagnose { d with phase := .returned (.error ⟨.deadlock, message⟩) }
  | permit (hphase : d.phase = .waiting) (hwoken : d.woken = true) :
      DriveStep cfg d .permit { d with woken := false, phase := .looping }
  | join (unjoined : List Bool) (hphase : d.phase = .waiting)
      (hdone : d.unjoined = true :: unjoined) :
      DriveStep cfg d .join { d with unjoined := unjoined, phase := .looping }
  | joinPanic (unjoined : List Bool) (e : Error) (hphase : d.phase = .waiting)
      (hdone : d.unjoined = false :: unjoined) :
      DriveStep cfg d .join { d with unjoined := unjoined, phase := .returned (.error e) }
  | record (l : Lease) (o : Outcome) (w : World)
      (hstep : d.world.step cfg (.record l o) = some w) :
      DriveStep cfg d (.record l o) { d with world := w }
  | retry (l : Lease) (w : World) (hstep : d.world.step cfg (.retry l) = some w) :
      DriveStep cfg d (.retry l) { d with world := w, woken := d.woken || l.permit }
  | wake (l : Lease) (w : World) (hstep : d.world.step cfg (.wake l) = some w) :
      DriveStep cfg d (.wake l) { d with world := w }
  | reacquire (l : Lease) (w : World) (hstep : d.world.step cfg (.reacquire l) = some w) :
      DriveStep cfg d (.reacquire l) { d with world := w }
  | settle (l : Lease) (w : World) (hphase : l.phase = .recorded)
      (hstep : d.world.step cfg (.settle l) = some w) :
      DriveStep cfg d (.settle l) { d with
        world := w
        woken := d.woken || l.permit
        unjoined := (!settlePanics d.world.inner l) :: d.unjoined }
  | submit (op : ScheduledOp) (w : World) (hstep : d.world.step cfg (.submit op) = some w) :
      DriveStep cfg d (.submit op) { d with world := w }

variable {cfg : Config} {d d' : Drive} {e : DriveEvent}

theorem Drive.step_cases (h : d.step cfg e = some d') : DriveStep cfg d e d' := by
  cases e with
  | validate ids =>
    simp only [Drive.step] at h
    split at h
    · rename_i hphase
      split at h
      · rename_i hids
        split at h
        · rename_i hok
          rw [← Option.some.inj h]
          exact .validate ids hphase hids hok
        · rename_i err herr
          rw [← Option.some.inj h]
          exact .refuse ids err hphase hids herr
        · cases h
      · cases h
    · cases h
  | rebuild ids =>
    have hrebuild : (d.phase = .validated ∨ d.phase = .rebuilding) →
        (if ids.Perm d.world.inner.tasks.keys then
          match rebuildGraph d.world.inner ids with
          | .ok s => some { d with world := { d.world with inner := s }, phase := .looping }
          | .error s => some { d with world := { d.world with inner := s }, phase := .panicked }
        else none) = some d' → DriveStep cfg d (.rebuild ids) d' := by
      intro hphase h
      split at h
      · rename_i hids
        split at h
        · rename_i s hok
          rw [← Option.some.inj h]
          exact .rebuild ids s hphase hids hok
        · rename_i s herr
          rw [← Option.some.inj h]
          exact .rebuildPanic ids s hphase hids herr
      · cases h
    simp only [Drive.step] at h
    split at h
    · rename_i hphase
      exact hrebuild (.inl hphase) h
    · rename_i hphase
      exact hrebuild (.inr hphase) h
    · cases h
  | listen =>
    simp only [Drive.step] at h
    split at h
    · rename_i hphase
      rw [← Option.some.inj h]
      exact .listen hphase
    · cases h
  | pass =>
    simp only [Drive.step] at h
    split at h
    · rename_i hphase
      split at h
      · rename_i s spawned hok
        rw [← Option.some.inj h]
        exact .pass (s, spawned) hphase hok
      · rename_i s spawned herr
        rw [← Option.some.inj h]
        exact .passPanic (s, spawned) hphase herr
    · cases h
  | check =>
    simp only [Drive.step] at h
    split at h
    · rename_i hphase
      split at h
      · rename_i hset
        split at h
        · rename_i hpending
          split at h
          · rename_i hrebuilt
            rw [← Option.some.inj h]
            exact .giveUp hphase hset hpending hrebuilt
          · rename_i hrebuilt
            rw [← Option.some.inj h]
            exact .again hphase hset hpending (Bool.eq_false_iff.mpr hrebuilt)
        · rename_i hpending
          rw [← Option.some.inj h]
          exact .finish hphase hset (Bool.eq_false_iff.mpr hpending)
      · rename_i hset
        rw [← Option.some.inj h]
        exact .await hphase hset
    · cases h
  | collect =>
    simp only [Drive.step] at h
    split at h
    · rename_i hphase
      rw [← Option.some.inj h]
      exact .collect hphase
    · cases h
  | diagnose =>
    simp only [Drive.step] at h
    split at h
    · rename_i hphase
      rw [← Option.some.inj h]
      exact .diagnose _ hphase
    · cases h
  | permit =>
    simp only [Drive.step] at h
    split at h
    · rename_i hphase
      split at h
      · rename_i hwoken
        rw [← Option.some.inj h]
        exact .permit hphase hwoken
      · cases h
    · cases h
  | join =>
    simp only [Drive.step] at h
    split at h
    · rename_i hphase
      split at h
      · cases h
      · rename_i unjoined hdone
        rw [← Option.some.inj h]
        exact .join unjoined hphase hdone
      · rename_i unjoined hdone
        rw [← Option.some.inj h]
        exact .joinPanic unjoined _ hphase hdone
    · cases h
  | record l o =>
    obtain ⟨w, hw, rfl⟩ := Option.map_eq_some_iff.mp h
    exact .record l o w hw
  | retry l =>
    obtain ⟨w, hw, rfl⟩ := Option.map_eq_some_iff.mp h
    exact .retry l w hw
  | wake l =>
    obtain ⟨w, hw, rfl⟩ := Option.map_eq_some_iff.mp h
    exact .wake l w hw
  | reacquire l =>
    obtain ⟨w, hw, rfl⟩ := Option.map_eq_some_iff.mp h
    exact .reacquire l w hw
  | settle l =>
    simp only [Drive.step] at h
    split at h
    · rename_i hphase
      obtain ⟨w, hw, rfl⟩ := Option.map_eq_some_iff.mp h
      exact .settle l w hphase hw
    · cases h
  | submit op =>
    obtain ⟨w, hw, rfl⟩ := Option.map_eq_some_iff.mp h
    exact .submit op w hw

/-- **Every step of a run is at most one event of the world.** -/
theorem Drive.step_world (h : d.step cfg e = some d') :
    d'.world = d.world ∨ ∃ ev, d.world.step cfg ev = some d'.world := by
  cases Drive.step_cases h with
  | rebuild ids s hphase hids hok =>
    refine .inr ⟨.rebuild ids, ?_⟩
    simp [World.step, hids, hok, Locked.left]
  | rebuildPanic ids s hphase hids herr =>
    refine .inr ⟨.rebuild ids, ?_⟩
    simp [World.step, hids, herr, Locked.left]
  | pass r hphase hok =>
    refine .inr ⟨.drain, ?_⟩
    simp [World.step, hok, World.spawn]
  | passPanic r hphase herr =>
    refine .inr ⟨.drain, ?_⟩
    simp [World.step, herr, World.spawn]
  | record l o w hstep => exact .inr ⟨_, hstep⟩
  | retry l w hstep => exact .inr ⟨_, hstep⟩
  | wake l w hstep => exact .inr ⟨_, hstep⟩
  | reacquire l w hstep => exact .inr ⟨_, hstep⟩
  | settle l w hphase hstep => exact .inr ⟨_, hstep⟩
  | submit op w hstep => exact .inr ⟨_, hstep⟩
  | _ => exact .inl rfl

theorem safe_drive (hsafe : Safe cfg d.world) (h : d.step cfg e = some d') : Safe cfg d'.world := by
  rcases Drive.step_world h with heq | ⟨ev, hev⟩
  · rw [heq]
    exact hsafe
  · exact safe_step hsafe hev

/-! ## Panics -/

/-- Every rebuild of the run finds the declared dependencies registered. -/
def Drive.RebuildsRegistered (cfg : Config) : Drive → List DriveEvent → Prop
  | _, [] => True
  | d, e :: events =>
    (∀ ids, e = .rebuild ids → (d.step cfg e).isSome → DepsRegistered d.world.inner) ∧
      Drive.RebuildsRegistered cfg (d.apply cfg e) events

/-- A rebuild returns when the dependencies are registered, and panics when one is not. -/
theorem rebuildGraph_ok_iff {s : Inner} {ids : List OpId} (h : ids.Perm s.tasks.keys) :
    (∃ s', rebuildGraph s ids = .ok s') ↔ DepsRegistered s := by
  have horder := isOrder_of_perm h
  constructor
  · rintro ⟨s', hs'⟩
    by_contra hreg
    obtain ⟨left, hleft⟩ := rebuildGraph_error horder hreg
    rw [hs'] at hleft
    cases hleft
  · intro hreg
    obtain ⟨cur, s₁, tok, -, -, -, hok⟩ := rebuildGraph_ok horder hreg
    exact ⟨_, hok⟩

/-- A step panics exactly when it is a rebuild with an unregistered dependency. -/
theorem Drive.step_panics_iff (hsafe : Safe cfg d.world) (h : d.step cfg e = some d')
    (hphase : d.phase ≠ .panicked) :
    d'.phase = .panicked ↔ ∃ ids, e = .rebuild ids ∧ ¬ DepsRegistered d.world.inner := by
  cases Drive.step_cases h with
  | rebuild ids s hp hids hok =>
    have hreg := (rebuildGraph_ok_iff hids).mp ⟨s, hok⟩
    simp [hreg]
  | rebuildPanic ids s hp hids herr =>
    have hreg : ¬ DepsRegistered d.world.inner := by
      intro hreg
      obtain ⟨s', hs'⟩ := (rebuildGraph_ok_iff hids).mpr hreg
      rw [herr] at hs'
      cases hs'
    simp [hreg]
  | pass r hp hok =>
    by_cases hr : r.2 = [] <;> simp [hr]
  | passPanic r hp herr =>
    obtain ⟨r', hok, -⟩ := drainReady_ok hsafe.sound
    rw [hok] at herr
    cases herr
  | record l o w hstep => simp [hphase]
  | retry l w hstep => simp [hphase]
  | wake l w hstep => simp [hphase]
  | reacquire l w hstep => simp [hphase]
  | settle l w hp hstep => simp [hphase]
  | submit op w hstep => simp [hphase]
  | _ => simp

/-- Nothing but submissions and the tasks' own steps happens after a panic. -/
theorem Drive.step_of_panicked (h : d.step cfg e = some d') (hphase : d.phase = .panicked) :
    d'.phase = .panicked ∧ ∀ ids, e ≠ .rebuild ids := by
  cases Drive.step_cases h with
  | record l o w hstep => exact ⟨hphase, fun _ h => by cases h⟩
  | retry l w hstep => exact ⟨hphase, fun _ h => by cases h⟩
  | wake l w hstep => exact ⟨hphase, fun _ h => by cases h⟩
  | reacquire l w hstep => exact ⟨hphase, fun _ h => by cases h⟩
  | settle l w hp hstep => exact ⟨hphase, fun _ h => by cases h⟩
  | submit op w hstep => exact ⟨hphase, fun _ h => by cases h⟩
  | rebuild ids s hp hids hok => rcases hp with hp | hp <;> simp [hphase] at hp
  | rebuildPanic ids s hp hids herr => rcases hp with hp | hp <;> simp [hphase] at hp
  | _ => simp_all

end Scheduler
