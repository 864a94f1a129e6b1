/-
# A run ends

Every step of a run other than a submission lowers its `potential`: a retry pays for the wake-up
of the driver it causes, a settled task for its wake-up and its join, a pending task for its
whole life as a lease.  So a run without further submissions has a bounded number of steps.  And
it is never stuck: until it has returned or panicked some step is enabled (`progress`), one that
does not rely on a deadline or a cancellation.
-/
import Faktor.SchedulerDrive

namespace Scheduler

/-! ## The potential -/

/-- What a wake-up or a join of the driver may cost: the step itself and one turn of its loop. -/
def turnCost : ℕ := 5

/-- What the rest of a lease may cost. -/
def Lease.cost (l : Lease) : ℕ :=
  2 * turnCost + 1 + (l.op.maxAttempts - 1 - l.failures) * (turnCost + 4) +
    match l.phase with
    | .attempting => 1
    | .backoff => 3
    | .admission => 2
    | .recorded => 0

/-- What a task that has not started may cost. -/
def ScheduledOp.cost (op : ScheduledOp) : ℕ :=
  2 * turnCost + 3 + (op.maxAttempts - 1) * (turnCost + 4)

/-- The cost of a task if it is pending. -/
def pendingTaskCost : Option TaskState → ℕ
  | some t => if t.status = .pending then t.op.cost else 0
  | none => 0

/-- The registered ops. -/
def Inner.ops (s : Inner) : Finset OpId := s.tasks.keys.toFinset

/-- The cost of all pending tasks. -/
def Inner.pendingCost (s : Inner) : ℕ := ∑ id ∈ s.ops, pendingTaskCost (s.task? id)

/-- How many steps the driver is from its next decision. -/
def DrivePhase.cost : DrivePhase → ℕ
  | .start => 8
  | .validated => 7
  | .rebuilding => 6
  | .looping => 4
  | .scheduling => 3
  | .drained => 2
  | .waiting => 1
  | .collecting => 1
  | .stuck => 1
  | .returned _ => 0
  | .panicked => 0

/-- **The potential of a run.** -/
def Drive.potential (d : Drive) : ℕ :=
  d.phase.cost + (if d.woken then turnCost else 0) + turnCost * d.unjoined.length +
    (d.world.leases.map Lease.cost).sum + d.world.inner.pendingCost +
    (if d.rebuilt then 0 else 2 * turnCost)

/-! ## Pending tasks only become fewer -/

variable {s : Inner}

theorem Inner.mem_ops {id : OpId} : id ∈ s.ops ↔ (s.task? id).isSome := by
  rw [Inner.ops, List.mem_toFinset, Inner.task?, AList.lookup_isSome]
  rfl

variable {s' : Inner}

theorem Inner.ops_congr (h : ∀ j, (s'.task? j).isSome = (s.task? j).isSome) :
    s'.ops = s.ops := by
  ext j
  rw [Inner.mem_ops, Inner.mem_ops, h]

/-- No task is pending that was not. -/
theorem pendingCost_le (hreg : ∀ j, (s'.task? j).isSome = (s.task? j).isSome)
    (h : ∀ j t', s'.task? j = some t' → t'.status = .pending →
      ∃ t, s.task? j = some t ∧ t.op = t'.op ∧ t.status = .pending) :
    s'.pendingCost ≤ s.pendingCost := by
  unfold Inner.pendingCost
  rw [Inner.ops_congr hreg]
  refine Finset.sum_le_sum fun j _ => ?_
  cases hj : s'.task? j with
  | none => exact Nat.zero_le _
  | some t' =>
    by_cases hp : t'.status = .pending
    · obtain ⟨t, ht, hop, hpend⟩ := h j t' hj hp
      rw [ht, pendingTaskCost, pendingTaskCost, if_pos hp, if_pos hpend, hop]
    · rw [pendingTaskCost, if_neg hp]
      exact Nat.zero_le _

/-- Tasks keep their op, and a status changes only from pending to blocked. -/
theorem pendingCost_of_task (habsent : ∀ j, s.task? j = none → s'.task? j = none)
    (htask : ∀ j t, s.task? j = some t → ∃ t', s'.task? j = some t' ∧ t'.op = t.op ∧
      (t'.status = t.status ∨ (t.status = .pending ∧ t'.status = .blocked))) :
    s'.pendingCost ≤ s.pendingCost := by
  refine pendingCost_le (fun j => ?_) fun j t' ht' hp => ?_
  · cases hj : s.task? j with
    | none => rw [habsent j hj]
    | some t =>
      obtain ⟨t', ht', -⟩ := htask j t hj
      rw [ht']
      rfl
  · cases hj : s.task? j with
    | none =>
      rw [habsent j hj] at ht'
      cases ht'
    | some t =>
      obtain ⟨x, hx, hop, hstatus⟩ := htask j t hj
      rw [ht'] at hx
      rw [← Option.some.inj hx] at hop hstatus
      rcases hstatus with hsame | ⟨-, hb⟩
      · exact ⟨t, rfl, hop.symm, hsame ▸ hp⟩
      · rw [hp] at hb
        cases hb

theorem pendingCost_framed (h : Framed s s') : s'.pendingCost ≤ s.pendingCost :=
  pendingCost_of_task h.absent h.task

theorem pendingCost_terminalize {id : OpId} (h : Terminalized id s s') :
    s'.pendingCost ≤ s.pendingCost :=
  pendingCost_of_task h.absent h.task

/-- A record rewritten without becoming pending. -/
theorem pendingCost_modify (id : OpId) {f : TaskState → TaskState}
    (hop : ∀ t, (f t).op = t.op) (hp : ∀ t, (f t).status = .pending → t.status = .pending) :
    (s.modify id f).pendingCost ≤ s.pendingCost := by
  refine pendingCost_le (fun j => ?_) fun j t' ht' hpend => ?_
  · rw [task?_modify]
    split
    · rename_i heq
      rw [heq, Option.isSome_map]
    · rfl
  · rw [task?_modify] at ht'
    split at ht'
    · rename_i heq
      subst heq
      obtain ⟨t, ht, rfl⟩ := Option.map_eq_some_iff.mp ht'
      exact ⟨t, ht, (hop t).symm, hp t hpend⟩
    · exact ⟨t', ht', rfl, hpend⟩

theorem pendingCost_mark (s : Inner) (id : OpId) (o : Outcome) :
    (mark s id o.status o.error).pendingCost ≤ s.pendingCost := by
  refine pendingCost_modify id (fun t => ?_) (fun t hp => ?_)
  · split <;> rfl
  · split at hp
    · exact hp
    · exact absurd hp o.status_facts.1

/-- Starting a task takes its cost out. -/
theorem pendingCost_start {s : Inner} {id : OpId} {t : TaskState} {gauge : ResourceGauge}
    (ht : s.task? id = some t) (hp : t.status = .pending) :
    (s.start id t gauge).pendingCost + t.op.cost = s.pendingCost := by
  have htask : ∀ j, (s.start id t gauge).task? j =
      if j = id then some { t with status := .running } else s.task? j :=
    fun j => task?_setTask s id _ j
  have hops : (s.start id t gauge).ops = s.ops := by
    refine Inner.ops_congr fun j => ?_
    rw [htask]
    split
    · rename_i heq
      rw [heq, ht]
      rfl
    · rfl
  have hid : id ∈ s.ops := Inner.mem_ops.mpr (by rw [ht]; rfl)
  unfold Inner.pendingCost
  rw [hops, ← Finset.add_sum_erase _ _ hid, ← Finset.add_sum_erase s.ops _ hid]
  have hsame : ∑ j ∈ s.ops.erase id, pendingTaskCost ((s.start id t gauge).task? j) =
      ∑ j ∈ s.ops.erase id, pendingTaskCost (s.task? j) := by
    refine Finset.sum_congr rfl fun j hj => ?_
    rw [htask, if_neg (Finset.ne_of_mem_erase hj)]
  rw [hsame, htask, if_pos rfl, ht]
  simp [pendingTaskCost, hp]
  omega

theorem pendingCost_drain {cfg : Config} {a b : Draining}
    (hmoves : Relation.ReflTransGen (DrainMove cfg) a b) :
    b.1.pendingCost + (b.2.map fun x => x.2.cost).sum =
      a.1.pendingCost + (a.2.map fun x => x.2.cost).sum := by
  induction hmoves with
  | refl => rfl
  | tail _ hmove ih =>
    rw [← ih]
    cases hmove with
    | stale s spawned id ready t hready ht hstale => rfl
    | defer s spawned id ready hready => rfl
    | start s spawned id ready t gauge hready ht hp hrem hfree hacq =>
      have hcost := @pendingCost_start { s with ready := ready } id t gauge ht hp
      have hsame : ({ s with ready := ready } : Inner).pendingCost = s.pendingCost := rfl
      simp only [List.map_append, List.sum_append, List.map_cons, List.map_nil, List.sum_cons,
        List.sum_nil]
      omega

theorem pendingCost_settle {id : OpId} {cls : ResourceClass} {permit : Bool}
    (h : settle s id cls permit = .ok s') : s'.pendingCost ≤ s.pendingCost := by
  obtain ⟨gauge, -, hterm⟩ := settle_cases h
  refine (pendingCost_terminalize (terminalize_frame hterm)).trans ?_
  refine le_trans (pendingCost_modify id (fun t => ?_) (fun t hp => ?_)) (le_of_eq rfl)
  · unfold TaskState.cancelRunning
    split <;> rfl
  · unfold TaskState.cancelRunning at hp
    split at hp
    · cases hp
    · exact hp

/-! ## Every step lowers the potential -/

theorem leaseCosts_erase {leases : List Lease} {l : Lease} (h : l ∈ leases) :
    ((leases.erase l).map Lease.cost).sum + l.cost = (leases.map Lease.cost).sum := by
  rw [((List.perm_cons_erase h).map Lease.cost).sum_eq, List.map_cons, List.sum_cons, Nat.add_comm]

/-- A started task costs one less than a pending one. -/
theorem cost_start (id : OpId) (op : ScheduledOp) :
    (Lease.start true id op).cost + 1 = op.cost := by
  simp [Lease.start, Lease.cost, ScheduledOp.cost]
  omega

theorem leaseCosts_spawned (spawned : List (OpId × ScheduledOp)) :
    ((spawned.map fun x => Lease.start true x.1 x.2).map Lease.cost).sum + spawned.length =
      (spawned.map fun x => x.2.cost).sum := by
  induction spawned with
  | nil => rfl
  | cons x spawned ih =>
    have hone := cost_start x.1 x.2
    simp only [List.map_cons, List.sum_cons, List.length_cons] at ih ⊢
    omega

section Potential

variable {cfg : Config} {d d' : Drive}

/-- The lease part of the potential after one lease is replaced. -/
theorem leaseCosts_setLease {w : World} {l l' : Lease} (h : l ∈ w.leases) :
    ((w.setLease l l').leases.map Lease.cost).sum + l.cost =
      (w.leases.map Lease.cost).sum + l'.cost := by
  have herase := leaseCosts_erase h
  simp only [World.setLease, List.map_cons, List.sum_cons]
  omega

/-- **Every step of a run but a submission lowers its potential.** -/
theorem Drive.potential_lt {e : DriveEvent} (hsafe : Safe cfg d.world)
    (h : d.step cfg e = some d') (he : ∀ op, e ≠ .submit op) : d'.potential < d.potential := by
  unfold Drive.potential
  cases Drive.step_cases h with
  | validate ids hphase hids hok => simp [hphase, DrivePhase.cost]
  | refuse ids err hphase hids herr => simp [hphase, DrivePhase.cost]
  | rebuild ids s hphase hids hok =>
    have hends := framed_rebuildGraph ids fun j hj => hsafe.sound.pending_notMem_notified hj
    rw [hok] at hends
    have hcost := pendingCost_framed hends
    rcases hphase with hphase | hphase <;> simp [hphase, DrivePhase.cost] <;> omega
  | rebuildPanic ids s hphase hids herr =>
    have hends := framed_rebuildGraph ids fun j hj => hsafe.sound.pending_notMem_notified hj
    rw [herr] at hends
    have hcost := pendingCost_framed hends
    rcases hphase with hphase | hphase <;> simp [hphase, DrivePhase.cost] <;> omega
  | listen hphase =>
    simp [hphase, DrivePhase.cost]
    omega
  | pass r hphase hok =>
    have hcost := pendingCost_drain (hsafe.sound.drain_moves (.inl hok))
    have hleases := leaseCosts_spawned r.2
    simp only [List.map_nil, List.sum_nil, Nat.add_zero] at hcost
    by_cases hr : r.2 = []
    · simp [hphase, hr, DrivePhase.cost, World.spawn] at hcost ⊢
      omega
    · have hpos := List.length_pos_iff.mpr hr
      simp only [hphase, hr, if_false, World.spawn, List.map_append, List.sum_append]
      omega
  | passPanic r hphase herr =>
    obtain ⟨r', hok, -⟩ := drainReady_ok hsafe.sound
    rw [hok] at herr
    cases herr
  | finish hphase hset hpending => simp [hphase, DrivePhase.cost]
  | again hphase hset hpending hrebuilt =>
    simp [hphase, hrebuilt, DrivePhase.cost, turnCost]
    omega
  | giveUp hphase hset hpending hrebuilt => simp [hphase, DrivePhase.cost]
  | await hphase hset => simp [hphase, DrivePhase.cost]
  | collect hphase => simp [hphase, DrivePhase.cost]
  | diagnose message hphase => simp [hphase, DrivePhase.cost]
  | permit hphase hwoken => simp [hphase, hwoken, DrivePhase.cost, turnCost]
  | join unjoined hphase hdone =>
    simp [hphase, hdone, DrivePhase.cost, turnCost]
    omega
  | joinPanic unjoined err hphase hdone =>
    simp [hphase, hdone, DrivePhase.cost, turnCost]
    omega
  | record l o w hstep =>
    cases World.step_cases hstep with
    | record _ _ hl hrec =>
      have hcost := pendingCost_mark d.world.inner l.id o
      have hlease := @leaseCosts_setLease
        { d.world with inner := mark d.world.inner l.id o.status o.error } l
        { l with phase := .recorded } hl
      have hless : ({ l with phase := .recorded } : Lease).cost < l.cost := by
        cases hp : l.phase <;> simp_all [Lease.cost, LeasePhase.canRecord]
      simp only [World.setLease] at hlease ⊢
      omega
  | retry l w hstep =>
    cases World.step_cases hstep with
    | retry _ hl hphase hleft =>
      have hpm := (hsafe.leased.phase l hl).attempting hphase
      have hlease := @leaseCosts_setLease { d.world with inner := d.world.inner.releasePermit l } l
        { l with permit := false, failures := l.failures + 1, phase := .backoff } hl
      have hless : ({ l with permit := false, failures := l.failures + 1, phase := .backoff } :
          Lease).cost + turnCost + 2 ≤ l.cost := by
        obtain ⟨k, hk⟩ : ∃ k, l.op.maxAttempts - 1 - l.failures = k + 1 :=
          ⟨l.op.maxAttempts - 1 - l.failures - 1, by omega⟩
        have hk' : l.op.maxAttempts - 1 - (l.failures + 1) = k := by omega
        simp only [Lease.cost, hphase, hk, hk', turnCost]
        omega
      have hcost : (d.world.inner.releasePermit l).pendingCost = d.world.inner.pendingCost := by
        simp only [Inner.releasePermit, Inner.release, hpm, hsafe.leased.release hl hpm]
        rfl
      simp only [World.setLease, hpm, Bool.or_true] at hlease ⊢
      split <;> omega
  | wake l w hstep =>
    cases World.step_cases hstep with
    | wake _ hl hphase =>
      have hlease := @leaseCosts_setLease d.world l { l with phase := .admission } hl
      have hless : ({ l with phase := .admission } : Lease).cost < l.cost := by
        simp [Lease.cost, hphase]
      simp only [World.setLease] at hlease ⊢
      omega
  | reacquire l w hstep =>
    cases World.step_cases hstep with
    | reacquire _ gauge hl hphase hacq =>
      have hlease := @leaseCosts_setLease
        { d.world with inner := { d.world.inner with gauge := gauge } } l
        { l with permit := true, phase := .attempting } hl
      have hless : ({ l with permit := true, phase := .attempting } : Lease).cost < l.cost := by
        simp [Lease.cost, hphase]
      have hcost : ({ d.world.inner with gauge := gauge } : Inner).pendingCost =
          d.world.inner.pendingCost := rfl
      simp only [World.setLease] at hlease hcost ⊢
      omega
  | settle l w hphase hstep =>
    cases World.step_cases hstep with
    | settle _ hl =>
      have hlease := leaseCosts_erase hl
      have hcost : (d.world.settleLease l).inner.pendingCost ≤ d.world.inner.pendingCost := by
        unfold World.settleLease
        by_cases hdag : l.dag = true
        · obtain ⟨s, hs, -⟩ := safe_settle_dag hsafe hl hdag
          rw [if_pos hdag, hs]
          exact pendingCost_settle hs
        · rw [if_neg hdag, Inner.releasePermit]
          by_cases hp : l.permit = true
          · rw [if_pos hp, Inner.release, hsafe.leased.release hl hp]
            exact le_of_eq rfl
          · rw [if_neg hp]
      have hown : 2 * turnCost + 1 ≤ l.cost := by
        unfold Lease.cost
        omega
      have hleases : (d.world.settleLease l).leases = d.world.leases.erase l := rfl
      simp only [hleases, List.length_cons, turnCost] at hown ⊢
      split <;> split <;> omega
  | submit op w hstep => exact absurd rfl (he op)

end Potential

/-! ## A run is never stuck -/

/-- A step of the run itself, other than the deadline or cancellation of a waiting task. -/
def DriveEvent.productive : DriveEvent → Bool
  | .submit _ => false
  | .record l _ => l.phase = .attempting
  | _ => true

/-- A productive event that ends an attempt, if it ends one, in success. -/
def DriveEvent.smooth : DriveEvent → Bool
  | .submit _ => false
  | .record l o => l.phase = .attempting ∧ o = .done
  | _ => true

theorem DriveEvent.productive_of_smooth {e : DriveEvent} (h : e.smooth = true) :
    e.productive = true := by
  cases e with
  | submit op => cases h
  | record l o =>
    simp only [DriveEvent.smooth, decide_eq_true_eq] at h
    simp [DriveEvent.productive, h.1]
  | _ => rfl

/-- The run has returned or panicked. -/
def Drive.finished (d : Drive) : Bool :=
  match d.phase with
  | .returned _ => true
  | .panicked => true
  | _ => false

/-- A waiting driver has something to wait for. -/
structure Live (cfg : Config) (d : Drive) : Prop where
  safe : Safe cfg d.world
  attended : d.phase = .waiting → d.world.leases ≠ [] ∨ d.unjoined ≠ []

section Progress

variable {cfg : Config} {d d' : Drive}

theorem live_start {w : World} (h : Safe cfg w) : Live cfg (Drive.start w) :=
  ⟨h, fun hphase => by cases hphase⟩

theorem live_step {e : DriveEvent} (hlive : Live cfg d) (h : d.step cfg e = some d') :
    Live cfg d' := by
  refine ⟨safe_drive hlive.safe h, ?_⟩
  have hset : ∀ (w : World) (l l' : Lease), (w.setLease l l').leases ≠ [] := fun w l l' =>
    List.cons_ne_nil _ _
  cases Drive.step_cases h with
  | await hphase hset =>
    intro _
    by_contra hnone
    push Not at hnone
    exact hset hnone
  | pass r hphase hok =>
    intro hwait
    by_cases hr : r.2 = [] <;> simp [hr] at hwait
  | record l o w hstep =>
    cases World.step_cases hstep with
    | record _ _ hl hrec => exact fun _ => .inl (hset _ _ _)
  | retry l w hstep =>
    cases World.step_cases hstep with
    | retry _ hl hphase hleft => exact fun _ => .inl (hset _ _ _)
  | wake l w hstep =>
    cases World.step_cases hstep with
    | wake _ hl hphase => exact fun _ => .inl (hset _ _ _)
  | reacquire l w hstep =>
    cases World.step_cases hstep with
    | reacquire _ gauge hl hphase hacq => exact fun _ => .inl (hset _ _ _)
  | settle l w hphase hstep => exact fun _ => .inr (List.cons_ne_nil _ _)
  | submit op w hstep =>
    intro hwait
    have hleases : w.leases = d.world.leases := by
      cases World.step_cases hstep <;> rfl
    rw [hleases]
    exact hlive.attended hwait
  | _ => exact fun hwait => by cases hwait

theorem live_run (hlive : Live cfg d) (events : List DriveEvent) :
    Live cfg (d.run cfg events) := by
  induction events generalizing d with
  | nil => exact hlive
  | cons e events ih =>
    rw [Drive.run_cons, Drive.apply]
    cases hstep : d.step cfg e with
    | none => exact ih hlive
    | some d' => exact ih (live_step hlive hstep)

/-- An armed lease can end its attempt or be settled. -/
theorem progress_of_armed {l : Lease} (hlive : Live cfg d) (hl : l ∈ d.world.leases)
    (hp : l.permit = true) : ∃ e : DriveEvent, e.smooth = true ∧ (d.step cfg e).isSome := by
  have hphase := hlive.safe.leased.phase l hl
  cases hph : l.phase with
  | attempting =>
    refine ⟨.record l .done, by simp [DriveEvent.smooth, hph], ?_⟩
    simp [Drive.step, World.step, hl, hph, LeasePhase.canRecord]
  | backoff =>
    rw [hphase.backoff hph] at hp
    cases hp
  | admission =>
    rw [hphase.admission hph] at hp
    cases hp
  | recorded =>
    refine ⟨.settle l, rfl, ?_⟩
    simp [Drive.step, World.step, hl, hph]

/-- Some lease can take a step: one in its admission wait either finds room, or the class is
full and an armed lease moves. -/
theorem progress_of_lease (hlive : Live cfg d) (hne : d.world.leases ≠ []) :
    ∃ e : DriveEvent, e.smooth = true ∧ (d.step cfg e).isSome := by
  obtain ⟨l, hl⟩ := List.exists_mem_of_ne_nil _ hne
  have hphase := hlive.safe.leased.phase l hl
  cases hph : l.phase with
  | attempting => exact progress_of_armed hlive hl (hphase.attempting hph)
  | backoff =>
    refine ⟨.wake l, rfl, ?_⟩
    simp [Drive.step, World.step, hl, hph]
  | admission =>
    by_cases hroom : d.world.inner.gauge l.cls < cfg.limits.get l.cls
    · refine ⟨.reacquire l, rfl, ?_⟩
      have hacq : ¬ d.world.inner.gauge l.cls ≥ cfg.limits.get l.cls := Nat.not_le_of_lt hroom
      simp [Drive.step, World.step, hl, hph, ResourceGauge.tryAcquire, hacq]
    · have hpos : 0 < d.world.leases.countP (armedOf l.cls) := by
        rw [← hlive.safe.leased.gauge]
        have := hlive.safe.leased.admitted l hl
        omega
      obtain ⟨x, hx, harmed⟩ := List.countP_pos_iff.mp hpos
      simp only [armedOf, Bool.and_eq_true] at harmed
      exact progress_of_armed hlive hx harmed.1
  | recorded =>
    refine ⟨.settle l, rfl, ?_⟩
    simp [Drive.step, World.step, hl, hph]

/-- **Progress**: a run that is not over can take a step, and a smooth one. -/
theorem progress (hlive : Live cfg d) :
    d.finished = true ∨ ∃ e : DriveEvent, e.smooth = true ∧ (d.step cfg e).isSome := by
  have hperm := List.Perm.refl d.world.inner.tasks.keys
  cases hphase : d.phase with
  | start =>
    refine .inr ⟨.validate d.world.inner.tasks.keys, rfl, ?_⟩
    have hfuel := validate_ne_exhausted d.world.inner d.world.inner.tasks.keys
    simp only [Drive.step, hphase, hperm, if_true]
    cases hv : validate d.world.inner d.world.inner.tasks.keys with
    | ok u => rfl
    | error err =>
      cases err with
      | none => exact absurd hv hfuel
      | some err => rfl
  | validated =>
    refine .inr ⟨.rebuild d.world.inner.tasks.keys, rfl, ?_⟩
    simp only [Drive.step, hphase, hperm, if_true]
    cases rebuildGraph d.world.inner d.world.inner.tasks.keys <;> rfl
  | looping => exact .inr ⟨.listen, rfl, by simp [Drive.step, hphase]⟩
  | scheduling =>
    refine .inr ⟨.pass, rfl, ?_⟩
    obtain ⟨r, hok, -⟩ := drainReady_ok hlive.safe.sound
    simp [Drive.step, hphase, hok]
  | drained =>
    refine .inr ⟨.check, rfl, ?_⟩
    simp only [Drive.step, hphase]
    split
    · split
      · split <;> rfl
      · rfl
    · rfl
  | rebuilding =>
    refine .inr ⟨.rebuild d.world.inner.tasks.keys, rfl, ?_⟩
    simp only [Drive.step, hphase, hperm, if_true]
    cases rebuildGraph d.world.inner d.world.inner.tasks.keys <;> rfl
  | collecting => exact .inr ⟨.collect, rfl, by simp [Drive.step, hphase]⟩
  | stuck => exact .inr ⟨.diagnose, rfl, by simp [Drive.step, hphase]⟩
  | waiting =>
    right
    rcases hlive.attended hphase with hleases | hjoin
    · exact progress_of_lease hlive hleases
    · refine ⟨.join, rfl, ?_⟩
      obtain ⟨ok, rest, hrest⟩ := List.exists_cons_of_ne_nil hjoin
      cases ok <;> simp [Drive.step, hphase, hrest]
  | returned result => exact .inl (by simp [Drive.finished, hphase])
  | panicked => exact .inl (by simp [Drive.finished, hphase])

end Progress

/-! ## Runs -/

/-- A sequence of enabled steps. -/
inductive Steps (cfg : Config) : Drive → List DriveEvent → Drive → Prop
  | nil (d : Drive) : Steps cfg d [] d
  | cons {d d₁ d' : Drive} {events : List DriveEvent} (e : DriveEvent)
      (h : d.step cfg e = some d₁) (hrest : Steps cfg d₁ events d') : Steps cfg d (e :: events) d'

/-- A sequence of steps without a submission is no longer than the potential it starts with. -/
theorem Steps.length_le {cfg : Config} {d d' : Drive} {events : List DriveEvent}
    (h : Steps cfg d events d') (hlive : Live cfg d) (hown : ∀ op, .submit op ∉ events) :
    events.length + d'.potential ≤ d.potential := by
  induction h with
  | nil d => simp
  | cons e hstep _ ih =>
    have hrest := ih (live_step hlive hstep) fun op hop => hown op (List.mem_cons_of_mem e hop)
    have hlt := Drive.potential_lt hlive.safe hstep fun op heq =>
      hown op (heq ▸ List.mem_cons_self)
    rw [List.length_cons]
    omega

theorem panicked_run {cfg : Config} {d : Drive} (h : d.phase = .panicked)
    (events : List DriveEvent) : (d.run cfg events).phase = .panicked := by
  induction events generalizing d with
  | nil => exact h
  | cons e events ih =>
    rw [Drive.run_cons, Drive.apply]
    cases hstep : d.step cfg e with
    | none => exact ih h
    | some d' => exact ih (Drive.step_of_panicked hstep h).1

/-- A run panics exactly when one of its rebuilds meets an unregistered dependency. -/
theorem not_panicked_iff {cfg : Config} {d : Drive} (hsafe : Safe cfg d.world)
    (hphase : d.phase ≠ .panicked) (events : List DriveEvent) :
    (d.run cfg events).phase ≠ .panicked ↔ d.RebuildsRegistered cfg events := by
  induction events generalizing d with
  | nil => simp [Drive.run, Drive.RebuildsRegistered, hphase]
  | cons e events ih =>
    rw [Drive.run_cons, Drive.RebuildsRegistered, Drive.apply]
    cases hstep : d.step cfg e with
    | none => simpa using ih hsafe hphase
    | some d' =>
      have hpanic := Drive.step_panics_iff hsafe hstep hphase
      simp only [Option.getD_some, Option.isSome_some, forall_true_left]
      by_cases hp : d'.phase = .panicked
      · obtain ⟨ids, he, hreg⟩ := hpanic.mp hp
        constructor
        · intro hnot
          exact absurd (panicked_run hp events) hnot
        · rintro ⟨hhead, -⟩
          exact absurd (hhead ids he) hreg
      · rw [ih (safe_drive hsafe hstep) hp]
        constructor
        · intro hrest
          refine ⟨fun ids he => ?_, hrest⟩
          by_contra hreg
          exact hp (hpanic.mpr ⟨ids, he, hreg⟩)
        · exact fun h => h.2

/-- **When `run_to_completion` panics.**  Whatever the scheduler went through before and whatever
is submitted meanwhile: the run has not panicked exactly when every rebuild it made found each
declared dependency registered; it then returns, since until it has returned or panicked it can
take a step and the steps left without a further submission are bounded. -/
theorem run_panics_iff_unregistered_dependency (cfg : Config) (history : List Event)
    (events : List DriveEvent) :
    (((Drive.start (World.empty.run cfg history)).run cfg events).phase ≠ .panicked ↔
      (Drive.start (World.empty.run cfg history)).RebuildsRegistered cfg events) ∧
    (((Drive.start (World.empty.run cfg history)).run cfg events).finished = true ∨
      ∃ e : DriveEvent, e.productive = true ∧
        (((Drive.start (World.empty.run cfg history)).run cfg events).step cfg e).isSome) ∧
    ∀ steps d', Steps cfg ((Drive.start (World.empty.run cfg history)).run cfg events) steps d' →
      (∀ op, .submit op ∉ steps) →
      steps.length ≤ ((Drive.start (World.empty.run cfg history)).run cfg events).potential := by
  have hlive : Live cfg (Drive.start (World.empty.run cfg history)) :=
    live_start (safe_run cfg history)
  have hlive' := live_run hlive events
  refine ⟨not_panicked_iff hlive.safe (by simp [Drive.start]) events, ?_,
    fun steps d' hsteps hown => ?_⟩
  · refine (progress hlive').imp_right ?_
    rintro ⟨e, he, hstep⟩
    exact ⟨e, DriveEvent.productive_of_smooth he, hstep⟩
  · have := hsteps.length_le hlive' hown
    omega

/-! ## Late submissions -/

/-- Op 2, which names the op 3 nobody submits, arrives while op 1 runs. -/
def lateSubmission : List DriveEvent :=
  [.validate [1], .rebuild [1], .listen, .pass, .pass, .check,
    .submit (plainOp 2 [(3, .success)]),
    .record (.start true 1 (plainOp 1 [])) .done,
    .settle { Lease.start true 1 (plainOp 1 []) with phase := .recorded },
    .join, .listen, .pass, .check, .rebuild [1, 2]]

/-- **A late submission makes the run panic**: with nothing left to run and op 2 pending, the
driver rebuilds once more and indexes the statuses with op 3. -/
theorem run_panics_after_late_submission :
    ((Drive.start (World.empty.run plainConfig [.submit (plainOp 1 [])])).run plainConfig
      lateSubmission).phase = .panicked := by
  decide +kernel

end Scheduler
