/-
# A task starts only when its dependencies are satisfied

Readiness is incremental: a counter and a queue that submission, terminalization, cancellation
and rebuild all update.  `Counted` says the counter never drops below the number of edges that
are not satisfied; it holds in every state of a run whose rebuilds do not panic, so a task that
passes the drain's `remaining == 0` test has every edge satisfied by a current status.

A rebuild of a graph with an unregistered dependency panics after it has zeroed the counters,
and the recovered lock then exposes them: `unsatisfied_start_after_panic` is such a run.
-/
import Faktor.SchedulerSafety

namespace Scheduler

/-- Checking the dependencies of the registered tasks is enough. -/
instance (s : Inner) : Decidable (DepsRegistered s) :=
  decidable_of_iff (∀ id ∈ s.tasks.keys, ∀ e ∈ s.deps id, (s.task? e.1).isSome = true) (by
    refine ⟨fun h id e he => h id ?_ e he, fun h id _ => h id⟩
    show id ∈ s.tasks
    rw [← AList.lookup_isSome]
    by_contra hnone
    rw [Inner.deps, Inner.task?, Option.not_isSome_iff_eq_none.mp hnone] at he
    cases he)

/-! ## The counts along a run -/

theorem counted_empty : Counted Inner.empty := by
  refine ⟨fun _ => [], ⟨⟨fun d t p => ?_, fun t ht => ?_⟩, fun j _ => ?_⟩⟩
  · rw [List.count_nil]
    exact Nat.zero_le _
  · simp [Inner.status?, Inner.task?, Inner.empty] at ht
  · simp [Inner.dependents, Inner.task?, Inner.empty]

section Counts

variable {cfg : Config}

theorem counted_drainMoves {a b : Draining} (h : Counted a.1)
    (hmoves : Relation.ReflTransGen (DrainMove cfg) a b) : Counted b.1 := by
  induction hmoves with
  | refl => exact h
  | tail _ hmove ih =>
    obtain ⟨tok, htok⟩ := ih
    cases hmove with
    | stale s spawned id ready t hready ht hstale => exact ⟨tok, htok.of_task? fun _ => rfl⟩
    | defer s spawned id ready hready => exact ⟨tok, htok.of_task? fun _ => rfl⟩
    | start s spawned id ready t gauge hready ht hp hrem hfree hacq =>
      have hset : TokInv (s.setTask id { t with status := .running }) tok :=
        htok.setStatus ht (by rw [hp]; rfl) rfl rfl (by simp)
      exact ⟨tok, hset.of_task? fun _ => rfl⟩

/-- Every event whose rebuild, if it is one, finds its dependencies registered. -/
theorem counted_step {w w' : World} {e : Event} (hsafe : Safe cfg w) (h : Counted w.inner)
    (hreb : ∀ ids, e = .rebuild ids → DepsRegistered w.inner)
    (hstep : w.step cfg e = some w') : Counted w'.inner := by
  cases World.step_cases hstep with
  | resubmit op => exact h
  | signal id => exact h
  | register op hnew =>
    obtain ⟨tok, htok⟩ := h
    exact ⟨_, tokInv_register htok hnew⟩
  | cancel id t ht hp =>
    obtain ⟨s', hs'⟩ := @terminalize_ok (w.inner.setTask id { t with status := .cancelled }) id
      (by simp)
    have hres : tryCancel w.inner id = .ok (.ok s') := by
      simp [tryCancel, ht, hp, statusIsTerminal, hs']
    rw [hs']
    exact counted_tryCancel h hres
  | drain s spawned hdrain => exact counted_drainMoves h (hsafe.sound.drain_moves hdrain)
  | rebuild ids hids =>
    have horder := isOrder_of_perm hids
    obtain ⟨cur, s₁, tok, -, -, -, hok⟩ := rebuildGraph_ok horder (hreb ids rfl)
    rw [hok]
    exact counted_rebuildGraph horder (hreb ids rfl) hok
  | execute id op gauge hacq => exact h.of_task? fun _ => rfl
  | record l o hl hrec => exact counted_mark h l.id o.status_facts.1 o.error
  | retry l hl hphase hleft =>
    have hp := (hsafe.leased.phase l hl).attempting hphase
    simp only [Inner.releasePermit, Inner.release, hp, hsafe.leased.release hl hp]
    exact h.of_task? fun _ => rfl
  | wake l hl hphase => exact h
  | reacquire l gauge hl hphase hacq => exact h.of_task? fun _ => rfl
  | settle l hl =>
    unfold World.settleLease
    by_cases hdag : l.dag = true
    · obtain ⟨s, hs, -⟩ := safe_settle_dag hsafe hl hdag
      obtain ⟨u, hu, hp, hb⟩ := hsafe.leased.status hl hdag
      rw [if_pos hdag, hs]
      exact counted_settle h hu hp hb hs
    · rw [if_neg hdag, Inner.releasePermit]
      by_cases hp : l.permit = true
      · rw [if_pos hp, Inner.release, hsafe.leased.release hl hp]
        exact h.of_task? fun _ => rfl
      · rw [if_neg hp]
        exact h

/-- Every rebuild of the run finds the declared dependencies registered. -/
def RebuildsRegistered (cfg : Config) : World → List Event → Prop
  | _, [] => True
  | w, e :: events =>
    (∀ ids, e = .rebuild ids → DepsRegistered w.inner) ∧
      RebuildsRegistered cfg (w.apply cfg e) events

/-- **The counts are right along every run without a panicking rebuild.** -/
theorem counted_run {w : World} {events : List Event} (hsafe : Safe cfg w)
    (h : Counted w.inner) (hreg : RebuildsRegistered cfg w events) :
    Counted (w.run cfg events).inner := by
  induction events generalizing w with
  | nil => exact h
  | cons e events ih =>
    obtain ⟨hreb, hrest⟩ := hreg
    rw [World.run, List.foldl_cons]
    unfold World.apply at hrest ⊢
    cases hstep : w.step cfg e with
    | none =>
      rw [hstep] at hrest
      exact ih hsafe h hrest
    | some w' =>
      rw [hstep] at hrest
      exact ih (safe_step hsafe hstep) (counted_step hsafe h hreb hstep) hrest

/-! ## Starts -/

/-- A drain pass changes a status only to running. -/
theorem status_of_drainMoves {a b : Draining} (hmoves : Relation.ReflTransGen (DrainMove cfg) a b)
    {j : OpId} {u : TaskStatus} (hj : b.1.status? j = some u) (hu : u ≠ .running) :
    a.1.status? j = some u := by
  induction hmoves with
  | refl => exact hj
  | tail _ hmove ih =>
    refine ih ?_
    cases hmove with
    | stale s spawned id ready t hready ht hstale => exact hj
    | defer s spawned id ready hready => exact hj
    | start s spawned id ready t gauge hready ht hp hrem hfree hacq =>
      have hset : ((Inner.setTask { s with ready := ready } id
          { t with status := .running }).task? j).map (·.status) = some u := hj
      rw [task?_setTask] at hset
      split at hset
      · exact absurd (Option.some.inj hset).symm hu
      · exact hset

/-- A task with nothing left to wait for has every edge satisfied. -/
theorem Counted.sat {s : Inner} (h : Counted s) {id : OpId} {t : TaskState}
    (ht : s.task? id = some t) (hp : t.status = .pending) (hrem : t.remaining = 0)
    {e : OpId × DependencyPolicy} (he : e ∈ s.deps id) : s.sat e = true := by
  obtain ⟨tok, htok⟩ := h
  have hbound := htok.graph.bound id (by simp [Inner.status?, ht, hp])
  have hzero : s.remaining id = 0 := by simp [Inner.remaining, ht, hrem]
  exact sat_of_owed_eq_zero (Nat.eq_zero_of_le_zero (hzero ▸ hbound)) he

theorem deps_drainMoves {a b : Draining} (hmoves : Relation.ReflTransGen (DrainMove cfg) a b)
    (j : OpId) : b.1.deps j = a.1.deps j := by
  induction hmoves with
  | refl => rfl
  | tail _ hmove ih =>
    rw [← ih]
    cases hmove with
    | stale s spawned id ready t hready ht hstale => rfl
    | defer s spawned id ready hready => rfl
    | start s spawned id ready t gauge hready ht hp hrem hfree hacq =>
      show ((Inner.setTask { s with ready := ready } id { t with status := .running }).task? j |>.map
        (·.op.dependencies)).getD [] = _
      rw [task?_setTask]
      split
      · rename_i hj
        subst hj
        simp [Inner.deps, ht]
      · rfl

/-- The start within a pass. -/
theorem sat_of_started {a b : Draining} (h : Counted a.1)
    (hmoves : Relation.ReflTransGen (DrainMove cfg) a b) {id : OpId}
    (hp : a.1.status? id = some .pending) (hr : b.1.status? id = some .running)
    {e : OpId × DependencyPolicy} (he : e ∈ a.1.deps id) : b.1.sat e = true := by
  induction hmoves with
  | refl =>
    rw [hp] at hr
    cases hr
  | @tail b c hmoves hmove ih =>
    have hstill : b.1.sat e = true → c.1.sat e = true := by
      intro hsat
      obtain ⟨u, hu, hedge⟩ := sat_eq_true.mp hsat
      refine sat_eq_true.mpr ⟨u, status_drainMoves (.single hmove) hu ?_, hedge⟩
      rintro rfl
      have := terminal_of_edgeSatisfied hedge
      cases this
    by_cases hb : b.1.status? id = some .running
    · exact hstill (ih hb)
    · refine hstill ?_
      have hcount := counted_drainMoves h hmoves
      rw [← deps_drainMoves hmoves id] at he
      cases hmove with
      | stale s spawned id' ready t hready ht hstale => exact absurd hr hb
      | defer s spawned id' ready hready => exact absurd hr hb
      | start s spawned id' ready t gauge hready ht hpend hrem hfree hacq =>
        have hset : ((Inner.setTask { s with ready := ready } id'
            { t with status := .running }).task? id).map (·.status) = some .running := hr
        rw [task?_setTask] at hset
        split at hset
        · rename_i heq
          subst heq
          exact hcount.sat ht hpend hrem he
        · exact absurd hset hb

/-- A recorded outcome changes a status only to its own. -/
theorem status_of_mark {s : Inner} {id j : OpId} {o : Outcome} {u : TaskStatus}
    (h : (mark s id o.status o.error).status? j = some u) (hu : u ≠ o.status) :
    s.status? j = some u := by
  unfold mark at h
  rw [Inner.status?, task?_modify] at h
  split at h
  · rename_i heq
    subst heq
    rw [Option.map_map] at h
    obtain ⟨t, ht, hst⟩ := Option.map_eq_some_iff.mp h
    rw [Inner.status?, ht, Option.map_some]
    simp only [Function.comp_apply] at hst
    split at hst
    · rw [hst]
    · exact absurd hst.symm hu
  · exact h

theorem running_of_settle {s s' : Inner} {id j : OpId} {cls : ResourceClass} {permit : Bool}
    (hres : settle s id cls permit = .ok s') (h : s'.status? j = some .running) :
    s.status? j = some .running := by
  obtain ⟨gauge, -, hterm⟩ := settle_cases hres
  have hmid : (Inner.modify { s with gauge := gauge } id TaskState.cancelRunning).status? j =
      some .running := by
    rcases (terminalize_frame hterm).status j with hsame | ⟨-, hb⟩
    · rw [← hsame, h]
    · rw [h] at hb
      cases hb
  rw [Inner.status?, task?_modify] at hmid
  split at hmid
  · rename_i heq
    subst heq
    rw [Option.map_map] at hmid
    obtain ⟨t, ht, hst⟩ := Option.map_eq_some_iff.mp hmid
    simp only [Function.comp_apply, TaskState.cancelRunning] at hst
    split at hst
    · cases hst
    · exact Option.map_eq_some_iff.mpr ⟨t, ht, hst⟩
  · exact hmid

/-- Only a drain pass starts a task. -/
theorem drain_of_started {w w' : World} {e : Event} (hsafe : Safe cfg w)
    (hstep : w.step cfg e = some w') {id : OpId} (hp : w.inner.status? id = some .pending)
    (hr : w'.inner.status? id = some .running) :
    ∃ r : Draining, Relation.ReflTransGen (DrainMove cfg) (w.inner, []) r ∧ w'.inner = r.1 := by
  have hsame : ∀ {s : Inner}, s.status? id = w.inner.status? id → s.status? id = some .running →
      False := by
    intro s heq hs
    rw [heq, hp] at hs
    cases hs
  cases World.step_cases hstep with
  | resubmit op => exact (hsame rfl hr).elim
  | signal id' => exact (hsame rfl hr).elim
  | register op hnew =>
    refine (hsame ?_ hr).elim
    rw [status?_register, if_neg]
    rintro rfl
    simp [Inner.status?, hnew] at hp
  | cancel id' t ht hpend =>
    obtain ⟨s', hs'⟩ := @terminalize_ok (w.inner.setTask id' { t with status := .cancelled }) id'
      (by simp)
    rw [hs'] at hr
    have hframe := (terminalize_frame hs').status id
    by_cases heq : id = id'
    · subst heq
      have hc : (w.inner.setTask id { t with status := .cancelled }).status? id =
          some .cancelled := by simp [Inner.status?]
      rw [hc] at hframe
      rcases hframe with hs | ⟨hs, -⟩
      · rw [show s'.status? id = some .running from hr] at hs
        cases hs
      · cases hs
    · rw [status?_setTask_of_ne _ heq, hp, show s'.status? id = some .running from hr] at hframe
      rcases hframe with hs | ⟨-, hs⟩ <;> cases hs
  | drain s spawned hdrain => exact ⟨(s, spawned), hsafe.sound.drain_moves hdrain, rfl⟩
  | rebuild ids hids =>
    have hends := framed_rebuildGraph ids fun j hj => hsafe.sound.pending_notMem_notified hj
    have hback : w.inner.status? id = some .running := by
      cases hres : rebuildGraph w.inner ids with
      | ok s =>
        rw [hres] at hends hr
        exact hends.status_of_ne_blocked hr (by decide)
      | error s =>
        rw [hres] at hends hr
        exact hends.status_of_ne_blocked hr (by decide)
    rw [hp] at hback
    cases hback
  | execute id' op gauge hacq => exact (hsame rfl hr).elim
  | record l o hl hrec =>
    have hback := status_of_mark hr o.status_facts.2.2.symm
    rw [hp] at hback
    cases hback
  | retry l hl hphase hleft =>
    have hpm := (hsafe.leased.phase l hl).attempting hphase
    simp only [Inner.releasePermit, Inner.release, hpm, hsafe.leased.release hl hpm] at hr
    exact (hsame rfl hr).elim
  | wake l hl hphase => exact (hsame rfl hr).elim
  | reacquire l gauge hl hphase hacq => exact (hsame rfl hr).elim
  | settle l hl =>
    refine (hsame rfl ?_).elim
    unfold World.settleLease at hr
    by_cases hdag : l.dag = true
    · obtain ⟨s, hs, -⟩ := safe_settle_dag hsafe hl hdag
      rw [if_pos hdag, hs] at hr
      exact running_of_settle hs hr
    · rw [if_neg hdag, Inner.releasePermit] at hr
      by_cases hpm : l.permit = true
      · rw [if_pos hpm, Inner.release, hsafe.leased.release hl hpm] at hr
        exact hr
      · rw [if_neg hpm] at hr
        exact hr

end Counts

/-- **A task starts only on satisfied dependencies.**  In every run whose rebuilds find the
declared dependencies registered, whatever event comes next, a task that it moves from pending to
running has each dependency in a state, before and after, that satisfies the edge's policy. -/
theorem starts_only_when_satisfied (cfg : Config) (events : List Event)
    (hreg : RebuildsRegistered cfg World.empty events) (e : Event) (id : OpId)
    (hp : (World.empty.run cfg events).inner.status? id = some .pending)
    (hr : (World.empty.run cfg (events ++ [e])).inner.status? id = some .running) :
    ∀ edge ∈ (World.empty.run cfg events).inner.deps id, ∃ u,
      (World.empty.run cfg events).inner.status? edge.1 = some u ∧
      (World.empty.run cfg (events ++ [e])).inner.status? edge.1 = some u ∧
      edgeSatisfied edge.2 u = true := by
  have hsafe := safe_run cfg events
  have hcount := counted_run (safe_empty cfg) counted_empty hreg
  intro edge hedge
  rw [World.run_concat, World.apply] at hr ⊢
  cases hstep : (World.empty.run cfg events).step cfg e with
  | none =>
    rw [hstep, Option.getD_none, hp] at hr
    cases hr
  | some w' =>
    rw [hstep, Option.getD_some] at hr
    rw [Option.getD_some]
    obtain ⟨r, hmoves, hinner⟩ := drain_of_started hsafe hstep hp hr
    rw [hinner] at hr ⊢
    obtain ⟨u, hu, hsat⟩ := sat_eq_true.mp (sat_of_started hcount hmoves hp hr hedge)
    refine ⟨u, status_of_drainMoves hmoves hu ?_, hu, hsat⟩
    rintro rfl
    have := terminal_of_edgeSatisfied hsat
    cases this

/-! ## Two runs -/

/-- The default limits, paths compared as they are. -/
def plainConfig : Config := ⟨ResourceLimits.default, ⟨.other, id⟩⟩

/-- An op that owns nothing and is never retried. -/
def plainOp (id : OpId) (dependencies : List (OpId × DependencyPolicy)) : ScheduledOp where
  operationId := id
  sessionId := 1
  cls := .cpu
  reads := ⟨[]⟩
  writes := ⟨[]⟩
  dependencies := dependencies
  maxAttempts := 1

/-- Op 1 runs to completion before op 2, which needs its success. -/
def chainRun : List Event :=
  [.submit (plainOp 1 []), .submit (plainOp 2 [(1, .success)]), .rebuild [1, 2], .drain,
    .record (.start true 1 (plainOp 1 [])) .done,
    .settle { Lease.start true 1 (plainOp 1 []) with phase := .recorded }]

theorem starts_only_when_satisfied_chain :
    (World.empty.run plainConfig chainRun).inner.status? 2 = some .pending ∧
    (World.empty.run plainConfig (chainRun ++ [.drain])).inner.status? 2 = some .running ∧
    ∀ edge ∈ (World.empty.run plainConfig chainRun).inner.deps 2, ∃ u,
      (World.empty.run plainConfig chainRun).inner.status? edge.1 = some u ∧
      (World.empty.run plainConfig (chainRun ++ [.drain])).inner.status? edge.1 = some u ∧
      edgeSatisfied edge.2 u = true := by
  have hreg : RebuildsRegistered plainConfig World.empty chainRun := by
    refine ⟨?_, ?_, ?_, ?_, ?_, ?_, trivial⟩
    · intro ids h
      cases h
    · intro ids h
      cases h
    · intro ids _
      decide +kernel
    · intro ids h
      cases h
    · intro ids h
      cases h
    · intro ids h
      cases h
  have hp : (World.empty.run plainConfig chainRun).inner.status? 2 = some .pending := by
    decide +kernel
  have hr : (World.empty.run plainConfig (chainRun ++ [.drain])).inner.status? 2 =
      some .running := by
    decide +kernel
  exact ⟨hp, hr, starts_only_when_satisfied plainConfig chainRun hreg .drain 2 hp hr⟩

/-- Op 2 names op 3, which was never submitted, while op 1 runs; the rebuild panics at that edge
with op 2's count already zeroed, and op 1's completion then queues it. -/
def panickedRebuild : List Event :=
  [.submit (plainOp 1 []), .drain, .submit (plainOp 2 [(1, .terminal), (3, .success)]),
    .rebuild [1, 2], .record (.start true 1 (plainOp 1 [])) .done,
    .settle { Lease.start true 1 (plainOp 1 []) with phase := .recorded }]

/-- **After a panicked rebuild a task starts on an unregistered dependency.** -/
theorem unsatisfied_start_after_panic :
    (World.empty.run plainConfig panickedRebuild).inner.status? 2 = some .pending ∧
    (World.empty.run plainConfig (panickedRebuild ++ [.drain])).inner.status? 2 =
      some .running ∧
    (3, .success) ∈ (World.empty.run plainConfig panickedRebuild).inner.deps 2 ∧
    (World.empty.run plainConfig panickedRebuild).inner.status? 3 = none := by
  decide +kernel

end Scheduler
