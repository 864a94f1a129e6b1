/-
# Leases and interleavings

Everything that acts on the shared state of `SchedulerModel.lean`: submitters, cancellers, the
passes of `run_to_completion`, and the futures that own a lease.  A lease is a `RunningLease` of
a started DAG task or the bare `GaugeLease` of a standalone `execute`; its phase says where
`execute_inner` stands.  A run is any list of events from the empty scheduler, so it covers every
interleaving of the locked sections.

The clock and the runnables decide which event of a lease comes next and are not modelled: an
attempt may end in any outcome, a retry needs only attempts left, and a future may be dropped at
any await point.
-/
import Faktor.SchedulerFrames

namespace Scheduler

/-! ## Leases -/

/-- Where the future that owns a lease stands: an attempt, the sleep of `wait_for_backoff`, the
admission wait of `wait_for_permit`, or past its last `mark`. -/
inductive LeasePhase
  | attempting | backoff | admission | recorded
  deriving DecidableEq, Repr

/-- A lease: `dag` for a `RunningLease`, `permit` while its `GaugeLease` is armed. -/
structure Lease where
  id : OpId
  op : ScheduledOp
  dag : Bool
  permit : Bool
  failures : ℕ
  phase : LeasePhase
  deriving DecidableEq, Repr

/-- The class whose permit a lease takes. -/
def Lease.cls (l : Lease) : ResourceClass := l.op.cls

/-- A lease as it is taken, armed and before its first attempt. -/
def Lease.start (dag : Bool) (id : OpId) (op : ScheduledOp) : Lease :=
  ⟨id, op, dag, true, 0, .attempting⟩

/-- How `execute_inner` ends: what it passes to `mark`. -/
inductive Outcome
  | done
  | cancelled
  | failed (error : String)
  deriving DecidableEq, Repr

/-- The status an outcome records. -/
def Outcome.status : Outcome → TaskStatus
  | .done => .done
  | .cancelled => .cancelled
  | .failed _ => .failed

/-- The error text an outcome records. -/
def Outcome.error : Outcome → Option String
  | .done => none
  | .cancelled => none
  | .failed error => some error

/-- The outcomes a phase can end in: the two waits only observe cancellation and the deadline. -/
def LeasePhase.canRecord : LeasePhase → Outcome → Bool
  | .attempting, _ => true
  | .backoff, o => o ≠ .done
  | .admission, o => o ≠ .done
  | .recorded, _ => false

/-! ## Worlds and events -/

/-- The shared state and the leases that are held. -/
structure World where
  inner : Inner
  leases : List Lease

/-- A scheduler nobody has used yet. -/
def World.empty : World := ⟨Inner.empty, []⟩

/-- What can happen next.  `rebuild` carries the iteration order of the task map. -/
inductive Event
  | submit (op : ScheduledOp)
  | cancel (id : OpId)
  | drain
  | rebuild (ids : List OpId)
  | execute (id : OpId) (op : ScheduledOp)
  | record (l : Lease) (o : Outcome)
  | retry (l : Lease)
  | wake (l : Lease)
  | reacquire (l : Lease)
  | settle (l : Lease)

/-- Replace one held lease. -/
def World.setLease (w : World) (l l' : Lease) : World :=
  { w with leases := l' :: w.leases.erase l }

/-- `GaugeLease::release`: only an armed permit is given back. -/
def Inner.releasePermit (s : Inner) (l : Lease) : Inner :=
  if l.permit then (s.release l.cls).left else s

/-- A held lease is settled or dropped: `RunningLease::settle`, or the `release` of a bare
permit. -/
def World.settleLease (w : World) (l : Lease) : World where
  inner :=
    if l.dag then (settle w.inner l.id l.cls l.permit).left
    else w.inner.releasePermit l
  leases := w.leases.erase l

/-- One event, `none` when it is not enabled or is refused without effect. -/
def World.step (cfg : Config) (w : World) : Event → Option World
  | .submit op =>
    match trySubmit w.inner op with
    | .ok s => some { w with inner := s }
    | .error _ => none
  | .cancel id =>
    match tryCancel w.inner id with
    | .ok l => some { w with inner := l.left }
    | .error _ => none
  | .drain =>
    match drainReady cfg w.inner with
    | .ok (s, spawned) => some ⟨s, w.leases ++ spawned.map fun x => .start true x.1 x.2⟩
    | .error (s, spawned) => some ⟨s, w.leases ++ spawned.map fun x => .start true x.1 x.2⟩
  | .rebuild ids =>
    if ids.Perm w.inner.tasks.keys then some { w with inner := (rebuildGraph w.inner ids).left }
    else none
  | .execute id op =>
    if ((w.inner.status? id).map statusIsTerminal).getD false then none
    else
      match w.inner.gauge.tryAcquire op.cls cfg.limits with
      | none => none
      | some gauge =>
        some ⟨{ w.inner with gauge := gauge }, .start false id op :: w.leases⟩
  | .record l o =>
    if l ∈ w.leases ∧ l.phase.canRecord o = true then
      some ({ w with inner := mark w.inner l.id o.status o.error }.setLease l
        { l with phase := .recorded })
    else none
  | .retry l =>
    -- `permit.release()` before the sleep; `should_retry` needs an attempt left
    if l ∈ w.leases ∧ l.phase = .attempting ∧ l.failures + 1 < l.op.maxAttempts then
      some ({ w with inner := w.inner.releasePermit l }.setLease l
        { l with permit := false, failures := l.failures + 1, phase := .backoff })
    else none
  | .wake l =>
    if l ∈ w.leases ∧ l.phase = .backoff then
      some (w.setLease l { l with phase := .admission })
    else none
  | .reacquire l =>
    if l ∈ w.leases ∧ l.phase = .admission then
      match w.inner.gauge.tryAcquire l.cls cfg.limits with
      | none => none
      | some gauge =>
        some ({ w with inner := { w.inner with gauge := gauge } }.setLease l
          { l with permit := true, phase := .attempting })
    else none
  | .settle l => if l ∈ w.leases then some (w.settleLease l) else none

/-- One event; one that is not enabled changes nothing. -/
def World.apply (cfg : Config) (w : World) (e : Event) : World := (w.step cfg e).getD w

/-- A run. -/
def World.run (cfg : Config) (w : World) (events : List Event) : World :=
  events.foldl (World.apply cfg) w

theorem World.run_append (cfg : Config) (w : World) (l₁ l₂ : List Event) :
    w.run cfg (l₁ ++ l₂) = (w.run cfg l₁).run cfg l₂ := List.foldl_append

theorem World.run_concat (cfg : Config) (w : World) (events : List Event) (e : Event) :
    w.run cfg (events ++ [e]) = (w.run cfg events).apply cfg e := by
  rw [World.run_append]
  rfl

/-- **Invariant rule**: what the empty scheduler has and every event keeps holds along every
run. -/
theorem World.run_induction {cfg : Config} {P : World → Prop} {w : World} (h : P w)
    (hstep : ∀ w e w', P w → w.step cfg e = some w' → P w') (events : List Event) :
    P (w.run cfg events) := by
  induction events using List.reverseRecOn with
  | nil => exact h
  | append_singleton events e ih =>
    rw [World.run_concat, World.apply]
    cases hs : (w.run cfg events).step cfg e with
    | none => exact ih
    | some w' => exact hstep _ e w' ih hs

/-! ## What an event can do -/

/-- **The cases of an enabled event**, with the guards it passed. -/
inductive Step (cfg : Config) (w : World) : Event → World → Prop
  | resubmit (op : ScheduledOp) : Step cfg w (.submit op) w
  | signal (id : OpId) : Step cfg w (.cancel id) w
  | register (op : ScheduledOp) (hnew : w.inner.task? op.operationId = none) :
      Step cfg w (.submit op) { w with inner := Scheduler.register w.inner op }
  | cancel (id : OpId) (t : TaskState) (ht : w.inner.task? id = some t)
      (hp : t.status = .pending) :
      Step cfg w (.cancel id) { w with inner :=
        (terminalize (w.inner.setTask id { t with status := .cancelled }) id).left }
  | drain (s : Inner) (spawned : List (OpId × ScheduledOp))
      (hdrain : drainReady cfg w.inner = .ok (s, spawned) ∨
        drainReady cfg w.inner = .error (s, spawned)) :
      Step cfg w .drain ⟨s, w.leases ++ spawned.map fun x => .start true x.1 x.2⟩
  | rebuild (ids : List OpId) (hids : ids.Perm w.inner.tasks.keys) :
      Step cfg w (.rebuild ids) { w with inner := (rebuildGraph w.inner ids).left }
  | execute (id : OpId) (op : ScheduledOp) (gauge : ResourceGauge)
      (hacq : w.inner.gauge.tryAcquire op.cls cfg.limits = some gauge) :
      Step cfg w (.execute id op)
        ⟨{ w.inner with gauge := gauge }, .start false id op :: w.leases⟩
  | record (l : Lease) (o : Outcome) (hl : l ∈ w.leases) (hrec : l.phase.canRecord o = true) :
      Step cfg w (.record l o)
        ({ w with inner := mark w.inner l.id o.status o.error }.setLease l
          { l with phase := .recorded })
  | retry (l : Lease) (hl : l ∈ w.leases) (hphase : l.phase = .attempting)
      (hleft : l.failures + 1 < l.op.maxAttempts) :
      Step cfg w (.retry l) ({ w with inner := w.inner.releasePermit l }.setLease l
        { l with permit := false, failures := l.failures + 1, phase := .backoff })
  | wake (l : Lease) (hl : l ∈ w.leases) (hphase : l.phase = .backoff) :
      Step cfg w (.wake l) (w.setLease l { l with phase := .admission })
  | reacquire (l : Lease) (gauge : ResourceGauge) (hl : l ∈ w.leases) (hphase : l.phase = .admission)
      (hacq : w.inner.gauge.tryAcquire l.cls cfg.limits = some gauge) :
      Step cfg w (.reacquire l) ({ w with inner := { w.inner with gauge := gauge } }.setLease l
        { l with permit := true, phase := .attempting })
  | settle (l : Lease) (hl : l ∈ w.leases) : Step cfg w (.settle l) (w.settleLease l)

theorem World.step_cases {cfg : Config} {w w' : World} {e : Event}
    (h : w.step cfg e = some w') : Step cfg w e w' := by
  cases e with
  | submit op =>
    simp only [World.step] at h
    split at h
    · rename_i s hs
      rw [← Option.some.inj h]
      rcases trySubmit_cases hs with rfl | ⟨hnew, rfl⟩
      · exact .resubmit op
      · exact .register op hnew
    · cases h
  | cancel id =>
    simp only [World.step] at h
    split at h
    · rename_i l hl
      rw [← Option.some.inj h]
      obtain ⟨t, ht, ⟨hp, rfl⟩ | ⟨-, rfl⟩⟩ := tryCancel_cases hl
      · exact .cancel id t ht hp
      · exact .signal id
    · cases h
  | drain =>
    simp only [World.step] at h
    split at h
    · rename_i s spawned hs
      rw [← Option.some.inj h]
      exact .drain s spawned (.inl hs)
    · rename_i s spawned hs
      rw [← Option.some.inj h]
      exact .drain s spawned (.inr hs)
  | rebuild ids =>
    simp only [World.step] at h
    split at h
    · rename_i hids
      rw [← Option.some.inj h]
      exact .rebuild ids hids
    · cases h
  | execute id op =>
    simp only [World.step] at h
    split at h
    · cases h
    · split at h
      · cases h
      · rename_i gauge hacq
        rw [← Option.some.inj h]
        exact .execute id op gauge hacq
  | record l o =>
    simp only [World.step] at h
    split at h
    · rename_i hl
      rw [← Option.some.inj h]
      exact .record l o hl.1 hl.2
    · cases h
  | retry l =>
    simp only [World.step] at h
    split at h
    · rename_i hl
      rw [← Option.some.inj h]
      exact .retry l hl.1 hl.2.1 hl.2.2
    · cases h
  | wake l =>
    simp only [World.step] at h
    split at h
    · rename_i hl
      rw [← Option.some.inj h]
      exact .wake l hl.1 hl.2
    · cases h
  | reacquire l =>
    simp only [World.step] at h
    split at h
    · rename_i hl
      split at h
      · cases h
      · rename_i gauge hacq
        rw [← Option.some.inj h]
        exact .reacquire l gauge hl.1 hl.2 hacq
    · cases h
  | settle l =>
    simp only [World.step] at h
    split at h
    · rename_i hl
      rw [← Option.some.inj h]
      exact .settle l hl
    · cases h

/-! ## The moves of a drain pass -/

/-- The state of a drain pass and the ops it has started. -/
abbrev Draining := Inner × List (OpId × ScheduledOp)

/-- A started task: permit taken, ownership entered. -/
def Inner.start (s : Inner) (id : OpId) (t : TaskState) (gauge : ResourceGauge) : Inner :=
  { s.setTask id { t with status := .running } with
    gauge := gauge
    running := s.running.insert id (t.op.reads, t.op.writes) }

/-- One round of the drain loop over the head `id` of the queue. -/
inductive DrainMove (cfg : Config) : Draining → Draining → Prop
  | stale (s : Inner) (spawned : List (OpId × ScheduledOp)) (id : OpId) (ready : List OpId)
      (t : TaskState) (hready : s.ready = id :: ready) (ht : s.task? id = some t)
      (hstale : t.status ≠ .pending ∨ t.remaining ≠ 0) :
      DrainMove cfg (s, spawned) ({ s with ready := ready }, spawned)
  | defer (s : Inner) (spawned : List (OpId × ScheduledOp)) (id : OpId) (ready : List OpId)
      (hready : s.ready = id :: ready) :
      DrainMove cfg (s, spawned) ({ s with ready := ready ++ [id] }, spawned)
  | start (s : Inner) (spawned : List (OpId × ScheduledOp)) (id : OpId) (ready : List OpId)
      (t : TaskState) (gauge : ResourceGauge) (hready : s.ready = id :: ready)
      (ht : s.task? id = some t) (hp : t.status = .pending) (hrem : t.remaining = 0)
      (hfree : ∀ j v, s.running.lookup j = some v → conflicts cfg.paths t.op v = false)
      (hacq : s.gauge.tryAcquire t.op.cls cfg.limits = some gauge) :
      DrainMove cfg (s, spawned)
        (({ s with ready := ready } : Inner).start id t gauge, spawned ++ [(id, t.op)])

/-- **The drain loop is a sequence of moves**, and it panics only on a queued id that is not
registered. -/
theorem drainLoop_moves (cfg : Config) (n fuel : ℕ) (s : Inner) (deferred : ℕ)
    (spawned : List (OpId × ScheduledOp)) :
    EndsIn (fun r => Relation.ReflTransGen (DrainMove cfg) (s, spawned) r)
      (fun r => ∃ s' id, Relation.ReflTransGen (DrainMove cfg) (s, spawned) (s', r.2) ∧
        id ∈ s'.ready ∧ s'.task? id = none)
      (drainLoop cfg n fuel s deferred spawned) := by
  induction fuel generalizing s deferred spawned with
  | zero => exact .refl
  | succ fuel ih =>
    have hnext : ∀ (s' : Inner) (d' : ℕ) (sp' : List (OpId × ScheduledOp)),
        DrainMove cfg (s, spawned) (s', sp') →
        EndsIn (fun r => Relation.ReflTransGen (DrainMove cfg) (s, spawned) r)
          (fun r => ∃ s' id, Relation.ReflTransGen (DrainMove cfg) (s, spawned) (s', r.2) ∧
            id ∈ s'.ready ∧ s'.task? id = none)
          (drainLoop cfg n fuel s' d' sp') := by
      intro s' d' sp' hmove
      have h := ih s' d' sp'
      cases hres : drainLoop cfg n fuel s' d' sp' with
      | ok r =>
        rw [hres] at h
        exact .head hmove h
      | error r =>
        rw [hres] at h
        obtain ⟨s'', id, hsteps, hid, hnone⟩ := h
        exact ⟨s'', id, .head hmove hsteps, hid, hnone⟩
    unfold drainLoop
    split
    · split
      · exact .refl
      · rename_i id ready hready
        simp only
        split
        · rename_i hnone
          exact ⟨s, id, .refl, by rw [hready]; exact List.mem_cons_self, hnone⟩
        · rename_i t ht
          split
          · rename_i hstale
            exact hnext _ _ _ (.stale s spawned id ready t hready ht hstale)
          · rename_i hlive
            push Not at hlive
            split
            · exact hnext _ _ _ (.defer s spawned id ready hready)
            · rename_i hfree
              split
              · exact hnext _ _ _ (.defer s spawned id ready hready)
              · rename_i gauge hacq
                refine hnext _ _ _ (.start s spawned id ready t gauge hready ht hlive.1 hlive.2
                  (fun j v hv => ?_) hacq)
                by_contra hc
                refine hfree (List.any_eq_true.mpr ⟨⟨j, v⟩, ?_, by simpa using hc⟩)
                exact AList.mem_lookup_iff.mp hv
    · exact .refl

/-- **Invariant rule of a drain pass**: what every move keeps, and what registers every queued
id, holds after the pass, which does not panic. -/
theorem drainReady_induction {cfg : Config} {s : Inner} {P : Draining → Prop} (h : P (s, []))
    (hmove : ∀ a b, P a → DrainMove cfg a b → P b)
    (hready : ∀ a, P a → ∀ j ∈ a.1.ready, (a.1.task? j).isSome) :
    ∃ r, drainReady cfg s = .ok r ∧ P r := by
  have hmoves := drainLoop_moves cfg s.ready.length (2 * s.ready.length) s 0 []
  have hrun : ∀ b, Relation.ReflTransGen (DrainMove cfg) (s, []) b → P b := by
    intro b hb
    induction hb with
    | refl => exact h
    | tail _ hstep ih => exact hmove _ _ ih hstep
  unfold drainReady
  cases hres : drainLoop cfg s.ready.length (2 * s.ready.length) s 0 [] with
  | ok r =>
    rw [hres] at hmoves
    exact ⟨r, rfl, hrun r hmoves⟩
  | error r =>
    rw [hres] at hmoves
    obtain ⟨s', id, hsteps, hid, hnone⟩ := hmoves
    have hsome := hready _ (hrun _ hsteps) id hid
    simp only at hsome
    rw [hnone] at hsome
    cases hsome

end Scheduler
