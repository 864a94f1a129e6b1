/-
# Permits, ownership and terminal states over every run

The invariant of the scheduler's reachable states, in two parts.  `Sound` speaks of the shared
state alone: ownership of the running tasks never conflicts, what is in the terminal ledger has
ended, and every op is logged as notified at most once.  `Leased` ties the state to the leases
that are held: the gauge counts the armed ones, and every started task that is not yet
terminalized has exactly one.  Both are kept by each move (`sound_*`, `leased_*`) and so along
every run (`safe_run`).
-/
import Faktor.SchedulerWorld

namespace Scheduler

/-! ## Overlap is symmetric -/

theorem pathOverlaps_comm (policy : PathPolicy) (a b : String) :
    pathOverlaps policy a b = pathOverlaps policy b a := by
  unfold pathOverlaps
  by_cases hroot : a = workspaceRootSentinel ∨ b = workspaceRootSentinel
  · rw [if_pos hroot, if_pos hroot.symm]
  · have hroot' : ¬ (b = workspaceRootSentinel ∨ a = workspaceRootSentinel) :=
      fun h => hroot h.symm
    rw [if_neg hroot, if_neg hroot']
    dsimp only
    generalize (normalizeOwnedPath policy a).toList = x
    generalize (normalizeOwnedPath policy b).toList = y
    by_cases hxy : x = y
    · rw [if_pos hxy, if_pos hxy.symm]
    · have hyx : ¬ y = x := fun h => hxy h.symm
      rw [if_neg hxy, if_neg hyx]
      cases dirCovers x y <;> cases dirCovers y x <;> rfl

theorem overlaps_comm (policy : PathPolicy) (a b : OwnershipSet) :
    a.overlaps policy b = b.overlaps policy a := by
  rw [Bool.eq_iff_iff]
  simp only [OwnershipSet.overlaps, List.any_eq_true]
  constructor
  · rintro ⟨x, hx, y, hy, h⟩
    exact ⟨y, hy, x, hx, pathOverlaps_comm policy x y ▸ h⟩
  · rintro ⟨x, hx, y, hy, h⟩
    exact ⟨y, hy, x, hx, pathOverlaps_comm policy x y ▸ h⟩

/-- Two ownership entries `(reads, writes)` overlap write/write, write/read or read/write. -/
def ownersConflict (policy : PathPolicy) (a b : OwnershipSet × OwnershipSet) : Bool :=
  a.2.overlaps policy b.2 || a.2.overlaps policy b.1 || a.1.overlaps policy b.2

theorem ownersConflict_comm (policy : PathPolicy) (a b : OwnershipSet × OwnershipSet) :
    ownersConflict policy a b = ownersConflict policy b a := by
  unfold ownersConflict
  rw [overlaps_comm policy a.2 b.2, overlaps_comm policy a.2 b.1, overlaps_comm policy a.1 b.2,
    Bool.or_assoc, Bool.or_assoc, Bool.or_comm (b.1.overlaps policy a.2)]

/-! ## The shared state -/

/-- What holds of the shared state of a reachable world. -/
structure Sound (cfg : Config) (s : Inner) : Prop where
  queued : ∀ j ∈ s.ready, (s.task? j).isSome
  disjoint : ∀ j k v v', j ≠ k → s.running.lookup j = some v → s.running.lookup k = some v' →
    ownersConflict cfg.paths v v' = false
  owns : ∀ j t, s.task? j = some t → t.status = .running →
    s.running.lookup j = some (t.op.reads, t.op.writes)
  ended : ∀ j ∈ s.terminalized, ∃ u, s.status? j = some u ∧ statusIsTerminal u = true
  logged : ∀ j ∈ s.notified, j ∈ s.terminalized ∨ s.status? j = some .blocked
  once : s.notified.Nodup

section Sound

variable {cfg : Config} {s s' : Inner}

variable {j : OpId} {u : TaskStatus}

theorem Sound.notMem_terminalized (h : Sound cfg s) (hj : s.status? j = some u)
    (hu : statusIsTerminal u = false) : j ∉ s.terminalized := by
  intro hmem
  obtain ⟨u', hu', hterm⟩ := h.ended j hmem
  rw [hj] at hu'
  rw [← Option.some.inj hu', hu] at hterm
  cases hterm

theorem Sound.notMem_notified (h : Sound cfg s) (hj : s.status? j = some u) (hb : u ≠ .blocked)
    (hledger : j ∉ s.terminalized) :
    j ∉ s.notified := by
  intro hmem
  rcases h.logged j hmem with hin | hblocked
  · exact hledger hin
  · rw [hj] at hblocked
    exact hb (Option.some.inj hblocked)

/-- A pending task has not been reported. -/
theorem Sound.pending_notMem_notified (h : Sound cfg s) (hj : s.status? j = some .pending) : j ∉ s.notified :=
  h.notMem_notified hj (by decide) (h.notMem_terminalized hj rfl)

theorem sound_empty (cfg : Config) : Sound cfg Inner.empty := by
  refine ⟨by simp [Inner.empty], fun j k v v' _ hv => ?_, fun j t ht => ?_, fun j hj => ?_,
    by simp [Inner.empty], by simp [Inner.empty]⟩
  · simp [Inner.empty] at hv
  · simp [Inner.task?, Inner.empty] at ht
  · simp [Inner.empty] at hj

theorem sound_framed (h : Sound cfg s) (hf : Framed s s') : Sound cfg s' where
  queued j hj := by
    rw [hf.task?_isSome]
    rcases hf.ready j hj with hr | hsome
    · exact h.queued j hr
    · exact hsome
  disjoint j k v v' hne hv hv' :=
    h.disjoint j k v v' hne (hf.running j v hv) (hf.running k v' hv')
  owns j t' ht' hrun := by
    have hstatus : s'.status? j = some .running := by simp [Inner.status?, ht', hrun]
    obtain ⟨t, ht, hst⟩ := Option.map_eq_some_iff.mp (hf.status_of_ne_blocked hstatus (by decide))
    obtain ⟨x, hx, hop, -⟩ := hf.task j t ht
    rw [ht'] at hx
    rw [hf.keeps j hstatus, Option.some.inj hx, hop]
    exact h.owns j t ht hst
  ended j hj := by
    rcases hf.entered j hj with hin | hb
    · obtain ⟨u, hu, hterm⟩ := h.ended j hin
      refine ⟨u, hf.status_of_ne_pending hu ?_, hterm⟩
      rintro rfl
      cases hterm
    · exact ⟨.blocked, hb, rfl⟩
  logged j hj := by
    obtain ⟨l, hl, -, hnew⟩ := hf.log
    rw [hl] at hj
    rcases List.mem_append.mp hj with hj | hj
    · exact .inr (hnew j hj).2
    · rcases h.logged j hj with hin | hb
      · exact .inl (hf.ledger j hin)
      · exact .inr (hf.status_of_ne_pending hb (by decide))
  once := by
    obtain ⟨l, hl, hnodup, hnew⟩ := hf.log
    rw [hl]
    refine List.nodup_append.mpr ⟨hnodup, h.once, ?_⟩
    rintro j hj k hk rfl
    exact h.pending_notMem_notified (hnew j hj).1 hk

theorem sound_register (h : Sound cfg s) {op : ScheduledOp}
    (hnew : s.task? op.operationId = none) : Sound cfg (register s op) := by
  obtain ⟨-, hrun, hledger, hlog, hready⟩ := register_fields s op
  have hold : ∀ j u, s.status? j = some u → (register s op).status? j = some u := by
    intro j u hu
    rw [status?_register, if_neg, hu]
    rintro rfl
    simp [Inner.status?, hnew] at hu
  refine ⟨fun j hj => ?_, ?_, fun j t ht hst => ?_, fun j hj => ?_, fun j hj => ?_, ?_⟩
  · rw [task?_register]
    split
    · rfl
    · rename_i hne
      rw [Option.isSome_map]
      rcases hready j hj with hr | heq
      · exact h.queued j hr
      · exact absurd heq hne
  · rw [hrun]
    exact h.disjoint
  · rw [hrun]
    rw [task?_register] at ht
    split at ht
    · rw [← Option.some.inj ht] at hst
      simp only [newTask] at hst
      split at hst <;> cases hst
    · obtain ⟨x, hx, rfl⟩ := Option.map_eq_some_iff.mp ht
      exact h.owns j x hx hst
  · rw [hledger] at hj
    obtain ⟨u, hu, hterm⟩ := h.ended j hj
    exact ⟨u, hold j u hu, hterm⟩
  · rw [hlog] at hj
    rw [hledger]
    rcases h.logged j hj with hin | hb
    · exact .inl hin
    · exact .inr (hold j _ hb)
  · rw [hlog]
    exact h.once

variable {t : TaskState}

/-- A task that has not ended ends in a state other than blocked. -/
theorem sound_setStatus (h : Sound cfg s) {id : OpId} {x : TaskState} (ht : s.task? id = some t)
    (hlive : statusIsTerminal t.status = false) (hterm : x.status ≠ .running) : Sound cfg (s.setTask id x) := by
  have hid : s.status? id = some t.status := by simp [Inner.status?, ht]
  have hother : ∀ j, j ≠ id → (s.setTask id x).status? j = s.status? j := fun j hj => by
    simp [Inner.status?, hj]
  have hledger := h.notMem_terminalized hid hlive
  refine ⟨fun j hj => ?_, h.disjoint, fun j y hy hst => ?_, fun j hj => ?_, fun j hj => ?_, h.once⟩
  · rw [task?_setTask]
    split
    · rfl
    · exact h.queued j hj
  · rw [task?_setTask] at hy
    split at hy
    · rw [← Option.some.inj hy] at hst
      exact absurd hst hterm
    · exact h.owns j y hy hst
  · obtain ⟨u, hu, huterm⟩ := h.ended j hj
    refine ⟨u, ?_, huterm⟩
    rw [hother j, hu]
    rintro rfl
    exact hledger hj
  · rcases h.logged j hj with hin | hb
    · exact .inl hin
    · refine .inr ?_
      rw [hother j, hb]
      rintro rfl
      rw [hid] at hb
      rw [Option.some.inj hb] at hlive
      cases hlive

/-- Terminalizing a task that ended other than blocked. -/
theorem sound_terminalize (h : Sound cfg s) {id : OpId} (hu : s.status? id = some u)
    (hterm : statusIsTerminal u = true) (hb : u ≠ .blocked) (hres : terminalize s id = .ok s') :
    Sound cfg s' := by
  have hframe := terminalize_frame hres
  have hstatus : ∀ j v, s.status? j = some v → v ≠ .pending → s'.status? j = some v := by
    intro j v hj hv
    rcases hframe.status j with hsame | ⟨hp, -⟩
    · rw [hsame, hj]
    · rw [hj] at hp
      exact absurd (Option.some.inj hp) hv
  have hpend : u ≠ .pending := by
    rintro rfl
    cases hterm
  have hsub : ∀ j v, s'.running.lookup j = some v → s.running.lookup j = some v := by
    intro j v hv
    rcases hframe.running with heq | heq
    · rwa [heq] at hv
    · by_cases hj : j = id
      · subst hj
        rw [heq, AList.lookup_erase] at hv
        cases hv
      · rwa [heq, AList.lookup_erase_ne hj] at hv
  refine ⟨fun j hj => ?_, fun j k v v' hne hv hv' => ?_, fun j t ht hst => ?_, fun j hj => ?_,
    fun j hj => ?_, ?_⟩
  · rw [hframe.task?_isSome]
    rcases hframe.ready j hj with hr | hsome
    · exact h.queued j hr
    · exact hsome
  · exact h.disjoint j k v v' hne (hsub j v hv) (hsub k v' hv')
  · have hne : j ≠ id := by
      rintro rfl
      have hj := hstatus j u hu hpend
      rw [Inner.status?, ht, Option.map_some, hst] at hj
      rw [← Option.some.inj hj] at hterm
      cases hterm
    have hold : s.status? j = some .running := by
      rcases hframe.status j with hsame | ⟨-, hblk⟩
      · rw [← hsame, Inner.status?, ht, Option.map_some, hst]
      · rw [Inner.status?, ht, Option.map_some, hst] at hblk
        cases hblk
    obtain ⟨y, hy, hyst⟩ := Option.map_eq_some_iff.mp hold
    obtain ⟨x, hx, hop, -⟩ := hframe.task j y hy
    rw [ht] at hx
    have howns := h.owns j y hy hyst
    rw [Option.some.inj hx, hop]
    rcases hframe.running with heq | heq
    · rw [heq, howns]
    · rw [heq, AList.lookup_erase_ne hne, howns]
  · rcases (hframe.terminalized j).mp hj with hj | rfl
    · obtain ⟨v, hv, hvterm⟩ := h.ended j hj
      refine ⟨v, hstatus j v hv ?_, hvterm⟩
      rintro rfl
      cases hvterm
    · exact ⟨u, hstatus j u hu hpend, hterm⟩
  · have hold : j ∈ s.notified → j ∈ s'.terminalized ∨ s'.status? j = some .blocked := by
      intro hj
      rcases h.logged j hj with hin | hblk
      · exact .inl ((hframe.terminalized j).mpr (.inl hin))
      · exact .inr (hstatus j _ hblk (by decide))
    rcases terminalize_log hres with ⟨-, heq⟩ | ⟨-, l, hl, -, hnew⟩
    · exact hold (heq ▸ hj)
    · rw [hl] at hj
      rcases List.mem_append.mp hj with hj | hj
      · exact .inr (hnew j hj).2
      · rcases List.mem_cons.mp hj with rfl | hj
        · exact .inl ((hframe.terminalized j).mpr (.inr rfl))
        · exact hold hj
  · rcases terminalize_log hres with ⟨-, heq⟩ | ⟨hfirst, l, hl, hnodup, hnew⟩
    · rw [heq]
      exact h.once
    · rw [hl]
      refine List.nodup_append.mpr ⟨hnodup, List.nodup_cons.mpr
        ⟨h.notMem_notified hu hb hfirst, h.once⟩, ?_⟩
      -- a task blocked here was pending, so it is neither the op itself nor logged before
      rintro j hj k hk rfl
      have hp := (hnew j hj).1
      rcases List.mem_cons.mp hk with rfl | hk
      · rw [hu] at hp
        exact hpend (Option.some.inj hp)
      · exact h.pending_notMem_notified hp hk

/-- Starting a pending task whose ownership conflicts with no running one. -/
theorem sound_start (h : Sound cfg s) {id : OpId} {gauge : ResourceGauge} (ht : s.task? id = some t)
    (hp : t.status = .pending)
    (hfree : ∀ j v, s.running.lookup j = some v → conflicts cfg.paths t.op v = false) :
    Sound cfg (s.start id t gauge) := by
  have hid : s.status? id = some .pending := by simp [Inner.status?, ht, hp]
  have htask : ∀ j, (s.start id t gauge).task? j =
      if j = id then some { t with status := .running } else s.task? j :=
    fun j => task?_setTask s id _ j
  have hother : ∀ j, j ≠ id → (s.start id t gauge).status? j = s.status? j := fun j hj => by
    rw [Inner.status?, htask, if_neg hj, Inner.status?]
  have hrunning : ∀ j v, (s.start id t gauge).running.lookup j = some v →
      (j = id ∧ v = (t.op.reads, t.op.writes)) ∨ (j ≠ id ∧ s.running.lookup j = some v) := by
    intro j v hv
    have hlook : (s.running.insert id (t.op.reads, t.op.writes)).lookup j = some v := hv
    by_cases hj : j = id
    · subst hj
      rw [AList.lookup_insert] at hlook
      exact .inl ⟨rfl, (Option.some.inj hlook).symm⟩
    · rw [AList.lookup_insert_ne hj] at hlook
      exact .inr ⟨hj, hlook⟩
  refine ⟨fun j hj => ?_, fun j k v v' hne hv hv' => ?_, fun j y hy hst => ?_, fun j hj => ?_,
    fun j hj => ?_, h.once⟩
  · rw [htask]
    split
    · rfl
    · exact h.queued j hj
  · rcases hrunning j v hv with ⟨rfl, rfl⟩ | ⟨-, hold⟩
    · rcases hrunning k v' hv' with ⟨rfl, -⟩ | ⟨-, hold'⟩
      · exact absurd rfl hne
      · exact hfree k v' hold'
    · rcases hrunning k v' hv' with ⟨rfl, rfl⟩ | ⟨-, hold'⟩
      · rw [ownersConflict_comm]
        exact hfree j v hold
      · exact h.disjoint j k v v' hne hold hold'
  · show (s.running.insert id (t.op.reads, t.op.writes)).lookup j = _
    rw [htask] at hy
    split at hy
    · rename_i hj
      subst hj
      rw [AList.lookup_insert, ← Option.some.inj hy]
    · rename_i hj
      rw [AList.lookup_insert_ne hj]
      exact h.owns j y hy hst
  · obtain ⟨u, hu, hterm⟩ := h.ended j hj
    refine ⟨u, ?_, hterm⟩
    rw [hother j, hu]
    rintro rfl
    exact h.notMem_terminalized hid rfl hj
  · rcases h.logged j hj with hin | hb
    · exact .inl hin
    · refine .inr ?_
      rw [hother j, hb]
      rintro rfl
      rw [hid] at hb
      cases hb

theorem framed_stale {ready : List OpId} {id : OpId} (hready : s.ready = id :: ready) :
    Framed s { s with ready := ready } :=
  .of_counts rfl (fun _ => rfl) (fun j hj => .inl (by rw [hready]; exact .tail id hj)) rfl rfl rfl

theorem framed_defer {ready : List OpId} {id : OpId} (hready : s.ready = id :: ready) :
    Framed s { s with ready := ready ++ [id] } := by
  refine .of_counts rfl (fun _ => rfl) (fun j hj => .inl ?_) rfl rfl rfl
  rw [hready]
  rcases List.mem_append.mp hj with hj | hj
  · exact .tail id hj
  · rw [List.mem_singleton.mp hj]
    exact List.mem_cons_self

theorem sound_drainMove {a b : Draining} (h : Sound cfg a.1) (hmove : DrainMove cfg a b) :
    Sound cfg b.1 := by
  cases hmove with
  | stale s spawned id ready t hready ht hstale => exact sound_framed h (framed_stale hready)
  | defer s spawned id ready hready => exact sound_framed h (framed_defer hready)
  | start s spawned id ready t gauge hready ht hp hrem hfree hacq =>
    exact sound_start (sound_framed h (framed_stale hready)) ht hp hfree

/-- **A drain pass does not panic**: every queued op is registered. -/
theorem drainReady_ok (h : Sound cfg s) :
    ∃ r, drainReady cfg s = .ok r ∧ Relation.ReflTransGen (DrainMove cfg) (s, []) r := by
  obtain ⟨r, hres, -, hmoves⟩ := @drainReady_induction cfg s
    (fun r => Sound cfg r.1 ∧ Relation.ReflTransGen (DrainMove cfg) (s, []) r) ⟨h, .refl⟩
    (fun a b ha hmove => ⟨sound_drainMove ha.1 hmove, ha.2.tail hmove⟩) (fun a ha => ha.1.queued)
  exact ⟨r, hres, hmoves⟩

theorem Sound.drain_moves (h : Sound cfg s) {r : Draining}
    (hdrain : drainReady cfg s = .ok r ∨ drainReady cfg s = .error r) :
    Relation.ReflTransGen (DrainMove cfg) (s, []) r := by
  obtain ⟨r', hok, hmoves⟩ := drainReady_ok h
  rw [hok] at hdrain
  rcases hdrain with hd | hd
  · rw [← Except.ok.inj hd]
    exact hmoves
  · cases hd

/-- The gauge is not part of `Sound`. -/
theorem Sound.setGauge (h : Sound cfg s) (gauge : ResourceGauge) :
    Sound cfg { s with gauge := gauge } :=
  ⟨h.queued, h.disjoint, h.owns, h.ended, h.logged, h.once⟩

end Sound

/-! ## Leases -/

/-- The armed leases of a class. -/
def armedOf (cls : ResourceClass) (l : Lease) : Bool := l.permit && decide (l.cls = cls)

/-- The running leases of an op. -/
def leaseOf (id : OpId) (l : Lease) : Bool := l.dag && decide (l.id = id)

/-- A phase that holds its permit, and one that has given it back. -/
structure PhaseOk (l : Lease) : Prop where
  attempting : l.phase = .attempting → l.permit = true
  backoff : l.phase = .backoff → l.permit = false
  admission : l.phase = .admission → l.permit = false

variable {l : Lease}

theorem PhaseOk.of_attempting (h : l.phase = .attempting) (hp : l.permit = true) :
    PhaseOk l where
  attempting _ := hp
  backoff h' := by rw [h] at h'; cases h'
  admission h' := by rw [h] at h'; cases h'

theorem PhaseOk.of_waiting (h : l.phase = .backoff ∨ l.phase = .admission) (hp : l.permit = false) :
    PhaseOk l where
  attempting h' := by rcases h with h | h <;> rw [h] at h' <;> cases h'
  backoff _ := hp
  admission _ := hp

theorem PhaseOk.of_recorded (h : l.phase = .recorded) : PhaseOk l where
  attempting h' := by rw [h] at h'; cases h'
  backoff h' := by rw [h] at h'; cases h'
  admission h' := by rw [h] at h'; cases h'

/-- What ties the leases of a reachable world to its shared state. -/
structure Leased (cfg : Config) (s : Inner) (leases : List Lease) : Prop where
  gauge : ∀ cls, s.gauge cls = leases.countP (armedOf cls)
  limit : ∀ cls, s.gauge cls ≤ cfg.limits.get cls
  phase : ∀ l ∈ leases, PhaseOk l
  started : ∀ l ∈ leases, l.dag = true → ∃ t, s.task? l.id = some t ∧ t.op = l.op ∧
    t.status ≠ .pending ∧ t.status ≠ .blocked
  unsettled : ∀ l ∈ leases, l.dag = true → l.id ∉ s.terminalized
  unique : ∀ id, leases.countP (leaseOf id) ≤ 1
  owned : ∀ j v, s.running.lookup j = some v → ∃ l ∈ leases, l.dag = true ∧ l.id = j
  admitted : ∀ l ∈ leases, 0 < cfg.limits.get l.cls

theorem countP_eq_of_mem {p : Lease → Bool} {leases : List Lease} (h : l ∈ leases) :
    leases.countP p = (leases.erase l).countP p + if p l = true then 1 else 0 := by
  rw [(List.perm_cons_erase h).countP_eq, List.countP_cons]

theorem tryAcquire_eq_some {g g' : ResourceGauge} {cls : ResourceClass} {limits : ResourceLimits}
    (h : g.tryAcquire cls limits = some g') :
    g cls < limits.get cls ∧ g' = Function.update g cls (g cls + 1) := by
  unfold ResourceGauge.tryAcquire at h
  split at h
  · cases h
  · rename_i hlt
    exact ⟨Nat.lt_of_not_le hlt, (Option.some.inj h).symm⟩

section Leased

variable {cfg : Config} {s s' : Inner} {leases : List Lease}

variable {l : Lease}

section

variable (h : Leased cfg s leases) (hl : l ∈ leases)
include h hl

/-- An armed lease has its permit counted. -/
theorem Leased.gauge_pos (hp : l.permit = true) :
    0 < s.gauge l.cls := by
  rw [h.gauge, List.countP_pos_iff]
  exact ⟨l, hl, by simp [armedOf, hp]⟩

/-- The permit of an armed lease is released without underflow. -/
theorem Leased.release (hp : l.permit = true) :
    s.gauge.release l.cls = some (Function.update s.gauge l.cls (s.gauge l.cls - 1)) := by
  unfold ResourceGauge.release
  rw [if_neg (h.gauge_pos hl hp).ne']

/-- A leased task is neither pending nor blocked. -/
theorem Leased.status (hdag : l.dag = true) :
    ∃ u, s.status? l.id = some u ∧ u ≠ .pending ∧ u ≠ .blocked := by
  obtain ⟨t, ht, -, hp, hb⟩ := h.started l hl hdag
  exact ⟨t.status, by simp [Inner.status?, ht], hp, hb⟩

theorem Leased.ne_of_pending (hdag : l.dag = true) {id : OpId} (hid : s.status? id = some .pending) :
    l.id ≠ id := by
  rintro rfl
  obtain ⟨u, hu, hp, -⟩ := h.status hl hdag
  rw [hid] at hu
  exact hp (Option.some.inj hu).symm

/-- Another running lease belongs to another op. -/
theorem Leased.ne_of_mem_erase {l' : Lease} (hdag : l.dag = true) (hl' : l' ∈ leases.erase l)
    (hdag' : l'.dag = true) :
    l'.id ≠ l.id := by
  intro heq
  have hone := h.unique l.id
  rw [countP_eq_of_mem hl, if_pos (by simp [leaseOf, hdag])] at hone
  have hpos : 0 < (leases.erase l).countP (leaseOf l.id) :=
    List.countP_pos_iff.mpr ⟨l', hl', by simp [leaseOf, hdag', heq]⟩
  omega

end

theorem leased_empty (cfg : Config) : Leased cfg Inner.empty [] := by
  refine ⟨fun cls => rfl, fun cls => Nat.zero_le _, by simp, by simp, by simp, by simp,
    fun j v hv => ?_, by simp⟩
  simp [Inner.empty] at hv

section

variable (h : Leased cfg s leases)
include h

/-- The leases are tied to a state with the same permits, more ended tasks and fewer entries. -/
theorem Leased.congr (hgauge : s'.gauge = s.gauge)
    (hstarted : ∀ l ∈ leases, l.dag = true → ∀ t, s.task? l.id = some t → t.op = l.op →
      t.status ≠ .pending → t.status ≠ .blocked →
      ∃ t', s'.task? l.id = some t' ∧ t'.op = l.op ∧ t'.status ≠ .pending ∧
        t'.status ≠ .blocked) (hledger : ∀ l ∈ leases, l.dag = true → l.id ∉ s'.terminalized)
    (hrunning : ∀ j v, s'.running.lookup j = some v → s.running.lookup j = some v) :
    Leased cfg s' leases where
  gauge cls := by rw [hgauge, h.gauge]
  limit cls := by rw [hgauge]; exact h.limit cls
  phase := h.phase
  started l hl hdag := by
    obtain ⟨t, ht, hop, hp, hb⟩ := h.started l hl hdag
    exact hstarted l hl hdag t ht hop hp hb
  unsettled := hledger
  unique := h.unique
  owned j v hv := h.owned j v (hrunning j v hv)
  admitted := h.admitted

theorem leased_framed (hf : Framed s s') : Leased cfg s' leases := by
  refine h.congr hf.gauge (fun l _ _ t ht hop hp hb => ?_) (fun l hl hdag hmem => ?_) hf.running
  · obtain ⟨t', ht', hop', hsame | ⟨hpend, -⟩⟩ := hf.task l.id t ht
    · exact ⟨t', ht', hop'.trans hop, hsame ▸ hp, hsame ▸ hb⟩
    · exact absurd hpend hp
  · obtain ⟨u, hu, hp, hb⟩ := h.status hl hdag
    rcases hf.entered l.id hmem with hin | hblk
    · exact h.unsettled l hl hdag hin
    · rw [hf.status_of_ne_pending hu hp] at hblk
      exact hb (Option.some.inj hblk)

theorem leased_register {op : ScheduledOp} (hnew : s.task? op.operationId = none) :
    Leased cfg (register s op) leases := by
  obtain ⟨hgauge, hrun, hledger, -, -⟩ := register_fields s op
  refine h.congr hgauge (fun l _ _ t ht hop hp hb => ?_) (fun l hl hdag => ?_)
    (fun j v hv => hrun ▸ hv)
  · rw [task?_register, if_neg, ht]
    · exact ⟨_, rfl, hop, hp, hb⟩
    · intro heq
      rw [heq, hnew] at ht
      cases ht
  · rw [hledger]
    exact h.unsettled l hl hdag

/-- A status other than pending and blocked is written. -/
theorem leased_setStatus {id : OpId} {t x : TaskState} (ht : s.task? id = some t) (hop : x.op = t.op)
    (hp : x.status ≠ .pending) (hb : x.status ≠ .blocked) : Leased cfg (s.setTask id x) leases := by
  refine h.congr rfl (fun l _ _ y hy hyop hyp hyb => ?_) h.unsettled (fun j v hv => hv)
  rw [task?_setTask]
  split
  · rename_i heq
    rw [heq, ht] at hy
    exact ⟨x, rfl, by rw [hop, Option.some.inj hy, hyop], hp, hb⟩
  · exact ⟨y, hy, hyop, hyp, hyb⟩

/-- Terminalizing an op that no lease is left for. -/
theorem leased_terminalize {id : OpId} (hid : ∀ l ∈ leases, l.dag = true → l.id ≠ id)
    (hres : terminalize s id = .ok s') :
    Leased cfg s' leases := by
  have hframe := terminalize_frame hres
  refine h.congr hframe.gauge (fun l _ _ t ht hop hp hb => ?_) (fun l hl hdag hmem => ?_)
    (fun j v hv => ?_)
  · obtain ⟨t', ht', hop', hsame | ⟨hpend, -⟩⟩ := hframe.task l.id t ht
    · exact ⟨t', ht', hop'.trans hop, hsame ▸ hp, hsame ▸ hb⟩
    · exact absurd hpend hp
  · rcases (hframe.terminalized l.id).mp hmem with hin | heq
    · exact h.unsettled l hl hdag hin
    · exact hid l hl hdag heq
  · rcases hframe.running with heq | heq
    · rwa [heq] at hv
    · by_cases hj : j = id
      · subst hj
        rw [heq, AList.lookup_erase] at hv
        cases hv
      · rwa [heq, AList.lookup_erase_ne hj] at hv

end

/-- One lease replaced, with the gauge moved by the change of its permit. -/
theorem Leased.replace (h : Leased cfg s leases) {l : Lease} (hl : l ∈ leases) (l' : Lease)
    (hid : l'.id = l.id) (hop : l'.op = l.op) (hdag : l'.dag = l.dag) (hphase : PhaseOk l')
    {gauge : ResourceGauge}
    (hgauge : ∀ cls, gauge cls + (if armedOf cls l = true then 1 else 0) =
      s.gauge cls + if armedOf cls l' = true then 1 else 0)
    (hlimit : ∀ cls, gauge cls ≤ cfg.limits.get cls) :
    Leased cfg { s with gauge := gauge } (l' :: leases.erase l) := by
  have hold : ∀ x ∈ l' :: leases.erase l, ∃ y ∈ leases, x.id = y.id ∧ x.op = y.op ∧
      x.dag = y.dag := by
    intro x hx
    rcases List.mem_cons.mp hx with rfl | hx
    · exact ⟨l, hl, hid, hop, hdag⟩
    · exact ⟨x, List.mem_of_mem_erase hx, rfl, rfl, rfl⟩
  refine ⟨fun cls => ?_, hlimit, fun x hx => ?_, fun x hx hxdag => ?_, fun x hx hxdag => ?_,
    fun id => ?_, fun j v hv => ?_, fun x hx => ?_⟩
  · have hcount := h.gauge cls
    have hmove := hgauge cls
    rw [countP_eq_of_mem hl] at hcount
    rw [List.countP_cons]
    show gauge cls = _
    omega
  · rcases List.mem_cons.mp hx with rfl | hx
    · exact hphase
    · exact h.phase x (List.mem_of_mem_erase hx)
  · obtain ⟨y, hy, hyid, hyop, hydag⟩ := hold x hx
    rw [hyid, hyop]
    exact h.started y hy (hydag ▸ hxdag)
  · obtain ⟨y, hy, hyid, -, hydag⟩ := hold x hx
    rw [hyid]
    exact h.unsettled y hy (hydag ▸ hxdag)
  · have hone := h.unique id
    rw [countP_eq_of_mem hl] at hone
    have hsame : leaseOf id l' = leaseOf id l := by simp [leaseOf, hid, hdag]
    rw [List.countP_cons, hsame]
    exact hone
  · obtain ⟨x, hx, hxdag, hxid⟩ := h.owned j v hv
    by_cases heq : x = l
    · subst heq
      exact ⟨l', List.mem_cons_self, hdag.trans hxdag, hid.trans hxid⟩
    · exact ⟨x, List.mem_cons_of_mem _ ((List.mem_erase_of_ne heq).mpr hx), hxdag, hxid⟩
  · obtain ⟨y, hy, -, hyop, -⟩ := hold x hx
    rw [Lease.cls, hyop]
    exact h.admitted y hy

/-- A replaced lease that keeps its permit. -/
theorem Leased.setPhase (h : Leased cfg s leases) (hl : l ∈ leases) (l' : Lease) (hid : l'.id = l.id)
    (hop : l'.op = l.op) (hdag : l'.dag = l.dag) (hpermit : l'.permit = l.permit) (hphase : PhaseOk l') :
    Leased cfg s (l' :: leases.erase l) := by
  refine @Leased.replace cfg s leases h l hl l' hid hop hdag hphase s.gauge (fun cls => ?_) h.limit
  have hsame : armedOf cls l' = armedOf cls l := by
    unfold armedOf Lease.cls
    rw [hpermit, hop]
  rw [hsame]

/-- A new lease with its permit: of a task just started, or of a standalone execution. -/
theorem Leased.add (h : Leased cfg s leases) {l : Lease} (hpermit : l.permit = true)
    (hphase : PhaseOk l) {gauge : ResourceGauge}
    (hacq : s.gauge.tryAcquire l.cls cfg.limits = some gauge)
    (hstarted : l.dag = true → (∃ t, s.task? l.id = some t ∧ t.op = l.op ∧
      t.status ≠ .pending ∧ t.status ≠ .blocked) ∧ l.id ∉ s.terminalized ∧
      ∀ x ∈ leases, x.dag = true → x.id ≠ l.id) :
    Leased cfg { s with gauge := gauge } (l :: leases) := by
  obtain ⟨hlt, rfl⟩ := tryAcquire_eq_some hacq
  refine ⟨fun cls => ?_, fun cls => ?_, fun x hx => ?_, fun x hx hxdag => ?_,
    fun x hx hxdag => ?_, fun id => ?_, fun j v hv => ?_, fun x hx => ?_⟩
  · rw [List.countP_cons, ← h.gauge cls]
    show Function.update s.gauge l.cls (s.gauge l.cls + 1) cls = _
    by_cases hc : cls = l.cls
    · subst hc
      simp [armedOf, hpermit]
    · rw [Function.update_of_ne hc, if_neg, Nat.add_zero]
      simpa [armedOf, hpermit] using fun hc' => hc hc'.symm
  · show Function.update s.gauge l.cls (s.gauge l.cls + 1) cls ≤ _
    by_cases hc : cls = l.cls
    · subst hc
      rw [Function.update_self]
      exact hlt
    · rw [Function.update_of_ne hc]
      exact h.limit cls
  · rcases List.mem_cons.mp hx with rfl | hx
    · exact hphase
    · exact h.phase x hx
  · rcases List.mem_cons.mp hx with rfl | hx
    · exact (hstarted hxdag).1
    · exact h.started x hx hxdag
  · rcases List.mem_cons.mp hx with rfl | hx
    · exact (hstarted hxdag).2.1
    · exact h.unsettled x hx hxdag
  · rw [List.countP_cons]
    by_cases hnew : leaseOf id l = true
    · rw [if_pos hnew]
      simp only [leaseOf, Bool.and_eq_true, decide_eq_true_eq] at hnew
      have hzero : leases.countP (leaseOf id) = 0 := by
        rw [List.countP_eq_zero]
        intro x hx hof
        simp only [leaseOf, Bool.and_eq_true, decide_eq_true_eq] at hof
        exact (hstarted hnew.1).2.2 x hx hof.1 (hof.2.trans hnew.2.symm)
      omega
    · rw [if_neg hnew, Nat.add_zero]
      exact h.unique id
  · obtain ⟨x, hx, hxdag, hxid⟩ := h.owned j v hv
    exact ⟨x, List.mem_cons_of_mem l hx, hxdag, hxid⟩
  · rcases List.mem_cons.mp hx with rfl | hx
    · omega
    · exact h.admitted x hx

/-- The ownership entry of a leased task. -/
theorem Leased.own (h : Leased cfg s leases) (hl : l ∈ leases) (hdag : l.dag = true)
    (v : OwnershipSet × OwnershipSet) :
    Leased cfg { s with running := s.running.insert l.id v } leases := by
  refine ⟨h.gauge, h.limit, h.phase, h.started, h.unsettled, h.unique, fun j v' hv => ?_,
    h.admitted⟩
  by_cases hj : j = l.id
  · exact ⟨l, hl, hdag, hj.symm⟩
  · refine h.owned j v' ?_
    rw [← AList.lookup_insert_ne hj]
    exact hv

theorem Leased.perm (h : Leased cfg s leases) {leases' : List Lease} (hp : leases.Perm leases') :
    Leased cfg s leases' where
  gauge cls := by rw [h.gauge, hp.countP_eq]
  limit := h.limit
  phase l hl := h.phase l (hp.mem_iff.mpr hl)
  started l hl := h.started l (hp.mem_iff.mpr hl)
  unsettled l hl := h.unsettled l (hp.mem_iff.mpr hl)
  unique id := by rw [← hp.countP_eq]; exact h.unique id
  owned j v hv := by
    obtain ⟨l, hl, hrest⟩ := h.owned j v hv
    exact ⟨l, hp.mem_iff.mp hl, hrest⟩
  admitted l hl := h.admitted l (hp.mem_iff.mpr hl)

end Leased

/-! ## Every event -/

/-- The invariant of the reachable worlds. -/
structure Safe (cfg : Config) (w : World) : Prop where
  sound : Sound cfg w.inner
  leased : Leased cfg w.inner w.leases

theorem safe_empty (cfg : Config) : Safe cfg World.empty := ⟨sound_empty cfg, leased_empty cfg⟩

/-- The first terminalization of an op takes its ownership entry out. -/
theorem terminalize_running {s s' : Inner} {id : OpId} (h : id ∉ s.terminalized)
    (hres : terminalize s id = .ok s') : s'.running.lookup id = none := by
  unfold terminalize at hres
  split at hres
  · rename_i attempts hin
    refine absurd ?_ h
    rw [← AList.lookup_isSome, hin]
    rfl
  · split at hres
    · cases hres
    · rename_i t ht
      have hfold := notified_foldl t.status t.dependents (s.detach id t, [])
      generalize t.dependents.foldl (notifyEdge t.status) (s.detach id t, []) = acc
        at hres hfold
      have hframe := hfold.trans
        (notified_blockLoop (acc.2.length + acc.1.pendingCount) acc.1 acc.2)
      rw [← Except.ok.inj hres, hframe.running]
      exact AList.lookup_erase id s.running

section Safe

variable {cfg : Config} {w : World}

variable {t : TaskState}

/-- A pending task is cancelled. -/
theorem safe_cancel (h : Safe cfg w) {id : OpId} (ht : w.inner.task? id = some t) (hp : t.status = .pending) :
    Safe cfg { w with inner :=
      (terminalize (w.inner.setTask id { t with status := .cancelled }) id).left } := by
  obtain ⟨s', hs'⟩ := @terminalize_ok (w.inner.setTask id { t with status := .cancelled }) id
    (by simp)
  have hstatus : (w.inner.setTask id { t with status := .cancelled }).status? id =
      some .cancelled := by simp [Inner.status?]
  have hpend : w.inner.status? id = some .pending := by simp [Inner.status?, ht, hp]
  have hsound : Sound cfg (w.inner.setTask id { t with status := .cancelled }) :=
    sound_setStatus h.sound ht (by rw [hp]; rfl) (by simp)
  have hleased : Leased cfg (w.inner.setTask id { t with status := .cancelled }) w.leases :=
    leased_setStatus h.leased ht rfl (by simp) (by simp)
  rw [hs']
  exact ⟨sound_terminalize hsound hstatus rfl (by decide) hs',
    leased_terminalize hleased (fun l hl hdag => h.leased.ne_of_pending hl hdag hpend) hs'⟩

/-- A move of a drain pass, with the leases of the tasks it has started. -/
theorem safe_drainMove {leases : List Lease} {a b : Draining}
    (ha : Safe cfg ⟨a.1, leases ++ a.2.map fun x => .start true x.1 x.2⟩)
    (hmove : DrainMove cfg a b) :
    Safe cfg ⟨b.1, leases ++ b.2.map fun x => .start true x.1 x.2⟩ := by
  refine ⟨sound_drainMove ha.sound hmove, ?_⟩
  obtain ⟨hsound, hleased⟩ := ha
  cases hmove with
  | stale s spawned id ready t hready ht hstale => exact leased_framed hleased (framed_stale hready)
  | defer s spawned id ready hready => exact leased_framed hleased (framed_defer hready)
  | start s spawned id ready t gauge hready ht hp hrem hfree hacq =>
    have hsound' := sound_framed hsound (framed_stale hready)
    have hleased' := leased_framed hleased (framed_stale hready)
    simp only at hleased' hsound' ⊢
    have hpend : ({ s with ready := ready } : Inner).status? id = some .pending := by
      show (s.task? id).map _ = _
      rw [ht, Option.map_some, hp]
    have hset : Leased cfg (({ s with ready := ready } : Inner).setTask id
        { t with status := .running }) (leases ++ spawned.map fun x => .start true x.1 x.2) :=
      leased_setStatus hleased' ht rfl (by simp) (by simp)
    have hadd := @Leased.add cfg _ _ hset (.start true id t.op) rfl
      (.of_attempting rfl rfl) gauge hacq fun _ =>
        ⟨⟨{ t with status := .running }, by simp [Lease.start], rfl, by simp, by simp⟩,
          hsound'.notMem_terminalized hpend rfl,
          fun x hx hxdag => hleased'.ne_of_pending hx hxdag hpend⟩
    have hown := hadd.own (l := .start true id t.op) List.mem_cons_self rfl
      (t.op.reads, t.op.writes)
    refine hown.perm ?_
    rw [List.map_append, ← List.append_assoc]
    exact (List.perm_append_singleton _ _).symm

/-- A drain pass adds the leases of the tasks it starts. -/
theorem safe_drain (h : Safe cfg w) {r : Draining}
    (hmoves : Relation.ReflTransGen (DrainMove cfg) (w.inner, []) r) :
    Safe cfg ⟨r.1, w.leases ++ r.2.map fun x => .start true x.1 x.2⟩ := by
  induction hmoves with
  | refl => simpa using h
  | tail _ hmove ih => exact safe_drainMove ih hmove

variable {gauge : ResourceGauge}

theorem safe_execute (h : Safe cfg w) (id : OpId) (op : ScheduledOp)
    (hacq : w.inner.gauge.tryAcquire op.cls cfg.limits = some gauge) :
    Safe cfg ⟨{ w.inner with gauge := gauge }, .start false id op :: w.leases⟩ :=
  ⟨h.sound.setGauge gauge, @Leased.add cfg _ _ h.leased (.start false id op) rfl
    (.of_attempting rfl rfl) gauge hacq fun hdag => by cases hdag⟩

theorem Outcome.status_facts (o : Outcome) :
    o.status ≠ .pending ∧ o.status ≠ .blocked ∧ o.status ≠ .running := by
  cases o <;> simp [Outcome.status]

theorem safe_mark (h : Safe cfg w) (id : OpId) (o : Outcome) :
    Safe cfg { w with inner := mark w.inner id o.status o.error } := by
  obtain ⟨hp, hb, hr⟩ := o.status_facts
  unfold mark Inner.modify
  cases ht : w.inner.task? id with
  | none => exact h
  | some t =>
    by_cases hterm : statusIsTerminal t.status = true
    · simp only [hterm, if_true]
      have hf : Framed w.inner (w.inner.setTask id t) := (recounted_setTask ht rfl rfl).framed
      exact ⟨sound_framed h.sound hf, leased_framed h.leased hf⟩
    · simp only [hterm]
      exact ⟨sound_setStatus h.sound ht (Bool.eq_false_iff.mpr hterm) hr,
        leased_setStatus h.leased ht rfl hp hb⟩

variable {l : Lease}

section

variable (h : Safe cfg w) (hl : l ∈ w.leases)
include h hl

theorem safe_record (o : Outcome) :
    Safe cfg ({ w with inner := mark w.inner l.id o.status o.error }.setLease l
      { l with phase := .recorded }) := by
  obtain ⟨hsound, hleased⟩ := safe_mark h l.id o
  exact ⟨hsound, hleased.setPhase hl _ rfl rfl rfl rfl (.of_recorded rfl)⟩

/-- A permit given back for a retry's backoff. -/
theorem safe_retry (hphase : l.phase = .attempting) :
    Safe cfg ({ w with inner := w.inner.releasePermit l }.setLease l
      { l with permit := false, failures := l.failures + 1, phase := .backoff }) := by
  have hpermit := (h.leased.phase l hl).attempting hphase
  have hrel := h.leased.release hl hpermit
  have hpos := h.leased.gauge_pos hl hpermit
  simp only [Inner.releasePermit, Inner.release, hpermit, if_true, hrel, Locked.left]
  refine ⟨h.sound.setGauge _, h.leased.replace hl
    { l with permit := false, failures := l.failures + 1, phase := .backoff } rfl rfl rfl
    (.of_waiting (.inl rfl) rfl) (fun cls => ?_) (fun cls => ?_)⟩
  · by_cases hc : cls = l.cls
    · subst hc
      simp [armedOf, hpermit]
      omega
    · have hc' : ¬ l.cls = cls := fun h => hc h.symm
      simp [armedOf, hc, hc']
  · refine le_trans ?_ (h.leased.limit cls)
    by_cases hc : cls = l.cls
    · subst hc
      simp
    · simp [hc]

theorem safe_wake (hphase : l.phase = .backoff) :
    Safe cfg (w.setLease l { l with phase := .admission }) :=
  ⟨h.sound, h.leased.setPhase hl _ rfl rfl rfl rfl
    (.of_waiting (.inr rfl) ((h.leased.phase l hl).backoff hphase))⟩

/-- A permit taken again after the backoff. -/
theorem safe_reacquire (hphase : l.phase = .admission)
    (hacq : w.inner.gauge.tryAcquire l.cls cfg.limits = some gauge) :
    Safe cfg ({ w with inner := { w.inner with gauge := gauge } }.setLease l
      { l with permit := true, phase := .attempting }) := by
  have hpermit := (h.leased.phase l hl).admission hphase
  obtain ⟨hlt, rfl⟩ := tryAcquire_eq_some hacq
  refine ⟨h.sound.setGauge _, h.leased.replace hl
    { l with permit := true, phase := .attempting } rfl rfl rfl
    (.of_attempting rfl rfl) (fun cls => ?_) (fun cls => ?_)⟩
  · by_cases hc : cls = l.cls
    · subst hc
      simp [armedOf, hpermit, Lease.cls]
    · have hc' : ¬ l.op.cls = cls := fun h => hc h.symm
      rw [Function.update_of_ne hc]
      simp [armedOf, hpermit, Lease.cls, hc']
  · by_cases hc : cls = l.cls
    · subst hc
      rw [Function.update_self]
      exact hlt
    · rw [Function.update_of_ne hc]
      exact h.leased.limit cls

end

/-- The leases left when one is dropped with its permit. -/
theorem Leased.drop (h : Leased cfg w.inner w.leases) (hl : l ∈ w.leases) {s : Inner}
    (hgauge : s.gauge = if l.permit = true
      then Function.update w.inner.gauge l.cls (w.inner.gauge l.cls - 1) else w.inner.gauge)
    (htask : ∀ j, s.task? j = w.inner.task? j) (hledger : s.terminalized = w.inner.terminalized)
    (howned : ∀ j v, s.running.lookup j = some v → w.inner.running.lookup j = some v ∧
      (l.dag = true → j ≠ l.id)) :
    Leased cfg s (w.leases.erase l) := by
  have hsub : ∀ x ∈ w.leases.erase l, x ∈ w.leases := fun x hx => List.mem_of_mem_erase hx
  refine ⟨fun cls => ?_, fun cls => ?_, fun x hx => h.phase x (hsub x hx), fun x hx hdag => ?_,
    fun x hx hdag => ?_, fun id => ?_, fun j v hv => ?_, fun x hx => h.admitted x (hsub x hx)⟩
  · have hcount := h.gauge cls
    rw [countP_eq_of_mem hl] at hcount
    rw [hgauge]
    by_cases hpermit : l.permit = true
    · rw [if_pos hpermit]
      by_cases hc : cls = l.cls
      · subst hc
        simp [armedOf, hpermit] at hcount ⊢
        omega
      · have hc' : ¬ l.cls = cls := fun h => hc h.symm
        simp [armedOf, hc'] at hcount ⊢
        rw [Function.update_of_ne hc]
        exact hcount
    · rw [if_neg hpermit]
      simp [armedOf, hpermit] at hcount ⊢
      exact hcount
  · refine le_trans ?_ (h.limit cls)
    rw [hgauge]
    split
    · by_cases hc : cls = l.cls
      · subst hc
        simp
      · simp [hc]
    · exact le_rfl
  · rw [htask]
    exact h.started x (hsub x hx) hdag
  · rw [hledger]
    exact h.unsettled x (hsub x hx) hdag
  · exact (List.Sublist.countP_le List.erase_sublist).trans (h.unique id)
  · obtain ⟨hold, hne⟩ := howned j v hv
    obtain ⟨x, hx, hdag, hid⟩ := h.owned j v hold
    refine ⟨x, (List.mem_erase_of_ne ?_).mpr hx, hdag, hid⟩
    rintro rfl
    exact hne hdag hid.symm

/-- The gauge after a lease gives back the permit it may hold. -/
theorem Leased.settledGauge (h : Leased cfg w.inner w.leases) (hl : l ∈ w.leases) :
    (if l.permit then w.inner.gauge.release l.cls else some w.inner.gauge) =
      some (if l.permit = true
        then Function.update w.inner.gauge l.cls (w.inner.gauge l.cls - 1) else w.inner.gauge) := by
  by_cases hp : l.permit = true
  · simp only [hp, if_true]
    exact h.release hl hp
  · simp [hp]

/-- The settlement of a running lease, step by step: permit, status, terminalization. -/
theorem settle_eq {s : Inner} {id : OpId} {cls : ResourceClass} {permit : Bool}
    (h : (if permit then s.gauge.release cls else some s.gauge) = some gauge) :
    settle s id cls permit =
      terminalize (({ s with gauge := gauge } : Inner).modify id TaskState.cancelRunning) id := by
  unfold settle
  cases permit with
  | false =>
    simp only [Bool.false_eq_true, if_false, Option.some.injEq] at h ⊢
    rw [← h]
  | true =>
    simp only [if_true] at h ⊢
    rw [Inner.release, h]

/-- The status a settled task is terminalized in. -/
theorem cancelRunning_status (hp : t.status ≠ .pending) (hb : t.status ≠ .blocked) :
    statusIsTerminal t.cancelRunning.status = true ∧ t.cancelRunning.status ≠ .blocked ∧
      t.cancelRunning.status ≠ .pending := by
  unfold TaskState.cancelRunning
  by_cases hr : t.status = .running
  · simp [hr, statusIsTerminal]
  · rw [if_neg hr]
    refine ⟨?_, hb, hp⟩
    cases hs : t.status <;> simp_all [statusIsTerminal]

/-- A record written with the same op and a status that stays ended or ends. -/
theorem sound_cancelRunning {s : Inner} {id : OpId} (h : Sound cfg s) (ht : s.task? id = some t) :
    Sound cfg (s.setTask id t.cancelRunning) := by
  by_cases hr : t.status = .running
  · refine sound_setStatus h ht (by rw [hr]; rfl) ?_
    simp [TaskState.cancelRunning, hr]
  · have hsame : t.cancelRunning = t := if_neg hr
    rw [hsame]
    exact sound_framed h (recounted_setTask ht rfl rfl).framed

/-- **A running lease is settled**: without panic, whatever its phase. -/
theorem safe_settle_dag (h : Safe cfg w) (hl : l ∈ w.leases) (hdag : l.dag = true) :
    ∃ s, settle w.inner l.id l.cls l.permit = .ok s ∧ Safe cfg ⟨s, w.leases.erase l⟩ := by
  obtain ⟨t, ht, hop, hp, hb⟩ := h.leased.started l hl hdag
  rw [settle_eq (h.leased.settledGauge hl)]
  generalize hg : (if l.permit = true then Function.update w.inner.gauge l.cls
    (w.inner.gauge l.cls - 1) else w.inner.gauge) = gauge
  have ht' : ({ w.inner with gauge := gauge } : Inner).task? l.id = some t := ht
  rw [Inner.modify, ht']
  simp only
  obtain ⟨hterm, hnb, hnp⟩ := cancelRunning_status hp hb
  have hstatus : (Inner.setTask { w.inner with gauge := gauge } l.id t.cancelRunning).status?
      l.id = some t.cancelRunning.status := by simp [Inner.status?]
  have hsound : Sound cfg (Inner.setTask { w.inner with gauge := gauge } l.id t.cancelRunning) :=
    sound_cancelRunning (h.sound.setGauge gauge) ht'
  obtain ⟨s, hs⟩ := @terminalize_ok
    (Inner.setTask { w.inner with gauge := gauge } l.id t.cancelRunning) l.id (by simp)
  refine ⟨s, hs, sound_terminalize hsound hstatus hterm hnb hs, ?_⟩
  -- the entry of the op leaves the running map with its lease
  have hframe := terminalize_frame hs
  have hledger : l.id ∉ (Inner.setTask { w.inner with gauge := gauge } l.id
      t.cancelRunning).terminalized := h.leased.unsettled l hl hdag
  have hgone := terminalize_running hledger hs
  have hmid : Leased cfg { w.inner with gauge := gauge, running := s.running }
      (w.leases.erase l) := by
    refine h.leased.drop hl hg.symm (fun _ => rfl) rfl fun j v hv => ?_
    have hne : j ≠ l.id := by
      rintro rfl
      have hv' : s.running.lookup l.id = some v := hv
      rw [hgone] at hv'
      cases hv'
    refine ⟨?_, fun _ => hne⟩
    rcases hframe.running with heq | heq
    · have hv' : s.running.lookup j = some v := hv
      rwa [heq] at hv'
    · have hv' : s.running.lookup j = some v := hv
      rwa [heq, AList.lookup_erase_ne hne] at hv'
  refine hmid.congr hframe.gauge (fun x hx hxdag y hy hyop hyp hyb => ?_)
    (fun x hx hxdag hmem => ?_) (fun j v hv => hv)
  · have hne : x.id ≠ l.id := h.leased.ne_of_mem_erase hl hdag hx hxdag
    have hy' : (Inner.setTask { w.inner with gauge := gauge } l.id t.cancelRunning).task? x.id =
        some y := by
      rw [task?_setTask, if_neg hne]
      exact hy
    obtain ⟨z, hz, hzop, hsame | ⟨hpend, -⟩⟩ := hframe.task x.id y hy'
    · exact ⟨z, hz, hzop.trans hyop, hsame ▸ hyp, hsame ▸ hyb⟩
    · exact absurd hpend hyp
  · rcases (hframe.terminalized x.id).mp hmem with hin | heq
    · exact h.leased.unsettled x (List.mem_of_mem_erase hx) hxdag hin
    · exact h.leased.ne_of_mem_erase hl hdag hx hxdag heq

theorem safe_settle (h : Safe cfg w) (hl : l ∈ w.leases) :
    Safe cfg (w.settleLease l) := by
  unfold World.settleLease
  by_cases hdag : l.dag = true
  · obtain ⟨s, hs, hsafe⟩ := safe_settle_dag h hl hdag
    rw [if_pos hdag, hs]
    exact hsafe
  · rw [if_neg hdag, Inner.releasePermit]
    by_cases hp : l.permit = true
    · have hrel := h.leased.release hl hp
      rw [if_pos hp, Inner.release, hrel]
      refine ⟨h.sound.setGauge _, h.leased.drop hl ?_ (fun _ => rfl) rfl
        fun j v hv => ⟨hv, fun hd => absurd hd hdag⟩⟩
      rw [if_pos hp]
      rfl
    · rw [if_neg hp]
      refine ⟨h.sound, h.leased.drop hl ?_ (fun _ => rfl) rfl
        fun j v hv => ⟨hv, fun hd => absurd hd hdag⟩⟩
      rw [if_neg hp]

/-- **Every event keeps the invariant.** -/
theorem safe_step {w' : World} {e : Event} (h : Safe cfg w) (hstep : w.step cfg e = some w') :
    Safe cfg w' := by
  cases World.step_cases hstep with
  | resubmit op => exact h
  | signal id => exact h
  | register op hnew => exact ⟨sound_register h.sound hnew, leased_register h.leased hnew⟩
  | cancel id t ht hp => exact safe_cancel h ht hp
  | drain s spawned hdrain =>
    exact safe_drain h (h.sound.drain_moves hdrain)
  | rebuild ids hids =>
    have hends := framed_rebuildGraph ids fun j hj => h.sound.pending_notMem_notified hj
    have hf : Framed w.inner (rebuildGraph w.inner ids).left := by
      cases hres : rebuildGraph w.inner ids with
      | ok s =>
        rw [hres] at hends
        exact hends
      | error s =>
        rw [hres] at hends
        exact hends
    exact ⟨sound_framed h.sound hf, leased_framed h.leased hf⟩
  | execute id op gauge hacq => exact safe_execute h id op hacq
  | record l o hl hrec => exact safe_record h hl o
  | retry l hl hphase hleft => exact safe_retry h hl hphase
  | wake l hl hphase => exact safe_wake h hl hphase
  | reacquire l gauge hl hphase hacq => exact safe_reacquire h hl hphase hacq
  | settle l hl => exact safe_settle h hl

end Safe

/-- **The invariant holds along every run.** -/
theorem safe_run (cfg : Config) (events : List Event) : Safe cfg (World.empty.run cfg events) :=
  World.run_induction (safe_empty cfg) (fun _ _ _ h hstep => safe_step h hstep) events

/-! ## Terminal states are final -/

section Final

variable {cfg : Config}

variable {j : OpId} {u : TaskStatus}

/-- A move of a drain pass starts pending tasks only. -/
theorem status_drainMoves {a b : Draining} (hmoves : Relation.ReflTransGen (DrainMove cfg) a b)
    (hj : a.1.status? j = some u) (hu : u ≠ .pending) :
    b.1.status? j = some u := by
  induction hmoves with
  | refl => exact hj
  | tail _ hmove ih =>
    cases hmove with
    | stale s spawned id ready t hready ht hstale => exact ih
    | defer s spawned id ready hready => exact ih
    | start s spawned id ready t gauge hready ht hp hrem hfree hacq =>
      have hne : j ≠ id := by
        rintro rfl
        have ih' : s.status? j = some u := ih
        rw [Inner.status?, ht, Option.map_some, hp] at ih'
        exact hu (Option.some.inj ih').symm
      show ((Inner.setTask { s with ready := ready } id { t with status := .running }).task? j).map
        _ = _
      rw [task?_setTask, if_neg hne]
      exact ih

theorem status?_setTask_of_ne {s : Inner} {id : OpId} (t : TaskState) (h : j ≠ id) :
    (s.setTask id t).status? j = s.status? j := by
  simp [Inner.status?, h]

theorem status?_mark_of_terminal {s : Inner} (hj : s.status? j = some u) (hu : statusIsTerminal u = true)
    (id : OpId) (status : TaskStatus) (error : Option String) :
    (mark s id status error).status? j = some u := by
  unfold mark
  rw [Inner.status?, task?_modify]
  split
  · rename_i heq
    subst heq
    obtain ⟨t, ht, hst⟩ := Option.map_eq_some_iff.mp hj
    simp [ht, hst, hu]
  · exact hj

theorem status?_cancelRunning_of_terminal {s : Inner} (hj : s.status? j = some u)
    (hu : statusIsTerminal u = true) (id : OpId) :
    (s.modify id TaskState.cancelRunning).status? j = some u := by
  rw [Inner.status?, task?_modify]
  split
  · rename_i heq
    subst heq
    obtain ⟨t, ht, hst⟩ := Option.map_eq_some_iff.mp hj
    have hrun : t.status ≠ .running := by
      rw [hst]
      rintro rfl
      cases hu
    rw [ht, Option.map_some, Option.map_some, TaskState.cancelRunning, if_neg hrun, hst]
  · exact hj

/-- **No event changes a terminal status.** -/
theorem status_step {w w' : World} {e : Event} (h : Safe cfg w) (hstep : w.step cfg e = some w')
    (hj : w.inner.status? j = some u) (hu : statusIsTerminal u = true) :
    w'.inner.status? j = some u := by
  have hpend : u ≠ .pending := by
    rintro rfl
    cases hu
  cases World.step_cases hstep with
  | resubmit op => exact hj
  | signal id => exact hj
  | register op hnew =>
    rw [status?_register, if_neg, hj]
    rintro rfl
    simp [Inner.status?, hnew] at hj
  | cancel id t ht hp =>
    have hne : j ≠ id := by
      rintro rfl
      rw [Inner.status?, ht, Option.map_some, hp] at hj
      exact hpend (Option.some.inj hj).symm
    obtain ⟨s', hs'⟩ := @terminalize_ok (w.inner.setTask id { t with status := .cancelled }) id
      (by simp)
    rw [hs']
    have hset := status?_setTask_of_ne (s := w.inner) { t with status := .cancelled } hne
    rcases (terminalize_frame hs').status j with hsame | ⟨hp', -⟩
    · exact hsame.trans (hset.trans hj)
    · rw [hset, hj] at hp'
      exact absurd (Option.some.inj hp') hpend
  | drain s spawned hdrain =>
    exact status_drainMoves (h.sound.drain_moves hdrain) hj hpend
  | rebuild ids hids =>
    have hends := framed_rebuildGraph ids fun j hj => h.sound.pending_notMem_notified hj
    cases hres : rebuildGraph w.inner ids with
    | ok s =>
      rw [hres] at hends
      exact hends.status_of_ne_pending hj hpend
    | error s =>
      rw [hres] at hends
      exact hends.status_of_ne_pending hj hpend
  | execute id op gauge hacq => exact hj
  | record l o hl hrec => exact status?_mark_of_terminal hj hu l.id o.status o.error
  | retry l hl hphase hleft =>
    have hrel := h.leased.release hl ((h.leased.phase l hl).attempting hphase)
    simp only [Inner.releasePermit, Inner.release, (h.leased.phase l hl).attempting hphase, hrel]
    exact hj
  | wake l hl hphase => exact hj
  | reacquire l gauge hl hphase hacq => exact hj
  | settle l hl =>
    unfold World.settleLease
    by_cases hdag : l.dag = true
    · obtain ⟨s, hs, -⟩ := safe_settle_dag h hl hdag
      rw [if_pos hdag, hs]
      rw [settle_eq (h.leased.settledGauge hl)] at hs
      rcases (terminalize_frame hs).status j with hsame | ⟨hp', -⟩
      · exact hsame.trans (status?_cancelRunning_of_terminal (by exact hj) hu l.id)
      · rw [status?_cancelRunning_of_terminal (by exact hj) hu l.id] at hp'
        exact absurd (Option.some.inj hp') hpend
    · rw [if_neg hdag, Inner.releasePermit]
      by_cases hp : l.permit = true
      · rw [if_pos hp, Inner.release, h.leased.release hl hp]
        exact hj
      · rw [if_neg hp]
        exact hj

theorem status_run {w : World} (h : Safe cfg w) (events : List Event) (hj : w.inner.status? j = some u)
    (hu : statusIsTerminal u = true) :
    Safe cfg (w.run cfg events) ∧ (w.run cfg events).inner.status? j = some u :=
  World.run_induction (P := fun w' => Safe cfg w' ∧ w'.inner.status? j = some u) ⟨h, hj⟩
    (fun _ _ _ hw hstep => ⟨safe_step hw.1 hstep, status_step hw.1 hstep hw.2 hu⟩) events

end Final

/-- **Permits and terminal states.**  After every run, the gauge of each class counts the armed
leases of that class and is within the class limit, the permit of an armed lease can be released,
a terminal status is the same after whatever follows, and no op is notified twice. -/
theorem permits_counted_and_terminals_final (cfg : Config) (events : List Event) :
    (∀ cls, (World.empty.run cfg events).inner.gauge cls =
        (World.empty.run cfg events).leases.countP (armedOf cls) ∧
      (World.empty.run cfg events).inner.gauge cls ≤ cfg.limits.get cls) ∧
    (∀ l ∈ (World.empty.run cfg events).leases, l.permit = true →
      ((World.empty.run cfg events).inner.gauge.release l.cls).isSome = true) ∧
    (∀ j u, (World.empty.run cfg events).inner.status? j = some u → statusIsTerminal u = true →
      ∀ later, (World.empty.run cfg (events ++ later)).inner.status? j = some u) ∧
    (World.empty.run cfg events).inner.notified.Nodup := by
  have h := safe_run cfg events
  refine ⟨fun cls => ⟨h.leased.gauge cls, h.leased.limit cls⟩, fun l hl hp => ?_,
    fun j u hj hu later => ?_, h.sound.once⟩
  · rw [h.leased.release hl hp]
    rfl
  · rw [World.run_append]
    exact (status_run h later hj hu).2

/-- **Running tasks never conflict.**  After every run, two tasks of the running set overlap
neither write/write nor write/read, every task in state running is in that set with the
ownership it declared, and the overlap relation is symmetric. -/
theorem running_tasks_never_conflict (cfg : Config) (events : List Event) :
    (∀ j k v v', j ≠ k → (World.empty.run cfg events).inner.running.lookup j = some v →
      (World.empty.run cfg events).inner.running.lookup k = some v' →
      v.2.overlaps cfg.paths v'.2 = false ∧ v.2.overlaps cfg.paths v'.1 = false ∧
        v.1.overlaps cfg.paths v'.2 = false) ∧
    (∀ j t, (World.empty.run cfg events).inner.task? j = some t → t.status = .running →
      (World.empty.run cfg events).inner.running.lookup j = some (t.op.reads, t.op.writes)) ∧
    ∀ a b : OwnershipSet, a.overlaps cfg.paths b = b.overlaps cfg.paths a := by
  have h := safe_run cfg events
  refine ⟨fun j k v v' hne hv hv' => ?_, h.sound.owns, overlaps_comm cfg.paths⟩
  have hfree := h.sound.disjoint j k v v' hne hv hv'
  simp only [ownersConflict, Bool.or_eq_false_iff] at hfree
  exact ⟨hfree.1.1, hfree.1.2, hfree.2⟩

end Scheduler
