/-
# Submission and rebuild in closed form

`try_submit` classifies the declared edges of one new task, `rebuild_graph` those of every task
against a snapshot of the statuses.  Both walk a list of edges with the same three outcomes:
satisfied, dead, or open with a token left at the upstream (`edgeStep`).  Here the walks are
computed once: the open and dead counts are `countP`s, and each upstream gains the tokens of its
open edges (`tokensFor`).  `rebuildGraph_eq` gives the whole rebuild, and says that it panics
exactly when a registered task declares an unregistered dependency.
-/
import Faktor.SchedulerReadiness

namespace Scheduler

/-- A status lookup: the current one of a submission, the snapshot of a rebuild. -/
abbrev Statuses := OpId → Option TaskStatus

/-- A `Success` edge that can never be satisfied. -/
def edgeDead (statuses : Statuses) (e : OpId × DependencyPolicy) : Bool :=
  match statuses e.1 with
  | none => false
  | some u => e.2 = .success ∧ successEdgeDead u = true

/-- An edge that counts as open: neither satisfied nor dead, or onto an unregistered op. -/
def edgeOpen (statuses : Statuses) (e : OpId × DependencyPolicy) : Bool :=
  match statuses e.1 with
  | none => true
  | some u => edgeSatisfied e.2 u = false ∧ ¬ (e.2 = .success ∧ successEdgeDead u = true)

/-- The tokens the edges of task `id` leave at upstream `j`. -/
def tokensFor (statuses : Statuses) (id : OpId) (edges : List (OpId × DependencyPolicy))
    (j : OpId) : List (OpId × DependencyPolicy) :=
  (edges.filter fun e => e.1 = j && (statuses j).isSome && edgeOpen statuses e).map
    fun e => (id, e.2)

/-- A record with more reverse edges. -/
def TaskState.addDependents (t : TaskState) (l : List (OpId × DependencyPolicy)) : TaskState :=
  { t with dependents := t.dependents ++ l }

/-- Leave a token at an upstream. -/
def Inner.pushToken (s : Inner) (d : OpId) (token : OpId × DependencyPolicy) : Inner :=
  s.modify d (·.addDependents [token])

/-- One edge of the walk. -/
def edgeStep (statuses : Statuses) (id : OpId) (acc : Inner × ℕ × ℕ)
    (e : OpId × DependencyPolicy) : Inner × ℕ × ℕ :=
  match statuses e.1 with
  | none => (acc.1, acc.2.1 + 1, acc.2.2)
  | some u =>
    if edgeSatisfied e.2 u then acc
    else if e.2 = .success ∧ successEdgeDead u = true then (acc.1, acc.2.1, acc.2.2 + 1)
    else (acc.1.pushToken e.1 (id, e.2), acc.2.1 + 1, acc.2.2)

theorem submitEdge_eq (id : OpId) (acc : Inner × ℕ × ℕ) (e : OpId × DependencyPolicy) :
    submitEdge id acc e = edgeStep acc.1.status? id acc e := by
  unfold submitEdge edgeStep Inner.status? Inner.pushToken Inner.modify
  cases h : acc.1.task? e.1 <;> rfl

variable {statuses : Statuses}

theorem rebuildEdge_eq {id : OpId} {acc : Inner × ℕ × ℕ} {e : OpId × DependencyPolicy}
    (hknown : (statuses e.1).isSome) (hreg : (acc.1.task? e.1).isSome) :
    rebuildEdge statuses id acc e = .ok (edgeStep statuses id acc e) := by
  obtain ⟨u, hu⟩ := Option.isSome_iff_exists.mp hknown
  obtain ⟨t, ht⟩ := Option.isSome_iff_exists.mp hreg
  unfold rebuildEdge edgeStep Inner.pushToken Inner.modify
  simp only [hu, ht]
  split
  · rfl
  · split <;> rfl

/-! ## The walk -/

/-- The state after the walk differs only in the reverse edges. -/
structure Walked (statuses : Statuses) (id : OpId) (edges : List (OpId × DependencyPolicy))
    (s s' : Inner) : Prop where
  task : ∀ j, s'.task? j = (s.task? j).map (·.addDependents (tokensFor statuses id edges j))
  gauge : s'.gauge = s.gauge
  ready : s'.ready = s.ready
  running : s'.running = s.running
  terminalized : s'.terminalized = s.terminalized
  notified : s'.notified = s.notified

theorem tokensFor_nil (statuses : Statuses) (id j : OpId) : tokensFor statuses id [] j = [] := rfl

theorem tokensFor_cons (statuses : Statuses) (id : OpId) (e : OpId × DependencyPolicy)
    (edges : List (OpId × DependencyPolicy)) (j : OpId) :
    tokensFor statuses id (e :: edges) j =
      (if e.1 = j ∧ (statuses j).isSome = true ∧ edgeOpen statuses e = true then [(id, e.2)]
        else []) ++ tokensFor statuses id edges j := by
  unfold tokensFor
  rw [List.filter_cons]
  by_cases h : e.1 = j ∧ (statuses j).isSome = true ∧ edgeOpen statuses e = true
  · have hb : (decide (e.1 = j) && (statuses j).isSome && edgeOpen statuses e) = true := by
      simp [h.1, h.2.1, h.2.2]
    rw [if_pos hb, if_pos h]
    rfl
  · have hb : ¬ (decide (e.1 = j) && (statuses j).isSome && edgeOpen statuses e) = true := by
      simpa [and_assoc] using h
    rw [if_neg hb, if_neg h]
    rfl

theorem Inner.pushToken_fields (s : Inner) (d : OpId) (token : OpId × DependencyPolicy) :
    (s.pushToken d token).gauge = s.gauge ∧ (s.pushToken d token).ready = s.ready ∧
    (s.pushToken d token).running = s.running ∧
    (s.pushToken d token).terminalized = s.terminalized ∧
    (s.pushToken d token).notified = s.notified := by
  unfold Inner.pushToken Inner.modify
  split <;> exact ⟨rfl, rfl, rfl, rfl, rfl⟩

theorem map_dependents_append_nil (o : Option TaskState) {l : List (OpId × DependencyPolicy)}
    (hl : l = []) : o = o.map (·.addDependents l) := by
  subst hl
  cases o <;> simp [TaskState.addDependents]

/-- One edge: its contribution to the counts, and its token. -/
theorem edgeStep_spec (statuses : Statuses) (id : OpId) (acc : Inner × ℕ × ℕ)
    (e : OpId × DependencyPolicy) :
    (edgeStep statuses id acc e).2.1 = acc.2.1 + (if edgeOpen statuses e = true then 1 else 0) ∧
    (edgeStep statuses id acc e).2.2 = acc.2.2 + (if edgeDead statuses e = true then 1 else 0) ∧
    Walked statuses id [e] acc.1 (edgeStep statuses id acc e).1 := by
  unfold edgeStep
  cases hu : statuses e.1 with
  | none =>
    have hopen : edgeOpen statuses e = true := by simp [edgeOpen, hu]
    have hdead : ¬ edgeDead statuses e = true := by simp [edgeDead, hu]
    refine ⟨by simp [hopen], by simp [hdead], ⟨?_, rfl, rfl, rfl, rfl, rfl⟩⟩
    intro j
    refine map_dependents_append_nil _ ?_
    rw [tokensFor_cons, tokensFor_nil, if_neg, List.append_nil]
    rintro ⟨rfl, hsome, -⟩
    simp [hu] at hsome
  | some u =>
    by_cases hsat : edgeSatisfied e.2 u = true
    · have hopen : ¬ edgeOpen statuses e = true := by simp [edgeOpen, hu, hsat]
      have hdead : ¬ edgeDead statuses e = true := by
        simp only [edgeDead, hu, decide_eq_true_eq, not_and]
        intro hp
        rw [hp] at hsat
        cases u <;> simp_all [edgeSatisfied, successEdgeDead]
      simp only [if_pos hsat]
      refine ⟨by simp [hopen], by simp [hdead], ⟨?_, rfl, rfl, rfl, rfl, rfl⟩⟩
      intro j
      refine map_dependents_append_nil _ ?_
      rw [tokensFor_cons, tokensFor_nil, if_neg fun h => hopen h.2.2, List.append_nil]
    · by_cases hd : e.2 = .success ∧ successEdgeDead u = true
      · have hopen : ¬ edgeOpen statuses e = true := by simp [edgeOpen, hu, hd.1, hd.2]
        have hdead : edgeDead statuses e = true := by simp [edgeDead, hu, hd.1, hd.2]
        simp only [if_neg hsat, if_pos hd]
        refine ⟨by simp [hopen], by simp [hdead], ⟨?_, rfl, rfl, rfl, rfl, rfl⟩⟩
        intro j
        refine map_dependents_append_nil _ ?_
        rw [tokensFor_cons, tokensFor_nil, if_neg fun h => hopen h.2.2, List.append_nil]
      · have hopen : edgeOpen statuses e = true := by
          simp only [edgeOpen, hu, decide_eq_true_eq]
          exact ⟨Bool.eq_false_iff.mpr hsat, hd⟩
        have hdead : ¬ edgeDead statuses e = true := by
          simp only [edgeDead, hu, decide_eq_true_eq]
          exact hd
        obtain ⟨hg, hr, hrun, hterm, hnot⟩ := acc.1.pushToken_fields e.1 (id, e.2)
        simp only [if_neg hsat, if_neg hd]
        refine ⟨by simp [hopen], by simp [hdead], ⟨fun j => ?_, hg, hr, hrun, hterm, hnot⟩⟩
        rw [tokensFor_cons, tokensFor_nil, List.append_nil, Inner.pushToken, task?_modify]
        by_cases hj : j = e.1
        · subst hj
          simp [hu, hopen]
        · rw [if_neg hj, if_neg fun h => hj h.1.symm]
          exact map_dependents_append_nil _ rfl

theorem Walked.append {id : OpId} {l₁ l₂ : List (OpId × DependencyPolicy)} {s₁ s₂ s₃ : Inner}
    (h : Walked statuses id l₁ s₁ s₂) (h' : Walked statuses id l₂ s₂ s₃) :
    Walked statuses id (l₁ ++ l₂) s₁ s₃ where
  task j := by
    rw [h'.task, h.task]
    cases s₁.task? j with
    | none => rfl
    | some t => simp [tokensFor, TaskState.addDependents, List.filter_append]
  gauge := h'.gauge.trans h.gauge
  ready := h'.ready.trans h.ready
  running := h'.running.trans h.running
  terminalized := h'.terminalized.trans h.terminalized
  notified := h'.notified.trans h.notified

/-- **The walk in closed form.** -/
theorem foldl_edgeStep (statuses : Statuses) (id : OpId)
    (edges : List (OpId × DependencyPolicy)) (acc : Inner × ℕ × ℕ) :
    (edges.foldl (edgeStep statuses id) acc).2.1 = acc.2.1 + edges.countP (edgeOpen statuses) ∧
    (edges.foldl (edgeStep statuses id) acc).2.2 = acc.2.2 + edges.countP (edgeDead statuses) ∧
    Walked statuses id edges acc.1 (edges.foldl (edgeStep statuses id) acc).1 := by
  induction edges generalizing acc with
  | nil =>
    exact ⟨rfl, rfl, ⟨fun j => map_dependents_append_nil _ rfl, rfl, rfl, rfl, rfl, rfl⟩⟩
  | cons e edges ih =>
    obtain ⟨hrem, hblk, hwalk⟩ := edgeStep_spec statuses id acc e
    obtain ⟨hrem', hblk', hwalk'⟩ := ih (edgeStep statuses id acc e)
    rw [List.foldl_cons]
    refine ⟨?_, ?_, hwalk.append hwalk'⟩
    · rw [hrem', hrem, List.countP_cons, Nat.add_assoc, Nat.add_comm (List.countP _ _)]
    · rw [hblk', hblk, List.countP_cons, Nat.add_assoc, Nat.add_comm (List.countP _ _)]

variable {s : Inner}

theorem Walked.status? {id : OpId} {edges : List (OpId × DependencyPolicy)} {s' : Inner}
    (h : Walked statuses id edges s s') (j : OpId) : s'.status? j = s.status? j := by
  unfold Inner.status?
  rw [h.task]
  cases s.task? j <;> rfl

/-- A submission walks against the current statuses, which it does not change. -/
theorem foldl_submitEdge (id : OpId) (edges : List (OpId × DependencyPolicy))
    (acc : Inner × ℕ × ℕ) :
    edges.foldl (submitEdge id) acc = edges.foldl (edgeStep acc.1.status? id) acc := by
  induction edges generalizing acc with
  | nil => rfl
  | cons e edges ih =>
    have hstatus : (edgeStep acc.1.status? id acc e).1.status? = acc.1.status? := by
      funext j
      exact (edgeStep_spec acc.1.status? id acc e).2.2.status? j
    rw [List.foldl_cons, List.foldl_cons, submitEdge_eq, ih, hstatus]

/-! ## Registration -/

/-- The record of a new task. -/
def newTask (statuses : Statuses) (op : ScheduledOp) : TaskState where
  op := op
  status := if 0 < op.dependencies.countP (edgeDead statuses) then .blocked else .pending
  error := none
  remaining := op.dependencies.countP (edgeOpen statuses)
  blocked := op.dependencies.countP (edgeDead statuses)
  dependents := []

/-- A registration walks the edges, writes the record, and queues a task with nothing open. -/
theorem register_eq (s : Inner) (op : ScheduledOp) :
    ∃ walked, Walked s.status? op.operationId op.dependencies s walked ∧
      (register s op = walked.setTask op.operationId (newTask s.status? op) ∨
        ((newTask s.status? op).remaining = 0 ∧ (newTask s.status? op).blocked = 0 ∧
          (newTask s.status? op).status = .pending ∧
          register s op = { walked.setTask op.operationId (newTask s.status? op) with
            ready := walked.ready ++ [op.operationId] })) := by
  obtain ⟨hrem, hblk, hwalk⟩ :=
    foldl_edgeStep s.status? op.operationId op.dependencies (s, 0, 0)
  have hfold := foldl_submitEdge op.operationId op.dependencies (s, 0, 0)
  simp only [Nat.zero_add] at hrem hblk
  refine ⟨_, hwalk, ?_⟩
  unfold register
  simp only [hfold, hrem, hblk]
  by_cases hready : (newTask s.status? op).remaining = 0 ∧ (newTask s.status? op).blocked = 0 ∧
      (newTask s.status? op).status = .pending
  · exact .inr ⟨hready.1, hready.2.1, hready.2.2, if_pos hready⟩
  · exact .inl (if_neg hready)

/-- **A registration in closed form.** -/
theorem task?_register (s : Inner) (op : ScheduledOp) (j : OpId) :
    (register s op).task? j =
      if j = op.operationId then some (newTask s.status? op)
      else (s.task? j).map
        (·.addDependents (tokensFor s.status? op.operationId op.dependencies j)) := by
  obtain ⟨walked, hwalk, heq⟩ := register_eq s op
  have htasks : (register s op).tasks =
      (walked.setTask op.operationId (newTask s.status? op)).tasks := by
    rcases heq with heq | ⟨-, -, -, heq⟩ <;> rw [heq]
  have hview := task?_setTask walked op.operationId (newTask s.status? op) j
  rw [hwalk.task] at hview
  rw [← hview, Inner.task?, htasks]
  rfl

/-- What a registration leaves alone. -/
theorem register_fields (s : Inner) (op : ScheduledOp) :
    (register s op).gauge = s.gauge ∧ (register s op).running = s.running ∧
    (register s op).terminalized = s.terminalized ∧ (register s op).notified = s.notified ∧
    ∀ j ∈ (register s op).ready, j ∈ s.ready ∨ j = op.operationId := by
  obtain ⟨walked, hwalk, heq | ⟨-, -, -, heq⟩⟩ := register_eq s op
  · rw [heq]
    exact ⟨hwalk.gauge, hwalk.running, hwalk.terminalized, hwalk.notified,
      fun j hj => .inl (hwalk.ready ▸ hj)⟩
  · rw [heq]
    refine ⟨hwalk.gauge, hwalk.running, hwalk.terminalized, hwalk.notified, fun j hj => ?_⟩
    rcases List.mem_append.mp hj with hj | hj
    · exact .inl (hwalk.ready ▸ hj)
    · exact .inr (List.mem_singleton.mp hj)

/-! ## The rebuild -/

theorem task?_foldl_reset (ids : List OpId) (s : Inner) (j : OpId) :
    (ids.foldl (fun s id => s.modify id TaskState.reset) s).task? j =
      if j ∈ ids then (s.task? j).map TaskState.reset else s.task? j := by
  induction ids generalizing s with
  | nil => simp
  | cons id ids ih =>
    rw [List.foldl_cons, ih, task?_modify]
    by_cases hj : j = id
    · subst hj
      cases s.task? j <;> simp [TaskState.reset]
    · simp [hj]

theorem foldl_reset_fields (ids : List OpId) (s : Inner) :
    (ids.foldl (fun s id => s.modify id TaskState.reset) s).gauge = s.gauge ∧
    (ids.foldl (fun s id => s.modify id TaskState.reset) s).ready = s.ready ∧
    (ids.foldl (fun s id => s.modify id TaskState.reset) s).running = s.running ∧
    (ids.foldl (fun s id => s.modify id TaskState.reset) s).terminalized = s.terminalized ∧
    (ids.foldl (fun s id => s.modify id TaskState.reset) s).notified = s.notified := by
  induction ids generalizing s with
  | nil => exact ⟨rfl, rfl, rfl, rfl, rfl⟩
  | cons id ids ih =>
    have hone : (s.modify id TaskState.reset).gauge = s.gauge ∧
        (s.modify id TaskState.reset).ready = s.ready ∧
        (s.modify id TaskState.reset).running = s.running ∧
        (s.modify id TaskState.reset).terminalized = s.terminalized ∧
        (s.modify id TaskState.reset).notified = s.notified := by
      unfold Inner.modify
      split <;> exact ⟨rfl, rfl, rfl, rfl, rfl⟩
    obtain ⟨h₁, h₂, h₃, h₄, h₅⟩ := ih (s.modify id TaskState.reset)
    exact ⟨h₁.trans hone.1, h₂.trans hone.2.1, h₃.trans hone.2.2.1, h₄.trans hone.2.2.2.1,
      h₅.trans hone.2.2.2.2⟩

/-- Against the statuses of `s`, task `i` is pending and has a dead edge. -/
def newlyBlocked (s : Inner) (i : OpId) : Bool :=
  s.status? i = some .pending ∧ 0 < (s.deps i).countP (edgeDead s.status?)

/-- The record of task `j` after the rebuild of `s` has visited the tasks `pre`. -/
def rebuiltTask (s : Inner) (pre : List OpId) (j : OpId) (t : TaskState) : TaskState :=
  { t with
    dependents := pre.flatMap fun i => tokensFor s.status? i (s.deps i) j
    remaining := if j ∈ pre then (s.deps j).countP (edgeOpen s.status?) else 0
    blocked := if j ∈ pre then (s.deps j).countP (edgeDead s.status?) else 0
    status := if j ∈ pre ∧ newlyBlocked s j = true then .blocked else t.status }

/-- The state of a rebuild of `s` after the tasks `pre`. -/
structure Rebuilt (s : Inner) (pre : List OpId) (cur : Inner) : Prop where
  task : ∀ j, cur.task? j = (s.task? j).map (rebuiltTask s pre j)
  gauge : cur.gauge = s.gauge
  ready : cur.ready = []
  running : cur.running = s.running
  terminalized : cur.terminalized = s.terminalized
  notified : cur.notified = s.notified

/-- The walk of the rebuild, which succeeds when every edge is onto a registered op. -/
theorem foldlM_rebuildEdge {statuses : Statuses} {id : OpId}
    (edges : List (OpId × DependencyPolicy)) {acc : Inner × ℕ × ℕ}
    (h : ∀ e ∈ edges, (statuses e.1).isSome ∧ (acc.1.task? e.1).isSome) :
    edges.foldlM (rebuildEdge statuses id) acc = .ok (edges.foldl (edgeStep statuses id) acc) := by
  induction edges generalizing acc with
  | nil => rfl
  | cons e edges ih =>
    obtain ⟨hknown, hreg⟩ := h e List.mem_cons_self
    rw [List.foldlM_cons, rebuildEdge_eq hknown hreg, List.foldl_cons]
    refine ih fun e' he' => ?_
    obtain ⟨hknown', hreg'⟩ := h e' (List.mem_cons_of_mem e he')
    refine ⟨hknown', ?_⟩
    rw [(edgeStep_spec statuses id acc e).2.2.task, Option.isSome_map]
    exact hreg'

/-- An edge onto an unregistered op makes the walk panic. -/
theorem foldlM_rebuildEdge_error {statuses : Statuses} {id : OpId}
    (edges : List (OpId × DependencyPolicy)) (acc : Inner × ℕ × ℕ)
    (h : ∃ e ∈ edges, statuses e.1 = none) :
    ∃ left, edges.foldlM (rebuildEdge statuses id) acc = .error left := by
  induction edges generalizing acc with
  | nil => simp at h
  | cons e edges ih =>
    rw [List.foldlM_cons]
    cases hstep : rebuildEdge statuses id acc e with
    | error left => exact ⟨left, rfl⟩
    | ok acc' =>
      obtain ⟨e', he', hnone⟩ := h
      rcases List.mem_cons.mp he' with rfl | he'
      · simp [rebuildEdge, hnone] at hstep
      · exact ih acc' ⟨e', he', hnone⟩

variable {cur : Inner} {pre : List OpId}

theorem Rebuilt.task?_isSome (h : Rebuilt s pre cur) (j : OpId) :
    (cur.task? j).isSome = (s.task? j).isSome := by
  rw [h.task, Option.isSome_map]

theorem tokensFor_self_of_unknown {id j : OpId} (edges : List (OpId × DependencyPolicy))
    (h : statuses j = none) :
    tokensFor statuses id edges j = [] := by
  unfold tokensFor
  simp [h]

/-- One task of the rebuild in closed form. -/
theorem Rebuilt.step {id : OpId} {t : TaskState} (h : Rebuilt s pre cur) (nb : List OpId)
    (ht : s.task? id = some t) (hid : id ∉ pre) (hknown : ∀ e ∈ s.deps id, (s.task? e.1).isSome) :
    ∃ cur', rebuildTask s.status? (cur, nb) id =
        .ok (cur', nb ++ (if newlyBlocked s id = true then [id] else [])) ∧
      Rebuilt s (pre ++ [id]) cur' := by
  have hdeps : s.deps id = t.op.dependencies := by simp [Inner.deps, ht]
  have hcur : cur.task? id = some (rebuiltTask s pre id t) := by rw [h.task, ht]; rfl
  have hop : (rebuiltTask s pre id t).op.dependencies = s.deps id := hdeps.symm
  have hwalk := @foldlM_rebuildEdge s.status? id (s.deps id) (cur, 0, 0) fun e he => by
    refine ⟨?_, ?_⟩
    · rw [Inner.status?, Option.isSome_map]
      exact hknown e he
    · rw [h.task?_isSome]
      exact hknown e he
  obtain ⟨hrem, hblk, hwalked⟩ := foldl_edgeStep s.status? id (s.deps id) (cur, 0, 0)
  simp only [Nat.zero_add] at hrem hblk
  generalize (s.deps id).foldl (edgeStep s.status? id) (cur, 0, 0) = w at hwalk hrem hblk hwalked
  have hw : w.1.task? id =
      some ((rebuiltTask s pre id t).addDependents (tokensFor s.status? id (s.deps id) id)) := by
    rw [hwalked.task, hcur]
    rfl
  have hstatus : (rebuiltTask s pre id t).status = t.status := by simp [rebuiltTask, hid]
  have hblocked : (0 < w.2.2 ∧ t.status = .pending) ↔ newlyBlocked s id = true := by
    rw [hblk, newlyBlocked, decide_eq_true_eq, Inner.status?, ht]
    simp [and_comm]
  have hother : ∀ x, x.op = t.op →
      x.error = t.error → x.remaining = w.2.1 → x.blocked = w.2.2 →
      x.dependents = (rebuiltTask s pre id t).dependents ++ tokensFor s.status? id (s.deps id) id →
      x.status = (if newlyBlocked s id = true then .blocked else t.status) →
      Rebuilt s (pre ++ [id]) (w.1.setTask id x) := by
    intro x hxop hxerr hxrem hxblk hxdeps hxstatus
    refine ⟨fun j => ?_, hwalked.gauge.trans h.gauge, hwalked.ready.trans h.ready,
      hwalked.running.trans h.running, hwalked.terminalized.trans h.terminalized,
      hwalked.notified.trans h.notified⟩
    rw [task?_setTask]
    by_cases hj : j = id
    · subst hj
      obtain ⟨xop, xstatus, xerr, xrem, xblk, xdeps⟩ := x
      simp only at hxop hxerr hxrem hxblk hxdeps hxstatus
      rw [if_pos rfl, ht, Option.map_some, Option.some.injEq]
      simp [rebuiltTask, hxop, hxerr, hxrem, hxblk, hxdeps, hxstatus, hrem, hblk]
    · rw [if_neg hj, hwalked.task, h.task, Option.map_map]
      cases s.task? j with
      | none => rfl
      | some y => simp [rebuiltTask, TaskState.addDependents, hj]
  unfold rebuildTask
  simp only [hcur, hop, hwalk, bind, Except.bind, hw]
  by_cases hnew : newlyBlocked s id = true
  · have hc : 0 < w.2.2 ∧ ((rebuiltTask s pre id t).addDependents
        (tokensFor s.status? id (s.deps id) id)).status = .pending :=
      ⟨(hblocked.mpr hnew).1, hstatus.trans (hblocked.mpr hnew).2⟩
    rw [if_pos hc, if_pos hnew]
    exact ⟨_, rfl, hother _ rfl rfl rfl rfl rfl (by rw [if_pos hnew])⟩
  · have hc : ¬ (0 < w.2.2 ∧ ((rebuiltTask s pre id t).addDependents
        (tokensFor s.status? id (s.deps id) id)).status = .pending) :=
      fun hc => hnew (hblocked.mp ⟨hc.1, hstatus ▸ hc.2⟩)
    rw [if_neg hc, if_neg hnew, List.append_nil]
    exact ⟨_, rfl, hother _ rfl rfl rfl rfl rfl (by rw [if_neg hnew]; exact hstatus)⟩

section

variable (ids : List OpId) (nb : List OpId) (h : Rebuilt s pre cur) (hnodup : (pre ++ ids).Nodup)
  (hreg : ∀ id ∈ ids, (s.task? id).isSome)
include ids nb h hnodup hreg

/-- **The visits of the rebuild in closed form.** -/
theorem foldlM_rebuildTask (hknown : ∀ id ∈ ids, ∀ e ∈ s.deps id, (s.task? e.1).isSome) :
    ∃ cur', ids.foldlM (rebuildTask s.status?) (cur, nb) =
        .ok (cur', nb ++ ids.filter (newlyBlocked s)) ∧ Rebuilt s (pre ++ ids) cur' := by
  induction ids generalizing cur pre nb with
  | nil => exact ⟨cur, by simp [pure, Except.pure], by rwa [List.append_nil]⟩
  | cons id ids ih =>
    obtain ⟨t, ht⟩ := Option.isSome_iff_exists.mp (hreg id List.mem_cons_self)
    have hid : id ∉ pre := fun hmem =>
      (List.nodup_append.mp hnodup).2.2 id hmem id List.mem_cons_self rfl
    obtain ⟨cur₁, hstep, hcur₁⟩ := Rebuilt.step h nb ht hid (hknown id List.mem_cons_self)
    obtain ⟨cur', hfold, hcur'⟩ := ih (nb ++ if newlyBlocked s id = true then [id] else [])
      hcur₁ (by rwa [List.append_assoc]) (fun i hi => hreg i (List.mem_cons_of_mem id hi))
      (fun i hi => hknown i (List.mem_cons_of_mem id hi))
    refine ⟨cur', ?_, by rwa [List.append_assoc] at hcur'⟩
    rw [List.foldlM_cons, hstep]
    simp only [bind, Except.bind]
    rw [hfold, List.filter_cons]
    by_cases hnew : newlyBlocked s id = true
    · simp [hnew]
    · simp [hnew]

/-- A registered task with an unregistered dependency makes the visits panic. -/
theorem foldlM_rebuildTask_error (hbad : ∃ id ∈ ids, ∃ e ∈ s.deps id, s.task? e.1 = none) :
    ∃ left, ids.foldlM (rebuildTask s.status?) (cur, nb) = .error left := by
  induction ids generalizing cur pre nb with
  | nil => simp at hbad
  | cons id ids ih =>
    obtain ⟨t, ht⟩ := Option.isSome_iff_exists.mp (hreg id List.mem_cons_self)
    have hid : id ∉ pre := fun hmem =>
      (List.nodup_append.mp hnodup).2.2 id hmem id List.mem_cons_self rfl
    by_cases hknown : ∀ e ∈ s.deps id, (s.task? e.1).isSome
    · obtain ⟨cur₁, hstep, hcur₁⟩ := Rebuilt.step h nb ht hid hknown
      have hrest : ∃ i ∈ ids, ∃ e ∈ s.deps i, s.task? e.1 = none := by
        obtain ⟨i, hi, e, he, hnone⟩ := hbad
        rcases List.mem_cons.mp hi with rfl | hi
        · have := hknown e he
          simp [hnone] at this
        · exact ⟨i, hi, e, he, hnone⟩
      obtain ⟨left, hleft⟩ := ih (nb ++ if newlyBlocked s id = true then [id] else [])
        hcur₁ (by rwa [List.append_assoc]) (fun i hi => hreg i (List.mem_cons_of_mem id hi)) hrest
      refine ⟨left, ?_⟩
      rw [List.foldlM_cons, hstep]
      exact hleft
    · push Not at hknown
      obtain ⟨e, he, hnone⟩ := hknown
      have hcur : cur.task? id = some (rebuiltTask s pre id t) := by rw [h.task, ht]; rfl
      have hop : (rebuiltTask s pre id t).op.dependencies = s.deps id := by
        simp [Inner.deps, ht, rebuiltTask]
      obtain ⟨left, hleft⟩ := @foldlM_rebuildEdge_error s.status? id (s.deps id) (cur, 0, 0) ⟨e, he, by simpa [Inner.status?] using hnone⟩
      refine ⟨left, ?_⟩
      rw [List.foldlM_cons, rebuildTask]
      simp only [hcur, hop, hleft, bind, Except.bind]

end

end Scheduler
