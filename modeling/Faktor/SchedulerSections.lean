/-
# The locked sections keep the open counts

`Counted` is the law of `SchedulerGraph.lean` for some tokens.  Every section that does not
panic keeps it: the status writes of `mark`, `try_cancel` and a settled lease, the drain pass,
a registration, and a rebuild over registered dependencies.  The last one needs no invariant at
all, since it counts from scratch.
-/
import Faktor.SchedulerEdges

namespace Scheduler

/-- The open counts are right for some tokens. -/
def Counted (s : Inner) : Prop := ∃ tok, TokInv s tok

variable {tok : Tokens}

/-- The invariant reads the task records only. -/
theorem TokInv.of_task? {s s' : Inner} (h : TokInv s tok)
    (htask : ∀ j, s'.task? j = s.task? j) : TokInv s' tok := by
  refine ⟨h.graph.congr fun j => ⟨?_, ?_, ?_⟩, fun j hj => ?_⟩
  · rw [Inner.deps, htask, Inner.deps]
  · rw [Inner.status?, htask, Inner.status?]
  · rw [Inner.remaining, htask, Inner.remaining]
  · rw [Inner.status?, htask] at hj
    rw [Inner.dependents, htask]
    exact h.live j hj

theorem Counted.of_task? {s s' : Inner} (h : Counted s) (htask : ∀ j, s'.task? j = s.task? j) :
    Counted s' := by
  obtain ⟨tok, htok⟩ := h
  exact ⟨tok, htok.of_task? htask⟩

/-! ## Status writes -/

/-- A task that is not terminal leaves its state for one other than pending. -/
theorem TokInv.setStatus {s : Inner} (h : TokInv s tok) {id : OpId}
    {t x : TaskState} (ht : s.task? id = some t) (hlive : statusIsTerminal t.status = false)
    (hop : x.op = t.op) (hdeps : x.dependents = t.dependents)
    (hstatus : x.status ≠ .pending) : TokInv (s.setTask id x) tok := by
  have hview : ∀ j, (s.setTask id x).deps j = s.deps j ∧
      (s.setTask id x).dependents j = s.dependents j := by
    intro j
    unfold Inner.deps Inner.dependents
    rw [task?_setTask]
    split
    · rename_i hj
      subst hj
      simp [ht, hop, hdeps]
    · exact ⟨rfl, rfl⟩
  have hother : ∀ j, j ≠ id → (s.setTask id x).task? j = s.task? j := fun j hj => by
    rw [task?_setTask, if_neg hj]
  have hsat : ∀ e, s.sat e = true → (s.setTask id x).sat e = true := by
    intro e he
    obtain ⟨u, hu, hsat⟩ := sat_eq_true.mp he
    have hne : e.1 ≠ id := by
      intro heq
      rw [heq, Inner.status?, ht, Option.map_some, Option.some.injEq] at hu
      rw [hu, terminal_of_edgeSatisfied hsat] at hlive
      cases hlive
    exact sat_eq_true.mpr ⟨u, by rw [Inner.status?, hother _ hne]; exact hu, hsat⟩
  refine ⟨⟨fun d j p => ?_, fun j hj => ?_⟩, fun j hj => ?_⟩
  · rw [(hview j).1]
    exact h.graph.count_le d j p
  · have hne : j ≠ id := by
      rintro rfl
      rw [Inner.status?, task?_setTask, if_pos rfl] at hj
      exact hstatus (Option.some.inj hj)
    rw [Inner.status?, hother j hne] at hj
    rw [Inner.remaining, hother j hne]
    exact (owed_le_of_le (hview j).1 hsat (fun _ _ => le_rfl)
      fun d p => h.graph.count_le d j p).trans (h.graph.bound j hj)
  · rw [(hview j).2]
    by_cases hne : j = id
    · subst hne
      refine h.live j ?_
      rw [Inner.status?, ht, Option.map_some]
      intro hblocked
      rw [Option.some.inj hblocked] at hlive
      cases hlive
    · rw [Inner.status?, hother j hne] at hj
      exact h.live j hj

/-- The statuses `execute_inner` and a settled lease record. -/
theorem counted_mark {s : Inner} (h : Counted s) (id : OpId) {status : TaskStatus}
    (hstatus : status ≠ .pending) (error : Option String) : Counted (mark s id status error) := by
  unfold mark Inner.modify
  cases ht : s.task? id with
  | none => exact h
  | some t =>
    obtain ⟨tok, htok⟩ := h
    by_cases hterm : statusIsTerminal t.status = true
    · refine ⟨tok, htok.of_task? fun j => ?_⟩
      simp only [hterm, if_true]
      rw [task?_setTask]
      split
      · rename_i hj
        rw [hj, ht]
      · rfl
    · simp only [hterm]
      exact ⟨tok, htok.setStatus ht (Bool.eq_false_iff.mpr hterm) rfl rfl hstatus⟩

/-- Terminalizing an op that ended other than blocked. -/
theorem counted_terminalize {s s' : Inner} (h : Counted s) {id : OpId} {u : TaskStatus}
    (hu : s.status? id = some u) (hterm : statusIsTerminal u = true) (hne : u ≠ .blocked)
    (hres : terminalize s id = .ok s') : Counted s' := by
  obtain ⟨tok, htok⟩ := h
  have hlive : tok id = s.dependents id := htok.live id (by rw [hu]; simpa using hne)
  obtain ⟨tok', htok', -⟩ := terminalize_tokInv htok hlive hu hterm hres
  exact ⟨tok', htok'⟩

/-- An accepted cancellation: a pending task flips and is terminalized, a running one is left to
its token. -/
theorem tryCancel_cases {s : Inner} {id : OpId} {l : Locked} (h : tryCancel s id = .ok l) :
    ∃ t, s.task? id = some t ∧
      ((t.status = .pending ∧ l = terminalize (s.setTask id { t with status := .cancelled }) id) ∨
        (t.status = .running ∧ l = .ok s)) := by
  unfold tryCancel at h
  cases ht : s.task? id with
  | none => simp [ht] at h
  | some t =>
    refine ⟨t, rfl, ?_⟩
    simp only [ht] at h
    split at h
    · cases h
    · rename_i hterm
      split at h
      · rename_i hp
        exact .inl ⟨hp, (Except.ok.inj h).symm⟩
      · rename_i hp
        refine .inr ⟨?_, (Except.ok.inj h).symm⟩
        cases hs : t.status <;> simp_all [statusIsTerminal]

theorem counted_tryCancel {s s' : Inner} (h : Counted s) {id : OpId}
    (hres : tryCancel s id = .ok (.ok s')) : Counted s' := by
  obtain ⟨t, ht, ⟨hp, hl⟩ | ⟨-, hl⟩⟩ := tryCancel_cases hres
  · obtain ⟨tok, htok⟩ := h
    have hset : TokInv (s.setTask id { t with status := .cancelled }) tok :=
      htok.setStatus ht (by rw [hp]; rfl) rfl rfl (by simp)
    have hstatus : (s.setTask id { t with status := .cancelled }).status? id =
        some .cancelled := by simp [Inner.status?]
    exact counted_terminalize ⟨tok, hset⟩ hstatus rfl (by decide) hl.symm
  · rw [Except.ok.inj hl]
    exact h

variable {permit : Bool}

/-- A settlement without panic: the gauge after the permit was given back, then the task
cancelled if it was still running, then terminalized. -/
theorem settle_cases {s s' : Inner} {id : OpId} {cls : ResourceClass}
    (h : settle s id cls permit = .ok s') :
    ∃ gauge, (if permit then s.gauge.release cls else some s.gauge) = some gauge ∧
      terminalize (({ s with gauge := gauge } : Inner).modify id TaskState.cancelRunning) id =
        .ok s' := by
  unfold settle at h
  cases permit with
  | false => exact ⟨s.gauge, rfl, h⟩
  | true =>
    simp only [if_true, Inner.release] at h ⊢
    cases hg : s.gauge.release cls with
    | none => simp [hg] at h
    | some gauge => exact ⟨gauge, rfl, by simpa [hg] using h⟩

/-- Settling the lease of a task that has started. -/
theorem counted_settle {s s' : Inner} (h : Counted s) {id : OpId} {cls : ResourceClass} {u : TaskStatus} (hu : s.status? id = some u) (hp : u ≠ .pending)
    (hb : u ≠ .blocked) (hres : settle s id cls permit = .ok s') : Counted s' := by
  obtain ⟨gauge, -, hres⟩ := settle_cases hres
  obtain ⟨t, ht, hst⟩ := Option.map_eq_some_iff.mp hu
  have ht' : ({ s with gauge := gauge } : Inner).task? id = some t := ht
  obtain ⟨tok, htok⟩ := @Counted.of_task? s { s with gauge := gauge } h fun _ => rfl
  rw [Inner.modify, ht'] at hres
  by_cases hrun : t.status = .running
  · have hset : TokInv (Inner.setTask { s with gauge := gauge } id t.cancelRunning) tok :=
      htok.setStatus ht' (by rw [hrun]; rfl) (by simp [TaskState.cancelRunning, hrun])
        (by simp [TaskState.cancelRunning, hrun]) (by simp [TaskState.cancelRunning, hrun])
    have hstatus : (Inner.setTask { s with gauge := gauge } id t.cancelRunning).status? id =
        some .cancelled := by simp [Inner.status?, TaskState.cancelRunning, hrun]
    exact counted_terminalize ⟨tok, hset⟩ hstatus rfl (by decide) hres
  · have hsame : t.cancelRunning = t := by simp [TaskState.cancelRunning, hrun]
    simp only [hsame] at hres
    have hset : TokInv (Inner.setTask { s with gauge := gauge } id t) tok := by
      refine htok.of_task? fun j => ?_
      rw [task?_setTask]
      split
      · rename_i hj
        rw [hj, ht']
      · rfl
    have hstatus : (Inner.setTask { s with gauge := gauge } id t).status? id = some u := by
      simp [Inner.status?, hst]
    refine counted_terminalize ⟨tok, hset⟩ hstatus ?_ hb hres
    rw [hst] at hrun
    cases u <;> first | rfl | exact absurd rfl hp | exact absurd rfl hrun

/-! ## Counting walked edges -/

/-- The tokens of one walk, counted: one per declaration of an open edge onto a known op. -/
theorem count_tokensFor (statuses : Statuses) (i : OpId) (edges : List (OpId × DependencyPolicy))
    (d t : OpId) (p : DependencyPolicy) :
    (tokensFor statuses i edges d).count (t, p) =
      if i = t ∧ (statuses d).isSome = true ∧ edgeOpen statuses (d, p) = true
      then edges.count (d, p) else 0 := by
  induction edges with
  | nil => simp [tokensFor_nil]
  | cons e edges ih =>
    obtain ⟨d', p'⟩ := e
    rw [tokensFor_cons, List.count_append, ih, List.count_cons]
    by_cases hc : i = t ∧ (statuses d).isSome = true ∧ edgeOpen statuses (d, p) = true
    · rw [if_pos hc, if_pos hc]
      by_cases he : (d', p') = (d, p)
      · obtain ⟨rfl, rfl⟩ := Prod.mk.inj he
        rw [if_pos ⟨rfl, hc.2.1, hc.2.2⟩, hc.1]
        simp [Nat.add_comm]
      · have hzero : List.count (t, p) (if d' = d ∧ (statuses d).isSome = true ∧
            edgeOpen statuses (d', p') = true then [(i, p')] else []) = 0 := by
          split
          · rename_i h
            rw [List.count_eq_zero]
            intro hmem
            obtain ⟨-, hp⟩ := Prod.mk.inj (List.mem_singleton.mp hmem)
            exact he (Prod.ext h.1 hp.symm)
          · rfl
        simp [hzero, he]
    · rw [if_neg hc, if_neg hc, Nat.add_zero]
      split
      · rename_i h
        rw [List.count_eq_zero]
        intro hmem
        obtain ⟨ht, hp⟩ := Prod.mk.inj (List.mem_singleton.mp hmem)
        refine hc ⟨ht.symm, h.2.1, ?_⟩
        rw [← h.1, hp]
        exact h.2.2
      · rfl

/-- What is owed to a task whose held edges are exactly the open ones, counted with their
declarations. -/
theorem owed_eq_countP {s : Inner} {t : OpId} (q : OpId × DependencyPolicy → Bool)
    (h : ∀ e ∈ s.deps t, held s tok t e = if q e = true then (s.deps t).count e else 0) :
    owed s tok t = (s.deps t).countP q := by
  unfold owed
  have hcount := Finset.sum_filter_count_eq_countP (fun e => q e = true) (s.deps t)
  rw [Finset.sum_congr rfl fun e he => h e (List.mem_toFinset.mp he), ← Finset.sum_filter]
  convert hcount using 2
  · exact congrArg (fun inst => @List.count _ inst _ (s.deps t)) (lawful_beq_subsingleton _ _)
  · simp

/-- Without a dead edge, an edge is open exactly when it is not satisfied. -/
theorem edgeOpen_eq_not_sat {s : Inner} {e : OpId × DependencyPolicy}
    (h : edgeDead s.status? e = false) : edgeOpen s.status? e = !s.sat e := by
  unfold edgeOpen edgeDead Inner.sat at *
  cases hu : s.status? e.1 with
  | none => simp
  | some u =>
    simp only [hu, decide_eq_false_iff_not] at h
    cases hsat : edgeSatisfied e.2 u <;> simp [h]

/-! ## Registration -/

/-- Tokens after a registration: the new op has none, every upstream keeps its own and gains
those of the new op's open edges. -/
def registeredTokens (s : Inner) (tok : Tokens) (op : ScheduledOp) : Tokens := fun j =>
  if j = op.operationId then []
  else tok j ++ tokensFor s.status? op.operationId op.dependencies j

theorem status?_register (s : Inner) (op : ScheduledOp) (j : OpId) :
    (register s op).status? j =
      if j = op.operationId then some (newTask s.status? op).status else s.status? j := by
  unfold Inner.status?
  rw [task?_register]
  split
  · rfl
  · cases s.task? j <;> rfl

theorem deps_register (s : Inner) (op : ScheduledOp) (j : OpId) :
    (register s op).deps j = if j = op.operationId then op.dependencies else s.deps j := by
  unfold Inner.deps
  rw [task?_register]
  split
  · rfl
  · cases s.task? j <;> rfl

variable {op : ScheduledOp}

/-- A registration keeps the law; the new task owes exactly its open count. -/
theorem tokInv_register {s : Inner} (h : TokInv s tok)
    (hnew : s.task? op.operationId = none) :
    TokInv (register s op) (registeredTokens s tok op) := by
  have hnodeps : s.deps op.operationId = [] := by simp [Inner.deps, hnew]
  have hnone : ∀ d p, (tok d).count (op.operationId, p) = 0 := fun d p => by
    have := h.graph.count_le d op.operationId p
    rw [hnodeps, List.count_nil] at this
    omega
  have hunknown : s.status? op.operationId = none := by simp [Inner.status?, hnew]
  have hsat : ∀ e, e.1 ≠ op.operationId → (register s op).sat e = s.sat e := fun e he => by
    unfold Inner.sat
    rw [status?_register, if_neg he]
  have hcount : ∀ d t p, (registeredTokens s tok op d).count (t, p) =
      if d = op.operationId then 0 else (tok d).count (t, p) +
        if op.operationId = t ∧ (s.status? d).isSome = true ∧ edgeOpen s.status? (d, p) = true
        then op.dependencies.count (d, p) else 0 := by
    intro d t p
    unfold registeredTokens
    split
    · rfl
    · rw [List.count_append, count_tokensFor]
  refine ⟨⟨fun d t p => ?_, fun t ht => ?_⟩, fun j hj => ?_⟩
  · rw [hcount, deps_register]
    split
    · exact Nat.zero_le _
    · by_cases ht : t = op.operationId
      · subst ht
        rw [hnone, Nat.zero_add, if_pos rfl]
        split
        · exact le_rfl
        · exact Nat.zero_le _
      · rw [if_neg (fun hc => ht hc.1.symm), if_neg ht, Nat.add_zero]
        exact h.graph.count_le d t p
  · by_cases hid : t = op.operationId
    · subst hid
      rw [status?_register, if_pos rfl] at ht
      have hdead : op.dependencies.countP (edgeDead s.status?) = 0 := by
        by_contra hpos
        simp [newTask, Nat.pos_of_ne_zero hpos] at ht
      have hrem : (register s op).remaining op.operationId =
          op.dependencies.countP (edgeOpen s.status?) := by
        simp [Inner.remaining, task?_register, newTask]
      have hdeps : (register s op).deps op.operationId = op.dependencies := by
        rw [deps_register, if_pos rfl]
      rw [hrem, ← hdeps]
      refine le_of_eq (owed_eq_countP (edgeOpen s.status?) fun e he => ?_)
      rw [hdeps] at he ⊢
      have hedead : edgeDead s.status? e = false :=
        Bool.eq_false_iff.mpr (List.countP_eq_zero.mp hdead e he)
      unfold held
      rw [hdeps, hcount]
      by_cases hself : e.1 = op.operationId
      · have hopen : edgeOpen s.status? e = true := by simp [edgeOpen, hself, hunknown]
        have hunsat : (register s op).sat e = false := by
          have hpending := Option.some.inj ht
          rw [Inner.sat, hself, status?_register, if_pos rfl, hpending]
          cases e.2 <;> rfl
        simp [hopen, hunsat]
      · rw [hsat e hself, edgeOpen_eq_not_sat hedead, if_neg hself, hnone, Nat.zero_add]
        cases hs : s.sat e with
        | true => simp
        | false => simp
    · rw [status?_register, if_neg hid] at ht
      have hrem : (register s op).remaining t = s.remaining t := by
        unfold Inner.remaining
        rw [task?_register, if_neg hid]
        cases s.task? t <;> rfl
      rw [hrem]
      refine le_trans (owed_le_of_le ?_ ?_ ?_ ?_) (h.graph.bound t ht)
      · rw [deps_register, if_neg hid]
      · intro e he
        by_cases hself : e.1 = op.operationId
        · simp [Inner.sat, hself, hunknown] at he
        · rw [hsat e hself]
          exact he
      · intro d p
        rw [hcount]
        split
        · exact Nat.zero_le _
        · rw [if_neg fun hc => hid hc.1.symm, Nat.add_zero]
      · exact fun d p => h.graph.count_le d t p
  · unfold registeredTokens Inner.dependents
    rw [task?_register]
    by_cases hid : j = op.operationId
    · simp [hid, newTask]
    · rw [status?_register, if_neg hid] at hj
      rw [if_neg hid, if_neg hid, h.live j hj, Inner.dependents]
      cases hjt : s.task? j with
      | none =>
        rw [tokensFor_self_of_unknown]
        · rfl
        · simp [Inner.status?, hjt]
      | some x => rfl

theorem trySubmit_cases {s s' : Inner} (h : trySubmit s op = .ok s') :
    s' = s ∨ (s.task? op.operationId = none ∧ s' = register s op) := by
  unfold trySubmit at h
  simp only at h
  split at h
  · cases h
  · split at h
    · cases h
    · split at h
      · split at h
        · exact .inl (Except.ok.inj h).symm
        · cases h
      · rename_i hnone
        split at h
        · cases h
        · exact .inr ⟨hnone, (Except.ok.inj h).symm⟩

/-! ## The rebuild -/

/-- An iteration order of the task map. -/
structure IsOrder (s : Inner) (ids : List OpId) : Prop where
  nodup : ids.Nodup
  mem_iff : ∀ id, id ∈ ids ↔ (s.task? id).isSome

/-- The map's keys in any order. -/
theorem isOrder_of_perm {s : Inner} {ids : List OpId} (h : ids.Perm s.tasks.keys) :
    IsOrder s ids where
  nodup := h.nodup_iff.mpr s.tasks.nodupKeys
  mem_iff id := by
    rw [h.mem_iff, Inner.task?, AList.lookup_isSome]
    rfl

/-- Every declared dependency is registered. -/
def DepsRegistered (s : Inner) : Prop := ∀ id, ∀ e ∈ s.deps id, (s.task? e.1).isSome

/-- A sum over distinct keys with one nonzero term. -/
theorem sum_ite_eq_of_nodup {ids : List OpId} (h : ids.Nodup) (t : OpId) (c : OpId → ℕ) :
    (ids.map fun i => if i = t then c i else 0).sum = if t ∈ ids then c t else 0 := by
  induction ids with
  | nil => rfl
  | cons i ids ih =>
    obtain ⟨hnot, hnodup⟩ := List.nodup_cons.mp h
    rw [List.map_cons, List.sum_cons, ih hnodup]
    by_cases hi : i = t
    · subst hi
      simp [hnot]
    · have hi' : t ≠ i := fun he => hi he.symm
      simp [hi, hi']

section Rebuild

variable {s cur : Inner} {ids : List OpId}

section

variable (h : Rebuilt s ids cur)
include h

theorem Rebuilt.deps (j : OpId) : cur.deps j = s.deps j := by
  unfold Inner.deps
  rw [h.task]
  cases s.task? j <;> rfl

theorem Rebuilt.status? (horder : IsOrder s ids) (j : OpId) :
    cur.status? j = if newlyBlocked s j = true then some .blocked else s.status? j := by
  have hmem : newlyBlocked s j = true → j ∈ ids := by
    intro hnew
    rw [newlyBlocked, decide_eq_true_eq] at hnew
    rw [horder.mem_iff]
    have hsome := congrArg Option.isSome hnew.1
    rwa [Inner.status?, Option.isSome_map] at hsome
  unfold Inner.status? at *
  rw [h.task]
  by_cases hnew : newlyBlocked s j = true
  · obtain ⟨t, ht⟩ := Option.isSome_iff_exists.mp ((horder.mem_iff j).mp (hmem hnew))
    simp [ht, rebuiltTask, hnew, hmem hnew]
  · cases s.task? j with
    | none => simp [hnew]
    | some t => simp [rebuiltTask, hnew]

theorem Rebuilt.remaining (horder : IsOrder s ids) (j : OpId) :
    cur.remaining j = (s.deps j).countP (edgeOpen s.status?) := by
  unfold Inner.remaining
  rw [h.task]
  cases hj : s.task? j with
  | none => simp [Inner.deps, hj]
  | some t =>
    have hmem : j ∈ ids := (horder.mem_iff j).mpr (by rw [hj]; rfl)
    simp [rebuiltTask, hmem]

/-- Every declared open edge has left one token. -/
theorem Rebuilt.count_dependents (horder : IsOrder s ids) (d t : OpId) (p : DependencyPolicy) :
    (cur.dependents d).count (t, p) =
      if (s.task? d).isSome = true ∧ edgeOpen s.status? (d, p) = true
      then (s.deps t).count (d, p) else 0 := by
  have hdeps : cur.dependents d = ids.flatMap fun i => tokensFor s.status? i (s.deps i) d := by
    unfold Inner.dependents
    rw [h.task]
    cases hd : s.task? d with
    | none =>
      symm
      simp only [Option.map_none, Option.getD_none, List.flatMap_eq_nil_iff]
      intro i _
      exact tokensFor_self_of_unknown _ (by simp [Inner.status?, hd])
    | some x => rfl
  have hterm : ∀ i, (tokensFor s.status? i (s.deps i) d).count (t, p) =
      if i = t then (if (s.task? d).isSome = true ∧ edgeOpen s.status? (d, p) = true
        then (s.deps i).count (d, p) else 0) else 0 := by
    intro i
    rw [count_tokensFor, Inner.status?, Option.isSome_map]
    by_cases hi : i = t <;> simp [hi]
  rw [hdeps, List.count_flatMap]
  have hsum := sum_ite_eq_of_nodup horder.nodup t fun i =>
    if (s.task? d).isSome = true ∧ edgeOpen s.status? (d, p) = true
      then (s.deps i).count (d, p) else 0
  rw [← List.map_congr_left fun i _ => hterm i] at hsum
  rw [Function.comp_def, hsum]
  by_cases ht : t ∈ ids
  · rw [if_pos ht]
  · have hnone : s.deps t = [] := by
      rw [horder.mem_iff] at ht
      unfold Inner.deps
      cases htask : s.task? t with
      | none => rfl
      | some x => simp [htask] at ht
    simp [ht, hnone]

/-- **After the visits of a rebuild over registered dependencies every pending task owes exactly
its open count.** -/
theorem Rebuilt.owed_eq (horder : IsOrder s ids) (hreg : DepsRegistered s) {t : OpId}
    (ht : cur.status? t = some .pending) :
    owed cur cur.dependents t = cur.remaining t := by
  rw [h.status? horder] at ht
  have hnew : ¬ newlyBlocked s t = true := by
    intro hnew
    rw [if_pos hnew] at ht
    cases ht
  rw [if_neg hnew] at ht
  have hdead : ∀ e ∈ s.deps t, edgeDead s.status? e = false := by
    intro e he
    by_contra hd
    refine hnew ?_
    rw [newlyBlocked, decide_eq_true_eq]
    exact ⟨ht, List.countP_pos_iff.mpr ⟨e, he, by simpa using hd⟩⟩
  rw [h.remaining horder, ← h.deps]
  refine owed_eq_countP (edgeOpen s.status?) fun e he => ?_
  rw [h.deps] at he ⊢
  have hopen := edgeOpen_eq_not_sat (hdead e he)
  unfold held
  rw [h.deps, h.count_dependents horder]
  cases hsat : s.sat e with
  | true =>
    have hcur : cur.sat e = true := by
      obtain ⟨u, hu, hedge⟩ := sat_eq_true.mp hsat
      refine sat_eq_true.mpr ⟨u, ?_, hedge⟩
      rw [h.status? horder, if_neg, hu]
      intro hb
      rw [newlyBlocked, decide_eq_true_eq, hu] at hb
      rw [Option.some.inj hb.1] at hedge
      have := terminal_of_edgeSatisfied hedge
      cases this
    simp [hcur, hopen, hsat]
  | false =>
    have hknown := hreg t e he
    simp [hopen, hsat, hknown]

theorem Rebuilt.tokInv (horder : IsOrder s ids) (hreg : DepsRegistered s) : TokInv cur cur.dependents := by
  refine ⟨⟨fun d t p => ?_, fun t ht => le_of_eq (h.owed_eq horder hreg ht)⟩, fun _ _ => rfl⟩
  rw [h.count_dependents horder, h.deps]
  split
  · exact le_rfl
  · exact Nat.zero_le _

end

end Rebuild

/-- Terminalizing the newly blocked tasks, whose tokens are still stored. -/
theorem tokInv_foldlM_terminalize (nb : List OpId) {s : Inner} (h : TokInv s tok)
    (hnodup : nb.Nodup)
    (hblocked : ∀ j ∈ nb, s.status? j = some .blocked ∧ tok j = s.dependents j) :
    ∃ s' tok', nb.foldlM terminalize s = .ok s' ∧ TokInv s' tok' := by
  induction nb generalizing s tok with
  | nil => exact ⟨s, tok, rfl, h⟩
  | cons id nb ih =>
    obtain ⟨hnot, hnodup'⟩ := List.nodup_cons.mp hnodup
    obtain ⟨hstatus, htok⟩ := hblocked id List.mem_cons_self
    have hreg : (s.task? id).isSome := by
      have hsome := congrArg Option.isSome hstatus
      rwa [Inner.status?, Option.isSome_map] at hsome
    obtain ⟨s₁, hs₁⟩ := terminalize_ok hreg
    obtain ⟨tok₁, htok₁, hkeep⟩ := terminalize_tokInv h htok hstatus rfl hs₁
    have hframe := terminalize_frame hs₁
    obtain ⟨s', tok', hfold, htok'⟩ := ih htok₁ hnodup' fun j hj => by
      have hne : j ≠ id := fun he => hnot (he ▸ hj)
      obtain ⟨hj₁, hj₂⟩ := hblocked j (List.mem_cons_of_mem id hj)
      refine ⟨?_, ?_⟩
      · rcases hframe.status j with hsame | ⟨hp, -⟩
        · rw [hsame, hj₁]
        · rw [hj₁] at hp
          cases hp
      · rw [hkeep j hne hj₁, hframe.dependents j hne, hj₂]
    refine ⟨s', tok', ?_, htok'⟩
    rw [List.foldlM_cons, hs₁]
    exact hfold

theorem foldlM_terminalize_isSome {nb : List OpId} {s s' : Inner}
    (h : nb.foldlM terminalize s = .ok s') (j : OpId) :
    (s'.task? j).isSome = (s.task? j).isSome := by
  induction nb generalizing s with
  | nil => rw [← Except.ok.inj h]
  | cons id nb ih =>
    rw [List.foldlM_cons] at h
    cases hs₁ : terminalize s id with
    | error left =>
      rw [hs₁] at h
      cases h
    | ok s₁ =>
      rw [hs₁] at h
      rw [ih h, (terminalize_frame hs₁).task?_isSome]

/-- A task the rebuild queues. -/
def queueable (s : Inner) (id : OpId) : Bool :=
  match s.task? id with
  | some t => t.status = .pending ∧ t.remaining = 0 ∧ t.blocked = 0
  | none => false

theorem foldlM_queueIfReady (ids : List OpId) {s : Inner}
    (hreg : ∀ id ∈ ids, (s.task? id).isSome) :
    ids.foldlM queueIfReady s = .ok { s with ready := s.ready ++ ids.filter (queueable s) } := by
  induction ids generalizing s with
  | nil => simp [pure, Except.pure]
  | cons id ids ih =>
    obtain ⟨t, ht⟩ := Option.isSome_iff_exists.mp (hreg id List.mem_cons_self)
    have hrest : ∀ i ∈ ids, (s.task? i).isSome := fun i hi => hreg i (List.mem_cons_of_mem id hi)
    rw [List.foldlM_cons, queueIfReady, List.filter_cons]
    simp only [ht]
    by_cases hq : t.status = .pending ∧ t.remaining = 0 ∧ t.blocked = 0
    · have hqueue : queueable s id = true := by simp [queueable, ht, hq]
      rw [if_pos hq, if_pos hqueue]
      refine Eq.trans (ih (s := { s with ready := s.ready ++ [id] }) hrest) ?_
      rw [List.append_assoc]
      rfl
    · have hqueue : ¬ queueable s id = true := by simpa [queueable, ht] using hq
      rw [if_neg hq, if_neg hqueue]
      exact ih hrest

/-- The start of a rebuild, before its first visit. -/
theorem rebuilt_start {s : Inner} {ids : List OpId} (horder : IsOrder s ids) :
    Rebuilt s [] (ids.foldl (fun s id => s.modify id TaskState.reset) { s with ready := [] }) := by
  obtain ⟨hg, hr, hrun, hterm, hnot⟩ := foldl_reset_fields ids { s with ready := [] }
  refine ⟨fun j => ?_, hg, hr, hrun, hterm, hnot⟩
  rw [task?_foldl_reset]
  show (if j ∈ ids then (s.task? j).map TaskState.reset else s.task? j) = _
  cases hj : s.task? j with
  | none => split <;> rfl
  | some t =>
    have hmem : j ∈ ids := (horder.mem_iff j).mpr (by rw [hj]; rfl)
    simp [hmem, rebuiltTask, TaskState.reset]

/-- **A rebuild over registered dependencies**: the visits, the terminalization of the newly
blocked tasks, and the queue. -/
theorem rebuildGraph_ok {s : Inner} {ids : List OpId} (horder : IsOrder s ids)
    (hreg : DepsRegistered s) :
    ∃ cur s₁ tok, Rebuilt s ids cur ∧
      (ids.filter (newlyBlocked s)).foldlM terminalize cur = .ok s₁ ∧ TokInv s₁ tok ∧
      rebuildGraph s ids = .ok { s₁ with ready := s₁.ready ++ ids.filter (queueable s₁) } := by
  obtain ⟨cur, hvisits, hcur⟩ := foldlM_rebuildTask ids [] (rebuilt_start horder)
    (by simpa using horder.nodup) (fun id hid => (horder.mem_iff id).mp hid)
    (fun id _ e he => hreg id e he)
  rw [List.nil_append] at hvisits hcur
  obtain ⟨s₁, tok, hfold, htok⟩ := tokInv_foldlM_terminalize (ids.filter (newlyBlocked s))
    (hcur.tokInv horder hreg) (horder.nodup.filter _) fun j hj => by
      obtain ⟨-, hnew⟩ := List.mem_filter.mp hj
      exact ⟨by rw [hcur.status? horder, if_pos hnew], rfl⟩
  have hkeys : ∀ id ∈ ids, (s₁.task? id).isSome := fun id hid => by
    rw [foldlM_terminalize_isSome hfold, hcur.task?_isSome]
    exact (horder.mem_iff id).mp hid
  refine ⟨cur, s₁, tok, hcur, hfold, htok, ?_⟩
  unfold rebuildGraph
  simp only [hvisits, hfold, bind, Except.bind]
  exact foldlM_queueIfReady ids hkeys

/-- **A rebuild panics when a registered task names an unregistered dependency.** -/
theorem rebuildGraph_error {s : Inner} {ids : List OpId} (horder : IsOrder s ids)
    (hreg : ¬ DepsRegistered s) : ∃ left, rebuildGraph s ids = .error left := by
  simp only [DepsRegistered] at hreg
  push Not at hreg
  obtain ⟨id, e, he, hnone⟩ := hreg
  have hid : id ∈ ids := by
    rw [horder.mem_iff]
    cases ht : s.task? id with
    | none => simp [Inner.deps, ht] at he
    | some t => rfl
  obtain ⟨left, hleft⟩ := foldlM_rebuildTask_error ids [] (rebuilt_start horder)
    (by simpa using horder.nodup) (fun i hi => (horder.mem_iff i).mp hi)
    ⟨id, hid, e, he, by simpa using hnone⟩
  refine ⟨left, ?_⟩
  unfold rebuildGraph
  simp only [hleft, bind, Except.bind]

theorem counted_rebuildGraph {s s' : Inner} {ids : List OpId} (horder : IsOrder s ids)
    (hreg : DepsRegistered s) (h : rebuildGraph s ids = .ok s') : Counted s' := by
  obtain ⟨cur, s₁, tok, -, -, htok, heq⟩ := rebuildGraph_ok horder hreg
  rw [h] at heq
  exact ⟨tok, Except.ok.inj heq ▸ htok.of_task? fun _ => rfl⟩

end Scheduler
