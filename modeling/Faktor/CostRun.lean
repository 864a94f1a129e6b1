/-
# Runs of the cost ledger

The operations of the ledger in any order, over any number of tasks, with the two halves of a
reconcile or finalize pass apart.  `apply_effects` connects a run to the effects of
`CostEffects.lean`: every operation is a chain of effects, and one that is not a settlement, a
reconcile or a finalize is a chain of quiet ones (`apply_quiet`).
-/
import Faktor.CostEffects

namespace CostLedger

/-! ## Operations of a run -/

/-- The two passes that enqueue one writer job for a candidate list read earlier. -/
inductive PassKind
  | reconcile | finalize
  deriving DecidableEq, Repr

/-- A writer job a pass has enqueued: its candidates were read before the job runs. -/
structure PassJob where
  kind : PassKind
  key : TaskKey
  candidates : List Candidate
  atMs : ℤ
  deriving DecidableEq, Repr

/-- The cost-ledger operations, and the durable writes of other parts of the program that they
read: provider-call rows and the task machine's state column.  `recoverInterrupted` is a
recovery whose process died between its two autocommitted statements; `enqueuePass` and
`runPass` are the two halves of a reconcile or finalize call when other operations come between
them. -/
inductive LedgerOp
  | reserve (key : TaskKey) (opId : OpId) (predictedMicro : ℕ) (createdMs : ℤ)
      (snapshot : Option SnapshotJson) (executionClass : Option ExecutionClass)
  | reserveAttempt (key : TaskKey) (attempt : ModelCallAttempt) (predictedMicro : ℕ)
      (createdMs : ℤ) (snapshot : Option SnapshotJson) (executionClass : Option ExecutionClass)
  | markDispatched (id : ℕ) (dispatchedMs : ℤ)
  | markUncertain (id : ℕ) (reasonCode : String) (requestId : Option String) (atMs : ℤ)
  | refund (id : ℕ) (settledMs : ℤ)
  | settle (id actualMicro : ℕ) (providerCostMicro providerReportedMicro : Option ℕ)
      (routeDecisionJson : Option String) (settledMs : ℤ)
  | settleUsage (id : ℕ) (usage : TokenUsage) (providerReportedMicro : Option ℕ)
      (routeDecisionJson : Option String) (settledMs : ℤ) (provider model : String)
  | recover (atMs : ℤ)
  | recoverInterrupted (atMs : ℤ)
  | reconcile (key : TaskKey) (atMs : ℤ)
  | finalize (key : TaskKey) (atMs : ℤ)
  | enqueuePass (kind : PassKind) (key : TaskKey) (atMs : ℤ)
  | runPass (index : ℕ)
  | recordProviderCall (call : ProviderCall)
  | setTaskState (key : TaskKey) (state : Option TaskState)

/-- The store, and the passes whose writer job has not run yet. -/
structure LedgerState where
  store : Store
  jobs : List PassJob

/-- The ledger after a transaction. -/
def LedgerState.commit {α : Type} (l : LedgerState) (result : StoreResult (α × Store)) :
    LedgerState :=
  { l with store := committed l.store result }

/-- The candidates a pass of either kind reads. -/
def passCandidates (s : Store) (kind : PassKind) (key : TaskKey) : List Candidate :=
  match kind with
  | .reconcile => costReconcileCandidates s key
  | .finalize => costFinalizeCandidates s key

/-- The writer job of a pass of either kind. -/
def runJob (s : Store) (job : PassJob) : Store :=
  match job.kind with
  | .reconcile => committed s (costReconcileJob s job.key job.candidates job.atMs)
  | .finalize => committed s (costFinalizeJob s job.key job.candidates job.atMs)

/-- The ledger after one operation. -/
def apply (l : LedgerState) : LedgerOp → LedgerState
  | .reserve key opId predicted createdMs snapshot cls =>
    l.commit (costReserveInner l.store key opId predicted createdMs snapshot cls)
  | .reserveAttempt key attempt predicted createdMs snapshot cls =>
    l.commit (costReserveAttempt l.store key attempt predicted createdMs snapshot cls)
  | .markDispatched id ms => l.commit (costMarkDispatched l.store id ms)
  | .markUncertain id reason requestId ms =>
    l.commit (costMarkUncertain l.store id reason requestId ms)
  | .refund id ms => l.commit (costRefund l.store id ms)
  | .settle id actual providerCost reported route ms =>
    l.commit (costSettle l.store id actual providerCost reported route ms)
  | .settleUsage id usage reported route ms provider model =>
    l.commit (costSettleUsageWithContext l.store id usage reported route ms provider model)
  | .recover ms => { l with store := (costRecoverOpenReservations l.store ms).2 }
  | .recoverInterrupted ms => { l with store := recoverRefund l.store ms }
  | .reconcile key ms => l.commit (costReconcileUncertain l.store key ms)
  | .finalize key ms => l.commit (costFinalizeUncertain l.store key ms)
  | .enqueuePass kind key ms =>
    { l with jobs := l.jobs ++ [⟨kind, key, passCandidates l.store kind key, ms⟩] }
  | .runPass index =>
    match l.jobs[index]? with
    | some job => ⟨runJob l.store job, l.jobs.eraseIdx index⟩
    | none => l
  | .recordProviderCall call =>
    { l with store := { l.store with calls := l.store.calls.insert call } }
  | .setTaskState key state =>
    { l with store :=
      { l.store with
        tasks := Function.update l.store.tasks key
          ((l.store.tasks key).map ({ · with state := state })) } }

/-- The ledger after a run. -/
def run (l : LedgerState) (ops : List LedgerOp) : LedgerState := ops.foldl apply l

/-- The operations that may settle a row. -/
def LedgerOp.settles : LedgerOp → Bool
  | .settle .. | .settleUsage .. | .reconcile .. | .finalize .. | .runPass .. => true
  | _ => false

/-! ## Chains of effects -/

/-- What one effect can do to a row: nothing, move it or close it. -/
inductive RowStep (r r' : CostReservation) : Prop
  | same (h : r' = r)
  | move (h : RowMove r r')
  | close (cost : Option ℕ) (h : RowClose r r' cost)

variable {s s' : Store} {r : CostReservation}

/-- A quiet effect keeps every row, or moves it. -/
theorem QuietEffect.rowMove (h : QuietEffect s s') {id : ℕ} (hr : s.reservations.get? id = some r) :
    ∃ r', s'.reservations.get? id = some r' ∧ (r' = r ∨ RowMove r r') := by
  cases h with
  | frame hres _ _ => exact ⟨r, hres ▸ hr, .inl rfl⟩
  | reserve row _ _ hres _ _ =>
    refine ⟨r, ?_, .inl rfl⟩
    have hle := RowTable.le_seq_of_get? hr
    rw [hres, RowTable.get?_insert, if_neg (by omega)]
    exact hr
  | move p f hmove hres _ _ =>
    refine ⟨if p id r then f r else r, by rw [hres, RowTable.get?_updateWhere, hr]; rfl, ?_⟩
    split
    · exact .inr (hmove id r hr ‹_›)
    · exact .inl rfl

/-- An effect keeps every row, changed by at most one row step. -/
theorem LedgerEffect.rowStep (h : LedgerEffect s s') {id : ℕ} (hr : s.reservations.get? id = some r) :
    ∃ r', s'.reservations.get? id = some r' ∧ RowStep r r' := by
  rcases h with hquiet | ⟨settledId, cost, hsettle⟩
  · obtain ⟨r', hr', rfl | hmove⟩ := hquiet.rowMove hr
    · exact ⟨r', hr', .same rfl⟩
    · exact ⟨r', hr', .move hmove⟩
  · obtain ⟨q, f, hq, hclose, hres, -, -, -⟩ := hsettle.row
    by_cases hid : id = settledId
    · subst hid
      rw [hr] at hq
      obtain rfl : r = q := Option.some.inj hq
      exact ⟨f r, by rw [hres, RowTable.get?_update, if_pos rfl, hr]; rfl, .close cost hclose⟩
    · exact ⟨r, by rw [hres, RowTable.get?_update, if_neg hid]; exact hr, .same rfl⟩

theorem RowStep.key {r' : CostReservation} (h : RowStep r r') : r'.key = r.key := by
  cases h with
  | same h => rw [h]
  | move h => exact h.key
  | close _ h => exact h.key

variable {c : Candidate}

theorem CandidateOf.of_effect {key : TaskKey} (h : LedgerEffect s s') (hc : CandidateOf s key c) :
    CandidateOf s' key c := by
  obtain ⟨r, hr, hkey⟩ := hc
  obtain ⟨r', hr', hstep⟩ := h.rowStep hr
  exact ⟨r', hr', hstep.key.trans hkey⟩

/-- A chain of effects. -/
abbrev Effects : Store → Store → Prop := Relation.ReflTransGen LedgerEffect

theorem effects_of_quiet (h : Relation.ReflTransGen QuietEffect s s') :
    Effects s s' := by
  induction h with
  | refl => exact .refl
  | tail _ hstep ih => exact ih.tail (.inl hstep)

theorem SettlesAtMost.effects {id : ℕ} (h : SettlesAtMost s s' id) :
    Effects s s' := by
  rcases h with rfl | ⟨cost, hsettle⟩
  · exact .refl
  · exact .single (.inr ⟨id, cost, hsettle⟩)

theorem CandidateOf.of_effects {key : TaskKey} (h : Effects s s') (hc : CandidateOf s key c) :
    CandidateOf s' key c := by
  induction h with
  | refl => exact hc
  | tail _ hstep ih => exact ih.of_effect hstep

/-- A writer job is the chain of its candidates' effects. -/
theorem runCandidates_effects {O : Type} {f : Store → Candidate → StoreResult (O × Store)} {key : TaskKey}
    (hf : ∀ s s' c out, CandidateOf s key c → f s c = .ok (out, s') →
      SettlesAtMost s s' c.reservationId) (cs : List Candidate) {outs : List O}
    (hcs : ∀ c ∈ cs, CandidateOf s key c) (h : runCandidates f s cs = .ok (outs, s')) :
    Effects s s' := by
  induction cs generalizing s outs with
  | nil =>
    simp only [runCandidates, Except.ok.injEq, Prod.mk.injEq] at h
    rw [← h.2]
  | cons c cs ih =>
    simp only [runCandidates, bind, Except.bind] at h
    split at h
    · cases h
    · rename_i out hout
      obtain ⟨o, mid⟩ := out
      have hfirst : Effects s mid := (hf s mid c o (hcs c List.mem_cons_self) hout).effects
      split at h
      · cases h
      · rename_i rest hrest
        obtain ⟨outs', last⟩ := rest
        simp only [pure, Except.pure, Except.ok.injEq, Prod.mk.injEq] at h
        have hmid : ∀ c' ∈ cs, CandidateOf mid key c' := fun c' hc' =>
          (hcs c' (List.mem_cons_of_mem c hc')).of_effects hfirst
        rw [h.2] at hrest
        exact hfirst.trans (ih hmid hrest)

theorem mem_passCandidates {kind : PassKind} {key : TaskKey} (h : c ∈ passCandidates s kind key) :
    CandidateOf s key c := by
  cases kind with
  | reconcile =>
    simp only [passCandidates, costReconcileCandidates, List.mem_map, Prod.exists] at h
    obtain ⟨id, r, hmem, rfl⟩ := h
    rw [RowTable.mem_select] at hmem
    simp only [Bool.and_eq_true, decide_eq_true_eq] at hmem
    exact ⟨r, hmem.1, hmem.2.1.1⟩
  | finalize =>
    simp only [passCandidates, costFinalizeCandidates, List.mem_map, Prod.exists] at h
    obtain ⟨id, r, hmem, rfl⟩ := h
    rw [RowTable.mem_select] at hmem
    simp only [Bool.and_eq_true, decide_eq_true_eq] at hmem
    exact ⟨r, hmem.1, hmem.2.1⟩

/-- The candidates of a waiting job name rows of the job's task. -/
def JobWf (s : Store) (job : PassJob) : Prop := ∀ c ∈ job.candidates, CandidateOf s job.key c

theorem jobWf_passCandidates (s : Store) (kind : PassKind) (key : TaskKey) (ms : ℤ) :
    JobWf s ⟨kind, key, passCandidates s kind key, ms⟩ := by
  intro c hc
  exact mem_passCandidates (show c ∈ passCandidates s kind key from hc)

variable {job : PassJob}

theorem runJob_effects (hjob : JobWf s job) :
    Effects s (runJob s job) := by
  unfold runJob
  cases job.kind with
  | reconcile =>
    cases h : costReconcileJob s job.key job.candidates job.atMs with
    | error e => exact .refl
    | ok out =>
      exact runCandidates_effects (fun _ _ _ _ => reconcileCandidate_effect) _ hjob h
  | finalize =>
    cases h : costFinalizeJob s job.key job.candidates job.atMs with
    | error e => exact .refl
    | ok out =>
      exact runCandidates_effects (fun _ _ _ _ => finalizeCandidate_effect) _ hjob h

/-- A pass with nothing between its halves is its job on the candidates just read. -/
theorem committed_costReconcileUncertain (s : Store) (key : TaskKey) (ms : ℤ) :
    committed s (costReconcileUncertain s key ms) =
      runJob s ⟨.reconcile, key, passCandidates s .reconcile key, ms⟩ := by
  simp only [runJob, passCandidates, costReconcileUncertain, bind, Except.bind]
  cases costReconcileJob s key (costReconcileCandidates s key) ms <;> rfl

theorem committed_costFinalizeUncertain (s : Store) (key : TaskKey) (ms : ℤ) :
    committed s (costFinalizeUncertain s key ms) =
      runJob s ⟨.finalize, key, passCandidates s .finalize key, ms⟩ := by
  simp only [runJob, passCandidates, costFinalizeUncertain, bind, Except.bind]
  cases costFinalizeJob s key (costFinalizeCandidates s key) ms <;> rfl

/-- Every waiting job is well-formed. -/
def LedgerState.Wf (l : LedgerState) : Prop := ∀ job ∈ l.jobs, JobWf l.store job

/-- **An operation that is not a settlement, reconcile or finalize is a chain of quiet effects.** -/
theorem apply_quiet (l : LedgerState) (op : LedgerOp) (h : op.settles = false) :
    Relation.ReflTransGen QuietEffect l.store (apply l op).store := by
  cases op with
  | reserve key opId predicted createdMs snapshot cls =>
    exact .single (costReserveTx_effect l.store key openSumTotal predicted _
      openSumTotal_exact rfl (rowFresh_freshReservation ..) rfl)
  | reserveAttempt key attempt predicted createdMs snapshot cls =>
    exact .single (costReserveTx_effect l.store key openSumExact predicted _
      openSumExact_exact rfl (rowFresh_freshReservation ..) rfl)
  | markDispatched id ms => exact .single (costMarkDispatched_effect l.store id ms)
  | markUncertain id reason requestId ms =>
    exact .single (costMarkUncertain_effect l.store id reason requestId ms)
  | refund id ms => exact .single (costRefund_effect l.store id ms)
  | recover ms =>
    exact (Relation.ReflTransGen.single (recoverRefund_effect l.store ms)).tail
      (recoverUncertain_effect _ ms)
  | recoverInterrupted ms => exact .single (recoverRefund_effect l.store ms)
  | enqueuePass kind key ms => exact .refl
  | recordProviderCall call => exact .single (.frame rfl rfl rfl)
  | setTaskState key state =>
    refine .single (.frame rfl ?_ rfl)
    funext k
    by_cases hk : k = key
    · subst hk
      simp [apply, Store.money, Function.comp_def]
    · simp [apply, Store.money, Function.update_of_ne hk]
  | settle => cases h
  | settleUsage => cases h
  | reconcile => cases h
  | finalize => cases h
  | runPass => cases h

/-- **Every operation is a chain of ledger effects.** -/
theorem apply_effects (l : LedgerState) (hl : l.Wf) (op : LedgerOp) :
    Effects l.store (apply l op).store := by
  cases hsettles : op.settles with
  | false => exact effects_of_quiet (apply_quiet l op hsettles)
  | true =>
    cases op with
    | settle id actual providerCost reported route ms =>
      exact (costSettle_effect l.store id actual providerCost reported route ms).effects
    | settleUsage id usage reported route ms provider model =>
      exact (costSettleUsage_effect l.store id usage reported route ms provider model).effects
    | reconcile key ms =>
      show Effects l.store (committed l.store (costReconcileUncertain l.store key ms))
      rw [committed_costReconcileUncertain]
      exact runJob_effects (jobWf_passCandidates l.store .reconcile key ms)
    | finalize key ms =>
      show Effects l.store (committed l.store (costFinalizeUncertain l.store key ms))
      rw [committed_costFinalizeUncertain]
      exact runJob_effects (jobWf_passCandidates l.store .finalize key ms)
    | runPass index =>
      cases hjob : l.jobs[index]? with
      | none =>
        simp only [apply, hjob]
        exact .refl
      | some job =>
        simp only [apply, hjob]
        exact runJob_effects (hl job (List.mem_of_getElem? hjob))
    | _ => cases hsettles

/-- An operation enqueues at most one job, made of candidates of its own task. -/
theorem mem_jobs_apply (l : LedgerState) (op : LedgerOp) (h : job ∈ (apply l op).jobs) :
    job ∈ l.jobs ∨ job.candidates = passCandidates l.store job.kind job.key := by
  cases op with
  | enqueuePass kind key ms =>
    rcases List.mem_append.mp h with h | h
    · exact .inl h
    · rw [List.mem_singleton.mp h]
      exact .inr rfl
  | runPass index =>
    cases hjob : l.jobs[index]? with
    | none =>
      simp only [apply, hjob] at h
      exact .inl h
    | some j =>
      simp only [apply, hjob] at h
      exact .inl (List.mem_of_mem_eraseIdx h)
  | _ => exact .inl h

theorem LedgerState.Wf.apply {l : LedgerState} (hl : l.Wf) (op : LedgerOp) :
    (apply l op).Wf := by
  intro job hjob c hc
  have heffects := apply_effects l hl op
  rcases mem_jobs_apply l op hjob with hold | hnew
  · exact (hl job hold c hc).of_effects heffects
  · exact (mem_passCandidates (hnew ▸ hc)).of_effects heffects

/-- **A run is a chain of ledger effects.** -/
theorem run_effects (l : LedgerState) (hl : l.Wf) (ops : List LedgerOp) :
    (run l ops).Wf ∧ Effects l.store (run l ops).store := by
  induction ops generalizing l with
  | nil => exact ⟨hl, .refl⟩
  | cons op ops ih =>
    obtain ⟨hwf, heffects⟩ := ih (CostLedger.apply l op) (hl.apply op)
    exact ⟨hwf, (apply_effects l hl op).trans heffects⟩

end CostLedger
