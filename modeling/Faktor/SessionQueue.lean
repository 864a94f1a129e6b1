/-
# The prompt queue

A queued prompt is materialised as a user message when its row is admitted.  Rows are admitted from
the front of the queue, and an admitted row never becomes pending again except through the recovery
pass, which returns claimed rows to pending.

* A row that is running, done or cancelled is out of the queue for good (`Retired`): no command,
  recovery included, admits it again.
* As long as no recovery pass finds a claimed row (`NoneReclaimed`), the admitted rows stand in
  enqueue order, each of them once, and before every row still pending (`admitted_in_order`).
* A claimed row is a prompt whose message is written already: the pass that returns it to pending
  has its message written a second time (`reclaimed_prompt_twice`).
-/
import Faktor.SessionEffects
import Faktor.SessionGuarantees

namespace Session

open AtomicProgram

/-- The sequence numbers of the queue. -/
def queueSeqs (db : Db) : List ℕ := db.queue.map QueuedPrompt.queueSeq

/-- A row that is neither waiting nor claimed. -/
def QueuedPrompt.isRetired (q : QueuedPrompt) : Prop := q.status ≠ .pending ∧ q.status ≠ .claimed

/-- What an action can do to a row of the queue. -/
structure Relabels (c : Call) (q q' : QueuedPrompt) : Prop where
  seq : q'.queueSeq = q.queueSeq
  retired : q.isRetired → q'.isRetired
  pending : q'.status = .pending →
    q.status = .pending ∨ (q.status = .claimed ∧ c = .recoverClaimedQueueRows)

theorem Relabels.refl (c : Call) (q : QueuedPrompt) : Relabels c q q :=
  ⟨rfl, fun h => h, fun h => .inl h⟩

/-- A row that leaves the queue. -/
theorem Relabels.retire {c : Call} {q : QueuedPrompt} {status : QueueStatus}
    (hpending : status ≠ .pending) (hclaimed : status ≠ .claimed) :
    Relabels c q { q with status := status } :=
  ⟨rfl, fun _ => ⟨hpending, hclaimed⟩, fun h => absurd h hpending⟩

theorem QueueMark.relabels {c : Call} (m : QueueMark) (q : QueuedPrompt) :
    Relabels c q { q with status := m.status } := by
  cases m <;> exact .retire (by simp [QueueMark.status]) (by simp [QueueMark.status])

variable {c : Call} {db db' : Db}

/-- Rows in enqueue order with one sequence number are the same row. -/
theorem eq_of_queueSeq_eq (hseqs : (queueSeqs db).Pairwise (· < ·)) {q q' : QueuedPrompt}
    (hq : q ∈ db.queue) (hq' : q' ∈ db.queue) (h : q.queueSeq = q'.queueSeq) : q = q' :=
  List.inj_on_of_nodup_map (hseqs.imp fun hlt => hlt.ne) hq hq' h

/-- A claim relabels the row it claims. -/
theorem relabels_claimedIf (hseqs : (queueSeqs db).Pairwise (· < ·)) {head q : QueuedPrompt}
    (hhead : db.queue.find? QueuedPrompt.isPending = some head) (hq : q ∈ db.queue) :
    Relabels c q (head.claimedIf q) := by
  rw [QueuedPrompt.claimedIf]
  split_ifs with hseq
  · have hpending : head.status = .pending := by
      simpa [QueuedPrompt.isPending] using List.find?_some hhead
    obtain rfl : q = head := eq_of_queueSeq_eq hseqs hq (List.mem_of_find?_eq_some hhead) hseq
    exact ⟨rfl, fun h => absurd hpending h.1, fun h => absurd h (by simp)⟩
  · exact .refl c q

/-- A queue gains a pending row with the next sequence number, or its rows change status. -/
theorem QueueStep.queue_cases (h : QueueStep c db db')
    (hseqs : (queueSeqs db).Pairwise (· < ·)) :
    (∃ row : QueuedPrompt, db'.queue = db.queue ++ [row] ∧
      row.queueSeq = (queueSeqs db).foldl max 0 + 1 ∧ row.status = .pending) ∨
    ∃ f, db'.queue = db.queue.map f ∧ ∀ q ∈ db.queue, Relabels c q (f q) := by
  cases h with
  | keep hqueue hmessages => exact .inr ⟨id, by simp [hqueue], fun q _ => .refl c q⟩
  | message seq hqueue hmessages => exact .inr ⟨id, by simp [hqueue], fun q _ => .refl c q⟩
  | enqueue row hseq hstatus hqueue hmessages => exact .inl ⟨row, hqueue, hseq, hstatus⟩
  | admission head hc hhead hstate hqueue hmessages =>
    exact .inr ⟨head.claimedIf, hqueue, fun q hq => relabels_claimedIf hseqs hhead hq⟩
  | mark queueSeq m hqueue hmessages =>
    refine .inr ⟨_, hqueue, fun q _ => ?_⟩
    split_ifs
    · exact m.relabels q
    · exact .refl c q
  | cancel ops hqueue hmessages =>
    refine .inr ⟨_, hqueue, fun q _ => ?_⟩
    split_ifs
    · exact .retire (by simp) (by simp)
    · exact .refl c q
  | recover hc hqueue hmessages =>
    refine .inr ⟨_, hqueue, fun q _ => ?_⟩
    split_ifs with hclaimed hrunning
    · exact ⟨rfl, fun h => absurd hclaimed h.2, fun _ => .inr ⟨hclaimed, hc⟩⟩
    · exact .retire (by simp) (by simp)
    · exact .refl c q

theorem queueSeqs_map {f : QueuedPrompt → QueuedPrompt} (hqueue : db'.queue = db.queue.map f)
    (hf : ∀ q ∈ db.queue, Relabels c q (f q)) : queueSeqs db' = queueSeqs db := by
  rw [queueSeqs, queueSeqs, hqueue, List.map_map]
  exact List.map_congr_left fun q hq => (hf q hq).seq

/-! ## The rows of the queue -/

theorem le_foldl_max {l : List ℕ} {n : ℕ} (h : n ∈ l) : n ≤ l.foldl max 0 := by
  induction l using List.reverseRecOn with
  | nil => exact absurd h List.not_mem_nil
  | append_singleton l m ih =>
    rw [List.foldl_append, List.foldl_cons, List.foldl_nil]
    rcases List.mem_append.mp h with h | h
    · exact (ih h).trans (le_max_left _ _)
    · rw [List.mem_singleton.mp h]
      exact le_max_right _ _

/-- The queue is in enqueue order, and only its rows were admitted. -/
structure Enqueued (db : Db) : Prop where
  seqs : (queueSeqs db).Pairwise (· < ·)
  admitted : ∀ n ∈ admissions db, n ∈ queueSeqs db

theorem QueueStep.queueSeqs_subset (h : QueueStep c db db')
    (hseqs : (queueSeqs db).Pairwise (· < ·)) :
    (queueSeqs db').Pairwise (· < ·) ∧ queueSeqs db ⊆ queueSeqs db' := by
  rcases h.queue_cases hseqs with ⟨row, hqueue, hseq, -⟩ | ⟨f, hqueue, hf⟩
  · have hseqs' : queueSeqs db' = queueSeqs db ++ [row.queueSeq] := by
      rw [queueSeqs, queueSeqs, hqueue, List.map_append]
      rfl
    rw [hseqs']
    refine ⟨List.pairwise_append.mpr ⟨hseqs, List.pairwise_singleton _ _, ?_⟩,
      List.subset_append_left _ _⟩
    intro n hn m hm
    have hmax : n ≤ (queueSeqs db).foldl max 0 := le_foldl_max hn
    rw [List.mem_singleton.mp hm, hseq]
    omega
  · rw [queueSeqs_map hqueue hf]
    exact ⟨hseqs, List.Subset.refl _⟩

theorem QueueStep.enqueued (h : QueueStep c db db') (hdb : Enqueued db) : Enqueued db' := by
  obtain ⟨hseqs, hsubset⟩ := h.queueSeqs_subset hdb.seqs
  refine ⟨hseqs, fun n hn => ?_⟩
  rcases h.admissions_eq with hsame | ⟨head, -, hhead, -, -, hadmitted⟩
  · exact hsubset (hdb.admitted n (hsame ▸ hn))
  · rw [hadmitted] at hn
    rcases List.mem_append.mp hn with hn | hn
    · exact hsubset (hdb.admitted n hn)
    · rw [List.mem_singleton.mp hn]
      exact hsubset (List.mem_map_of_mem (List.mem_of_find?_eq_some hhead))

/-! ## Rows that are out of the queue -/

/-- The prompt of this sequence number is running, done or cancelled. -/
def Retired (n : ℕ) (db : Db) : Prop := ∃ q ∈ db.queue, q.queueSeq = n ∧ q.isRetired

theorem QueueStep.retired {n : ℕ} (h : QueueStep c db db')
    (hseqs : (queueSeqs db).Pairwise (· < ·)) (hretired : Retired n db) : Retired n db' := by
  obtain ⟨q, hq, hn, hstatus⟩ := hretired
  rcases h.queue_cases hseqs with ⟨row, hqueue, -, -⟩ | ⟨f, hqueue, hf⟩
  · exact ⟨q, by rw [hqueue]; exact List.mem_append_left _ hq, hn, hstatus⟩
  · refine ⟨f q, by rw [hqueue]; exact List.mem_map_of_mem hq, ?_, (hf q hq).retired hstatus⟩
    rw [(hf q hq).seq]
    exact hn

/-- A retired prompt is not the one an action admits. -/
theorem QueueStep.count_retired {n : ℕ} (h : QueueStep c db db')
    (hseqs : (queueSeqs db).Pairwise (· < ·)) (hretired : Retired n db) :
    (admissions db').count n = (admissions db).count n := by
  rcases h.admissions_eq with hsame | ⟨head, -, hhead, -, -, hadmitted⟩
  · rw [hsame]
  · obtain ⟨q, hq, hn, hstatus⟩ := hretired
    have hne : head.queueSeq ≠ n := by
      intro heq
      obtain rfl : q = head :=
        eq_of_queueSeq_eq hseqs hq (List.mem_of_find?_eq_some hhead) (hn.trans heq.symm)
      have hpending := List.find?_some hhead
      exact hstatus.1 (by simpa [QueuedPrompt.isPending] using hpending)
    rw [hadmitted, List.count_append, List.count_singleton]
    simp [hne]

/-! ## Admissions in order -/

/-- The prompts were admitted in enqueue order, each once, and before every prompt still
pending. -/
structure AdmittedInOrder (db : Db) : Prop extends Enqueued db where
  ordered : (admissions db).Pairwise (· < ·)
  pending : ∀ q ∈ db.queue, q.status = .pending → ∀ n ∈ admissions db, n < q.queueSeq

/-- The action is the recovery pass over the queue. -/
def Call.reclaims : Call → Bool
  | .recoverClaimedQueueRows => true
  | _ => false

/-- A recovery pass over the queue finds no claimed row. -/
def NoneReclaimed (s : Shared) (c : Call) (_env : Env) : Prop :=
  c.reclaims → ∀ q ∈ s.db.queue, q.status ≠ .claimed

instance decidableNoneReclaimed (s : Shared) (c : Call) (env : Env) :
    Decidable (NoneReclaimed s c env) :=
  inferInstanceAs (Decidable (_ → _))

/-- Rows that are pending after an action were pending before or are new, unless a pass reclaimed
them. -/
theorem QueueStep.pending_cases (h : QueueStep c db db')
    (hseqs : (queueSeqs db).Pairwise (· < ·))
    (hnone : c.reclaims → ∀ q ∈ db.queue, q.status ≠ .claimed)
    {q' : QueuedPrompt} (hq' : q' ∈ db'.queue) (hstatus : q'.status = .pending) :
    (∃ q ∈ db.queue, q.queueSeq = q'.queueSeq ∧ q.status = .pending) ∨
      ∀ n ∈ queueSeqs db, n < q'.queueSeq := by
  rcases h.queue_cases hseqs with ⟨row, hqueue, hseq, -⟩ | ⟨f, hqueue, hf⟩
  · rw [hqueue] at hq'
    rcases List.mem_append.mp hq' with hq' | hq'
    · exact .inl ⟨q', hq', rfl, hstatus⟩
    · refine .inr fun n hn => ?_
      have hmax : n ≤ (queueSeqs db).foldl max 0 := le_foldl_max hn
      rw [List.mem_singleton.mp hq', hseq]
      omega
  · rw [hqueue] at hq'
    obtain ⟨q, hq, rfl⟩ := List.mem_map.mp hq'
    rcases (hf q hq).pending hstatus with hpending | ⟨hclaimed, hc⟩
    · exact .inl ⟨q, hq, (hf q hq).seq.symm, hpending⟩
    · exact absurd hclaimed (hnone (by rw [hc]; rfl) q hq)

/-- The head of the queue comes before every other pending row. -/
theorem head_lt_pending (hseqs : (queueSeqs db).Pairwise (· < ·)) {head q : QueuedPrompt}
    (hhead : db.queue.find? QueuedPrompt.isPending = some head) (hq : q ∈ db.queue)
    (hstatus : q.status = .pending) (hne : q.queueSeq ≠ head.queueSeq) :
    head.queueSeq < q.queueSeq := by
  obtain ⟨-, before, after, hsplit, hbefore⟩ := List.find?_eq_some_iff_append.mp hhead
  rw [queueSeqs, hsplit, List.map_append, List.map_cons, List.pairwise_append] at hseqs
  rw [hsplit] at hq
  rcases List.mem_append.mp hq with hq | hq
  · exact absurd hstatus (by simpa [QueuedPrompt.isPending] using hbefore q hq)
  · rcases List.mem_cons.mp hq with rfl | hq
    · exact absurd rfl hne
    · exact (List.pairwise_cons.mp hseqs.2.1).1 _ (List.mem_map_of_mem hq)

/-- **One action** that reclaims nothing keeps the admissions in order. -/
theorem QueueStep.admittedInOrder (h : QueueStep c db db') (hdb : AdmittedInOrder db)
    (hnone : c.reclaims → ∀ q ∈ db.queue, q.status ≠ .claimed) :
    AdmittedInOrder db' := by
  have henqueued := h.enqueued hdb.toEnqueued
  rcases h.admissions_eq with hsame | ⟨head, hc, hhead, hstate, hqueue, hadmitted⟩
  · refine ⟨henqueued, hsame ▸ hdb.ordered, fun q' hq' hstatus n hn => ?_⟩
    rw [hsame] at hn
    rcases h.pending_cases hdb.seqs hnone hq' hstatus with ⟨q, hq, hseq, hpending⟩ | hlast
    · rw [← hseq]
      exact hdb.pending q hq hpending n hn
    · exact hlast n (hdb.admitted n hn)
  · have hmem := List.mem_of_find?_eq_some hhead
    have hpending : head.status = .pending := by
      simpa [QueuedPrompt.isPending] using List.find?_some hhead
    have hbefore : ∀ n ∈ admissions db, n < head.queueSeq := hdb.pending head hmem hpending
    refine ⟨henqueued, ?_, fun q' hq' hstatus n hn => ?_⟩
    · rw [hadmitted]
      refine List.pairwise_append.mpr ⟨hdb.ordered, List.pairwise_singleton _ _, ?_⟩
      intro n hn m hm
      rw [List.mem_singleton.mp hm]
      exact hbefore n hn
    · -- a row still pending was pending before and is not the head
      rw [hqueue] at hq'
      obtain ⟨q, hq, rfl⟩ := List.mem_map.mp hq'
      rw [QueuedPrompt.claimedIf] at hstatus ⊢
      split_ifs at hstatus ⊢ with hseq
      have hlt := head_lt_pending hdb.seqs hhead hq hstatus hseq
      rw [hadmitted] at hn
      rcases List.mem_append.mp hn with hn | hn
      · exact (hbefore n hn).trans hlt
      · rw [List.mem_singleton.mp hn]
        exact hlt

/-! ## Whole runs -/

variable {id workspaceId worktreeId : ℕ} {now : ℤ} {es : List Happening} {w : World}

/-- An invariant of the queue that every action keeps holds at the end of every run. -/
theorem run_of_queueStep {J : Db → Prop} {cond : Shared → Call → Env → Prop} {w w' : World}
    {fs : List Happening}
    (hstep : ∀ s c env db', J s.db → cond s c env → QueueStep c s.db db' → J db')
    (hw : J w.shared.db) (hcond : Throughout cond w fs) (hrun : Trace.run step w fs = some w') :
    J w'.shared.db :=
  System.run_shared_invariant
    (fun s c env s' _ hinv hc hexec => hstep s c env s'.db hinv hc (exec_queue hexec))
    (fun _ h => h) hw hcond hrun

theorem createSession_admittedInOrder (id workspaceId worktreeId : ℕ) (now : ℤ) :
    AdmittedInOrder (createSession id workspaceId worktreeId now) :=
  ⟨⟨.nil, fun _ hn => absurd hn List.not_mem_nil⟩, .nil, fun _ hq => absurd hq List.not_mem_nil⟩

/-- The queue of every run is in enqueue order. -/
theorem run_enqueued (hrun : Trace.run step (created id workspaceId worktreeId now) es = some w) :
    Enqueued w.shared.db :=
  run_of_queueStep (fun _ _ _ _ hdb _ h => h.enqueued hdb)
    (createSession_admittedInOrder id workspaceId worktreeId now).toEnqueued
    (throughout_true _ es) hrun

/-- A retired prompt is never admitted later. -/
theorem run_count_retired {n : ℕ} {w w' : World} {fs : List Happening}
    (hw : Enqueued w.shared.db) (hretired : Retired n w.shared.db)
    (hrun : Trace.run step w fs = some w') :
    (admissions w'.shared.db).count n = (admissions w.shared.db).count n := by
  have hinv : Enqueued w'.shared.db ∧ Retired n w'.shared.db ∧
      (admissions w'.shared.db).count n = (admissions w.shared.db).count n :=
    run_of_queueStep
      (J := fun db => Enqueued db ∧ Retired n db ∧
        (admissions db).count n = (admissions w.shared.db).count n)
      (fun s c env db' ⟨hdb, hret, hcount⟩ _ h => ⟨h.enqueued hdb, h.retired hdb.seqs hret,
        (h.count_retired hdb.seqs hret).trans hcount⟩)
      ⟨hw, hretired, rfl⟩ (throughout_true w fs) hrun
  exact hinv.2.2

/-- The messages a prompt was materialised as are its admissions. -/
theorem count_admissions (db : Db) (n : ℕ) :
    (admissions db).count n
      = (db.messages.filter fun m => decide (m.materialized = some n)).length := by
  rw [admissions, List.count_filterMap, List.countP_map, List.countP_eq_length_filter]
  refine congrArg List.length (List.filter_congr fun m _ => ?_)
  rw [Function.comp_apply, MessageRow.origin, beq_eq_decide]

/-- **The prompt queue over every run.**  A prompt that is done or cancelled is never admitted
again.  When no recovery pass of the run finds a claimed row, the prompts were admitted in enqueue
order and before every prompt still pending, and each of them is at most one message. -/
theorem admitted_in_order
    (hrun : Trace.run step (created id workspaceId worktreeId now) es = some w) :
    (∀ q ∈ w.shared.db.queue, q.status = .done ∨ q.status = .cancelled →
      ∀ fs w', Trace.run step w fs = some w' →
        (admissions w'.shared.db).count q.queueSeq = (admissions w.shared.db).count q.queueSeq) ∧
      (queueSeqs w.shared.db).Pairwise (· < ·) ∧
      (Throughout NoneReclaimed (created id workspaceId worktreeId now) es →
        (admissions w.shared.db).Pairwise (· < ·) ∧
        (∀ q ∈ w.shared.db.queue, q.status = .pending →
          ∀ n ∈ admissions w.shared.db, n < q.queueSeq) ∧
        ∀ q ∈ w.shared.db.queue, (w.shared.db.messages.filter fun m =>
          decide (m.materialized = some q.queueSeq)).length ≤ 1) := by
  have henqueued := run_enqueued hrun
  refine ⟨fun q hq hstatus fs w' hrun' => ?_, henqueued.seqs, fun hnone => ?_⟩
  · refine run_count_retired henqueued ⟨q, hq, rfl, ?_⟩ hrun'
    rcases hstatus with h | h <;> rw [QueuedPrompt.isRetired, h] <;> decide
  · have horder : AdmittedInOrder w.shared.db :=
      run_of_queueStep (fun _ _ _ _ hdb hcond h => h.admittedInOrder hdb hcond)
        (createSession_admittedInOrder id workspaceId worktreeId now) hnone hrun
    refine ⟨horder.ordered, horder.pending, fun q _ => ?_⟩
    rw [← count_admissions]
    exact List.nodup_iff_count_le_one.mp (horder.ordered.imp fun hlt => hlt.ne) q.queueSeq

/-- Two prompts are queued behind a turn that fails and are admitted one after the other; the turn
of the first fails too, and its row is marked running and done in between. -/
def drainedQueue : List Happening :=
  uninterrupted 0 10 (.submitPrompt "a" [] 1) (.at 5) ++
    uninterrupted 1 8 (.submitPrompt "b" [] 2) (.at 5) ++
    uninterrupted 2 8 (.submitPrompt "c" [] 3) (.at 5) ++
    uninterrupted 3 5 (.markFailed false) (.at 5) ++
    uninterrupted 4 3 .admitNextQueued (.at 5) ++
    uninterrupted 5 1 (.markQueuedStatus 1 .running) (.at 6) ++
    uninterrupted 6 5 (.markFailed false) (.at 6) ++
    uninterrupted 7 1 (.markQueuedStatus 1 .done) (.at 6) ++
    uninterrupted 8 3 .admitNextQueued (.at 7)

theorem drainedQueue_in_order :
    ∃ w, Trace.run step (created 1 1 1 0) drainedQueue = some w ∧
      admissions w.shared.db = [1, 2] ∧ (admissions w.shared.db).Pairwise (· < ·) := by
  have hrun : ((Trace.run step (created 1 1 1 0) drainedQueue).map
      fun w => admissions w.shared.db) = some [1, 2] := by decide
  obtain ⟨w, hw, hadmitted⟩ := Option.map_eq_some_iff.mp hrun
  exact ⟨w, hw, hadmitted, ((admitted_in_order hw).2.2 (by decide)).1⟩

/-- The process dies after an admission, before the turn starts; the restarted one runs
`recover_all` and the recovery pass over the queue, and admits the head again. -/
def reclaimedPrompt : List Happening :=
  uninterrupted 0 10 (.submitPrompt "a" [] 1) (.at 5) ++
    uninterrupted 1 8 (.submitPrompt "b" [] 2) (.at 5) ++
    uninterrupted 2 12 (.abort (some 1)) (.at 5) ++
    uninterrupted 3 1 .admitNextQueued (.at 5) ++
    [.crash] ++
    uninterrupted 0 12 .recoverAll (.at 6) ++
    uninterrupted 1 1 .recoverQueuedRows (.at 6) ++
    uninterrupted 2 3 .admitNextQueued (.at 6)

/-- The prompt stands in the conversation twice. -/
theorem reclaimed_prompt_twice :
    ∃ w, Trace.run step (created 1 1 1 0) reclaimedPrompt = some w ∧
      w.shared.db.queue.map QueuedPrompt.queueSeq = [1] ∧
      (w.shared.db.messages.filter fun m => decide (m.materialized = some 1)).map
        (fun m => (m.role, m.text)) = [(.user, "b"), (.user, "b")] := by
  have hrun : ((Trace.run step (created 1 1 1 0) reclaimedPrompt).map fun w =>
      (w.shared.db.queue.map QueuedPrompt.queueSeq,
        (w.shared.db.messages.filter fun m => decide (m.materialized = some 1)).map
          fun m => (m.role, m.text))) = some ([1], [(.user, "b"), (.user, "b")]) := by decide
  obtain ⟨w, hw, hfacts⟩ := Option.map_eq_some_iff.mp hrun
  exact ⟨w, hw, Prod.mk.inj hfacts⟩

end Session
