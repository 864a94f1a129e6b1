/-
# The open count through every locked section

`GraphInv` of `SchedulerGraph.lean` kept by each section that runs under the scheduler's lock:
notification and its transitive loop (`Delivering`, `terminalize_tokInv`), submission, the
status writes of completion and cancellation, and the rebuild.  Between sections the invariant
reads `TokInv`: the tokens of a task that is not blocked are its stored reverse edges.
-/
import Faktor.SchedulerGraph

namespace Scheduler

/-! ## Frames -/

variable {s s' : Inner}

theorem Notified.deps (h : Notified s s') (t : OpId) : s'.deps t = s.deps t := by
  unfold Inner.deps
  cases ht : s.task? t with
  | none => rw [h.absent t ht]
  | some x =>
    obtain ⟨x', hx', hop, -⟩ := h.task t x ht
    simp [hx', hop]

theorem Notified.dependents (h : Notified s s') (t : OpId) :
    s'.dependents t = s.dependents t := by
  unfold Inner.dependents
  cases ht : s.task? t with
  | none => rw [h.absent t ht]
  | some x =>
    obtain ⟨x', hx', -, hdeps, -⟩ := h.task t x ht
    simp [hx', hdeps]

theorem Notified.status (h : Notified s s') (t : OpId) :
    s'.status? t = s.status? t ∨
      (s.status? t = some .pending ∧ s'.status? t = some .blocked) := by
  unfold Inner.status?
  cases ht : s.task? t with
  | none => exact .inl (by rw [h.absent t ht])
  | some x =>
    obtain ⟨x', hx', -, -, hsame | ⟨hp, hb⟩⟩ := h.task t x ht
    · exact .inl (by simp [hx', hsame])
    · exact .inr ⟨by simp [hp], by simp [hx', hb]⟩

variable {t : OpId} {u : TaskStatus}

/-- A terminal status survives a notification. -/
theorem Notified.status_of_terminal (h : Notified s s') (ht : s.status? t = some u)
    (hu : statusIsTerminal u = true) :
    s'.status? t = some u := by
  rcases h.status t with hsame | ⟨hp, -⟩
  · rw [hsame, ht]
  · rw [ht] at hp
    rw [Option.some.inj hp] at hu
    cases hu

variable {e : OpId × DependencyPolicy}

theorem Notified.sat (h : Notified s s') (he : s.sat e = true) : s'.sat e = true := by
  obtain ⟨u, hu, hsat⟩ := sat_eq_true.mp he
  exact sat_eq_true.mpr ⟨u, h.status_of_terminal hu (terminal_of_edgeSatisfied hsat), hsat⟩

theorem owed_congr (tok : Tokens) (t : OpId) (hdeps : s'.deps t = s.deps t) (hsat : ∀ e, s'.sat e = s.sat e) :
    owed s' tok t = owed s tok t := by
  unfold owed held
  rw [hdeps]
  simp only [hsat]

/-! ## One delivered token -/

theorem status?_releaseEdge (s : Inner) (id j : OpId) :
    (s.releaseEdge id).status? j = s.status? j := by
  unfold Inner.status?
  rw [task?_releaseEdge]
  split
  · rename_i h
    subst h
    cases s.task? j <;> rfl
  · rfl

theorem remaining_releaseEdge (s : Inner) (id j : OpId) :
    (s.releaseEdge id).remaining j = if j = id then s.remaining j - 1 else s.remaining j := by
  unfold Inner.remaining
  rw [task?_releaseEdge]
  split
  · rename_i h
    subst h
    cases s.task? j <;> rfl
  · rfl

theorem remaining_blockEdge (s : Inner) (id j : OpId) (worklist : List OpId) :
    (s.blockEdge id worklist).1.remaining j = s.remaining j := by
  unfold Inner.remaining
  rw [task?_blockEdge]
  split
  · rename_i h
    subst h
    cases s.task? j <;> rfl
  · rfl

variable {tok : Tokens} {d : OpId} {rest : List (OpId × DependencyPolicy)}

theorem count_update_tail_le (h : tok d = e :: rest) (j t : OpId) (p : DependencyPolicy) :
    (Function.update tok d rest j).count (t, p) ≤ (tok j).count (t, p) := by
  rw [← count_update_tail h j t p]
  exact Nat.le_add_right _ _

variable {p : DependencyPolicy}

theorem GraphInv.mem_deps (h : GraphInv s tok) (hmem : (t, p) ∈ tok d) : (d, p) ∈ s.deps t := by
  have hpos : 0 < (tok d).count (t, p) := List.count_pos_iff.mpr hmem
  exact List.count_pos_iff.mp (hpos.trans_le (h.count_le d t p))

/-- Delivering the token of a satisfied edge. -/
theorem GraphInv.release (h : GraphInv s tok) (htok : tok d = (t, p) :: rest) (hsat : s.sat (d, p) = true) :
    GraphInv (s.releaseEdge t) (Function.update tok d rest) := by
  have hframe := notified_releaseEdge s t
  have hmem := h.mem_deps (by rw [htok]; exact List.mem_cons_self : (t, p) ∈ tok d)
  have hsats : ∀ e, (s.releaseEdge t).sat e = s.sat e := fun e => by
    unfold Inner.sat
    rw [status?_releaseEdge]
  refine ⟨fun j t' p' => ?_, fun j hj => ?_⟩
  · rw [hframe.deps]
    exact (count_update_tail_le htok j t' p').trans (h.count_le j t' p')
  · rw [status?_releaseEdge] at hj
    have hbound := h.bound j hj
    have hdeliver := owed_deliver htok hsat hmem j
    rw [owed_congr _ j (hframe.deps j) hsats, remaining_releaseEdge]
    split
    · rename_i hjt
      rw [if_pos hjt] at hdeliver
      omega
    · rename_i hjt
      rw [if_neg hjt] at hdeliver
      omega

/-- Delivering the token of a dead edge. -/
theorem GraphInv.block (h : GraphInv s tok) (htok : tok d = (t, p) :: rest) (worklist : List OpId) :
    GraphInv (s.blockEdge t worklist).1 (Function.update tok d rest) := by
  have hframe := notified_blockEdge s t worklist
  refine ⟨fun j t' p' => ?_, fun j hj => ?_⟩
  · rw [hframe.deps]
    exact (count_update_tail_le htok j t' p').trans (h.count_le j t' p')
  · have hpending : s.status? j = some .pending := by
      rcases hframe.status j with hsame | ⟨hp, -⟩
      · rw [← hsame, hj]
      · exact hp
    rw [remaining_blockEdge]
    refine le_trans ?_ (h.bound j hpending)
    exact owed_le_of_le (hframe.deps j) (fun _ => hframe.sat)
      (fun d' p' => count_update_tail_le htok d' j p') (fun d' p' => h.count_le d' j p')

/-! ## Delivering a list of tokens -/

/-- Inside a notification: `d` ended in state `u` and its tokens are being delivered, the tasks
of the worklist are blocked and have reported nothing yet, and every other task that is not
blocked has its stored tokens. -/
structure Delivering (s : Inner) (worklist : List OpId) (tok : Tokens) (d : OpId)
    (u : TaskStatus) : Prop where
  graph : GraphInv s tok
  upstream : s.status? d = some u
  terminal : statusIsTerminal u = true
  notQueued : d ∉ worklist
  nodup : worklist.Nodup
  queued : ∀ j ∈ worklist, s.status? j = some .blocked ∧ tok j = s.dependents j
  live : ∀ j, j ≠ d → s.status? j ≠ some .blocked → tok j = s.dependents j

theorem satisfied_or_not_always (hu : statusIsTerminal u = true) (h : ¬ edgeSatisfied p u = true) :
    p ≠ .always := by
  rintro rfl
  cases u <;> first | exact h rfl | cases hu

variable {worklist : List OpId}

theorem Delivering.notify (h : Delivering s worklist tok d u) (htok : tok d = (t, p) :: rest) :
    Delivering (notifyEdge u (s, worklist) (t, p)).1 (notifyEdge u (s, worklist) (t, p)).2
      (Function.update tok d rest) d u := by
  have hframe := notified_notifyEdge u (s, worklist) (t, p)
  have hother : ∀ j, j ≠ d → Function.update tok d rest j = tok j := fun j hj =>
    Function.update_of_ne hj rest tok
  have hupstream := hframe.status_of_terminal h.upstream h.terminal
  by_cases hsat : edgeSatisfied p u = true
  · have hstep : notifyEdge u (s, worklist) (t, p) = (s.releaseEdge t, worklist) := by
      simp [notifyEdge, hsat]
    rw [hstep] at hframe hupstream ⊢
    refine ⟨h.graph.release htok (by rw [sat_of_status h.upstream, hsat]), hupstream, h.terminal,
      h.notQueued, h.nodup, fun j hj => ?_, fun j hj hlive => ?_⟩
    · rw [status?_releaseEdge, hframe.dependents, hother j (fun he => h.notQueued (he ▸ hj))]
      exact h.queued j hj
    · rw [status?_releaseEdge] at hlive
      rw [hframe.dependents, hother j hj]
      exact h.live j hj hlive
  · have halways := satisfied_or_not_always h.terminal hsat
    have hstep : notifyEdge u (s, worklist) (t, p) = s.blockEdge t worklist := by
      simp [notifyEdge, hsat, halways]
    rw [hstep] at hframe hupstream ⊢
    have hwork := worklist_blockEdge s t worklist
    have htd : s.status? t = some .pending → t ≠ d := by
      rintro hp rfl
      have hu := h.upstream
      rw [hp] at hu
      have hterm := h.terminal
      rw [← Option.some.inj hu] at hterm
      cases hterm
    refine ⟨h.graph.block htok worklist, hupstream, h.terminal, ?_, ?_, fun j hj => ?_,
      fun j hj hlive => ?_⟩
    · rw [hwork]
      split
      · rename_i hp
        exact fun hmem => (List.mem_cons.mp hmem).elim (fun he => htd hp he.symm) h.notQueued
      · exact h.notQueued
    · rw [hwork]
      split
      · rename_i hp
        refine List.nodup_cons.mpr ⟨fun hmem => ?_, h.nodup⟩
        have hblocked := (h.queued t hmem).1
        rw [hp] at hblocked
        cases hblocked
      · exact h.nodup
    · rw [hframe.dependents]
      rw [hwork] at hj
      split at hj
      · rename_i hp
        rcases List.mem_cons.mp hj with rfl | hj
        · refine ⟨?_, ?_⟩
          · unfold Inner.status? at hp ⊢
            rw [task?_blockEdge, if_pos rfl]
            obtain ⟨x, hx, hxp⟩ := Option.map_eq_some_iff.mp hp
            simp [hx, TaskState.block, hxp]
          · rw [hother j (htd hp)]
            exact h.live j (htd hp) (by rw [hp]; simp)
        · rw [hother j (fun he => h.notQueued (he ▸ hj))]
          refine ⟨?_, (h.queued j hj).2⟩
          exact hframe.status_of_terminal (h.queued j hj).1 rfl
      · rw [hother j (fun he => h.notQueued (he ▸ hj))]
        refine ⟨?_, (h.queued j hj).2⟩
        exact hframe.status_of_terminal (h.queued j hj).1 rfl
    · rw [hframe.dependents, hother j hj]
      refine h.live j hj fun hb => hlive ?_
      exact hframe.status_of_terminal hb rfl

/-- All tokens of `d` delivered, one after the other. -/
theorem Delivering.foldl (edges : List (OpId × DependencyPolicy)) (h : Delivering s worklist tok d u)
    (htok : tok d = edges) :
    Delivering (edges.foldl (notifyEdge u) (s, worklist)).1
      (edges.foldl (notifyEdge u) (s, worklist)).2 (Function.update tok d []) d u := by
  induction edges generalizing s worklist tok with
  | nil =>
    rw [Function.update_eq_self_iff.mpr htok.symm]
    exact h
  | cons e edges ih =>
    obtain ⟨t, p⟩ := e
    have hnext := ih (h.notify htok) (Function.update_self d edges tok)
    rw [Function.update_idem] at hnext
    exact hnext

/-- Only tasks that were pending are pushed on the worklist. -/
theorem mem_worklist_foldl (edges : List (OpId × DependencyPolicy)) {j : OpId}
    (h : j ∈ (edges.foldl (notifyEdge u) (s, worklist)).2) :
    j ∈ worklist ∨ s.status? j = some .pending := by
  induction edges generalizing s worklist with
  | nil => exact .inl h
  | cons e edges ih =>
    have hframe := notified_notifyEdge u (s, worklist) e
    have htail : j ∈ (edges.foldl (notifyEdge u) ((notifyEdge u (s, worklist) e).1,
        (notifyEdge u (s, worklist) e).2)).2 := h
    rcases ih htail with hmem | hpending
    · unfold notifyEdge at hmem
      split at hmem
      · exact .inl hmem
      · split at hmem
        · rw [worklist_blockEdge] at hmem
          split at hmem
          · rename_i hp
            rcases List.mem_cons.mp hmem with rfl | hmem
            · exact .inr hp
            · exact .inl hmem
          · exact .inl hmem
        · exact .inl hmem
    · rcases hframe.status j with hsame | ⟨hp, -⟩
      · exact .inr (hsame ▸ hpending)
      · exact .inr hp

/-! ## Terminalization -/

/-- The invariant between locked sections: the open counts are right for tokens that are the
stored reverse edges of every task that is not blocked. -/
structure TokInv (s : Inner) (tok : Tokens) : Prop where
  graph : GraphInv s tok
  live : ∀ j, s.status? j ≠ some .blocked → tok j = s.dependents j

/-- The transitive loop delivers the tokens of the blocked tasks it pops, whatever its fuel. -/
theorem blockLoop_tokInv (fuel : ℕ) (h : TokInv s tok) (hnodup : worklist.Nodup)
    (hqueued : ∀ j ∈ worklist, s.status? j = some .blocked ∧ tok j = s.dependents j) :
    ∃ tok', TokInv (blockLoop fuel s worklist) tok' ∧
      ∀ j, s.status? j = some .blocked → j ∉ worklist → tok' j = tok j := by
  induction fuel generalizing s worklist tok with
  | zero => exact ⟨tok, h, fun _ _ _ => rfl⟩
  | succ fuel ih =>
    cases worklist with
    | nil => exact ⟨tok, h, fun _ _ _ => rfl⟩
    | cons id worklist =>
      obtain ⟨hnot, hnodup'⟩ := List.nodup_cons.mp hnodup
      obtain ⟨hblocked, htok⟩ := hqueued id List.mem_cons_self
      have hstart : Delivering { s with notified := id :: s.notified } worklist tok id .blocked :=
        ⟨⟨h.graph.count_le, h.graph.bound⟩, hblocked, rfl, hnot, hnodup',
          fun j hj => hqueued j (List.mem_cons_of_mem id hj), fun j _ => h.live j⟩
      have hloop : blockLoop (fuel + 1) s (id :: worklist) = blockLoop fuel
          ((s.dependents id).foldl (notifyEdge .blocked)
            ({ s with notified := id :: s.notified }, worklist)).1
          ((s.dependents id).foldl (notifyEdge .blocked)
            ({ s with notified := id :: s.notified }, worklist)).2 := by
        rw [← foldl_blockSub]
        rfl
      have hdone := hstart.foldl (s.dependents id) htok
      have hframe := notified_foldl .blocked (s.dependents id)
        ({ s with notified := id :: s.notified }, worklist)
      have hwork : ∀ j, j ∈ ((s.dependents id).foldl (notifyEdge .blocked)
          ({ s with notified := id :: s.notified }, worklist)).2 →
          j ∈ worklist ∨ s.status? j = some .pending := fun j hj =>
        mem_worklist_foldl (s.dependents id) (s := { s with notified := id :: s.notified }) hj
      rw [hloop]
      generalize ((s.dependents id).foldl (notifyEdge .blocked)
        ({ s with notified := id :: s.notified }, worklist)) = acc at hdone hframe hwork ⊢
      have hinv : TokInv acc.1 (Function.update tok id []) := by
        refine ⟨hdone.graph, fun j hj => hdone.live j ?_ hj⟩
        rintro rfl
        exact hj hdone.upstream
      obtain ⟨tok', hinv', hkeep⟩ := ih hinv hdone.nodup hdone.queued
      refine ⟨tok', hinv', fun j hj hnotin => ?_⟩
      have hne : j ≠ id := fun he => hnotin (he ▸ List.mem_cons_self)
      have hstill : acc.1.status? j = some .blocked := hframe.status_of_terminal hj rfl
      rw [hkeep j hstill ?_, Function.update_of_ne hne]
      -- a task that was blocked before the delivery is not pushed by it
      intro hpushed
      rcases hwork j hpushed with hmem | hpending
      · exact hnotin (List.mem_cons_of_mem id hmem)
      · rw [hj] at hpending
        cases hpending

theorem task?_detach (s : Inner) (id : OpId) (t : TaskState) (j : OpId) :
    (s.detach id t).task? j = if j = id then some { t with dependents := [] } else s.task? j :=
  task?_setTask s id _ j

variable {id : OpId}

/-- Taking the reverse edges of `id` out changes nothing else that the invariant reads. -/
theorem detach_view {t : TaskState} (ht : s.task? id = some t) (j : OpId) :
    (s.detach id t).deps j = s.deps j ∧ (s.detach id t).status? j = s.status? j ∧
    (s.detach id t).remaining j = s.remaining j ∧
    (s.detach id t).dependents j = if j = id then [] else s.dependents j := by
  unfold Inner.deps Inner.status? Inner.remaining Inner.dependents
  rw [task?_detach]
  split
  · rename_i h
    subst h
    simp [ht]
  · exact ⟨rfl, rfl, rfl, rfl⟩

/-- Two states with the same edges, statuses and counts satisfy the law for the same tokens. -/
theorem GraphInv.congr (h : GraphInv s tok)
    (hview : ∀ j, s'.deps j = s.deps j ∧ s'.status? j = s.status? j ∧ s'.remaining j = s.remaining j) :
    GraphInv s' tok := by
  refine ⟨fun d t p => ?_, fun t ht => ?_⟩
  · rw [(hview t).1]
    exact h.count_le d t p
  · rw [(hview t).2.1] at ht
    rw [(hview t).2.2, owed_congr tok t (hview t).1 fun e => by
      unfold Inner.sat
      rw [(hview e.1).2.1]]
    exact h.bound t ht

/-- `terminalize` keeps the invariant.  It delivers the tokens of `id` and of the tasks it blocks
itself; a task that was blocked before keeps its tokens. -/
theorem terminalize_tokInv (h : TokInv s tok) (htok : tok id = s.dependents id) (hu : s.status? id = some u)
    (hterm : statusIsTerminal u = true) (hres : terminalize s id = .ok s') :
    ∃ tok', TokInv s' tok' ∧ ∀ j, j ≠ id → s.status? j = some .blocked → tok' j = tok j := by
  unfold terminalize at hres
  split at hres
  · rw [← Except.ok.inj hres]
    exact ⟨tok, ⟨⟨h.graph.count_le, h.graph.bound⟩, h.live⟩, fun _ _ _ => rfl⟩
  · obtain ⟨t, ht, hstatus⟩ := Option.map_eq_some_iff.mp hu
    have hview := fun j => detach_view ht j
    have hdeps : t.dependents = tok id := by
      rw [htok, Inner.dependents, ht]
      rfl
    simp only [ht, hdeps, hstatus] at hres
    have hstart : Delivering (s.detach id t) [] tok id u := by
      refine ⟨h.graph.congr fun j => ⟨(hview j).1, (hview j).2.1, (hview j).2.2.1⟩, ?_, hterm,
        by simp, by simp, by simp, fun j hj hlive => ?_⟩
      · rw [(hview id).2.1, hu]
      · rw [(hview j).2.1] at hlive
        rw [(hview j).2.2.2, if_neg hj]
        exact h.live j hlive
    have hdone := hstart.foldl (tok id) rfl
    have hframe := notified_foldl u (tok id) (s.detach id t, [])
    have hwork : ∀ j, j ∈ ((tok id).foldl (notifyEdge u) (s.detach id t, [])).2 →
        s.status? j = some .pending := fun j hj => by
      rcases mem_worklist_foldl (tok id) hj with hmem | hpending
      · cases hmem
      · rwa [(hview j).2.1] at hpending
    generalize (tok id).foldl (notifyEdge u) (s.detach id t, []) = acc at hdone hframe hwork hres
    have hinv : TokInv acc.1 (Function.update tok id []) := by
      refine ⟨hdone.graph, fun j hj => ?_⟩
      by_cases hjd : j = id
      · subst hjd
        rw [Function.update_self, hframe.dependents, (hview j).2.2.2, if_pos rfl]
      · exact hdone.live j hjd hj
    obtain ⟨tok', hinv', hkeep⟩ :=
      blockLoop_tokInv (acc.2.length + acc.1.pendingCount) hinv hdone.nodup hdone.queued
    rw [← Except.ok.inj hres]
    refine ⟨tok', hinv', fun j hj hblocked => ?_⟩
    have hstill : acc.1.status? j = some .blocked :=
      hframe.status_of_terminal (by rw [(hview j).2.1, hblocked]) rfl
    rw [hkeep j hstill ?_, Function.update_of_ne hj]
    intro hpushed
    rw [hwork j hpushed] at hblocked
    cases hblocked

/-! ## What terminalization leaves alone -/

/-- The frame of `terminalize` on op `id`: records keep their op, a status changes only from
pending to blocked, the gauge is untouched, `id` leaves the running map and is in the ledger. -/
structure Terminalized (id : OpId) (s s' : Inner) : Prop where
  gauge : s'.gauge = s.gauge
  running : s'.running = s.running ∨ s'.running = s.running.erase id
  terminalized : ∀ j, j ∈ s'.terminalized ↔ j ∈ s.terminalized ∨ j = id
  absent : ∀ j, s.task? j = none → s'.task? j = none
  task : ∀ j t, s.task? j = some t → ∃ t', s'.task? j = some t' ∧ t'.op = t.op ∧
    (t'.status = t.status ∨ (t.status = .pending ∧ t'.status = .blocked))
  dependents : ∀ j, j ≠ id → s'.dependents j = s.dependents j
  ready : ∀ j ∈ s'.ready, j ∈ s.ready ∨ (s.task? j).isSome

/-- A registered op is terminalized without a panic. -/
theorem terminalize_ok (h : (s.task? id).isSome) :
    ∃ s', terminalize s id = .ok s' := by
  obtain ⟨t, ht⟩ := Option.isSome_iff_exists.mp h
  unfold terminalize
  split
  · exact ⟨_, rfl⟩
  · simp only [ht]
    exact ⟨_, rfl⟩

theorem terminalize_frame (h : terminalize s id = .ok s') :
    Terminalized id s s' := by
  unfold terminalize at h
  split at h
  · rename_i attempts hin
    rw [← Except.ok.inj h]
    refine ⟨rfl, .inl rfl, fun j => ?_, fun _ hj => hj, fun j t ht => ⟨t, ht, rfl, .inl rfl⟩,
      fun _ _ => rfl, fun _ hj => .inl hj⟩
    rw [AList.mem_insert, or_comm]
  · split at h
    · cases h
    · rename_i t ht
      have hfold := notified_foldl t.status t.dependents (s.detach id t, [])
      generalize t.dependents.foldl (notifyEdge t.status) (s.detach id t, []) = acc at h hfold
      have hframe := hfold.trans (notified_blockLoop (acc.2.length + acc.1.pendingCount) acc.1 acc.2)
      rw [Except.ok.inj h] at hframe
      refine ⟨hframe.gauge, .inr hframe.running, fun j => ?_, fun j hj => ?_, fun j x hx => ?_,
        fun j hj => ?_, fun j hj => ?_⟩
      · rw [hframe.terminalized]
        show j ∈ s.terminalized.insert id 1 ↔ _
        rw [AList.mem_insert, or_comm]
      · refine hframe.absent j ?_
        rw [task?_detach, if_neg, hj]
        rintro rfl
        rw [hj] at ht
        cases ht
      · have hstart : ∃ y, (s.detach id t).task? j = some y ∧ y.op = x.op ∧
            y.status = x.status := by
          rw [task?_detach]
          split
          · rename_i hj
            subst hj
            rw [ht] at hx
            rw [← Option.some.inj hx]
            exact ⟨_, rfl, rfl, rfl⟩
          · exact ⟨x, hx, rfl, rfl⟩
        obtain ⟨y, hy, hop, hstatus⟩ := hstart
        obtain ⟨z, hz, hop', -, hstatus'⟩ := hframe.task j y hy
        exact ⟨z, hz, hop'.trans hop, hstatus ▸ hstatus'⟩
      · rw [hframe.dependents, (detach_view ht j).2.2.2, if_neg hj]
      · rcases hframe.ready j hj with hr | hsome
        · exact .inl hr
        · right
          rw [task?_detach] at hsome
          split at hsome
          · rename_i hj'
            rw [hj', ht]
            rfl
          · exact hsome

theorem Terminalized.task?_isSome (h : Terminalized id s s') (j : OpId) :
    (s'.task? j).isSome = (s.task? j).isSome := by
  cases hj : s.task? j with
  | none => rw [h.absent j hj]
  | some t =>
    obtain ⟨t', ht', -⟩ := h.task j t hj
    rw [ht']
    rfl

theorem Terminalized.status (h : Terminalized id s s') (j : OpId) :
    s'.status? j = s.status? j ∨
      (s.status? j = some .pending ∧ s'.status? j = some .blocked) := by
  unfold Inner.status?
  cases hj : s.task? j with
  | none => exact .inl (by rw [h.absent j hj])
  | some t =>
    obtain ⟨t', ht', -, hsame | ⟨hp, hb⟩⟩ := h.task j t hj
    · exact .inl (by simp [ht', hsame])
    · exact .inr ⟨by simp [hp], by simp [ht', hb]⟩

end Scheduler
