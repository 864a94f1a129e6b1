/-
# What a section leaves alone

`Framed` bounds what notification and rebuild may write: no permit, no start and no end of a
task, only pending tasks turned blocked, ownership entries dropped but never changed, and the
notification log grown by each newly blocked task once.  It holds of the state a rebuild leaves
behind even when the rebuild panics, which is why it is proved step by step and not from the
closed form of `SchedulerEdges.lean`.
-/
import Faktor.SchedulerSections

namespace Scheduler

/-- A section that starts and ends no task. -/
structure Framed (s s' : Inner) : Prop where
  gauge : s'.gauge = s.gauge
  absent : ∀ j, s.task? j = none → s'.task? j = none
  task : ∀ j t, s.task? j = some t → ∃ t', s'.task? j = some t' ∧ t'.op = t.op ∧
    (t'.status = t.status ∨ (t.status = .pending ∧ t'.status = .blocked))
  ready : ∀ j ∈ s'.ready, j ∈ s.ready ∨ (s.task? j).isSome
  running : ∀ j v, s'.running.lookup j = some v → s.running.lookup j = some v
  keeps : ∀ j, s'.status? j = some .running → s'.running.lookup j = s.running.lookup j
  ledger : ∀ j ∈ s.terminalized, j ∈ s'.terminalized
  entered : ∀ j ∈ s'.terminalized, j ∈ s.terminalized ∨ s'.status? j = some .blocked
  log : ∃ l, s'.notified = l ++ s.notified ∧ l.Nodup ∧
    ∀ j ∈ l, s.status? j = some .pending ∧ s'.status? j = some .blocked

/-! ## Reading a frame -/

section Frame

variable {s s' : Inner}

theorem Framed.status (h : Framed s s') (j : OpId) :
    s'.status? j = s.status? j ∨
      (s.status? j = some .pending ∧ s'.status? j = some .blocked) := by
  unfold Inner.status?
  cases hj : s.task? j with
  | none => exact .inl (by rw [h.absent j hj])
  | some t =>
    obtain ⟨t', ht', -, hsame | ⟨hp, hb⟩⟩ := h.task j t hj
    · exact .inl (by simp [ht', hsame])
    · exact .inr ⟨by simp [hp], by simp [ht', hb]⟩

/-- Only a pending task changes its status. -/
theorem Framed.status_of_ne_pending (h : Framed s s') {j : OpId} {u : TaskStatus}
    (hj : s.status? j = some u) (hu : u ≠ .pending) : s'.status? j = some u := by
  rcases h.status j with hsame | ⟨hp, -⟩
  · rw [hsame, hj]
  · rw [hj] at hp
    exact absurd (Option.some.inj hp) hu

/-- A status other than blocked was there before. -/
theorem Framed.status_of_ne_blocked (h : Framed s s') {j : OpId} {u : TaskStatus}
    (hj : s'.status? j = some u) (hu : u ≠ .blocked) : s.status? j = some u := by
  rcases h.status j with hsame | ⟨-, hb⟩
  · rw [← hsame, hj]
  · rw [hj] at hb
    exact absurd (Option.some.inj hb) hu

theorem Framed.task?_isSome (h : Framed s s') (j : OpId) :
    (s'.task? j).isSome = (s.task? j).isSome := by
  cases hj : s.task? j with
  | none => rw [h.absent j hj]
  | some t =>
    obtain ⟨t', ht', -⟩ := h.task j t hj
    rw [ht']
    rfl

/-- A state that keeps every op and status, and everything but the ready queue. -/
theorem Framed.of_counts (hgauge : s'.gauge = s.gauge)
    (htask : ∀ j, (s'.task? j).map (fun t => (t.op, t.status)) =
      (s.task? j).map (fun t => (t.op, t.status)))
    (hready : ∀ j ∈ s'.ready, j ∈ s.ready ∨ (s.task? j).isSome)
    (hrunning : s'.running = s.running) (hledger : s'.terminalized = s.terminalized)
    (hlog : s'.notified = s.notified) : Framed s s' where
  gauge := hgauge
  absent j hj := by simpa [hj] using htask j
  task j t ht := by
    have hj := htask j
    rw [ht, Option.map_some, Option.map_eq_some_iff] at hj
    obtain ⟨t', ht', heq⟩ := hj
    exact ⟨t', ht', (Prod.mk.inj heq).1, .inl (Prod.mk.inj heq).2⟩
  ready := hready
  running j v hv := hrunning ▸ hv
  keeps j _ := by rw [hrunning]
  ledger j hj := hledger ▸ hj
  entered j hj := .inl (hledger ▸ hj)
  log := ⟨[], hlog, List.nodup_nil, by simp⟩

theorem Framed.trans {s₁ s₂ s₃ : Inner} (h : Framed s₁ s₂) (h' : Framed s₂ s₃) :
    Framed s₁ s₃ where
  gauge := h'.gauge.trans h.gauge
  absent j hj := h'.absent j (h.absent j hj)
  task j t ht := by
    obtain ⟨t₂, ht₂, hop, hstatus⟩ := h.task j t ht
    obtain ⟨t₃, ht₃, hop', hstatus'⟩ := h'.task j t₂ ht₂
    refine ⟨t₃, ht₃, hop'.trans hop, ?_⟩
    rcases hstatus with hsame | ⟨hp, hb⟩
    · rw [← hsame]
      exact hstatus'
    · rcases hstatus' with hsame' | ⟨hp', -⟩
      · exact .inr ⟨hp, hsame'.trans hb⟩
      · rw [hb] at hp'
        cases hp'
  ready j hj := by
    rcases h'.ready j hj with hr | hsome
    · exact h.ready j hr
    · exact .inr (h.task?_isSome j ▸ hsome)
  running j v hv := h.running j v (h'.running j v hv)
  keeps j hj := by
    have hj₂ := h'.status_of_ne_blocked hj (by decide)
    rw [h'.keeps j hj, h.keeps j hj₂]
  ledger j hj := h'.ledger j (h.ledger j hj)
  entered j hj := by
    rcases h'.entered j hj with hin | hb
    · rcases h.entered j hin with hin | hb
      · exact .inl hin
      · exact .inr (h'.status_of_ne_pending hb (by decide))
    · exact .inr hb
  log := by
    obtain ⟨l, hl, hnodup, hnew⟩ := h.log
    obtain ⟨l', hl', hnodup', hnew'⟩ := h'.log
    refine ⟨l' ++ l, by rw [hl', hl, List.append_assoc],
      List.nodup_append.mpr ⟨hnodup', hnodup, ?_⟩, fun j hj => ?_⟩
    · -- an entry of the second log was still pending after the first section
      rintro j hj k hk rfl
      have hp := (hnew' j hj).1
      rw [(hnew j hk).2] at hp
      cases hp
    · rcases List.mem_append.mp hj with hj | hj
      · exact ⟨h.status_of_ne_blocked (hnew' j hj).1 (by decide), (hnew' j hj).2⟩
      · exact ⟨(hnew j hj).1, h'.status_of_ne_pending (hnew j hj).2 (by decide)⟩

end Frame

/-! ## The notification log -/

theorem log_notifyEdge (u : TaskStatus) (acc : Inner × List OpId)
    (e : OpId × DependencyPolicy) : (notifyEdge u acc e).1.notified = acc.1.notified := by
  unfold notifyEdge Inner.releaseEdge Inner.blockEdge
  split
  · dsimp only
    split
    · rfl
    · split <;> rfl
  · split
    · dsimp only
      split
      · rfl
      · split <;> rfl
    · rfl

theorem log_foldl (u : TaskStatus) (edges : List (OpId × DependencyPolicy))
    (acc : Inner × List OpId) :
    (edges.foldl (notifyEdge u) acc).1.notified = acc.1.notified := by
  induction edges generalizing acc with
  | nil => rfl
  | cons e edges ih => rw [List.foldl_cons, ih, log_notifyEdge]

/-- The worklist of a notification: what it was given, and pending tasks it has just blocked. -/
structure Worklisted (s s' : Inner) (worklist worklist' : List OpId) : Prop where
  nodup : worklist'.Nodup
  blocked : ∀ j ∈ worklist', s'.status? j = some .blocked
  origin : ∀ j ∈ worklist', j ∈ worklist ∨ s.status? j = some .pending

theorem worklisted_notifyEdge {u : TaskStatus} {s : Inner} {worklist : List OpId}
    (e : OpId × DependencyPolicy) (hnodup : worklist.Nodup)
    (hblocked : ∀ j ∈ worklist, s.status? j = some .blocked) :
    Worklisted s (notifyEdge u (s, worklist) e).1 worklist
      (notifyEdge u (s, worklist) e).2 := by
  have hframe := notified_notifyEdge u (s, worklist) e
  have hkeep : ∀ j ∈ worklist, (notifyEdge u (s, worklist) e).1.status? j = some .blocked :=
    fun j hj => hframe.status_of_terminal (hblocked j hj) rfl
  unfold notifyEdge at hkeep ⊢
  split at hkeep
  · rename_i hsat
    rw [if_pos hsat]
    exact ⟨hnodup, hkeep, fun j hj => .inl hj⟩
  · rename_i hsat
    rw [if_neg hsat]
    split at hkeep
    · rename_i halways
      rw [if_pos halways]
      have hwork := worklist_blockEdge s e.1 worklist
      by_cases hp : s.status? e.1 = some .pending
      · rw [if_pos hp] at hwork
        dsimp only at hkeep ⊢
        rw [hwork]
        refine ⟨List.nodup_cons.mpr ⟨fun hmem => ?_, hnodup⟩, fun j hj => ?_, fun j hj => ?_⟩
        · have hb := hblocked _ hmem
          rw [hp] at hb
          cases hb
        · rcases List.mem_cons.mp hj with rfl | hj
          · obtain ⟨x, hx, hxp⟩ := Option.map_eq_some_iff.mp hp
            simp [Inner.status?, task?_blockEdge, hx, TaskState.block, hxp]
          · exact hkeep j hj
        · rcases List.mem_cons.mp hj with rfl | hj
          · exact .inr hp
          · exact .inl hj
      · rw [if_neg hp] at hwork
        dsimp only at hkeep ⊢
        rw [hwork]
        exact ⟨hnodup, hkeep, fun j hj => .inl hj⟩
    · rename_i halways
      rw [if_neg halways]
      exact ⟨hnodup, hkeep, fun j hj => .inl hj⟩

theorem worklisted_foldl {u : TaskStatus} (edges : List (OpId × DependencyPolicy)) {s : Inner}
    {worklist : List OpId} (hnodup : worklist.Nodup)
    (hblocked : ∀ j ∈ worklist, s.status? j = some .blocked) :
    Worklisted s (edges.foldl (notifyEdge u) (s, worklist)).1 worklist
      (edges.foldl (notifyEdge u) (s, worklist)).2 := by
  induction edges generalizing s worklist with
  | nil => exact ⟨hnodup, hblocked, fun j hj => .inl hj⟩
  | cons e edges ih =>
    have hstep := @worklisted_notifyEdge u s worklist e hnodup hblocked
    have hframe := notified_notifyEdge u (s, worklist) e
    obtain ⟨hnodup', hblocked', horigin⟩ := ih hstep.nodup hstep.blocked
    refine ⟨hnodup', hblocked', fun j hj => ?_⟩
    rcases horigin j hj with hmem | hp
    · exact hstep.origin j hmem
    · rcases hframe.status j with hsame | ⟨hp', -⟩
      · exact .inr (hsame ▸ hp)
      · exact .inr hp'

/-- The transitive loop logs tasks of its worklist and tasks it blocks, each once. -/
theorem log_blockLoop (fuel : ℕ) {s : Inner} {worklist : List OpId} (hnodup : worklist.Nodup)
    (hblocked : ∀ j ∈ worklist, s.status? j = some .blocked) :
    ∃ l, (blockLoop fuel s worklist).notified = l ++ s.notified ∧ l.Nodup ∧
      ∀ j ∈ l, (j ∈ worklist ∨ s.status? j = some .pending) ∧
        (blockLoop fuel s worklist).status? j = some .blocked := by
  induction fuel generalizing s worklist with
  | zero => exact ⟨[], rfl, List.nodup_nil, by simp⟩
  | succ fuel ih =>
    cases worklist with
    | nil => exact ⟨[], rfl, List.nodup_nil, by simp⟩
    | cons id worklist =>
      obtain ⟨hnot, hnodup'⟩ := List.nodup_cons.mp hnodup
      have hloop : blockLoop (fuel + 1) s (id :: worklist) = blockLoop fuel
          ((s.dependents id).foldl (notifyEdge .blocked)
            ({ s with notified := id :: s.notified }, worklist)).1
          ((s.dependents id).foldl (notifyEdge .blocked)
            ({ s with notified := id :: s.notified }, worklist)).2 := by
        rw [← foldl_blockSub]
        rfl
      have hwork := @worklisted_foldl .blocked (s.dependents id)
        { s with notified := id :: s.notified } worklist hnodup'
        (fun j hj => hblocked j (List.mem_cons_of_mem id hj))
      have hframe := notified_foldl .blocked (s.dependents id)
        ({ s with notified := id :: s.notified }, worklist)
      have hlog := log_foldl .blocked (s.dependents id)
        ({ s with notified := id :: s.notified }, worklist)
      rw [hloop]
      generalize ((s.dependents id).foldl (notifyEdge .blocked)
        ({ s with notified := id :: s.notified }, worklist)) = acc at hwork hframe hlog ⊢
      have hpending : ∀ j, acc.1.status? j = some .pending → s.status? j = some .pending := by
        intro j hj
        rcases hframe.status j with hsame | ⟨hp, -⟩
        · exact hsame ▸ hj
        · exact hp
      have hid : acc.1.status? id = some .blocked :=
        hframe.status_of_terminal (hblocked id List.mem_cons_self) rfl
      have hafter := notified_blockLoop fuel acc.1 acc.2
      obtain ⟨l, hl, hlnodup, hmem⟩ := ih hwork.nodup hwork.blocked
      refine ⟨l ++ [id], ?_, ?_, fun j hj => ?_⟩
      · rw [hl, hlog]
        simp
      · refine List.nodup_append.mpr ⟨hlnodup, List.nodup_singleton id, ?_⟩
        rintro j hj k hk rfl
        rw [List.mem_singleton] at hk
        subst hk
        -- the popped task is neither on the new worklist nor pending
        rcases (hmem j hj).1 with hin | hp
        · rcases hwork.origin j hin with hin | hp
          · exact hnot hin
          · have hb := hblocked j List.mem_cons_self
            rw [show s.status? j = some .pending from hp] at hb
            cases hb
        · rw [hid] at hp
          cases hp
      · rcases List.mem_append.mp hj with hj | hj
        · refine ⟨?_, (hmem j hj).2⟩
          rcases (hmem j hj).1 with hin | hp
          · rcases hwork.origin j hin with hin | hp
            · exact .inl (List.mem_cons_of_mem id hin)
            · exact .inr hp
          · exact .inr (hpending j hp)
        · rw [List.mem_singleton.mp hj]
          exact ⟨.inl List.mem_cons_self, hafter.status_of_terminal hid rfl⟩

/-- **The log of a terminalization**: nothing for a refused one, else the op and the pending
tasks it blocks, each once. -/
theorem terminalize_log {s s' : Inner} {id : OpId} (h : terminalize s id = .ok s') :
    (id ∈ s.terminalized ∧ s'.notified = s.notified) ∨
      (id ∉ s.terminalized ∧ ∃ l, s'.notified = l ++ id :: s.notified ∧ l.Nodup ∧
        ∀ j ∈ l, s.status? j = some .pending ∧ s'.status? j = some .blocked) := by
  unfold terminalize at h
  split at h
  · rename_i attempts hin
    refine .inl ⟨?_, by rw [← Except.ok.inj h]⟩
    rw [← AList.lookup_isSome, hin]
    rfl
  · rename_i hnone
    right
    refine ⟨by rw [← AList.lookup_isSome, hnone]; simp, ?_⟩
    split at h
    · cases h
    · rename_i t ht
      have hview := fun j => (detach_view ht j).2.1
      have hwork := @worklisted_foldl t.status t.dependents (s.detach id t) []
        List.nodup_nil (by simp)
      have hlog := log_foldl t.status t.dependents (s.detach id t, [])
      have hframe := notified_foldl t.status t.dependents (s.detach id t, [])
      generalize t.dependents.foldl (notifyEdge t.status) (s.detach id t, []) = acc
        at h hwork hlog hframe
      obtain ⟨l, hl, hnodup, hmem⟩ :=
        log_blockLoop (acc.2.length + acc.1.pendingCount) hwork.nodup hwork.blocked
      rw [← Except.ok.inj h]
      refine ⟨l, by rw [hl, hlog]; rfl, hnodup, fun j hj => ⟨?_, (hmem j hj).2⟩⟩
      rcases (hmem j hj).1 with hin | hp
      · rcases hwork.origin j hin with hnil | hp
        · cases hnil
        · exact hview j ▸ hp
      · rcases hframe.status j with hsame | ⟨hp', -⟩
        · exact hview j ▸ hsame ▸ hp
        · exact hview j ▸ hp'

/-! ## The rebuild, panicked or not -/

/-- `P` of the result of a section that ended normally, `Q` of what a panicked one left. -/
def EndsIn {ε α : Type} (P : α → Prop) (Q : ε → Prop) : Except ε α → Prop
  | .ok a => P a
  | .error e => Q e

/-- A loop of sections: `P` is its invariant. -/
theorem EndsIn.foldlM {ε α β : Type} {P : β → Prop} {Q : ε → Prop} {f : β → α → Except ε β}
    (l : List α) (hstep : ∀ b, ∀ a ∈ l, P b → EndsIn P Q (f b a)) {b : β} (h : P b) :
    EndsIn P Q (l.foldlM f b) := by
  induction l generalizing b with
  | nil => exact h
  | cons a l ih =>
    have hone := hstep b a List.mem_cons_self h
    rw [List.foldlM_cons]
    cases hf : f b a with
    | error e =>
      rw [hf] at hone
      exact hone
    | ok b' =>
      rw [hf] at hone
      exact ih (fun b a ha => hstep b a (List.mem_cons_of_mem _ ha)) hone

/-- Every op and status kept, and everything outside the task records. -/
structure Recounted (s s' : Inner) : Prop where
  gauge : s'.gauge = s.gauge
  task : ∀ j, (s'.task? j).map (fun t => (t.op, t.status)) =
    (s.task? j).map (fun t => (t.op, t.status))
  ready : s'.ready = s.ready
  running : s'.running = s.running
  terminalized : s'.terminalized = s.terminalized
  notified : s'.notified = s.notified

theorem Recounted.refl (s : Inner) : Recounted s s := ⟨rfl, fun _ => rfl, rfl, rfl, rfl, rfl⟩

theorem Recounted.trans {s₁ s₂ s₃ : Inner} (h : Recounted s₁ s₂) (h' : Recounted s₂ s₃) :
    Recounted s₁ s₃ :=
  ⟨h'.gauge.trans h.gauge, fun j => (h'.task j).trans (h.task j), h'.ready.trans h.ready,
    h'.running.trans h.running, h'.terminalized.trans h.terminalized,
    h'.notified.trans h.notified⟩

theorem Recounted.framed {s s' : Inner} (h : Recounted s s') : Framed s s' :=
  .of_counts h.gauge h.task (fun _ hj => .inl (h.ready ▸ hj)) h.running h.terminalized h.notified

theorem Recounted.status? {s s' : Inner} (h : Recounted s s') (j : OpId) :
    s'.status? j = s.status? j := by
  have hj := congrArg (Option.map Prod.snd) (h.task j)
  simpa [Inner.status?, Option.map_map, Function.comp_def] using hj

/-- A record rewritten with the same op and status. -/
theorem recounted_setTask {s : Inner} {id : OpId} {t x : TaskState} (ht : s.task? id = some t)
    (hop : x.op = t.op) (hstatus : x.status = t.status) : Recounted s (s.setTask id x) := by
  refine ⟨rfl, fun j => ?_, rfl, rfl, rfl, rfl⟩
  rw [task?_setTask]
  split
  · rename_i hj
    subst hj
    simp [ht, hop, hstatus]
  · rfl

theorem recounted_rebuildEdge {statuses : OpId → Option TaskStatus} {id : OpId} {cur : Inner}
    (acc : Inner × ℕ × ℕ) (e : OpId × DependencyPolicy) (h : Recounted cur acc.1) :
    EndsIn (fun acc' => Recounted cur acc'.1) (Recounted cur)
      (rebuildEdge statuses id acc e) := by
  unfold rebuildEdge
  split
  · exact h
  · split
    · exact h
    · split
      · exact h
      · split
        · exact h
        · rename_i dep hdep
          exact h.trans (recounted_setTask hdep rfl rfl)

/-- What the visits of a rebuild of `s` keep. -/
structure Visited (s : Inner) (acc : Inner × List OpId) : Prop where
  framed : Framed s acc.1
  log : acc.1.notified = s.notified
  nodup : acc.2.Nodup
  blocked : ∀ j ∈ acc.2, s.status? j = some .pending ∧ acc.1.status? j = some .blocked

theorem Visited.recount {s : Inner} {acc : Inner × List OpId} (h : Visited s acc) {s' : Inner}
    (hstep : Recounted acc.1 s') : Visited s (s', acc.2) where
  framed := h.framed.trans hstep.framed
  log := hstep.notified.trans h.log
  nodup := h.nodup
  blocked j hj := ⟨(h.blocked j hj).1, by rw [hstep.status?]; exact (h.blocked j hj).2⟩

/-- A pending task turned blocked. -/
theorem framed_block {s : Inner} {id : OpId} {t x : TaskState} (ht : s.task? id = some t)
    (hop : x.op = t.op) (hp : t.status = .pending) (hb : x.status = .blocked) :
    Framed s (s.setTask id x) where
  gauge := rfl
  absent j hj := by
    rw [task?_setTask, if_neg, hj]
    rintro rfl
    rw [hj] at ht
    cases ht
  task j y hy := by
    rw [task?_setTask]
    split
    · rename_i hj
      subst hj
      rw [ht] at hy
      exact ⟨x, rfl, by rw [hop, Option.some.inj hy], .inr ⟨by rw [← Option.some.inj hy, hp], hb⟩⟩
    · exact ⟨y, hy, rfl, .inl rfl⟩
  ready j hj := .inl hj
  running j v hv := hv
  keeps j _ := rfl
  ledger j hj := hj
  entered j hj := .inl hj
  log := ⟨[], rfl, List.nodup_nil, by simp⟩

theorem Visited.block {s : Inner} {acc : Inner × List OpId} (h : Visited s acc) {id : OpId}
    {t x : TaskState} (ht : acc.1.task? id = some t) (hop : x.op = t.op)
    (hp : t.status = .pending) (hb : x.status = .blocked) :
    Visited s (acc.1.setTask id x, acc.2 ++ [id]) := by
  have hstep := framed_block ht hop hp hb
  have hpending : acc.1.status? id = some .pending := by simp [Inner.status?, ht, hp]
  refine ⟨h.framed.trans hstep, h.log, List.nodup_append.mpr ⟨h.nodup, List.nodup_singleton id,
    ?_⟩, fun j hj => ?_⟩
  · rintro j hj k hk rfl
    have hblocked := (h.blocked j hj).2
    rw [List.mem_singleton.mp hk, hpending] at hblocked
    cases hblocked
  · rcases List.mem_append.mp hj with hj | hj
    · exact ⟨(h.blocked j hj).1, hstep.status_of_ne_pending (h.blocked j hj).2 (by decide)⟩
    · rw [List.mem_singleton.mp hj]
      exact ⟨h.framed.status_of_ne_blocked hpending (by decide), by simp [Inner.status?, hb]⟩

theorem visited_rebuildTask {s : Inner} {statuses : OpId → Option TaskStatus}
    (acc : Inner × List OpId) (id : OpId) (h : Visited s acc) :
    EndsIn (Visited s) (Framed s) (rebuildTask statuses acc id) := by
  unfold rebuildTask
  cases ht : acc.1.task? id with
  | none => exact h.framed
  | some t =>
    have hwalk := EndsIn.foldlM t.op.dependencies
      (fun b e _ => @recounted_rebuildEdge statuses id acc.1 b e) (b := (acc.1, 0, 0))
      (.refl acc.1)
    simp only [bind, Except.bind]
    cases hres : t.op.dependencies.foldlM (rebuildEdge statuses id) (acc.1, 0, 0) with
    | error left =>
      rw [hres] at hwalk
      exact h.framed.trans hwalk.framed
    | ok w =>
      rw [hres] at hwalk
      have hvisit := h.recount hwalk
      obtain ⟨cur, remaining, blocked⟩ := w
      simp only at hvisit ⊢
      cases ht' : cur.task? id with
      | none => exact hvisit.framed
      | some t' =>
        simp only
        split
        · rename_i hnew
          exact hvisit.block ht' rfl hnew.2 rfl
        · exact hvisit.recount (recounted_setTask ht' rfl rfl)

/-- A newly blocked task terminalized within a rebuild of `s`. -/
theorem Framed.terminalize {s cur s' : Inner} (h : Framed s cur) {id : OpId}
    (hp : s.status? id = some .pending) (hb : cur.status? id = some .blocked)
    (hlog : id ∉ cur.notified) (hres : terminalize cur id = .ok s') : Framed s s' := by
  have hframe := terminalize_frame hres
  have hstatus : ∀ j u, cur.status? j = some u → u ≠ .pending → s'.status? j = some u := by
    intro j u hj hu
    rcases hframe.status j with hsame | ⟨hp', -⟩
    · rw [hsame, hj]
    · rw [hj] at hp'
      exact absurd (Option.some.inj hp') hu
  have hrun : ∀ j, j ≠ id → s'.running.lookup j = cur.running.lookup j := by
    intro j hj
    rcases hframe.running with heq | heq
    · rw [heq]
    · rw [heq, AList.lookup_erase_ne hj]
  refine ⟨hframe.gauge.trans h.gauge, fun j hj => hframe.absent j (h.absent j hj), ?_, ?_, ?_, ?_,
    fun j hj => (hframe.terminalized j).mpr (.inl (h.ledger j hj)), ?_, ?_⟩
  · intro j t ht
    obtain ⟨t₁, ht₁, hop, hst⟩ := h.task j t ht
    obtain ⟨t₂, ht₂, hop', hst'⟩ := hframe.task j t₁ ht₁
    refine ⟨t₂, ht₂, hop'.trans hop, ?_⟩
    rcases hst with hsame | ⟨hpend, hblk⟩
    · rw [← hsame]
      exact hst'
    · rcases hst' with hsame' | ⟨hpend', -⟩
      · exact .inr ⟨hpend, hsame'.trans hblk⟩
      · rw [hblk] at hpend'
        cases hpend'
  · intro j hj
    rcases hframe.ready j hj with hr | hsome
    · exact h.ready j hr
    · exact .inr (h.task?_isSome j ▸ hsome)
  · intro j v hv
    refine h.running j v ?_
    rcases hframe.running with heq | heq
    · rwa [heq] at hv
    · by_cases hj : j = id
      · subst hj
        rw [heq, AList.lookup_erase] at hv
        cases hv
      · rwa [hrun j hj] at hv
  · intro j hj
    have hne : j ≠ id := by
      rintro rfl
      rw [hstatus j _ hb (by decide)] at hj
      cases hj
    have hcur : cur.status? j = some .running := by
      rcases hframe.status j with hsame | ⟨-, hblk⟩
      · rw [← hsame, hj]
      · rw [hj] at hblk
        cases hblk
    rw [hrun j hne, h.keeps j hcur]
  · intro j hj
    rcases (hframe.terminalized j).mp hj with hj | rfl
    · rcases h.entered j hj with hj | hblk
      · exact .inl hj
      · exact .inr (hstatus j _ hblk (by decide))
    · exact .inr (hstatus j _ hb (by decide))
  · obtain ⟨l, hl, hnodup, hnew⟩ := h.log
    have hkeep : ∀ j ∈ l, s.status? j = some .pending ∧ s'.status? j = some .blocked :=
      fun j hj => ⟨(hnew j hj).1, hstatus j _ (hnew j hj).2 (by decide)⟩
    rcases terminalize_log hres with ⟨-, heq⟩ | ⟨-, l', hl', hnodup', hnew'⟩
    · exact ⟨l, heq.trans hl, hnodup, hkeep⟩
    · refine ⟨l' ++ id :: l, by rw [hl', hl]; simp, ?_, fun j hj => ?_⟩
      · refine List.nodup_append.mpr ⟨hnodup', List.nodup_cons.mpr ⟨fun hmem => hlog ?_, hnodup⟩, ?_⟩
        · rw [hl]
          exact List.mem_append_left _ hmem
        · -- what this terminalization blocks was pending until now
          rintro j hj k hk rfl
          have hpend := (hnew' j hj).1
          rcases List.mem_cons.mp hk with rfl | hk
          · rw [hb] at hpend
            cases hpend
          · rw [(hnew j hk).2] at hpend
            cases hpend
      · rcases List.mem_append.mp hj with hj | hj
        · refine ⟨?_, (hnew' j hj).2⟩
          exact h.status_of_ne_blocked (hnew' j hj).1 (by decide)
        · rcases List.mem_cons.mp hj with rfl | hj
          · exact ⟨hp, hstatus j _ hb (by decide)⟩
          · exact hkeep j hj

theorem framed_foldlM_terminalize (nb : List OpId) {s cur : Inner} (h : Framed s cur)
    (hnodup : nb.Nodup)
    (hnb : ∀ j ∈ nb, s.status? j = some .pending ∧ cur.status? j = some .blocked ∧
      j ∉ cur.notified) :
    EndsIn (Framed s) (Framed s) (nb.foldlM terminalize cur) := by
  induction nb generalizing cur with
  | nil => exact h
  | cons id nb ih =>
    obtain ⟨hnot, hnodup'⟩ := List.nodup_cons.mp hnodup
    obtain ⟨hp, hb, hlog⟩ := hnb id List.mem_cons_self
    obtain ⟨t, ht, -⟩ := Option.map_eq_some_iff.mp hb
    obtain ⟨s₁, hs₁⟩ := @terminalize_ok cur id (by rw [ht]; rfl)
    have hframe := terminalize_frame hs₁
    rw [List.foldlM_cons, hs₁]
    refine ih (h.terminalize hp hb hlog hs₁) hnodup' fun j hj => ?_
    obtain ⟨hpj, hbj, hlogj⟩ := hnb j (List.mem_cons_of_mem id hj)
    have hne : j ≠ id := fun he => hnot (he ▸ hj)
    refine ⟨hpj, ?_, ?_⟩
    · rcases hframe.status j with hsame | ⟨hp', -⟩
      · rw [hsame, hbj]
      · rw [hbj] at hp'
        cases hp'
    · rcases terminalize_log hs₁ with ⟨-, heq⟩ | ⟨-, l, hl, -, hnew⟩
      · rwa [heq]
      · rw [hl, List.mem_append, List.mem_cons]
        rintro (hin | rfl | hin)
        · have hpend := (hnew j hin).1
          rw [hbj] at hpend
          cases hpend
        · exact hne rfl
        · exact hlogj hin

theorem framed_queueIfReady {s cur : Inner} (id : OpId) (h : Framed s cur) :
    EndsIn (Framed s) (Framed s) (queueIfReady cur id) := by
  unfold queueIfReady
  split
  · exact h
  · rename_i t ht
    split
    · refine h.trans (.of_counts rfl (fun _ => rfl) (fun j hj => ?_) rfl rfl rfl)
      rcases List.mem_append.mp hj with hj | hj
      · exact .inl hj
      · rw [List.mem_singleton.mp hj, ht]
        exact .inr rfl
    · exact h

/-- **The state a rebuild leaves, panicked or not, is framed.** -/
theorem framed_rebuildGraph {s : Inner} (ids : List OpId)
    (hlog : ∀ j, s.status? j = some .pending → j ∉ s.notified) :
    EndsIn (Framed s) (Framed s) (rebuildGraph s ids) := by
  have hreset : Framed s
      (ids.foldl (fun s id => s.modify id TaskState.reset) { s with ready := [] }) := by
    obtain ⟨hg, hr, hrun, hterm, hnot⟩ := foldl_reset_fields ids { s with ready := [] }
    refine .of_counts hg (fun j => ?_) (fun j hj => ?_) hrun hterm hnot
    · rw [task?_foldl_reset]
      show (if j ∈ ids then (s.task? j).map TaskState.reset else s.task? j).map _ = _
      split
      · cases s.task? j <;> rfl
      · rfl
    · rw [hr] at hj
      cases hj
  have hstart : Visited s
      (ids.foldl (fun s id => s.modify id TaskState.reset) { s with ready := [] }, []) :=
    ⟨hreset, (foldl_reset_fields ids { s with ready := [] }).2.2.2.2, List.nodup_nil, by simp⟩
  have hvisits := EndsIn.foldlM ids
    (fun b id _ => @visited_rebuildTask s s.status? b id) hstart
  unfold rebuildGraph
  simp only [bind, Except.bind]
  cases hres : ids.foldlM (rebuildTask s.status?)
      (ids.foldl (fun s id => s.modify id TaskState.reset) { s with ready := [] }, []) with
  | error left =>
    rw [hres] at hvisits
    exact hvisits
  | ok acc =>
    rw [hres] at hvisits
    obtain ⟨cur, nb⟩ := acc
    obtain ⟨hframed, hnotified, hnodup, hblocked⟩ := hvisits
    have hterm := framed_foldlM_terminalize nb hframed hnodup fun j hj =>
      ⟨(hblocked j hj).1, (hblocked j hj).2, by
        simp only at hnotified
        rw [hnotified]
        exact hlog j (hblocked j hj).1⟩
    simp only
    cases hfold : nb.foldlM terminalize cur with
    | error left =>
      rw [hfold] at hterm
      exact hterm
    | ok s₁ =>
      rw [hfold] at hterm
      exact EndsIn.foldlM ids (fun b id _ hb => framed_queueIfReady id hb) hterm

end Scheduler
