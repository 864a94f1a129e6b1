/-
# Edges, tokens and the open count

A pending task keeps `remaining`, a count of the edges it still waits for, and every upstream
keeps the reverse edges it will report, its *tokens*.  The law behind readiness is `GraphInv`:
for a pending task, the edges that are not satisfied by the current statuses, together with the
tokens that will still be delivered for satisfied ones (`owed`), never exceed `remaining`; and an
upstream holds at most one token per declared edge.

The tokens are an argument of the invariant, because inside a locked section they are partly in
a local list: `terminalize` takes an upstream's tokens out before it delivers them, and a
transitively blocked task keeps its list although it has been reported.
-/
import Faktor.SchedulerModel

namespace Scheduler

/-! ## Reading the state -/

@[simp] theorem task?_setTask (s : Inner) (id : OpId) (t : TaskState) (j : OpId) :
    (s.setTask id t).task? j = if j = id then some t else s.task? j := by
  unfold Inner.task? Inner.setTask
  by_cases h : j = id
  · subst h
    simp
  · simp [h, AList.lookup_insert_ne h]

@[simp] theorem task?_modify (s : Inner) (id : OpId) (f : TaskState → TaskState) (j : OpId) :
    (s.modify id f).task? j = if j = id then (s.task? id).map f else s.task? j := by
  unfold Inner.modify
  cases h : s.task? id with
  | none =>
    by_cases hj : j = id
    · subst hj
      simp [h]
    · simp [hj]
  | some t => simp

/-- The declared dependencies of a task, none when it is not registered. -/
def Inner.deps (s : Inner) (id : OpId) : List (OpId × DependencyPolicy) :=
  ((s.task? id).map (·.op.dependencies)).getD []

/-- The reverse edges stored at a task. -/
def Inner.dependents (s : Inner) (id : OpId) : List (OpId × DependencyPolicy) :=
  ((s.task? id).map (·.dependents)).getD []

/-- The open count of a task. -/
def Inner.remaining (s : Inner) (id : OpId) : ℕ := ((s.task? id).map (·.remaining)).getD 0

/-- The edge onto `e.1` with policy `e.2` is satisfied by the current statuses. -/
def Inner.sat (s : Inner) (e : OpId × DependencyPolicy) : Bool :=
  match s.status? e.1 with
  | some u => edgeSatisfied e.2 u
  | none => false

variable {s : Inner} {e : OpId × DependencyPolicy}

theorem sat_eq_true :
    s.sat e = true ↔ ∃ u, s.status? e.1 = some u ∧ edgeSatisfied e.2 u = true := by
  unfold Inner.sat
  cases s.status? e.1 <;> simp

variable {d : OpId} {u : TaskStatus}

theorem sat_of_status (h : s.status? d = some u) (p : DependencyPolicy) : s.sat (d, p) = edgeSatisfied p u := by
  simp [Inner.sat, h]

variable {p : DependencyPolicy}

/-- Only terminal states satisfy an edge. -/
theorem terminal_of_edgeSatisfied (h : edgeSatisfied p u = true) : statusIsTerminal u = true := by
  cases p <;> cases u <;> first | rfl | cases h

/-! ## Owed edges -/

/-- The tokens every upstream still has to deliver. -/
abbrev Tokens := OpId → List (OpId × DependencyPolicy)

/-- What one distinct edge `e` of task `t` still counts for: its declarations while it is not
satisfied, the undelivered tokens once it is. -/
def held (s : Inner) (tok : Tokens) (t : OpId) (e : OpId × DependencyPolicy) : ℕ :=
  if s.sat e then (tok e.1).count (t, e.2) else (s.deps t).count e

/-- The sum of what the edges of task `t` still count for. -/
def owed (s : Inner) (tok : Tokens) (t : OpId) : ℕ :=
  ∑ e ∈ (s.deps t).toFinset, held s tok t e

/-- **The law of the open count.** -/
structure GraphInv (s : Inner) (tok : Tokens) : Prop where
  count_le : ∀ d t p, (tok d).count (t, p) ≤ (s.deps t).count (d, p)
  bound : ∀ t, s.status? t = some .pending → owed s tok t ≤ s.remaining t

variable {s' : Inner} {tok tok' : Tokens} {t : OpId}

theorem held_le_of_le (hdeps : s'.deps t = s.deps t) (hsat : s.sat e = true → s'.sat e = true)
    (htok : (tok' e.1).count (t, e.2) ≤ (tok e.1).count (t, e.2))
    (hle : (tok e.1).count (t, e.2) ≤ (s.deps t).count e) :
    held s' tok' t e ≤ held s tok t e := by
  unfold held
  by_cases h' : s'.sat e = true
  · rw [if_pos h']
    by_cases h : s.sat e = true
    · rw [if_pos h]
      exact htok
    · rw [if_neg h]
      exact htok.trans hle
  · have h : ¬ s.sat e = true := fun h => h' (hsat h)
    rw [if_neg h', if_neg h, hdeps]

/-- Statuses that satisfy more edges and fewer tokens never raise what is owed. -/
theorem owed_le_of_le (hdeps : s'.deps t = s.deps t) (hsat : ∀ e, s.sat e = true → s'.sat e = true)
    (htok : ∀ d p, (tok' d).count (t, p) ≤ (tok d).count (t, p))
    (hle : ∀ d p, (tok d).count (t, p) ≤ (s.deps t).count (d, p)) :
    owed s' tok' t ≤ owed s tok t := by
  unfold owed
  rw [hdeps]
  apply Finset.sum_le_sum
  rintro ⟨d, p⟩ -
  exact held_le_of_le hdeps (hsat _) (htok d p) (hle d p)

/-- Nothing owed means every declared edge is satisfied. -/
theorem sat_of_owed_eq_zero (h : owed s tok t = 0) (he : e ∈ s.deps t) : s.sat e = true := by
  by_contra hnot
  have hzero : held s tok t e = 0 :=
    (Finset.sum_eq_zero_iff.mp h) e (List.mem_toFinset.mpr he)
  rw [held, if_neg hnot] at hzero
  exact absurd he (List.count_eq_zero.mp hzero)

variable {rest : List (OpId × DependencyPolicy)}

/-- Tokens after `d` delivered the first of its list. -/
theorem count_update_tail (h : tok d = e :: rest) (j t : OpId) (p : DependencyPolicy) :
    (Function.update tok d rest j).count (t, p) + (if j = d ∧ e = (t, p) then 1 else 0) =
      (tok j).count (t, p) := by
  by_cases hj : j = d
  · subst hj
    rw [Function.update_self, h, List.count_cons]
    simp
  · rw [Function.update_of_ne hj, if_neg (fun hc => hj hc.1), Nat.add_zero]

/-- Delivering one token of a satisfied edge lowers what is owed to its task by one. -/
theorem owed_deliver (htok : tok d = (t, p) :: rest) (hsat : s.sat (d, p) = true) (hmem : (d, p) ∈ s.deps t)
    (j : OpId) :
    owed s (Function.update tok d rest) j + (if j = t then 1 else 0) = owed s tok j := by
  have hheld : ∀ e, held s (Function.update tok d rest) j e +
      (if j = t ∧ e = (d, p) then 1 else 0) = held s tok j e := by
    intro e
    unfold held
    by_cases he : s.sat e = true
    · rw [if_pos he, if_pos he, ← count_update_tail htok e.1 j e.2]
      congr 1
      refine if_congr ?_ rfl rfl
      constructor
      · rintro ⟨rfl, rfl⟩
        exact ⟨rfl, rfl⟩
      · rintro ⟨h1, h2⟩
        obtain ⟨rfl, rfl⟩ := Prod.mk.inj h2
        exact ⟨rfl, Prod.ext h1 rfl⟩
    · rw [if_neg he, if_neg he, if_neg, Nat.add_zero]
      rintro ⟨-, rfl⟩
      exact he hsat
  unfold owed
  rw [← Finset.sum_congr rfl fun e _ => hheld e, Finset.sum_add_distrib]
  congr 1
  by_cases hj : j = t
  · subst hj
    simp [hmem]
  · simp [hj]

/-! ## What a notification does -/

/-- A dependent whose edge was satisfied. -/
def TaskState.release (t : TaskState) : TaskState := { t with remaining := t.remaining - 1 }

/-- A dependent whose edge died. -/
def TaskState.block (t : TaskState) : TaskState :=
  { t with
    blocked := t.blocked + 1
    status := if t.status = .pending then .blocked else t.status }

theorem task?_releaseEdge (s : Inner) (id j : OpId) :
    (s.releaseEdge id).task? j = if j = id then (s.task? id).map TaskState.release
      else s.task? j := by
  unfold Inner.releaseEdge
  cases h : s.task? id with
  | none =>
    by_cases hj : j = id
    · subst hj
      simp [h]
    · simp [hj]
  | some t =>
    have hstep : ((s.setTask id t.release).task? j) = if j = id then some t.release
        else s.task? j := task?_setTask s id t.release j
    dsimp only
    split
    · exact hstep
    · exact hstep

theorem task?_blockEdge (s : Inner) (id j : OpId) (worklist : List OpId) :
    (s.blockEdge id worklist).1.task? j = if j = id then (s.task? id).map TaskState.block
      else s.task? j := by
  unfold Inner.blockEdge
  cases h : s.task? id with
  | none =>
    by_cases hj : j = id
    · subst hj
      simp [h]
    · simp [hj]
  | some t =>
    dsimp only
    split
    · rename_i hpending
      simp [TaskState.block, hpending]
    · rename_i hpending
      simp [TaskState.block, hpending]

theorem worklist_blockEdge (s : Inner) (id : OpId) (worklist : List OpId) :
    (s.blockEdge id worklist).2 =
      if s.status? id = some .pending then id :: worklist else worklist := by
  unfold Inner.blockEdge Inner.status?
  cases h : s.task? id with
  | none => simp
  | some t =>
    dsimp only [Option.map_some]
    by_cases hp : t.status = .pending <;> simp [hp]

/-- The common part of every notification: records keep their op and their reverse edges, a
status changes only from pending to blocked, only registered ops are queued, and the gauge, the
running map and the terminal ledger are untouched. -/
structure Notified (s s' : Inner) : Prop where
  gauge : s'.gauge = s.gauge
  running : s'.running = s.running
  terminalized : s'.terminalized = s.terminalized
  absent : ∀ j, s.task? j = none → s'.task? j = none
  task : ∀ j t, s.task? j = some t → ∃ t', s'.task? j = some t' ∧ t'.op = t.op ∧
    t'.dependents = t.dependents ∧
    (t'.status = t.status ∨ (t.status = .pending ∧ t'.status = .blocked))
  ready : ∀ j ∈ s'.ready, j ∈ s.ready ∨ (s.task? j).isSome

theorem Notified.refl (s : Inner) : Notified s s where
  gauge := rfl
  running := rfl
  terminalized := rfl
  absent _ h := h
  task _ t h := ⟨t, h, rfl, rfl, .inl rfl⟩
  ready _ h := .inl h

theorem Notified.trans {s₁ s₂ s₃ : Inner} (h : Notified s₁ s₂) (h' : Notified s₂ s₃) :
    Notified s₁ s₃ where
  gauge := h'.gauge.trans h.gauge
  running := h'.running.trans h.running
  terminalized := h'.terminalized.trans h.terminalized
  absent j hj := h'.absent j (h.absent j hj)
  task j t ht := by
    obtain ⟨t₂, ht₂, hop, hdeps, hstatus⟩ := h.task j t ht
    obtain ⟨t₃, ht₃, hop', hdeps', hstatus'⟩ := h'.task j t₂ ht₂
    refine ⟨t₃, ht₃, hop'.trans hop, hdeps'.trans hdeps, ?_⟩
    rcases hstatus with hsame | ⟨hp, hb⟩
    · rw [← hsame]
      exact hstatus'
    · rcases hstatus' with hsame' | ⟨hp', -⟩
      · exact .inr ⟨hp, hsame'.trans hb⟩
      · rw [hb] at hp'
        cases hp'
  ready j hj := by
    rcases h'.ready j hj with hr | hsome
    · exact h.ready j hr
    · right
      cases hj : s₁.task? j with
      | none => simp [h.absent j hj] at hsome
      | some t => rfl

theorem notified_releaseEdge (s : Inner) (id : OpId) : Notified s (s.releaseEdge id) := by
  have htask := task?_releaseEdge s id
  have hrest : (s.releaseEdge id).gauge = s.gauge ∧ (s.releaseEdge id).running = s.running ∧
      (s.releaseEdge id).terminalized = s.terminalized := by
    unfold Inner.releaseEdge
    split
    · exact ⟨rfl, rfl, rfl⟩
    · dsimp only
      split <;> exact ⟨rfl, rfl, rfl⟩
  refine ⟨hrest.1, hrest.2.1, hrest.2.2, ?_, ?_, ?_⟩
  · intro j hj
    rw [htask]
    split
    · rename_i h
      subst h
      simp [hj]
    · exact hj
  · intro j t ht
    rw [htask]
    split
    · rename_i h
      subst h
      exact ⟨t.release, by simp [ht], rfl, rfl, .inl rfl⟩
    · exact ⟨t, ht, rfl, rfl, .inl rfl⟩
  · intro j hj
    unfold Inner.releaseEdge at hj
    split at hj
    · exact .inl hj
    · rename_i t ht
      dsimp only at hj
      split at hj
      · rcases List.mem_append.mp hj with hj | hj
        · exact .inl hj
        · rw [List.mem_singleton.mp hj, ht]
          exact .inr rfl
      · exact .inl hj

theorem notified_blockEdge (s : Inner) (id : OpId) (worklist : List OpId) :
    Notified s (s.blockEdge id worklist).1 := by
  have htask := fun j => task?_blockEdge s id j worklist
  have hrest : (s.blockEdge id worklist).1.gauge = s.gauge ∧
      (s.blockEdge id worklist).1.running = s.running ∧
      (s.blockEdge id worklist).1.terminalized = s.terminalized ∧
      (s.blockEdge id worklist).1.ready = s.ready := by
    unfold Inner.blockEdge
    split
    · exact ⟨rfl, rfl, rfl, rfl⟩
    · dsimp only
      split <;> exact ⟨rfl, rfl, rfl, rfl⟩
  refine ⟨hrest.1, hrest.2.1, hrest.2.2.1, ?_, ?_, fun j hj => .inl (hrest.2.2.2 ▸ hj)⟩
  · intro j hj
    rw [htask]
    split
    · rename_i h
      subst h
      simp [hj]
    · exact hj
  · intro j t ht
    rw [htask]
    split
    · rename_i h
      subst h
      refine ⟨t.block, by simp [ht], rfl, rfl, ?_⟩
      by_cases hp : t.status = .pending
      · exact .inr ⟨hp, by simp [TaskState.block, hp]⟩
      · exact .inl (by simp [TaskState.block, hp])
    · exact ⟨t, ht, rfl, rfl, .inl rfl⟩

theorem notified_notifyEdge (u : TaskStatus) (acc : Inner × List OpId)
    (e : OpId × DependencyPolicy) : Notified acc.1 (notifyEdge u acc e).1 := by
  unfold notifyEdge
  split
  · exact notified_releaseEdge acc.1 e.1
  · split
    · exact notified_blockEdge acc.1 e.1 acc.2
    · exact .refl _

/-- The transitive loop reports an edge as if its upstream had ended blocked. -/
theorem blockSub_eq_notifyEdge (acc : Inner × List OpId) (e : OpId × DependencyPolicy) :
    blockSub acc e = notifyEdge .blocked acc e := by
  obtain ⟨id, p⟩ := e
  cases p <;> simp [blockSub, notifyEdge, edgeSatisfied]

theorem foldl_blockSub (edges : List (OpId × DependencyPolicy)) (acc : Inner × List OpId) :
    edges.foldl blockSub acc = edges.foldl (notifyEdge .blocked) acc := by
  congr 1
  funext acc e
  exact blockSub_eq_notifyEdge acc e

theorem notified_foldl (u : TaskStatus) (edges : List (OpId × DependencyPolicy))
    (acc : Inner × List OpId) : Notified acc.1 (edges.foldl (notifyEdge u) acc).1 := by
  induction edges generalizing acc with
  | nil => exact .refl _
  | cons e edges ih => exact (notified_notifyEdge u acc e).trans (ih _)

theorem notified_blockLoop (fuel : ℕ) (s : Inner) (worklist : List OpId) :
    Notified s (blockLoop fuel s worklist) := by
  induction fuel generalizing s worklist with
  | zero => exact .refl s
  | succ fuel ih =>
    cases worklist with
    | nil => exact .refl s
    | cons id worklist =>
      unfold blockLoop
      dsimp only
      rw [foldl_blockSub]
      have hlog : Notified s { s with notified := id :: s.notified } :=
        ⟨rfl, rfl, rfl, fun _ h => h, fun _ t h => ⟨t, h, rfl, rfl, .inl rfl⟩, fun _ h => .inl h⟩
      refine hlog.trans (Notified.trans ?_ (ih _ _))
      exact notified_foldl .blocked _ (_, worklist)

end Scheduler
