/-
# The candidates of a pass, one after the other

A reconcile or finalize job runs its candidates in order inside one transaction.  What one
candidate does is a `CandidateStep`: it keeps the store, or closes its own uncertain row and
folds at most one cost.  `PassProgress` is what holds between two candidates of a pass: the
provider calls are those of the start, the task's spent total has the costs so far folded in,
every row is as it was or is now settled, and the costs so far and the amounts still pending
add up to what was pending at the start.

* `runCandidates_progress` carries an invariant through a job whose candidates all end;
* `PassProgress.step` is that invariant's step.
-/
import Faktor.CostReconcile

open Sqlite

namespace CostLedger

/-! ## The turns of a job -/

section Job

variable {O : Type} {f : Store → Candidate → StoreResult (O × Store)}

variable {s s' : Store} {c : Candidate} {cs : List Candidate} {outs : List O}

theorem runCandidates_cons_eq_ok :
    runCandidates f s (c :: cs) = .ok (outs, s') ↔
      ∃ o mid rest, f s c = .ok (o, mid) ∧ runCandidates f mid cs = .ok (rest, s') ∧
        outs = o :: rest := by
  simp only [runCandidates, bind_eq_ok, Prod.exists, pure, Except.pure, Except.ok.injEq,
    Prod.mk.injEq]
  constructor
  · rintro ⟨o, mid, hfirst, rest, last, hrest, rfl, rfl⟩
    exact ⟨o, mid, rest, hfirst, hrest, rfl⟩
  · rintro ⟨o, mid, rest, hfirst, hrest, rfl⟩
    exact ⟨o, mid, hfirst, rest, s', hrest, rfl, rfl⟩

/-- **The progress of a job.**  `P` speaks of the candidates done, the costs they charged and the
store.  If every candidate in its turn ends and carries `P` on, the job ends with `P` of them all. -/
theorem runCandidates_progress {charge : O → Option ℕ} {P : List Candidate → List ℕ → Store → Prop}
    (hturn : ∀ done costs s c, c ∈ cs → P done costs s →
      ∃ o s', f s c = .ok (o, s') ∧ P (done ++ [c]) (costs ++ (charge o).toList) s') (rest : List Candidate)
    {done : List Candidate} (hall : done ++ rest = cs) {costs : List ℕ} (hP : P done costs s) :
    ∃ outs s', runCandidates f s rest = .ok (outs, s') ∧
      P cs (costs ++ outs.filterMap charge) s' := by
  induction rest generalizing done costs s with
  | nil =>
    rw [List.append_nil] at hall
    refine ⟨[], s, rfl, ?_⟩
    rw [List.filterMap_nil, List.append_nil, ← hall]
    exact hP
  | cons c rest ih =>
    have hc : c ∈ cs := by
      rw [← hall]
      simp
    obtain ⟨o, mid, hfirst, hmid⟩ := hturn done costs s c hc hP
    obtain ⟨later, s', hrest, hlast⟩ := ih (by rw [List.append_assoc]; exact hall) hmid
    refine ⟨o :: later, s', runCandidates_cons_eq_ok.mpr ⟨o, mid, later, hfirst, hrest, rfl⟩, ?_⟩
    rw [List.append_assoc] at hlast
    rw [List.filterMap_cons]
    cases hcharge : charge o with
    | none => simpa [hcharge] using hlast
    | some cost => simpa [hcharge] using hlast

/-- Every candidate of a job that ends has had its turn, at a store that kept the invariant. -/
theorem runCandidates_turn {I : Store → Prop} (hstep : ∀ s c o s', I s → f s c = .ok (o, s') → I s')
    (cs : List Candidate) (hI : I s) (h : runCandidates f s cs = .ok (outs, s')) (hc : c ∈ cs) :
    ∃ mid o mid', I mid ∧ f mid c = .ok (o, mid') := by
  induction cs generalizing outs s with
  | nil => cases hc
  | cons first cs ih =>
    obtain ⟨o, mid, later, hfirst, hrest, rfl⟩ := runCandidates_cons_eq_ok.mp h
    rcases List.mem_cons.mp hc with rfl | hc
    · exact ⟨s, o, mid, hI, hfirst⟩
    · exact ih (hstep s first o mid hI hfirst) hrest hc

end Job

/-! ## What a pass folds -/

/-- A spent column after folding `costs` into it. -/
def foldCosts (spent : SqlNum) (costs : List ℕ) : SqlNum :=
  costs.foldl (fun acc c => (sqlAdd acc c).store) spent

theorem foldCosts_append (spent : SqlNum) (costs more : List ℕ) :
    foldCosts spent (costs ++ more) = foldCosts (foldCosts spent costs) more :=
  List.foldl_append

/-- A column that starts at an integer in range ends at one only in range. -/
theorem foldCosts_int_le {n m : ℕ} (hn : n ≤ i64Max) (costs : List ℕ)
    (h : foldCosts (.int n) costs = .int m) : m ≤ i64Max := by
  have hstore : ∀ v : SqlNum, ∀ c, (sqlAdd v c).store = .int m → m ≤ i64Max := by
    intro v c hv
    cases v with
    | int k =>
      rw [sqlAdd] at hv
      split at hv
      · have := SqlNum.int.inj hv
        omega
      · rw [SqlNum.store] at hv
        split at hv
        · have := SqlNum.int.inj hv
          omega
        · cases hv
    | real k =>
      rw [sqlAdd, SqlNum.store] at hv
      split at hv
      · have := SqlNum.int.inj hv
        omega
      · cases hv
  cases costs using List.reverseRecOn with
  | nil =>
    have : n = m := SqlNum.int.inj h
    omega
  | append_singleton costs c =>
    rw [foldCosts_append] at h
    exact hstore _ c h

/-- The task rows after a close at `cost`. -/
def foldedTasks (tasks : TaskKey → Option TaskRow) (key : TaskKey) :
    Option ℕ → TaskKey → Option TaskRow
  | none => tasks
  | some c => Function.update tasks key
      ((tasks key).map fun t => { t with spentCostMicro := (sqlAdd t.spentCostMicro c).store })

variable {s : Store}

theorem foldSpent_tasks {folded : Store} {key : TaskKey} {c : ℕ} (h : s.foldSpent key c = some folded) :
    folded.tasks = foldedTasks s.tasks key (some c) := by
  unfold Store.foldSpent at h
  rw [Option.map_eq_some_iff] at h
  obtain ⟨t, ht, rfl⟩ := h
  simp only [foldedTasks, ht, Option.map_some]

variable {s' : Store} {id : ℕ} {cost : Option ℕ} {fact : BillingOutboxFact}

/-- Booking a close folds its cost into the task row and touches no other column. -/
theorem Booked.tasks {key : TaskKey} {f : CostReservation → CostReservation}
    (h : Booked s id key f fact cost s') : s'.tasks = foldedTasks s.tasks key cost := by
  cases h with
  | folded hfold =>
    rw [tasks_insertBillingOutbox, foldSpent_tasks hfold]
    rfl
  | unknown =>
    rw [tasks_insertBillingOutbox]
    rfl

/-! ## One candidate -/

/-- The uncertain rows of task `key`, each at the amount `a` gives it. -/
def Store.pending (s : Store) (key : TaskKey) (a : CostReservation → ℕ) : ℕ :=
  s.reservations.total (fun _ r => if r.key = key ∧ r.status = .uncertain then a r else 0)

/-- What one candidate of a pass over task `key` does to the store and what it folds: it keeps
the store, `K` holding of its row if that is still uncertain, or it closes its uncertain row,
one that `Q` admits, at the amount `a` of the row. -/
inductive CandidateStep (key : TaskKey) (a : CostReservation → ℕ) (K Q : CostReservation → Prop)
    (s : Store) (id : ℕ) : Option ℕ → Store → Prop
  | keep (kept : ∀ r, s.reservations.get? id = some r → r.status = .uncertain → K r) :
      CandidateStep key a K Q s id none s
  | close {r : CostReservation} {f : CostReservation → CostReservation} {cost : Option ℕ}
      {s' : Store} (row : s.reservations.get? id = some r) (wasUncertain : r.status = .uncertain)
      (rowKey : r.key = key) (closes : Q r) (amount : cost.getD 0 = a r)
      (settled : (f r).status = .settled) (reservations : s'.reservations = s.reservations.update id f)
      (calls : s'.calls = s.calls) (tasks : s'.tasks = foldedTasks s.tasks key cost) :
      CandidateStep key a K Q s id cost s'

/-- Booking the close of an uncertain row is one step of a pass. -/
theorem Booked.candidateStep {key : TaskKey} {a : CostReservation → ℕ} {K Q : CostReservation → Prop}
    {r : CostReservation} {f : CostReservation → CostReservation} (h : Booked s id key f fact cost s')
    (hr : s.reservations.get? id = some r) (huncertain : r.status = .uncertain) (hkey : r.key = key)
    (hcloses : Q r) (hamount : cost.getD 0 = a r) (hsettled : (f r).status = .settled) :
    CandidateStep key a K Q s id cost s' :=
  .close hr huncertain hkey hcloses hamount hsettled h.frame.1 h.frame.2 h.tasks

/-- Between two candidates of a pass over task `key`, whose row was `t` at the start `s`. -/
structure PassProgress (key : TaskKey) (t : TaskRow) (a : CostReservation → ℕ)
    (K Q : CostReservation → Prop) (s : Store) (done : List Candidate) (costs : List ℕ)
    (mid : Store) : Prop where
  calls : mid.calls = s.calls
  tasks : mid.tasks = Function.update s.tasks key
    (some { t with spentCostMicro := foldCosts t.spentCostMicro costs })
  rows : ∀ id, mid.reservations.get? id = s.reservations.get? id ∨
    ∃ r r', s.reservations.get? id = some r ∧ r.status = .uncertain ∧ Q r ∧
      mid.reservations.get? id = some r' ∧ r'.status = .settled
  pending : costs.sum + mid.pending key a = s.pending key a
  kept : ∀ c ∈ done, ∀ r, mid.reservations.get? c.reservationId = some r →
    r.status = .uncertain → K r

section Pass

variable {key : TaskKey} {t : TaskRow} {a : CostReservation → ℕ} {K Q : CostReservation → Prop}

variable {s : Store}

theorem PassProgress.refl (htask : s.tasks key = some t) :
    PassProgress key t a K Q s [] [] s where
  calls := rfl
  tasks := by
    show s.tasks = Function.update s.tasks key (some t)
    rw [← htask, Function.update_eq_self]
  rows := fun _ => .inl rfl
  pending := Nat.zero_add _
  kept := by
    intro c hc
    cases hc

variable {mid : Store} {done : List Candidate} {costs : List ℕ} {id : ℕ} {r : CostReservation}

section

variable (h : PassProgress key t a K Q s done costs mid)
include h

/-- A row that still awaits the pass is as it was at the start. -/
theorem PassProgress.row_of_uncertain (hr : mid.reservations.get? id = some r) (hne : r.status ≠ .settled) :
    s.reservations.get? id = some r := by
  rcases h.rows id with hsame | ⟨q, r', -, -, -, hr', hsettled⟩
  · rw [← hsame]
    exact hr
  · rw [hr] at hr'
    obtain rfl := Option.some.inj hr'
    exact absurd hsettled hne

/-- The cap of the task is not a column a pass writes. -/
theorem PassProgress.hasCap (htask : s.tasks key = some t) :
    mid.hasCap key = s.hasCap key := by
  unfold Store.hasCap
  rw [h.tasks, Function.update_self, htask]

theorem PassProgress.task :
    mid.tasks key = some { t with spentCostMicro := foldCosts t.spentCostMicro costs } := by
  rw [h.tasks, Function.update_self]

end

/-- Closing an uncertain row takes its amount out of what is pending. -/
theorem pending_update {s' : Store} {f : CostReservation → CostReservation}
    (hr : s.reservations.get? id = some r) (hkey : r.key = key) (huncertain : r.status = .uncertain)
    (hsettled : (f r).status = .settled) (hres : s'.reservations = s.reservations.update id f) :
    s'.pending key a + a r = s.pending key a := by
  unfold Store.pending
  have htotal := RowTable.total_update hr f
    (fun _ r => if r.key = key ∧ r.status = .uncertain then a r else 0)
  have hnot : ¬ ((f r).key = key ∧ (f r).status = .uncertain) := by
    rw [hsettled]
    rintro ⟨-, h⟩
    cases h
  simp only [if_pos (And.intro hkey huncertain), if_neg hnot, Nat.add_zero] at htotal
  rw [hres, htotal]

/-- **One candidate preserves the progress of its pass.** -/
theorem PassProgress.step {mid' : Store} {c : Candidate} {cost : Option ℕ}
    (h : PassProgress key t a K Q s done costs mid)
    (hstep : CandidateStep key a K Q mid c.reservationId cost mid') :
    PassProgress key t a K Q s (done ++ [c]) (costs ++ cost.toList) mid' := by
  cases hstep with
  | keep hkept =>
    rw [Option.toList_none, List.append_nil]
    refine { h with kept := ?_ }
    intro c' hc' r hr huncertain
    rcases List.mem_append.mp hc' with hdone | hlast
    · exact h.kept c' hdone r hr huncertain
    · rw [List.mem_singleton.mp hlast] at hr
      exact hkept r hr huncertain
  | close row wasUncertain rowKey closes amount settled reservations calls tasks =>
    rename_i r f
    have hget : ∀ j, mid'.reservations.get? j =
        if j = c.reservationId then some (f r) else mid.reservations.get? j := by
      intro j
      rw [reservations, RowTable.get?_update, row, Option.map_some]
    constructor
    case calls => rw [calls, h.calls]
    case tasks =>
      rw [tasks]
      cases cost with
      | none =>
        rw [Option.toList_none, List.append_nil]
        exact h.tasks
      | some k =>
        rw [foldedTasks, h.task, Option.map_some, h.tasks, Function.update_idem,
          Option.toList_some, foldCosts_append]
        rfl
    case rows =>
      intro j
      rw [hget]
      by_cases hj : j = c.reservationId
      · subst hj
        rw [if_pos rfl]
        refine .inr ⟨r, f r, ?_, wasUncertain, closes, rfl, settled⟩
        exact h.row_of_uncertain row (by rw [wasUncertain]; simp)
      · rw [if_neg hj]
        exact h.rows j
    case pending =>
      have hone := pending_update (a := a) row rowKey wasUncertain settled reservations
      have hsum : (costs ++ cost.toList).sum = costs.sum + a r := by
        rw [List.sum_append, ← amount]
        cases cost <;> simp
      have hall := h.pending
      omega
    case kept =>
      intro c' hc' q hq huncertain
      rw [hget] at hq
      by_cases hj : c'.reservationId = c.reservationId
      · rw [if_pos hj] at hq
        rw [← Option.some.inj hq, settled] at huncertain
        cases huncertain
      · rw [if_neg hj] at hq
        rcases List.mem_append.mp hc' with hdone | hlast
        · exact h.kept c' hdone q hq huncertain
        · exact absurd (congrArg Candidate.reservationId (List.mem_singleton.mp hlast)) hj

end Pass

end CostLedger
