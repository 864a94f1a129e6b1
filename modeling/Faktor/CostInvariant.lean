/-
# Ledger invariants over whole runs

From a ledger with no reservation and nothing spent, in any order of operations over any number
of tasks and with any number of replays:

* a closed row never changes, and a row with a dispatch marker holds its budget until it is
  settled (`eq_of_closed_of_rowSteps`, `MarkedFrom`);
* a task's spent total is the fold of its settled costs, each settled row counted once, and the
  list of folds only grows (`FoldHistory`).

Each is proved as a step lemma over `LedgerEffect` and then for a run.
-/
import Faktor.CostRun

open Sqlite

namespace CostLedger

/-- A ledger before its first operation: empty tables, no waiting pass, nothing spent. -/
structure LedgerState.Initial (l : LedgerState) : Prop where
  jobs : l.jobs = []
  reservations : l.store.reservations = .empty
  outbox : l.store.outbox = .empty
  spent : ∀ key t, l.store.tasks key = some t → t.spentCostMicro = .int 0

variable {l : LedgerState}

theorem LedgerState.Initial.wf (h : l.Initial) : l.Wf := by
  intro job hjob
  simp [h.jobs] at hjob

/-! ## Rows along a run -/

variable {s s' : Store} {id : ℕ} {r : CostReservation}

theorem Effects.rowSteps (h : Effects s s') (hr : s.reservations.get? id = some r) :
    ∃ r', s'.reservations.get? id = some r' ∧ Relation.ReflTransGen RowStep r r' := by
  induction h with
  | refl => exact ⟨r, hr, .refl⟩
  | tail _ hstep ih =>
    obtain ⟨q, hq, hsteps⟩ := ih
    obtain ⟨r', hr', hlast⟩ := hstep.rowStep hq
    exact ⟨r', hr', hsteps.tail hlast⟩

theorem closed_iff_not_holds (status : ReservationStatus) :
    status.closed = true ↔ ¬ status.holds = true := by
  cases status <;> decide

variable {r' : CostReservation}

/-- A closed row never changes again. -/
theorem RowStep.eq_of_closed (h : RowStep r r') (hclosed : r.status.closed = true) : r' = r := by
  have hnot := (closed_iff_not_holds r.status).mp hclosed
  cases h with
  | same h => exact h
  | move h => exact absurd h.wasOpen hnot
  | close _ h => exact absurd h.wasOpen hnot

theorem eq_of_closed_of_rowSteps (h : Relation.ReflTransGen RowStep r r') (hclosed : r.status.closed = true) :
    r' = r := by
  induction h with
  | refl => rfl
  | tail _ hstep ih =>
    subst ih
    exact hstep.eq_of_closed hclosed

/-- What a dispatch marker buys: the row keeps its identity and prediction, and it holds its
budget or is settled. -/
structure MarkedFrom (r r' : CostReservation) : Prop where
  key : r'.key = r.key
  predicted : r'.predictedMicro = r.predictedMicro
  marker : r'.dispatchedMs.isSome = true
  status : r'.status.holds = true ∨ r'.status = .settled

variable {q q' : CostReservation}

theorem MarkedFrom.step (h : MarkedFrom r q) (hstep : RowStep q q') :
    MarkedFrom r q' := by
  cases hstep with
  | same hsame => exact hsame ▸ h
  | move hmove =>
    have hmarker := hmove.marker h.marker
    refine ⟨hmove.key.trans h.key, hmove.predicted.trans h.predicted, hmarker, ?_⟩
    rcases hmove.target with hholds | ⟨-, -, hnone⟩
    · exact .inl hholds
    · simp [hnone] at hmarker
  | close cost hclose =>
    exact ⟨hclose.key.trans h.key, hclose.predicted.trans h.predicted,
      by rw [hclose.marker]; exact h.marker, .inr hclose.status⟩

theorem MarkedFrom.steps (h : MarkedFrom r q) (hsteps : Relation.ReflTransGen RowStep q q') :
    MarkedFrom r q' := by
  induction hsteps with
  | refl => exact h
  | tail _ hstep ih => exact ih.step hstep

/-- Quiet effects keep a marked row holding its budget. -/
theorem holds_of_quietEffects (h : Relation.ReflTransGen QuietEffect s s')
    (hr : s.reservations.get? id = some r) (hmarker : r.dispatchedMs.isSome = true)
    (hholds : r.status.holds = true) :
    ∃ r', s'.reservations.get? id = some r' ∧ r'.dispatchedMs.isSome = true ∧
      r'.status.holds = true := by
  induction h with
  | refl => exact ⟨r, hr, hmarker, hholds⟩
  | tail _ hstep ih =>
    obtain ⟨q, hq, hqmarker, hqholds⟩ := ih
    obtain ⟨r', hr', rfl | hmove⟩ := hstep.rowMove hq
    · exact ⟨r', hr', hqmarker, hqholds⟩
    · have hmarker' := hmove.marker hqmarker
      refine ⟨r', hr', hmarker', ?_⟩
      rcases hmove.target with hholds' | ⟨-, -, hnone⟩
      · exact hholds'
      · simp [hnone] at hmarker'

/-- A property of rows that fresh rows have and row steps keep holds of every row. -/
theorem LedgerEffect.all (h : LedgerEffect s s') {P : CostReservation → Prop}
    (hfresh : ∀ r, RowFresh r → P r) (hstep : ∀ r r', RowStep r r' → P r → P r')
    (hall : s.reservations.All fun _ => P) : s'.reservations.All fun _ => P := by
  rcases h with hquiet | ⟨settledId, cost, hsettle⟩
  · cases hquiet with
    | frame hres _ _ => rw [hres]; exact hall
    | reserve row hrow _ hres _ _ => rw [hres]; exact hall.insert (hfresh row hrow)
    | move p f hmove hres _ _ =>
      rw [hres]
      intro id r' hr'
      rw [RowTable.get?_updateWhere, Option.map_eq_some_iff] at hr'
      obtain ⟨r, hr, rfl⟩ := hr'
      split
      · exact hstep r _ (.move (hmove id r hr ‹_›)) (hall id r hr)
      · exact hall id r hr
  · obtain ⟨q, f, hq, hclose, hres, -, -, -⟩ := hsettle.row
    rw [hres]
    intro id r' hr'
    rw [RowTable.get?_update] at hr'
    split at hr'
    · rw [hq, Option.map_some, Option.some.injEq] at hr'
      exact hr' ▸ hstep q _ (.close cost hclose) (hall settledId q hq)
    · exact hall id r' hr'

/-- A marked row holds its budget or is settled. -/
def MarkerKept (r : CostReservation) : Prop :=
  r.dispatchedMs.isSome = true → r.status.holds = true ∨ r.status = .settled

theorem RowStep.markerKept (h : RowStep r r') (hr : MarkerKept r) :
    MarkerKept r' := by
  intro hmarker
  cases h with
  | same h =>
    subst h
    exact hr hmarker
  | move h =>
    rcases h.target with hholds | ⟨-, -, hnone⟩
    · exact .inl hholds
    · simp [hnone] at hmarker
  | close _ h => exact .inr h.status

theorem Effects.markerKept (h : Effects s s') (hall : s.reservations.All fun _ => MarkerKept) :
    s'.reservations.All fun _ => MarkerKept := by
  induction h with
  | refl => exact hall
  | tail _ hstep ih =>
    refine hstep.all (fun r hfresh hmarker => ?_) (fun _ _ => RowStep.markerKept) ih
    simp [hfresh.marker] at hmarker

/-! ## Settled rows -/

/-- The amount a row has contributed to the spent total of task `key`. -/
def settledAmount (key : TaskKey) (r : CostReservation) : ℕ :=
  if r.key = key ∧ r.status = .settled then r.settledCostMicro.getD 0 else 0

/-- The sum of `settled_cost_micro` over the task's settled rows. -/
def Store.settledTotal (s : Store) (key : TaskKey) : ℕ :=
  s.reservations.total (fun _ r => settledAmount key r)

/-- Row `id` of task `key` is settled at cost `c`. -/
def SettledAt (s : Store) (key : TaskKey) (id c : ℕ) : Prop :=
  ∃ r, s.reservations.get? id = some r ∧ r.key = key ∧ r.status = .settled ∧
    r.settledCostMicro = some c

theorem settledAmount_of_not_settled (h : r.status ≠ .settled) (key : TaskKey) : settledAmount key r = 0 := by
  rw [settledAmount, if_neg (fun hc => h hc.2)]

theorem RowMove.not_settled (h : RowMove r r') :
    r.status ≠ .settled ∧ r'.status ≠ .settled := by
  constructor
  · intro hs
    have := h.wasOpen
    rw [hs] at this
    cases this
  · intro hs
    rcases h.target with hholds | ⟨href, -, -⟩
    · rw [hs] at hholds
      cases hholds
    · rw [hs] at href
      cases href

section

variable (h : QuietEffect s s')
include h

/-- A quiet effect neither makes nor touches a settled row. -/
theorem QuietEffect.settledRow_iff (hsettled : r.status = .settled) :
    s'.reservations.get? id = some r ↔ s.reservations.get? id = some r := by
  constructor
  · intro hr
    cases h with
    | frame hres _ _ => rwa [hres] at hr
    | reserve row hfresh _ hres _ _ =>
      rw [hres, RowTable.get?_insert] at hr
      split at hr
      · have hrow : row = r := Option.some.inj hr
        have hstatus := hfresh.status
        rw [hrow, hsettled] at hstatus
        cases hstatus
      · exact hr
    | move p f hmove hres _ _ =>
      rw [hres, RowTable.get?_updateWhere, Option.map_eq_some_iff] at hr
      obtain ⟨q, hq, heq⟩ := hr
      split at heq
      · exact absurd (heq ▸ hsettled) (hmove id q hq ‹_›).not_settled.2
      · exact heq ▸ hq
  · intro hr
    obtain ⟨r', hr', rfl | hmove⟩ := h.rowMove hr
    · exact hr'
    · exact absurd hsettled hmove.not_settled.1

theorem QuietEffect.settledAt_iff (key : TaskKey) (id c : ℕ) :
    SettledAt s' key id c ↔ SettledAt s key id c := by
  constructor
  · rintro ⟨r, hr, hkey, hstatus, hcost⟩
    exact ⟨r, (h.settledRow_iff hstatus).mp hr, hkey, hstatus, hcost⟩
  · rintro ⟨r, hr, hkey, hstatus, hcost⟩
    exact ⟨r, (h.settledRow_iff hstatus).mpr hr, hkey, hstatus, hcost⟩

theorem QuietEffect.settledTotal (key : TaskKey) :
    s'.settledTotal key = s.settledTotal key := by
  unfold Store.settledTotal
  cases h with
  | frame hres _ _ => rw [hres]
  | reserve row hfresh _ hres _ _ =>
    have hzero : settledAmount key row = 0 :=
      settledAmount_of_not_settled (by rw [hfresh.status]; decide) key
    rw [hres, RowTable.total_insert, hzero, Nat.add_zero]
  | move p f hmove hres _ _ =>
    rw [hres]
    apply RowTable.total_updateWhere_congr
    intro id r hr hp
    obtain ⟨hold, hnew⟩ := (hmove id r hr hp).not_settled
    rw [settledAmount_of_not_settled hold, settledAmount_of_not_settled hnew]

theorem QuietEffect.money : s'.money = s.money := by
  cases h <;> assumption

theorem QuietEffect.outbox : s'.outbox = s.outbox := by
  cases h <;> assumption

end

variable {cost : Option ℕ}

/-- What a settlement does to the settled rows and to the money, in one place. -/
theorem SettleEffect.spec (h : SettleEffect s s' id cost) :
    ∃ r r', s.reservations.get? id = some r ∧ RowClose r r' cost ∧
      (∀ j, s'.reservations.get? j = if j = id then some r' else s.reservations.get? j) ∧
      (∀ g : CostReservation → ℕ, s'.reservations.total (fun _ => g) + g r =
        s.reservations.total (fun _ => g) + g r') ∧
      (cost.isSome → (s.money r.key).isSome) ∧
      s'.money = foldedMoney s.money r.key cost ∧
      OutboxOffer s.outbox s'.outbox id (cost.getD 0) r.key := by
  obtain ⟨r, f, hr, hclose, hres, hsome, hmoney, houtbox⟩ := h.row
  refine ⟨r, f r, hr, hclose, ?_, ?_, hsome, hmoney, houtbox⟩
  · intro j
    rw [hres, RowTable.get?_update, hr]
    rfl
  · intro g
    rw [hres]
    exact RowTable.total_update hr f fun _ => g

theorem RowClose.not_settled (h : RowClose r r' cost) : r.status ≠ .settled := by
  intro hs
  have := h.wasOpen
  rw [hs] at this
  cases this

theorem RowClose.settledAmount (h : RowClose r r' cost) (key : TaskKey) :
    CostLedger.settledAmount key r' = if r.key = key then cost.getD 0 else 0 := by
  unfold CostLedger.settledAmount
  rw [h.key, h.settledCost]
  simp [h.status]

/-! ## The fold history -/

/-- The spent column after folding `amounts` into a fresh task row, in this order. -/
def foldedSpent (amounts : List ℕ) : SqlNum :=
  amounts.foldl (fun acc c => (sqlAdd acc c).store) (.int 0)

theorem foldedSpent_append (amounts : List ℕ) (c : ℕ) :
    foldedSpent (amounts ++ [c]) = (sqlAdd (foldedSpent amounts) c).store := by
  rw [foldedSpent, List.foldl_append]
  rfl

/-- `folds` lists the settlements of task `key` as `(reservation, cost)`: no reservation occurs
twice, exactly the rows settled at a cost occur, and folding their costs gives the task's
spent column. -/
structure FoldHistory (s : Store) (key : TaskKey) (folds : List (ℕ × ℕ)) : Prop where
  nodup : (folds.map Prod.fst).Nodup
  mem_iff : ∀ id c, (id, c) ∈ folds ↔ SettledAt s key id c
  total : (folds.map Prod.snd).sum = s.settledTotal key
  spent : ∀ cap spent, s.money key = some (cap, spent) → spent = foldedSpent (folds.map Prod.snd)

variable {key : TaskKey} {folds : List (ℕ × ℕ)}

theorem FoldHistory.quiet (h : FoldHistory s key folds) (hquiet : QuietEffect s s') :
    FoldHistory s' key folds where
  nodup := h.nodup
  mem_iff id c := (h.mem_iff id c).trans (hquiet.settledAt_iff key id c).symm
  total := h.total.trans (hquiet.settledTotal key).symm
  spent := by
    rw [hquiet.money]
    exact h.spent

/-- Settled rows after a settlement: the ones before it, and the row it settles. -/
theorem SettleEffect.settledAt_iff (h : SettleEffect s s' id cost) :
    ∃ r, s.reservations.get? id = some r ∧ ∀ key j c, SettledAt s' key j c ↔
      SettledAt s key j c ∨ (j = id ∧ key = r.key ∧ cost = some c) := by
  obtain ⟨r, r', hr, hclose, hget, -⟩ := h.spec
  refine ⟨r, hr, fun key j c => ?_⟩
  unfold SettledAt
  rw [hget j]
  by_cases hj : j = id
  · subst hj
    have hnot : ¬ ∃ q, s.reservations.get? j = some q ∧ q.key = key ∧ q.status = .settled ∧
        q.settledCostMicro = some c := by
      rintro ⟨q, hq, -, hstatus, -⟩
      rw [hr] at hq
      exact hclose.not_settled (Option.some.inj hq ▸ hstatus)
    simp only [if_true, Option.some.injEq, true_and, hnot, false_or]
    constructor
    · rintro ⟨q, rfl, hkey, -, hcost⟩
      exact ⟨(hclose.key.symm.trans hkey).symm, hclose.settledCost.symm.trans hcost⟩
    · rintro ⟨hkey, hcost⟩
      exact ⟨r', rfl, hclose.key.trans hkey.symm, hclose.status, hclose.settledCost.trans hcost⟩
  · simp [hj]

theorem SettleEffect.settledTotal (h : SettleEffect s s' id cost) :
    ∃ r, s.reservations.get? id = some r ∧ ∀ key,
      s'.settledTotal key = s.settledTotal key + if r.key = key then cost.getD 0 else 0 := by
  obtain ⟨r, r', hr, hclose, -, htotal, -⟩ := h.spec
  refine ⟨r, hr, fun key => ?_⟩
  have hsum := htotal (settledAmount key)
  rw [settledAmount_of_not_settled hclose.not_settled, hclose.settledAmount] at hsum
  exact hsum

/-- The fold history after a settlement: one more entry when the task's own row was settled at
a cost, the same history otherwise. -/
theorem FoldHistory.settle (h : FoldHistory s key folds) (hsettle : SettleEffect s s' id cost) :
    ∃ more, FoldHistory s' key (folds ++ more) := by
  obtain ⟨r, r', hr, hclose, -, -, -, hmoney, -⟩ := hsettle.spec
  obtain ⟨q, hq, hiff⟩ := hsettle.settledAt_iff
  obtain ⟨q', hq', htotal⟩ := hsettle.settledTotal
  obtain rfl : r = q := Option.some.inj (hr ▸ hq)
  obtain rfl : r = q' := Option.some.inj (hr ▸ hq')
  by_cases hfold : r.key = key ∧ ∃ c, cost = some c
  · obtain ⟨rfl, c, rfl⟩ := hfold
    refine ⟨[(id, c)], ?_, ?_, ?_, ?_⟩
    · have hnew : id ∉ folds.map Prod.fst := by
        intro hmem
        obtain ⟨⟨i, d⟩, hin, rfl⟩ := List.mem_map.mp hmem
        obtain ⟨q, hq, -, hstatus, -⟩ := (h.mem_iff i d).mp hin
        rw [hr] at hq
        exact hclose.not_settled (Option.some.inj hq ▸ hstatus)
      rw [List.map_append, List.nodup_append]
      refine ⟨h.nodup, by simp, ?_⟩
      rintro i hi j hj rfl
      have hid : i = id := by simpa using hj
      exact hnew (hid ▸ hi)
    · intro j d
      rw [hiff, ← h.mem_iff]
      simp [Prod.ext_iff, eq_comm]
    · rw [htotal, List.map_append, List.sum_append, h.total]
      simp
    · intro cap spent hspent
      rw [hmoney, foldedMoney, Function.update_self, Option.map_eq_some_iff] at hspent
      obtain ⟨⟨cap', old⟩, hold, heq⟩ := hspent
      rw [List.map_append, List.map_cons, List.map_nil, foldedSpent_append, ← h.spent cap' old hold]
      exact (Prod.mk.inj heq).2.symm
  · refine ⟨[], ?_⟩
    rw [List.append_nil]
    refine ⟨h.nodup, ?_, ?_, ?_⟩
    · intro j d
      rw [hiff, h.mem_iff]
      constructor
      · exact .inl
      · rintro (hs | ⟨-, hkey, hcost⟩)
        · exact hs
        · exact absurd ⟨hkey.symm, d, hcost⟩ hfold
    · rw [htotal, h.total]
      by_cases hkey : r.key = key
      · cases cost with
        | none => simp
        | some c => exact absurd ⟨hkey, c, rfl⟩ hfold
      · rw [if_neg hkey, Nat.add_zero]
    · intro cap spent hspent
      refine h.spent cap spent ?_
      cases cost with
      | none => rwa [hmoney, foldedMoney] at hspent
      | some c =>
        have hkey : key ≠ r.key := fun hk => hfold ⟨hk.symm, c, rfl⟩
        rwa [hmoney, foldedMoney, Function.update_of_ne hkey] at hspent

/-- **A fold history only grows.** -/
theorem FoldHistory.effects (h : FoldHistory s key folds) (heffects : Effects s s') :
    ∃ more, FoldHistory s' key (folds ++ more) := by
  induction heffects with
  | refl => exact ⟨[], by rwa [List.append_nil]⟩
  | tail _ hstep ih =>
    obtain ⟨more, hmore⟩ := ih
    rcases hstep with hquiet | ⟨id, cost, hsettle⟩
    · exact ⟨more, hmore.quiet hquiet⟩
    · obtain ⟨last, hlast⟩ := hmore.settle hsettle
      exact ⟨more ++ last, by rwa [← List.append_assoc]⟩

theorem foldHistory_initial (h : l.Initial) (key : TaskKey) :
    FoldHistory l.store key [] where
  nodup := List.nodup_nil
  mem_iff id c := by
    unfold SettledAt
    rw [h.reservations]
    simp
  total := by
    unfold Store.settledTotal
    rw [h.reservations]
    rfl
  spent cap spent hspent := by
    unfold Store.money at hspent
    rw [Option.map_eq_some_iff] at hspent
    obtain ⟨t, ht, heq⟩ := hspent
    rw [← (Prod.mk.inj heq).2]
    exact h.spent key t ht

theorem run_append (l : LedgerState) (ops later : List LedgerOp) :
    run l (ops ++ later) = run (run l ops) later := List.foldl_append

/-- Every task of a run has a fold history. -/
theorem run_foldHistory (hl : l.Initial) (ops : List LedgerOp) (key : TaskKey) :
    ∃ folds, FoldHistory (run l ops).store key folds := by
  obtain ⟨folds, hfolds⟩ := (foldHistory_initial hl key).effects (run_effects l hl.wf ops).2
  exact ⟨folds, by rwa [List.nil_append] at hfolds⟩

/-- The quiet operations of a run are a chain of quiet effects. -/
theorem run_quiet (l : LedgerState) (ops : List LedgerOp)
    (h : ∀ op ∈ ops, op.settles = false) :
    Relation.ReflTransGen QuietEffect l.store (run l ops).store := by
  induction ops generalizing l with
  | nil => exact .refl
  | cons op ops ih =>
    have hfirst := apply_quiet l op (h op List.mem_cons_self)
    exact hfirst.trans (ih (apply l op) fun o ho => h o (List.mem_cons_of_mem op ho))

theorem mem_heldRows :
    (id, r) ∈ heldRows s key ↔
      s.reservations.get? id = some r ∧ r.key = key ∧ r.status.holds = true := by
  rw [heldRows, RowTable.mem_select, Bool.and_eq_true, decide_eq_true_eq]

/-- **Dispatched rows hold until settled; closed rows are final; each cost is folded once.**
Take any two moments of a run and any row of the earlier one.  The row is still there.  If it
carries a dispatch marker it is not refunded, its prediction is unchanged, it counts among the
rows held against the cap unless it is settled, and it keeps holding across operations that are
not a settlement, a reconcile or a finalize.  If it is settled or refunded, it is the same row.
And the fold history of every task at the earlier moment is a prefix of the later one, both
without a repeated reservation. -/
theorem dispatched_row_holds_until_settled (l : LedgerState) (hl : l.Initial)
    (ops later : List LedgerOp) :
    (∀ id r, (run l ops).store.reservations.get? id = some r →
      ∃ r', (run l (ops ++ later)).store.reservations.get? id = some r' ∧
        (r.dispatchedMs.isSome →
          r'.status ≠ .refunded ∧ r'.predictedMicro = r.predictedMicro ∧
          ((id, r') ∈ heldRows (run l (ops ++ later)).store r.key ∨ r'.status = .settled) ∧
          (r.status.holds → (∀ op ∈ later, op.settles = false) →
            (id, r') ∈ heldRows (run l (ops ++ later)).store r.key)) ∧
        (r.status.closed → r' = r)) ∧
    ∀ key, ∃ folds more, FoldHistory (run l ops).store key folds ∧
      FoldHistory (run l (ops ++ later)).store key (folds ++ more) := by
  obtain ⟨hwf, hfirst⟩ := run_effects l hl.wf ops
  have hlater : Effects (run l ops).store (run l (ops ++ later)).store := by
    rw [run_append]
    exact (run_effects (run l ops) hwf later).2
  refine ⟨fun id r hr => ?_, fun key => ?_⟩
  · obtain ⟨r', hr', hsteps⟩ := hlater.rowSteps hr
    refine ⟨r', hr', fun hmarker => ?_, fun hclosed => eq_of_closed_of_rowSteps hsteps hclosed⟩
    have hkept : MarkerKept r := by
      refine hfirst.markerKept ?_ id r hr
      rw [hl.reservations]
      exact RowTable.all_empty _
    have hmarked : MarkedFrom r r' := MarkedFrom.steps ⟨rfl, rfl, hmarker, hkept hmarker⟩ hsteps
    refine ⟨?_, hmarked.predicted, ?_, ?_⟩
    · intro hrefunded
      rcases hmarked.status with hstatus | hstatus <;> rw [hrefunded] at hstatus <;> cases hstatus
    · rcases hmarked.status with hholds | hsettled
      · exact .inl (mem_heldRows.mpr ⟨hr', hmarked.key, hholds⟩)
      · exact .inr hsettled
    · intro hholds hquiet
      have hrun := run_quiet (run l ops) later hquiet
      rw [← run_append] at hrun
      obtain ⟨q, hq, -, hqholds⟩ := holds_of_quietEffects hrun hr hmarker hholds
      obtain rfl : r' = q := Option.some.inj (hr' ▸ hq)
      exact mem_heldRows.mpr ⟨hr', hmarked.key, hqholds⟩
  · obtain ⟨folds, hfolds⟩ := run_foldHistory hl ops key
    obtain ⟨more, hmore⟩ := hfolds.effects hlater
    exact ⟨folds, more, hfolds, hmore⟩

/-- A ledger with one running task under a cap. -/
def cappedLedger (cap : ℕ) : LedgerState where
  store :=
    { tasks := fun key => if key = ⟨1, 1⟩ then some ⟨some cap, .int 0, some .running⟩ else none
      reservations := .empty
      calls := .empty
      outbox := .empty
      billingPeriodConfig := none }
  jobs := []

theorem cappedLedger_initial (cap : ℕ) : (cappedLedger cap).Initial where
  jobs := rfl
  reservations := rfl
  outbox := rfl
  spent key t ht := by
    simp only [cappedLedger] at ht
    split at ht
    · rw [← Option.some.inj ht]
    · cases ht

/-- A refund and a recovery after the dispatch mark leave the row holding its prediction. -/
theorem dispatched_row_holds_until_settled_replay :
    ∃ r', (run (cappedLedger 100) ([.reserveAttempt ⟨1, 1⟩ ⟨7, 8, 0⟩ 40 1 none none,
        .markDispatched 1 2] ++ [.refund 1 3, .recover 4])).store.reservations.get? 1 = some r' ∧
      r'.status ≠ .refunded ∧ r'.predictedMicro = 40 := by
  obtain ⟨hrows, -⟩ := dispatched_row_holds_until_settled (cappedLedger 100)
    (cappedLedger_initial 100) [.reserveAttempt ⟨1, 1⟩ ⟨7, 8, 0⟩ 40 1 none none, .markDispatched 1 2]
    [.refund 1 3, .recover 4]
  obtain ⟨r', hr', hmarked, -⟩ := hrows 1 _ rfl
  exact ⟨r', hr', (hmarked rfl).1, (hmarked rfl).2.1⟩

end CostLedger
