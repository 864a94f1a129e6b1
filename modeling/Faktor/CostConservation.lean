/-
# Conservation: the cap, the spent total and the outbox

Two invariants of a run over the fold history of `CostInvariant.lean`:

* `CapBound`: under a cap below `2 ^ 53`, spent plus held never passes the cap as long as no
  settlement exceeded its row's prediction;
* `OutboxMirror`: the outbox holds exactly one row per settled reservation, at its settled cost,
  and the task's outbox costs sum to its settled total.

The spent column is an SQLite integer.  It agrees with these totals exactly as long as the
total fits a signed 64-bit integer (`foldedSpent_readInt_iff`).
-/
import Faktor.CostInvariant

open Sqlite

namespace CostLedger

/-! ## The spent column -/

/-- Every integer the column holds is in range. -/
theorem foldedSpent_int_le (amounts : List ℕ) {n : ℕ} (h : foldedSpent amounts = .int n) :
    n ≤ i64Max := by
  induction amounts using List.reverseRecOn with
  | nil =>
    have : n = 0 := (SqlNum.int.inj h).symm
    omega
  | append_singleton amounts c ih =>
    rw [foldedSpent_append] at h
    cases hprev : foldedSpent amounts with
    | int m =>
      rw [hprev, sqlAdd] at h
      split at h
      · have := SqlNum.int.inj h
        omega
      · rw [SqlNum.store] at h
        split at h
        · have := SqlNum.int.inj h
          omega
        · cases h
    | real m =>
      rw [hprev, sqlAdd, SqlNum.store] at h
      split at h
      · have := SqlNum.int.inj h
        omega
      · cases h

theorem foldedSpent_of_le {amounts : List ℕ} (h : amounts.sum ≤ i64Max) :
    foldedSpent amounts = .int amounts.sum := by
  have hfold := foldl_sqlAdd_int amounts 0 (by omega)
  rwa [Nat.zero_add] at hfold

/-- **The spent column reads as the sum of what was folded into it exactly when that sum is a
signed 64-bit integer.** -/
theorem foldedSpent_readInt_iff (amounts : List ℕ) :
    (foldedSpent amounts).readInt = some amounts.sum ↔ amounts.sum ≤ i64Max := by
  constructor
  · intro h
    cases hspent : foldedSpent amounts with
    | int n =>
      rw [hspent, SqlNum.readInt, Option.some.injEq] at h
      exact h ▸ foldedSpent_int_le amounts hspent
    | real n => simp [hspent, SqlNum.readInt] at h
  · intro h
    rw [foldedSpent_of_le h]
    rfl

/-! ## The cap -/

/-- No settled row of the task cost more than it reserved. -/
def NoOvershoot (s : Store) (key : TaskKey) : Prop :=
  ∀ id r c, s.reservations.get? id = some r → r.key = key → r.status = .settled →
    r.settledCostMicro = some c → c ≤ r.predictedMicro

/-- The task keeps its cap, and below it spent plus held fits unless a settlement overshot. -/
structure CapBound (s : Store) (key : TaskKey) (cap : ℕ) : Prop where
  money : ∃ spent, s.money key = some (some cap, spent)
  bound : NoOvershoot s key → s.settledTotal key + s.held key ≤ cap

variable {s s' : Store} {key : TaskKey}

theorem NoOvershoot.of_quiet (h : NoOvershoot s' key) (hquiet : QuietEffect s s') : NoOvershoot s key := by
  intro id r c hr hkey hstatus hcost
  exact h id r c ((hquiet.settledRow_iff hstatus).mpr hr) hkey hstatus hcost

variable {r : CostReservation}

theorem RowMove.heldAmount_le {r' : CostReservation} (h : RowMove r r') (key : TaskKey) :
    heldAmount key r' ≤ heldAmount key r := by
  unfold heldAmount
  rw [h.key, h.predicted]
  split
  · rename_i hnew
    rw [if_pos ⟨hnew.1, h.wasOpen⟩]
  · exact Nat.zero_le _

variable {cap : ℕ} {folds : List (ℕ × ℕ)} {row : CostReservation}

/-- An admitted row fits below the cap. -/
theorem CapBound.admitted (h : CapBound s key cap) (hfolds : FoldHistory s key folds) (hpos : 0 < cap)
    (hlt : cap < 2 ^ 53) (hover : NoOvershoot s key) (hkey : row.key = key) (hadmitted : Admitted s row) :
    s.settledTotal key + s.held key + row.predictedMicro ≤ cap := by
  have hbound := h.bound hover
  obtain ⟨spent, hmoney⟩ := h.money
  obtain ⟨n, openSum, hspent, hopen, hfit⟩ := hadmitted cap spent (hkey.symm ▸ hmoney) hpos
  have hsum : (folds.map Prod.snd).sum ≤ i64Max := by
    rw [hfolds.total, i64Max]
    omega
  have hn : n = s.settledTotal key := by
    have hcolumn := hfolds.spent _ _ hmoney
    rw [hspent, foldedSpent_of_le hsum, hfolds.total] at hcolumn
    exact SqlNum.int.inj hcolumn
  rw [hkey] at hopen
  have hheld := hopen (by omega)
  omega

theorem CapBound.quiet (h : CapBound s key cap) (hfolds : FoldHistory s key folds) (hpos : 0 < cap)
    (hlt : cap < 2 ^ 53) (hquiet : QuietEffect s s') : CapBound s' key cap := by
  refine ⟨by rw [hquiet.money]; exact h.money, fun hover' => ?_⟩
  have hover := hover'.of_quiet hquiet
  have hbound := h.bound hover
  rw [hquiet.settledTotal]
  cases hquiet with
  | frame hres _ _ => rwa [Store.held, hres]
  | reserve row hfresh hadmitted hres _ _ =>
    have hheld : s'.held key = s.held key + heldAmount key row := by
      rw [Store.held, hres, RowTable.total_insert]
      rfl
    rw [hheld, heldAmount]
    split
    · rename_i hrow
      have := h.admitted hfolds hpos hlt hover hrow.1 hadmitted
      omega
    · omega
  | move p f hmove hres _ _ =>
    have hle : s'.held key ≤ s.held key := by
      rw [Store.held, hres]
      exact RowTable.total_updateWhere_le _ fun id r hr hp => (hmove id r hr hp).heldAmount_le key
    omega

variable {id : ℕ} {cost : Option ℕ}

/-- A settlement moves at most the row's prediction from held to settled. -/
theorem CapBound.settle (h : CapBound s key cap) (hsettle : SettleEffect s s' id cost) :
    CapBound s' key cap := by
  obtain ⟨r, r', hr, hclose, hget, htotal, -, hmoney, -⟩ := hsettle.spec
  refine ⟨?_, fun hover' => ?_⟩
  · obtain ⟨spent, hspent⟩ := h.money
    cases cost with
    | none => exact ⟨spent, by rw [hmoney, foldedMoney, hspent]⟩
    | some c =>
      by_cases hkey : key = r.key
      · subst hkey
        exact ⟨(sqlAdd spent c).store,
          by rw [hmoney, foldedMoney, Function.update_self, hspent]; rfl⟩
      · exact ⟨spent, by rw [hmoney, foldedMoney, Function.update_of_ne hkey, hspent]⟩
  · have hover : NoOvershoot s key := by
      intro j q c hq hkey hstatus hcost
      have hj : j ≠ id := by
        rintro rfl
        rw [hr] at hq
        exact hclose.not_settled (Option.some.inj hq ▸ hstatus)
      exact hover' j q c (by rw [hget, if_neg hj]; exact hq) hkey hstatus hcost
    have hbound := h.bound hover
    have hsettled := htotal (settledAmount key)
    have hheld := htotal (heldAmount key)
    rw [settledAmount_of_not_settled hclose.not_settled, hclose.settledAmount] at hsettled
    have hclosed : heldAmount key r' = 0 := by simp [heldAmount, hclose.status,
      ReservationStatus.holds]
    have hopen : heldAmount key r = if r.key = key then r.predictedMicro else 0 := by
      simp [heldAmount, hclose.wasOpen]
    rw [hclosed, hopen] at hheld
    have hsettled' : s'.settledTotal key + 0 =
        s.settledTotal key + if r.key = key then cost.getD 0 else 0 := hsettled
    have hheld' : s'.held key + (if r.key = key then r.predictedMicro else 0) =
        s.held key + 0 := hheld
    by_cases hkey : r.key = key
    · simp only [if_pos hkey] at hsettled' hheld'
      have hcost : cost.getD 0 ≤ r.predictedMicro := by
        cases cost with
        | none => exact Nat.zero_le _
        | some c =>
          have := hover' id r' c (by rw [hget, if_pos rfl]) (hclose.key.trans hkey)
            hclose.status hclose.settledCost
          rwa [hclose.predicted] at this
      omega
    · simp only [if_neg hkey] at hsettled' hheld'
      omega

/-- The cap bound along a chain of effects, with the fold history it needs. -/
theorem CapBound.effects (h : CapBound s key cap) (hfolds : FoldHistory s key folds) (hpos : 0 < cap)
    (hlt : cap < 2 ^ 53) (heffects : Effects s s') :
    CapBound s' key cap := by
  induction heffects with
  | refl => exact h
  | tail hprev hstep ih =>
    obtain ⟨more, hmore⟩ := hfolds.effects hprev
    rcases hstep with hquiet | ⟨id, cost, hsettle⟩
    · exact ih.quiet hmore hpos hlt hquiet
    · exact ih.settle hsettle

variable {l : LedgerState} {t : TaskRow}

theorem capBound_initial (hl : l.Initial) (ht : l.store.tasks key = some t)
    (hcap : t.maxCostMicro = some cap) :
    CapBound l.store key cap where
  money := ⟨t.spentCostMicro, by rw [Store.money, ht, ← hcap]; rfl⟩
  bound _ := by
    have hsettled : l.store.settledTotal key = 0 := by
      rw [Store.settledTotal, hl.reservations]
      rfl
    have hheld : l.store.held key = 0 := by
      rw [Store.held, hl.reservations]
      rfl
    omega

/-! ## Refused reserves -/

/-- The result of a reserve that granted nothing. -/
def Refused (result : StoreResult (CostReserveOutcome × Store)) : Prop :=
  ∀ id s', result ≠ .ok (.granted id, s')

variable {openSum : List ℕ → StoreResult ℕ} {predictedMicro : ℕ}

/-- A refused reserve commits the store it was given. -/
theorem committed_costReserveTx_of_refused (h : Refused (costReserveTx s key openSum predictedMicro row)) :
    committed s (costReserveTx s key openSum predictedMicro row) = s := by
  cases hres : costReserveTx s key openSum predictedMicro row with
  | error e => rfl
  | ok out =>
    obtain ⟨outcome, s'⟩ := out
    obtain ⟨-, hsame⟩ | ⟨_, _, _, hgranted, -⟩ := costReserveTx_cases hres
    · exact hsame
    · rw [hgranted] at hres
      exact absurd hres (h _ _)

/-- A task state that forbids provider operations refuses every reserve. -/
theorem refused_of_forbidden {state : TaskState} (ht : s.tasks key = some t) (hstate : t.state = some state)
    (hforbid : taskStatePermitsProviderOperation state = false) :
    Refused (costReserveTx s key openSum predictedMicro row) := by
  intro id s' h
  unfold costReserveTx providerOperationGate at h
  simp only [ht, hstate, hforbid] at h
  cases h

/-! ## The ledger of one capped task -/

/-- **Spent is the settled total and stays below the cap.**  In every run over any tasks, with
the cap and the task's settled total below `2 ^ 53`: the spent column is the sum of
`settled_cost_micro` over the task's settled rows; as long as no settlement exceeded its
prediction, spent plus the held predictions fits the cap; and a reserve that grants nothing,
as every reserve in a forbidding task state, leaves the ledger as it was. -/
theorem spent_eq_settledTotal_and_le_cap (l : LedgerState) (hl : l.Initial) (key : TaskKey)
    (cap : ℕ) (t₀ : TaskRow) (ht₀ : l.store.tasks key = some t₀)
    (hcap : t₀.maxCostMicro = some cap) (hpos : 0 < cap) (hlt : cap < 2 ^ 53)
    (ops : List LedgerOp) (htotal : (run l ops).store.settledTotal key < 2 ^ 53) :
    (∃ t, (run l ops).store.tasks key = some t ∧ t.maxCostMicro = some cap ∧
      t.spentCostMicro = .int ((run l ops).store.settledTotal key) ∧
      (NoOvershoot (run l ops).store key →
        (run l ops).store.settledTotal key + (heldPredictions (run l ops).store key).sum ≤ cap)) ∧
    (∀ key' opId attempt predicted ms snapshot cls,
      (Refused (costReserveAttempt (run l ops).store key' attempt predicted ms snapshot cls) →
        apply (run l ops) (.reserveAttempt key' attempt predicted ms snapshot cls) = run l ops) ∧
      (Refused (costReserveInner (run l ops).store key' opId predicted ms snapshot cls) →
        apply (run l ops) (.reserve key' opId predicted ms snapshot cls) = run l ops) ∧
      (∀ t state, (run l ops).store.tasks key' = some t → t.state = some state →
        taskStatePermitsProviderOperation state = false →
        Refused (costReserveAttempt (run l ops).store key' attempt predicted ms snapshot cls) ∧
        Refused (costReserveInner (run l ops).store key' opId predicted ms snapshot cls))) := by
  obtain ⟨-, heffects⟩ := run_effects l hl.wf ops
  refine ⟨?_, fun key' opId attempt predicted ms snapshot cls => ⟨?_, ?_, ?_⟩⟩
  · obtain ⟨folds, hfolds⟩ := run_foldHistory hl ops key
    have hbound := (capBound_initial hl ht₀ hcap).effects (foldHistory_initial hl key) hpos hlt
      heffects
    obtain ⟨spent, hmoney⟩ := hbound.money
    have hspent := hfolds.spent _ _ hmoney
    rw [foldedSpent_of_le (by rw [hfolds.total, i64Max]; omega), hfolds.total] at hspent
    rw [Store.money, Option.map_eq_some_iff] at hmoney
    obtain ⟨t, ht, heq⟩ := hmoney
    obtain ⟨hmax, hcolumn⟩ := Prod.mk.inj heq
    refine ⟨t, ht, hmax, hcolumn.trans hspent, fun hover => ?_⟩
    rw [sum_heldPredictions]
    exact hbound.bound hover
  · intro hrefused
    exact congrArg (LedgerState.mk · (run l ops).jobs) (committed_costReserveTx_of_refused hrefused)
  · intro hrefused
    exact congrArg (LedgerState.mk · (run l ops).jobs) (committed_costReserveTx_of_refused hrefused)
  · intro t state ht hstate hforbid
    exact ⟨refused_of_forbidden ht hstate hforbid, refused_of_forbidden ht hstate hforbid⟩

/-- Two attempts under a cap of 100: one settled below its prediction, one uncertain. -/
theorem spent_eq_settledTotal_and_le_cap_twoAttempts :
    let ops : List LedgerOp := [.reserveAttempt ⟨1, 1⟩ ⟨7, 8, 0⟩ 40 1 none none,
      .markDispatched 1 2, .settleUsage 1 ⟨0, 0, 0, 0⟩ (some 25) none 3 "p" "m",
      .reserveAttempt ⟨1, 1⟩ ⟨7, 9, 1⟩ 60 4 none none, .markDispatched 2 5, .recover 6]
    (run (cappedLedger 100) ops).store.settledTotal ⟨1, 1⟩ = 25 ∧
    ∃ t, (run (cappedLedger 100) ops).store.tasks ⟨1, 1⟩ = some t ∧
      t.spentCostMicro = .int 25 := by
  intro ops
  have htotal : (run (cappedLedger 100) ops).store.settledTotal ⟨1, 1⟩ = 25 := by decide
  obtain ⟨⟨t, ht, -, hspent, -⟩, -⟩ := spent_eq_settledTotal_and_le_cap (cappedLedger 100)
    (cappedLedger_initial 100) ⟨1, 1⟩ 100 _ rfl rfl (by decide) (by decide) ops
    (by rw [htotal]; decide)
  exact ⟨htotal, t, ht, by rw [hspent, htotal]⟩

/-! ## The outbox -/

/-- The costs of the outbox rows of reservation `id`, in outbox order. -/
def outboxCosts (s : Store) (id : ℕ) : List ℕ :=
  (s.outbox.rows.filter (fun o => o.2.fact.reservationId == id)).map
    (fun o => o.2.fact.providerCostMicro)

/-- What a settled reservation owes the outbox: one row at its settled cost, 0 for an Unknown
close; a reservation in any other state owes nothing. -/
def owedCosts (s : Store) (id : ℕ) : List ℕ :=
  match s.reservations.get? id with
  | some r => if r.status = .settled then [r.settledCostMicro.getD 0] else []
  | none => []

/-- The sum of the task's outbox costs. -/
def Store.outboxTotal (s : Store) (key : TaskKey) : ℕ :=
  s.outbox.total (fun _ o => if o.fact.key = key then o.fact.providerCostMicro else 0)

/-- The outbox mirrors the settled rows. -/
structure OutboxMirror (s : Store) : Prop where
  costs : ∀ id, outboxCosts s id = owedCosts s id
  total : ∀ key, s.outboxTotal key = s.settledTotal key

theorem owedCosts_of_open (hr : s.reservations.get? id = some r) (h : r.status ≠ .settled) :
    owedCosts s id = [] := by
  simp [owedCosts, hr, h]

theorem owedCosts_of_settled (hr : s.reservations.get? id = some r) (h : r.status = .settled) :
    owedCosts s id = [r.settledCostMicro.getD 0] := by
  simp [owedCosts, hr, h]

/-- Equal settled rows owe the same. -/
theorem owedCosts_congr
    (h : ∀ r, r.status = .settled →
      (s'.reservations.get? id = some r ↔ s.reservations.get? id = some r)) :
    owedCosts s' id = owedCosts s id := by
  by_cases hsettled : ∃ r, s.reservations.get? id = some r ∧ r.status = .settled
  · obtain ⟨r, hr, hstatus⟩ := hsettled
    rw [owedCosts_of_settled hr hstatus, owedCosts_of_settled ((h r hstatus).mpr hr) hstatus]
  · have hnone : ∀ u : Store, (¬ ∃ r, u.reservations.get? id = some r ∧ r.status = .settled) →
        owedCosts u id = [] := by
      intro u hu
      cases hr : u.reservations.get? id with
      | none => simp [owedCosts, hr]
      | some r => exact owedCosts_of_open hr fun hs => hu ⟨r, hr, hs⟩
    rw [hnone s hsettled, hnone s' fun ⟨r, hr, hs⟩ => hsettled ⟨r, (h r hs).mp hr, hs⟩]

theorem OutboxMirror.quiet (h : OutboxMirror s) (hquiet : QuietEffect s s') :
    OutboxMirror s' where
  costs id := by
    rw [owedCosts_congr fun r hr => hquiet.settledRow_iff hr, ← h.costs id, outboxCosts,
      outboxCosts, hquiet.outbox]
  total key := by
    rw [Store.outboxTotal, hquiet.outbox, hquiet.settledTotal]
    exact h.total key

theorem outboxCosts_eq_nil_iff (s : Store) (id : ℕ) :
    outboxCosts s id = [] ↔
      s.outbox.rows.any (fun o => o.2.fact.reservationId == id) = false := by
  rw [outboxCosts, List.map_eq_nil_iff, List.filter_eq_nil_iff, List.any_eq_false]

theorem outboxCosts_insert {row : BillingOutboxRow} (h : s'.outbox = s.outbox.insert row) (id : ℕ) :
    outboxCosts s' id = outboxCosts s id ++
      if row.fact.reservationId = id then [row.fact.providerCostMicro] else [] := by
  rw [outboxCosts, h, outboxCosts, RowTable.insert, List.filter_append, List.map_append]
  by_cases hid : row.fact.reservationId = id
  · simp [hid]
  · simp [hid]

theorem OutboxMirror.settle (h : OutboxMirror s) (hsettle : SettleEffect s s' id cost) : OutboxMirror s' := by
  obtain ⟨r, r', hr, hclose, hget, -, -, -, hoffer⟩ := hsettle.spec
  obtain ⟨q, hq, htotal⟩ := hsettle.settledTotal
  obtain rfl : r = q := Option.some.inj (hr ▸ hq)
  have hempty : outboxCosts s id = [] := by
    rw [h.costs, owedCosts_of_open hr hclose.not_settled]
  cases hoffer with
  | ignored hpresent _ =>
    -- an open row has no outbox row, so the insert is never ignored
    rw [(outboxCosts_eq_nil_iff s id).mp hempty] at hpresent
    cases hpresent
  | inserted row _ hid hkey hcost hinsert =>
    refine ⟨fun j => ?_, fun key => ?_⟩
    · rw [outboxCosts_insert hinsert, hid, hcost]
      by_cases hj : id = j
      · subst hj
        have hr' : s'.reservations.get? id = some r' := by rw [hget, if_pos rfl]
        rw [hempty, if_pos rfl, owedCosts_of_settled hr' hclose.status, hclose.settledCost]
        rfl
      · have hsame : s'.reservations.get? j = s.reservations.get? j := by
          rw [hget, if_neg (Ne.symm hj)]
        rw [if_neg hj, List.append_nil, h.costs j]
        exact (owedCosts_congr fun _ _ => by rw [hsame]).symm
    · rw [htotal, ← h.total, Store.outboxTotal, hinsert, RowTable.total_insert, hkey, hcost]
      rfl

theorem OutboxMirror.effects (h : OutboxMirror s) (heffects : Effects s s') :
    OutboxMirror s' := by
  induction heffects with
  | refl => exact h
  | tail _ hstep ih =>
    rcases hstep with hquiet | ⟨id, cost, hsettle⟩
    · exact ih.quiet hquiet
    · exact ih.settle hsettle

theorem outboxMirror_initial (hl : l.Initial) : OutboxMirror l.store where
  costs id := by
    rw [outboxCosts, owedCosts, hl.outbox, hl.reservations]
    rfl
  total key := by
    rw [Store.outboxTotal, Store.settledTotal, hl.outbox, hl.reservations]
    rfl

/-- What billing promises of a store: one outbox row per settled reservation at its settled
cost, none for any other reservation, and for every task the outbox costs sum to the spent
column as the program reads it. -/
def BillingAgrees (s : Store) (key : TaskKey) : Prop :=
  (∀ id, outboxCosts s id = owedCosts s id) ∧
    ∀ t, s.tasks key = some t → t.spentCostMicro.readInt = some (s.outboxTotal key)

/-- **The outbox agrees with the spent column exactly while the settled total fits an `i64`.**
In every run: the outbox rows always mirror the settled rows; they sum to the spent column of a
task if and only if the task's settled costs sum to at most `i64::MAX`. -/
theorem billingAgrees_iff_settledTotal_le (l : LedgerState) (hl : l.Initial) (key : TaskKey)
    (ops : List LedgerOp) (hrow : ((run l ops).store.tasks key).isSome) :
    (∀ id, outboxCosts (run l ops).store id = owedCosts (run l ops).store id) ∧
    (BillingAgrees (run l ops).store key ↔ (run l ops).store.settledTotal key ≤ i64Max) := by
  obtain ⟨-, heffects⟩ := run_effects l hl.wf ops
  have hmirror := (outboxMirror_initial hl).effects heffects
  obtain ⟨folds, hfolds⟩ := run_foldHistory hl ops key
  obtain ⟨t, ht⟩ := Option.isSome_iff_exists.mp hrow
  have hspent : t.spentCostMicro = foldedSpent (folds.map Prod.snd) :=
    hfolds.spent t.maxCostMicro t.spentCostMicro (by rw [Store.money, ht]; rfl)
  have hiff := foldedSpent_readInt_iff (folds.map Prod.snd)
  rw [← hspent, hfolds.total] at hiff
  refine ⟨hmirror.costs, ?_⟩
  rw [← hiff, BillingAgrees, hmirror.total]
  constructor
  · exact fun h => h.2 t ht
  · intro h
    refine ⟨hmirror.costs, fun t' ht' => ?_⟩
    rw [ht] at ht'
    exact Option.some.inj ht' ▸ h

/-- A settled and a finalized row, and a replayed settlement: the outbox sums to the spent
column. -/
theorem billingAgrees_twoSettled :
    let ops : List LedgerOp := [.reserveAttempt ⟨1, 1⟩ ⟨7, 8, 0⟩ 40 1 none none,
      .settleUsage 1 ⟨0, 0, 0, 0⟩ (some 25) none 3 "p" "m",
      .reserveAttempt ⟨1, 1⟩ ⟨7, 9, 1⟩ 60 4 none none, .markDispatched 2 5, .recover 6,
      .finalize ⟨1, 1⟩ 7, .settleUsage 1 ⟨0, 0, 0, 0⟩ (some 25) none 8 "p" "m"]
    BillingAgrees (run (cappedLedger 100) ops).store ⟨1, 1⟩ := by
  intro ops
  exact ((billingAgrees_iff_settledTotal_le (cappedLedger 100) (cappedLedger_initial 100) ⟨1, 1⟩
    ops (by decide)).2).mpr (by decide)

/-- Two reservations settled at reported amounts of `i64::MAX`: the spent column becomes a
`REAL` and no longer reads as the sum of the outbox. -/
theorem billing_disagrees_after_overflow :
    (cappedLedger 100).Initial ∧ ¬ BillingAgrees (run (cappedLedger 100)
      [.reserveAttempt ⟨1, 1⟩ ⟨7, 8, 0⟩ 1 1 none none,
        .reserveAttempt ⟨1, 1⟩ ⟨7, 9, 1⟩ 1 2 none none,
        .settleUsage 1 ⟨0, 0, 0, 0⟩ (some i64Max) none 3 "p" "m",
        .settleUsage 2 ⟨0, 0, 0, 0⟩ (some i64Max) none 4 "p" "m"]).store ⟨1, 1⟩ := by
  refine ⟨cappedLedger_initial 100, ?_⟩
  rintro ⟨-, hsum⟩
  exact absurd (hsum _ rfl) (by decide)

end CostLedger
