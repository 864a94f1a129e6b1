/-
# What a usage settlement folds

`cost_settle_usage` closes one open reservation from a usage report.  The amount it folds into
the task's spent total is the larger of the provider's own number and the local price of the
reported tokens under the price snapshot frozen in the row, so a report may raise the cost and
never lower it below the price of its own tokens.  With neither number there is nothing honest
to fold: a capped task keeps the row open, and any other task closes it as an Unknown spend.

* `dueAmount` is that amount, before the clamp to the column's range.
* `costSettleUsage_guarantee` says what each call on an existing row returns and commits.
-/
import Faktor.CostEffects

open Sqlite

namespace CostLedger

/-! ## The amount due -/

/-- The local price of a usage report under the frozen snapshot of a row. -/
def localPrice (snapshot : Option PricingSnapshot) (usage : TokenUsage) : Option ℕ :=
  snapshot.bind fun p => p.settleCost usage

/-- The larger of the reported cost and the local price; `none` when neither is available. -/
def dueAmount (snapshot : Option PricingSnapshot) (usage : TokenUsage) (reported : Option ℕ) :
    Option ℕ :=
  max reported (localPrice snapshot usage)

/-- Clamping keeps the order. -/
theorem clampI64_mono {a b : ℕ} (h : a ≤ b) : clampI64 a ≤ clampI64 b := by
  unfold clampI64
  omega

theorem clampI64_max (a b : ℕ) : clampI64 (max a b) = max (clampI64 a) (clampI64 b) := by
  rcases Nat.le_total a b with h | h
  · rw [Nat.max_eq_right h, Nat.max_eq_right (clampI64_mono h)]
  · rw [Nat.max_eq_left h, Nat.max_eq_left (clampI64_mono h)]

/-- The transaction clamps both numbers first and then takes the larger. -/
theorem chosenActual_map_clampI64 (reported priced : Option ℕ) :
    chosenActual (reported.map clampI64) (priced.map clampI64) =
      (max reported priced).map clampI64 := by
  cases reported with
  | none => cases priced <;> rfl
  | some r =>
    cases priced with
    | none => rfl
    | some p =>
      show some (max (clampI64 r) (clampI64 p)) = some (clampI64 (max r p))
      rw [clampI64_max]

/-- No settlement is below the local price of the tokens it settles. -/
theorem localPrice_le_dueAmount {snapshot : Option PricingSnapshot} {usage : TokenUsage}
    {reported : Option ℕ} {price due : ℕ} (hprice : localPrice snapshot usage = some price)
    (hdue : dueAmount snapshot usage reported = some due) : price ≤ due := by
  rw [dueAmount, hprice] at hdue
  cases reported with
  | none => exact (Option.some.inj hdue).le
  | some r =>
    have hmax : max r price = due := Option.some.inj hdue
    omega

/-- There is no amount due exactly when nothing was reported and nothing is priced. -/
theorem dueAmount_eq_none_iff (snapshot : Option PricingSnapshot) (usage : TokenUsage)
    (reported : Option ℕ) :
    dueAmount snapshot usage reported = none ↔
      reported = none ∧ localPrice snapshot usage = none := by
  unfold dueAmount
  cases reported <;> cases localPrice snapshot usage <;> simp [max, Option.max]

/-! ## Capped tasks and open rows -/

/-- The task has a cost cap: `NULL` and `0` are unlimited. -/
def Capped (s : Store) (key : TaskKey) : Prop :=
  ∃ t cap, s.tasks key = some t ∧ t.maxCostMicro = some cap ∧ 0 < cap

theorem hasCap_iff (s : Store) (key : TaskKey) : s.hasCap key = true ↔ Capped s key := by
  unfold Store.hasCap Capped
  cases s.tasks key with
  | none => simp
  | some t =>
    cases hcap : t.maxCostMicro with
    | none => simp [hcap]
    | some cap => simp [hcap]

/-- The row still awaits its settlement. -/
def AwaitsSettlement (r : CostReservation) : Prop :=
  r.status = .reserved ∨ r.status = .dispatched

theorem not_awaitsSettlement_iff (r : CostReservation) :
    ¬ AwaitsSettlement r ↔ r.status ≠ .reserved ∧ r.status ≠ .dispatched := not_or

/-! ## What a settlement commits -/

/-- Row `id` is closed `settled` at `cost` and nothing else of the reservations, the provider
calls and the period configuration moves. -/
structure ClosedRow (s s' : Store) (id : ℕ) (cost : Option ℕ) (basis : CostBasis) : Prop where
  row : ∃ r', s'.reservations.get? id = some r' ∧ r'.status = .settled ∧
    r'.settledCostMicro = cost ∧ r'.costBasis = some basis
  others : ∀ j, j ≠ id → s'.reservations.get? j = s.reservations.get? j
  calls : s'.calls = s.calls
  config : s'.billingPeriodConfig = s.billingPeriodConfig

/-- Closing row `id`, whatever is booked on the tasks and offered to the outbox besides. -/
theorem closedRow_updateReservation {s s' : Store} {id : ℕ} {r : CostReservation}
    {f : CostReservation → CostReservation} {cost : Option ℕ} {basis : CostBasis}
    {fact : BillingOutboxFact} (hr : s.reservations.get? id = some r)
    (hstatus : (f r).status = .settled) (hcost : (f r).settledCostMicro = cost)
    (hbasis : (f r).costBasis = some basis)
    (hreservations : s'.reservations = s.reservations.update id f) (hcalls : s'.calls = s.calls)
    (hconfig : s'.billingPeriodConfig = s.billingPeriodConfig) :
    ClosedRow s (s'.insertBillingOutbox fact) id cost basis := by
  have hget : ∀ j, (s'.insertBillingOutbox fact).reservations.get? j =
      if j = id then (s.reservations.get? id).map f else s.reservations.get? j := by
    intro j
    rw [reservations_insertBillingOutbox, hreservations, RowTable.get?_update]
  constructor
  case row =>
    refine ⟨f r, ?_, hstatus, hcost, hbasis⟩
    rw [hget, if_pos rfl, hr, Option.map_some]
  case others =>
    intro j hj
    rw [hget, if_neg hj]
  case calls =>
    rw [← hcalls]
    unfold Store.insertBillingOutbox
    split <;> rfl
  case config =>
    rw [← hconfig]
    unfold Store.insertBillingOutbox
    split <;> rfl

/-- The basis of a folded amount: the report if the amount is the reported one, otherwise the
price lines. -/
def foldBasis (reported : Option ℕ) (chosen : ℕ) : CostBasis :=
  if reported.map clampI64 = some chosen then .providerReported else .routeSnapshotEstimate

/-- What the settlement of an open row with a readable snapshot returns and commits. -/
def SettlesDue (s : Store) (id : ℕ) (r : CostReservation) (snapshot : Option PricingSnapshot)
    (usage : TokenUsage) (reported : Option ℕ) (run : StoreResult (CostSettleOutcome × Store)) :
    Prop :=
  match dueAmount snapshot usage reported, s.tasks r.key with
  | some due, some t =>
    -- the amount is folded into the task's spent total and into no other column of any task
    ∃ s', run = .ok (.applied (clampI64 due), s') ∧
      ClosedRow s s' id (some (clampI64 due)) (foldBasis reported (clampI64 due)) ∧
      s'.tasks = Function.update s.tasks r.key
        (some { t with spentCostMicro := (sqlAdd t.spentCostMicro (clampI64 due)).store }) ∧
      ∀ price, localPrice snapshot usage = some price → clampI64 price ≤ clampI64 due
  | some _, none => ∃ message, run = .error (.conflict message)
  | none, _ =>
    (reported = none ∧ localPrice snapshot usage = none) ∧
    (Capped s r.key → run = .ok (.unknownPrice id, s)) ∧
    (¬ Capped s r.key → ∃ s', run = .ok (.appliedUnknown, s') ∧
      ClosedRow s s' id none .unknown ∧ s'.tasks = s.tasks)

theorem settlesDue_costSettleUsage {s : Store} {id : ℕ} {r : CostReservation}
    (hr : s.reservations.get? id = some r) (hopen : AwaitsSettlement r)
    {snapshot : Option PricingSnapshot}
    (hsnap : parseSnapshot (snapshotContext id) r.pricingSnapshotJson = .ok snapshot)
    (usage : TokenUsage) (reported : Option ℕ) (route : Option String) (ms : ℤ)
    (provider model : String) :
    SettlesDue s id r snapshot usage reported
      (costSettleUsageWithContext s id usage reported route ms provider model) := by
  have hnot : ¬ (r.status ≠ .reserved ∧ r.status ≠ .dispatched) := by
    rw [← not_awaitsSettlement_iff]
    exact not_not.mpr hopen
  have hchosen : chosenActual (reported.map clampI64)
      ((snapshot.bind fun p => p.settleCost usage).map clampI64) =
        (dueAmount snapshot usage reported).map clampI64 := chosenActual_map_clampI64 _ _
  unfold SettlesDue costSettleUsageWithContext
  simp only [hr, if_neg hnot, hsnap, bind, Except.bind, pure, Except.pure, throw, throwThe,
    MonadExceptOf.throw]
  rw [hchosen]
  cases hdue : dueAmount snapshot usage reported with
  | none =>
    simp only [Option.map_none]
    refine ⟨(dueAmount_eq_none_iff snapshot usage reported).mp hdue, ?_, ?_⟩
    · intro hcap
      rw [if_pos ((hasCap_iff s r.key).mpr hcap)]
    · intro hcap
      rw [if_neg (fun h => hcap ((hasCap_iff s r.key).mp h))]
      refine ⟨_, rfl, ?_, ?_⟩
      · exact closedRow_updateReservation hr rfl rfl rfl rfl rfl rfl
      · rw [tasks_insertBillingOutbox]
        rfl
  | some due =>
    simp only [Option.map_some]
    cases htask : s.tasks r.key with
    | none =>
      refine ⟨"cost settle: task has no row; the task machine owns creation", ?_⟩
      simp only [Store.foldSpent, Store.updateReservation, htask, Option.map_none]
    | some t =>
      simp only [Store.foldSpent, Store.updateReservation, htask, Option.map_some]
      refine ⟨_, rfl, ?_, ?_, ?_⟩
      · exact closedRow_updateReservation hr rfl rfl rfl rfl rfl rfl
      · rw [tasks_insertBillingOutbox]
      · intro price hprice
        exact clampI64_mono (localPrice_le_dueAmount hprice hdue)

/-- **A usage settlement folds the larger of the report and the local price.**  A row that no
longer awaits settlement and a row whose snapshot does not parse are refused; every other call
settles what is due. -/
theorem costSettleUsage_guarantee {s : Store} {id : ℕ} {r : CostReservation}
    (hr : s.reservations.get? id = some r) (usage : TokenUsage) (reported : Option ℕ)
    (route : Option String) (ms : ℤ) (provider model : String) :
    (¬ AwaitsSettlement r →
      costSettleUsageWithContext s id usage reported route ms provider model =
        .ok (.notOpen r.status, s)) ∧
    (AwaitsSettlement r → r.pricingSnapshotJson = some .unparsable →
      costSettleUsageWithContext s id usage reported route ms provider model =
        .error (.corrupt [snapshotContext id])) ∧
    (AwaitsSettlement r → ∀ snapshot,
      parseSnapshot (snapshotContext id) r.pricingSnapshotJson = .ok snapshot →
      SettlesDue s id r snapshot usage reported
        (costSettleUsageWithContext s id usage reported route ms provider model)) := by
  refine ⟨?_, ?_, ?_⟩
  · intro hclosed
    unfold costSettleUsageWithContext
    simp only [hr, if_pos ((not_awaitsSettlement_iff r).mp hclosed)]
  · intro hopen hcorrupt
    have hnot : ¬ (r.status ≠ .reserved ∧ r.status ≠ .dispatched) := by
      rw [← not_awaitsSettlement_iff]
      exact not_not.mpr hopen
    unfold costSettleUsageWithContext
    simp only [hr, if_neg hnot, hcorrupt, parseSnapshot, bind, Except.bind]
  · intro hopen snapshot hsnap
    exact settlesDue_costSettleUsage hr hopen hsnap usage reported route ms provider model

/-- One open row of a capped task, priced at two micro per token (2 000 000 per million). -/
def pricedStore : Store where
  tasks := fun key => if key = ⟨1, 1⟩ then some ⟨some 500, .int 40, some .running⟩ else none
  reservations := RowTable.empty.insert
    { freshReservation ⟨1, 1⟩ 7 none none 90 0
        (some (.snapshot ⟨some ⟨2000000, 2000000, 0, 0⟩, .exact⟩)) none with
      status := .dispatched
      dispatchedMs := some 1 }
  calls := RowTable.empty
  outbox := RowTable.empty
  billingPeriodConfig := none

/-- A provider that reports zero for ten input tokens still pays their local price. -/
theorem costSettleUsage_guarantee_pricedStore :
    ∃ s', costSettleUsageWithContext pricedStore 1 ⟨10, 0, 0, 0⟩ (some 0) none 5 "p" "m" =
        .ok (.applied 20, s') ∧
      s'.tasks ⟨1, 1⟩ = some ⟨some 500, .int 60, some .running⟩ := by
  have hrow : pricedStore.reservations.get? 1 = some
      { freshReservation ⟨1, 1⟩ 7 none none 90 0
          (some (.snapshot ⟨some ⟨2000000, 2000000, 0, 0⟩, .exact⟩)) none with
        status := .dispatched
        dispatchedMs := some 1 } := by decide
  have h := (costSettleUsage_guarantee hrow ⟨10, 0, 0, 0⟩ (some 0) none 5 "p" "m").2.2
    (.inr rfl) _ rfl
  have hdue : dueAmount (some ⟨some ⟨2000000, 2000000, 0, 0⟩, .exact⟩) ⟨10, 0, 0, 0⟩ (some 0) =
      some 20 := by decide
  obtain ⟨s', hrun, -, htasks, -⟩ := h
  refine ⟨s', hrun, ?_⟩
  rw [htasks]
  rfl

end CostLedger
