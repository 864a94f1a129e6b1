/-
# What a ledger operation can do: three kinds of effect

The abstract model of the cost ledger.  Whatever a transaction does to the money is one of

* `QuietEffect`: nothing, one new `reserved` row that passed admission, or rows moving between
  the open statuses or into `refunded` (`RowMove`);
* `SettleEffect`: one row that still holds budget closes `settled`, its cost (if it has one) is
  folded into its own task's spent total, and its fact is offered to the outbox.

`LedgerEffect` is one of the two.  The lemmas below connect this layer to the transactions of
`CostOperations.lean`, one per transaction: what the transaction commits is an effect.  All run
invariants are proved on effects.
-/
import Faktor.CostOperations

open Sqlite

namespace CostLedger

/-! ## Money and held sums -/

/-- The store a transaction leaves behind. -/
def committed {α : Type} (s : Store) : StoreResult (α × Store) → Store
  | .ok (_, s') => s'
  | .error _ => s

/-- The monetary columns of a task row. -/
def Store.money (s : Store) (key : TaskKey) : Option (Option ℕ × SqlNum) :=
  (s.tasks key).map (fun t => (t.maxCostMicro, t.spentCostMicro))

/-- The prediction a row holds against the cap of task `key`. -/
def heldAmount (key : TaskKey) (r : CostReservation) : ℕ :=
  if r.key = key ∧ r.status.holds = true then r.predictedMicro else 0

/-- The sum of the predictions the task's open rows hold. -/
def Store.held (s : Store) (key : TaskKey) : ℕ :=
  s.reservations.total (fun _ r => heldAmount key r)

theorem sum_heldPredictions (s : Store) (key : TaskKey) :
    (heldPredictions s key).sum = s.held key := by
  unfold heldPredictions heldRows Store.held RowTable.select RowTable.total
  induction s.reservations.rows with
  | nil => rfl
  | cons r rows ih =>
    by_cases h : r.2.key = key ∧ r.2.status.holds = true
    · have hb : (decide (r.2.key = key) && r.2.status.holds) = true := by simpa using h
      simp only [List.filter_cons, hb, if_true, List.map_cons, List.sum_cons, ih]
      rw [heldAmount, if_pos h]
    · have hb : ¬ (decide (r.2.key = key) && r.2.status.holds) = true := by simpa using h
      simp only [List.filter_cons, if_neg hb, List.map_cons, List.sum_cons, ih]
      rw [heldAmount, if_neg h, Nat.zero_add]

/-! ## The effects -/

/-- The columns that never change after the insert. -/
structure SameIdentity (r r' : CostReservation) : Prop where
  key : r'.key = r.key
  opId : r'.opId = r.opId
  attemptOpId : r'.attemptOpId = r.attemptOpId
  predicted : r'.predictedMicro = r.predictedMicro

/-- A row moving without being settled: it held budget, and it still does unless it is
refunded, which only an undispatched `reserved` row can be; a dispatch marker stays. -/
structure RowMove (r r' : CostReservation) : Prop extends SameIdentity r r' where
  wasOpen : r.status.holds = true
  settledCost : r'.settledCostMicro = r.settledCostMicro
  marker : r.dispatchedMs.isSome → r'.dispatchedMs.isSome
  target : r'.status.holds = true ∨
    (r'.status = .refunded ∧ r.status = .reserved ∧ r'.dispatchedMs = none)

/-- A row closing `settled` at `cost` (`none` for an Unknown close). -/
structure RowClose (r r' : CostReservation) (cost : Option ℕ) : Prop extends SameIdentity r r' where
  wasOpen : r.status.holds = true
  status : r'.status = .settled
  settledCost : r'.settledCostMicro = cost
  marker : r'.dispatchedMs = r.dispatchedMs

/-- A freshly reserved row. -/
structure RowFresh (r : CostReservation) : Prop where
  status : r.status = .reserved
  settledCost : r.settledCostMicro = none
  marker : r.dispatchedMs = none

/-- What a granted reserve knew: under a positive cap the prediction is zero or fits beside the
spent total and the open sum the query returned, which is exact below `2 ^ 53`. -/
def Admitted (s : Store) (r : CostReservation) : Prop :=
  ∀ cap spent, s.money r.key = some (some cap, spent) → 0 < cap →
    ∃ n openSum, spent = .int n ∧ (s.held r.key < 2 ^ 53 → openSum = s.held r.key) ∧
      (r.predictedMicro = 0 ∨ n + openSum + r.predictedMicro ≤ cap)

/-- An effect that settles nothing. -/
inductive QuietEffect (s s' : Store) : Prop
  | frame (reservations : s'.reservations = s.reservations) (money : s'.money = s.money)
      (outbox : s'.outbox = s.outbox)
  | reserve (r : CostReservation) (fresh : RowFresh r) (admitted : Admitted s r)
      (reservations : s'.reservations = s.reservations.insert r) (money : s'.money = s.money)
      (outbox : s'.outbox = s.outbox)
  | move (p : ℕ → CostReservation → Bool) (f : CostReservation → CostReservation)
      (rowMove : ∀ id r, s.reservations.get? id = some r → p id r = true → RowMove r (f r))
      (reservations : s'.reservations = s.reservations.updateWhere p f)
      (money : s'.money = s.money) (outbox : s'.outbox = s.outbox)

/-- The money after a settlement: the cost is added to the task's spent total, an Unknown close
adds nothing. -/
def foldedMoney (money : TaskKey → Option (Option ℕ × SqlNum)) (key : TaskKey) :
    Option ℕ → TaskKey → Option (Option ℕ × SqlNum)
  | none => money
  | some c => Function.update money key ((money key).map fun m => (m.1, (sqlAdd m.2 c).store))

/-- The outbox after a fact was offered: ignored when the reservation already has a row. -/
inductive OutboxOffer (outbox outbox' : RowTable BillingOutboxRow) (id cost : ℕ)
    (key : TaskKey) : Prop
  | ignored (present : outbox.rows.any (fun r => r.2.fact.reservationId == id) = true)
      (same : outbox' = outbox)
  | inserted (row : BillingOutboxRow)
      (absent : outbox.rows.any (fun r => r.2.fact.reservationId == id) = false)
      (reservationId : row.fact.reservationId = id) (rowKey : row.fact.key = key)
      (rowCost : row.fact.providerCostMicro = cost) (insert : outbox' = outbox.insert row)

/-- One row settles. -/
structure SettleEffect (s s' : Store) (id : ℕ) (cost : Option ℕ) : Prop where
  row : ∃ r f, s.reservations.get? id = some r ∧ RowClose r (f r) cost ∧
    s'.reservations = s.reservations.update id f ∧
    (cost.isSome → (s.money r.key).isSome) ∧
    s'.money = foldedMoney s.money r.key cost ∧
    OutboxOffer s.outbox s'.outbox id (cost.getD 0) r.key

/-- One effect of a ledger operation. -/
def LedgerEffect (s s' : Store) : Prop :=
  QuietEffect s s' ∨ ∃ id cost, SettleEffect s s' id cost

theorem QuietEffect.refl (s : Store) : QuietEffect s s := .frame rfl rfl rfl

/-- A transaction that fails or refuses leaves the store as it was. -/
theorem committed_ok {α : Type} (s : Store) (out : α) (s' : Store) :
    committed s (.ok (out, s')) = s' := rfl

theorem committed_error {α : Type} (s : Store) (e : StoreError) :
    committed s (.error e : StoreResult (α × Store)) = s := rfl

/-! ## Building blocks of the transactions -/

theorem money_updateReservation (s : Store) (id : ℕ) (f : CostReservation → CostReservation) :
    (s.updateReservation id f).money = s.money := rfl

variable {s : Store} {key : TaskKey}

theorem foldSpent_spec {folded : Store} {c : ℕ} (h : s.foldSpent key c = some folded) :
    (s.money key).isSome ∧ folded.money = foldedMoney s.money key (some c) ∧
      folded.reservations = s.reservations ∧ folded.outbox = s.outbox := by
  unfold Store.foldSpent at h
  rw [Option.map_eq_some_iff] at h
  obtain ⟨t, ht, rfl⟩ := h
  refine ⟨by simp [Store.money, ht], ?_, rfl, rfl⟩
  funext k
  by_cases hk : k = key
  · subst hk
    simp [Store.money, foldedMoney, ht]
  · simp [Store.money, foldedMoney, Function.update_of_ne hk]

theorem money_insertBillingOutbox (s : Store) (fact : BillingOutboxFact) :
    (s.insertBillingOutbox fact).money = s.money := by
  unfold Store.insertBillingOutbox
  split <;> rfl

theorem tasks_insertBillingOutbox (s : Store) (fact : BillingOutboxFact) :
    (s.insertBillingOutbox fact).tasks = s.tasks := by
  unfold Store.insertBillingOutbox
  split <;> rfl

theorem reservations_insertBillingOutbox (s : Store) (fact : BillingOutboxFact) :
    (s.insertBillingOutbox fact).reservations = s.reservations := by
  unfold Store.insertBillingOutbox
  split <;> rfl

theorem outboxOffer_insertBillingOutbox (s : Store) (fact : BillingOutboxFact) :
    OutboxOffer s.outbox (s.insertBillingOutbox fact).outbox fact.reservationId
      (clampI64 fact.providerCostMicro) fact.key := by
  unfold Store.insertBillingOutbox
  split
  · exact .ignored ‹_› rfl
  · rename_i habsent
    exact .inserted _ (Bool.eq_false_iff.mpr habsent) rfl rfl rfl rfl

/-- How every settling transaction books the close `f` of row `id`: at a cost, which is folded
into the task's spent total, or as an Unknown spend, which is not; either way the fact is
offered to the outbox. -/
inductive Booked (s : Store) (id : ℕ) (key : TaskKey) (f : CostReservation → CostReservation)
    (fact : BillingOutboxFact) : Option ℕ → Store → Prop
  | folded {c : ℕ} {folded : Store}
      (fold : (s.updateReservation id f).foldSpent key c = some folded) :
      Booked s id key f fact (some c) (folded.insertBillingOutbox fact)
  | unknown : Booked s id key f fact none ((s.updateReservation id f).insertBillingOutbox fact)

variable {s' : Store} {id : ℕ} {r : CostReservation} {f : CostReservation → CostReservation}

theorem Booked.settleEffect {cost : Option ℕ} {fact : BillingOutboxFact}
    (h : Booked s id r.key f fact cost s') (hr : s.reservations.get? id = some r)
    (hclose : RowClose r (f r) cost) (hid : fact.reservationId = id) (hkey : fact.key = r.key)
    (hcost : clampI64 fact.providerCostMicro = cost.getD 0) : SettleEffect s s' id cost := by
  cases h with
  | folded hfold =>
    rename_i c folded
    obtain ⟨hsome, hmoney, hres, hout⟩ := foldSpent_spec hfold
    refine ⟨r, f, hr, hclose, ?_, fun _ => hsome, ?_, ?_⟩
    · rw [reservations_insertBillingOutbox, hres]
      rfl
    · rw [money_insertBillingOutbox, hmoney, money_updateReservation]
    · have hoffer := outboxOffer_insertBillingOutbox folded fact
      rw [hout, hid, hkey, hcost] at hoffer
      exact hoffer
  | unknown =>
    refine ⟨r, f, hr, hclose, ?_, fun h => by simp at h, ?_, ?_⟩
    · rw [reservations_insertBillingOutbox]
      rfl
    · rw [money_insertBillingOutbox, money_updateReservation]
      rfl
    · have hoffer := outboxOffer_insertBillingOutbox (s.updateReservation id f) fact
      rw [hid, hkey, hcost] at hoffer
      exact hoffer

/-- A single-row update that moves the row. -/
theorem quietEffect_updateReservation (hr : s.reservations.get? id = some r) (hmove : RowMove r (f r)) :
    QuietEffect s (s.updateReservation id f) := by
  refine .move (fun i _ => i == id) f ?_ rfl rfl rfl
  intro i r' hr' hi
  have : i = id := by simpa using hi
  subst this
  rw [hr] at hr'
  exact Option.some.inj hr' ▸ hmove

/-! ## One lemma per operation -/

variable {t : TaskRow}

theorem tasks_of_providerOperationGate (h : providerOperationGate s key = .ok t) : s.tasks key = some t := by
  unfold providerOperationGate at h
  cases ht : s.tasks key with
  | none => simp [ht] at h
  | some t' =>
    simp only [ht] at h
    split at h
    · cases h
    · split at h
      · rw [Except.ok.inj h]
      · cases h

theorem spent_of_readSpent {n : ℕ} (h : readSpent t = .ok n) :
    t.spentCostMicro = .int n := by
  unfold readSpent at h
  cases ht : t.spentCostMicro with
  | int m =>
    simp only [ht, SqlNum.readInt, Except.ok.injEq] at h
    rw [h]
  | real m => simp [ht, SqlNum.readInt] at h

/-- The two ways a reserve commits: refused, with the store it was given, or granted, with one
new row that passed the admission test. -/
theorem costReserveTx_cases {openSum : List ℕ → StoreResult ℕ} {predictedMicro : ℕ} {row : CostReservation}
    {outcome : CostReserveOutcome} (h : costReserveTx s key openSum predictedMicro row = .ok (outcome, s')) :
    ((∃ free, outcome = .exceeded free) ∧ s' = s) ∨
    (∃ t spent held, outcome = .granted (s.reservations.seq + 1) ∧
      s' = { s with reservations := s.reservations.insert row } ∧
      s.tasks key = some t ∧ t.spentCostMicro = .int spent ∧
      openSum (heldPredictions s key) = .ok held ∧
      ¬ (0 < t.maxCostMicro.getD 0 ∧
        t.maxCostMicro.getD 0 - spent - held < clampI64 predictedMicro)) := by
  unfold costReserveTx at h
  cases hgate : providerOperationGate s key with
  | error e => simp [hgate, bind, Except.bind] at h
  | ok t =>
    cases hspent : readSpent t with
    | error e => simp [hgate, hspent, bind, Except.bind] at h
    | ok spent =>
      cases hopen : openSum (heldPredictions s key) with
      | error e => simp [hgate, hspent, hopen, bind, Except.bind] at h
      | ok held =>
        simp only [hgate, hspent, hopen, bind, Except.bind, pure, Except.pure] at h
        split at h
        · simp only [Except.ok.injEq, Prod.mk.injEq] at h
          exact .inl ⟨⟨_, h.1.symm⟩, h.2.symm⟩
        · rename_i hfit
          simp only [Except.ok.injEq, Prod.mk.injEq] at h
          exact .inr ⟨t, spent, held, h.1.symm, h.2.symm, tasks_of_providerOperationGate hgate,
            spent_of_readSpent hspent, rfl, hfit⟩

/-- The legacy open sum is exact below `2 ^ 53`. -/
theorem openSumTotal_exact (l : List ℕ) (n : ℕ) (h : openSumTotal l = .ok n)
    (hlt : l.sum < 2 ^ 53) : n = l.sum := by
  have hn : n = min (toDouble l.sum) 9223372036854774784 := (Except.ok.inj h).symm
  rw [hn, toDouble_of_lt hlt]
  omega

theorem openSumExact_exact (l : List ℕ) (n : ℕ) (h : openSumExact l = .ok n)
    (_ : l.sum < 2 ^ 53) : n = l.sum := by
  unfold openSumExact at h
  cases hs : sqlSum l with
  | none => simp [hs] at h
  | some m =>
    simp only [hs, Except.ok.injEq] at h
    exact h ▸ sqlSum_eq_some hs

theorem rowFresh_freshReservation (key : TaskKey) (opId : OpId)
    (attemptOpId parentOpId : Option OpId) (predictedMicro : ℕ) (createdMs : ℤ)
    (snapshot : Option SnapshotJson) (cls : Option ExecutionClass) :
    RowFresh (freshReservation key opId attemptOpId parentOpId predictedMicro createdMs snapshot
      cls) := ⟨rfl, rfl, rfl⟩

/-- A reserve leaves the store alone or inserts one admitted row. -/
theorem costReserveTx_effect (s : Store) (key : TaskKey) (openSum : List ℕ → StoreResult ℕ)
    (predictedMicro : ℕ) (row : CostReservation)
    (hexact : ∀ l n, openSum l = .ok n → l.sum < 2 ^ 53 → n = l.sum)
    (hkey : row.key = key) (hfresh : RowFresh row)
    (hpredicted : row.predictedMicro = clampI64 predictedMicro) :
    QuietEffect s (committed s (costReserveTx s key openSum predictedMicro row)) := by
  cases h : costReserveTx s key openSum predictedMicro row with
  | error e => exact .refl s
  | ok out =>
    obtain ⟨outcome, s'⟩ := out
    rw [committed_ok]
    obtain ⟨-, hsame⟩ | ⟨t, spent, held, -, hs', htask, hspent, hopen, hfit⟩ :=
      costReserveTx_cases h
    · rw [hsame]
      exact .refl s
    · refine .reserve row hfresh ?_ (by rw [hs']) (by rw [hs']; rfl) (by rw [hs'])
      intro cap num hmoney hcap
      have hcaps : t.maxCostMicro = some cap ∧ t.spentCostMicro = num := by
        rw [hkey, Store.money, htask] at hmoney
        simpa using hmoney
      refine ⟨spent, held, hcaps.2.symm.trans hspent, ?_, ?_⟩
      · intro hlt
        rw [hkey, ← sum_heldPredictions] at hlt ⊢
        exact hexact _ _ hopen hlt
      · rw [hcaps.1, Option.getD_some] at hfit
        rw [hpredicted]
        omega

theorem holds_of_open (h : ¬ (r.status ≠ .reserved ∧ r.status ≠ .dispatched)) : r.status.holds = true := by
  cases hs : r.status <;> simp_all [ReservationStatus.holds]

theorem costMarkDispatched_effect (s : Store) (id : ℕ) (ms : ℤ) :
    QuietEffect s (committed s (costMarkDispatched s id ms)) := by
  unfold costMarkDispatched
  cases hr : s.reservations.get? id with
  | none => exact .refl s
  | some r =>
    by_cases hopen : r.status ≠ .reserved ∧ r.status ≠ .dispatched
    · simp only [if_pos hopen]
      exact .refl s
    · simp only [if_neg hopen, committed_ok]
      exact quietEffect_updateReservation hr
        ⟨⟨rfl, rfl, rfl, rfl⟩, holds_of_open hopen, rfl, fun _ => rfl, .inl rfl⟩

theorem costMarkUncertain_effect (s : Store) (id : ℕ) (reason : String)
    (requestId : Option String) (ms : ℤ) :
    QuietEffect s (committed s (costMarkUncertain s id reason requestId ms)) := by
  unfold costMarkUncertain
  cases hr : s.reservations.get? id with
  | none => exact .refl s
  | some r =>
    by_cases hdispatched : r.status ≠ .dispatched
    · simp only [if_pos hdispatched]
      exact .refl s
    · simp only [if_neg hdispatched, committed_ok]
      have hholds : r.status.holds = true := by rw [not_not.mp hdispatched]; rfl
      exact quietEffect_updateReservation hr
        ⟨⟨rfl, rfl, rfl, rfl⟩, hholds, rfl, fun h => h, .inl rfl⟩

theorem refundable_iff (r : CostReservation) :
    refundable r = true ↔ r.status = .reserved ∧ r.dispatchedMs = none := by
  unfold refundable
  rw [holds_sqlAnd, holds_sqlIsNull]
  simp [SqlBool.holds]

theorem maybeDispatched_iff (r : CostReservation) :
    maybeDispatched r = true ↔
      r.status = .dispatched ∨ (r.status = .reserved ∧ ∃ ms, r.dispatchedMs = some ms) := by
  unfold maybeDispatched
  rw [holds_sqlOr, holds_sqlAnd, holds_sqlIsNotNull]
  simp [SqlBool.holds]

/-- A refundable row moves to `refunded`. -/
theorem rowMove_refund (h : refundable r = true) (ms : ℤ) :
    RowMove r { r with status := .refunded, settledMs := some ms } := by
  obtain ⟨hstatus, hmarker⟩ := (refundable_iff r).mp h
  exact ⟨⟨rfl, rfl, rfl, rfl⟩, by rw [hstatus]; rfl, rfl, fun h => h, .inr ⟨rfl, hstatus, hmarker⟩⟩

theorem costRefund_effect (s : Store) (id : ℕ) (ms : ℤ) :
    QuietEffect s (committed s (costRefund s id ms)) := by
  unfold costRefund
  cases hr : s.reservations.get? id with
  | none => exact .refl s
  | some r =>
    by_cases hrefund : refundable r = true
    · simp only [if_pos hrefund, committed_ok]
      exact quietEffect_updateReservation hr (rowMove_refund hrefund ms)
    · simp only [if_neg hrefund]
      exact .refl s

theorem recoverRefund_effect (s : Store) (ms : ℤ) : QuietEffect s (recoverRefund s ms) :=
  .move _ _ (fun _ _ _ h => rowMove_refund h ms) rfl rfl rfl

theorem recoverUncertain_effect (s : Store) (ms : ℤ) : QuietEffect s (recoverUncertain s ms) := by
  refine .move _ _ (fun id r _ h => ?_) rfl rfl rfl
  have hholds : r.status.holds = true := by
    rcases (maybeDispatched_iff r).mp h with hs | ⟨hs, -⟩ <;> rw [hs] <;> rfl
  exact ⟨⟨rfl, rfl, rfl, rfl⟩, hholds, rfl, fun h => h, .inl rfl⟩

/-- A settlement either leaves the store alone or settles the row it names. -/
def SettlesAtMost (s s' : Store) (id : ℕ) : Prop := s' = s ∨ ∃ cost, SettleEffect s s' id cost

theorem costSettle_effect (s : Store) (id actual : ℕ) (providerCost reported : Option ℕ)
    (route : Option String) (ms : ℤ) :
    SettlesAtMost s (committed s (costSettle s id actual providerCost reported route ms)) id := by
  unfold costSettle
  cases hr : s.reservations.get? id with
  | none => exact .inl rfl
  | some r =>
    by_cases hopen : r.status ≠ .reserved ∧ r.status ≠ .dispatched
    · simp only [if_pos hopen]
      exact .inl rfl
    · simp only [if_neg hopen]
      split
      · exact .inl rfl
      · rename_i folded hfold
        refine .inr ⟨some (clampI64 actual), ?_⟩
        exact (Booked.folded hfold).settleEffect hr
          ⟨⟨rfl, rfl, rfl, rfl⟩, holds_of_open hopen, rfl, rfl, rfl⟩ rfl rfl (by simp [clampI64])

theorem clampI64_of_le {c : ℕ} (h : c ≤ i64Max) : clampI64 c = c := Nat.min_eq_left h

theorem clampI64_le (c : ℕ) : clampI64 c ≤ i64Max := Nat.min_le_right _ _

/-- The chosen actual of two clamped amounts is itself in range. -/
theorem chosenActual_clamped {reported priced : Option ℕ} {chosen : ℕ}
    (h : chosenActual (reported.map clampI64) (priced.map clampI64) = some chosen) :
    clampI64 chosen = chosen := by
  apply clampI64_of_le
  cases reported with
  | none =>
    cases priced with
    | none => simp [chosenActual] at h
    | some p =>
      simp only [chosenActual, Option.map_some, Option.map_none, Option.some.injEq] at h
      exact h ▸ clampI64_le p
  | some r =>
    cases priced with
    | none =>
      simp only [chosenActual, Option.map_some, Option.map_none, Option.some.injEq] at h
      exact h ▸ clampI64_le r
    | some p =>
      simp only [chosenActual, Option.map_some, Option.some.injEq] at h
      exact h ▸ Nat.max_le.mpr ⟨clampI64_le r, clampI64_le p⟩

theorem costSettleUsage_effect (s : Store) (id : ℕ) (usage : TokenUsage) (reported : Option ℕ)
    (route : Option String) (ms : ℤ) (provider model : String) :
    SettlesAtMost s (committed s
      (costSettleUsageWithContext s id usage reported route ms provider model)) id := by
  unfold costSettleUsageWithContext
  cases hr : s.reservations.get? id with
  | none => exact .inl rfl
  | some r =>
    by_cases hopen : r.status ≠ .reserved ∧ r.status ≠ .dispatched
    · simp only [if_pos hopen]
      exact .inl rfl
    · simp only [if_neg hopen]
      cases hsnap : parseSnapshot (snapshotContext id) r.pricingSnapshotJson with
      | error e => exact .inl rfl
      | ok snapshot =>
        simp only [bind, Except.bind]
        split
        · -- no amount is known: a capped task keeps the row open, another closes it Unknown
          split
          · exact .inl rfl
          · refine .inr ⟨none, ?_⟩
            exact Booked.unknown.settleEffect hr
              ⟨⟨rfl, rfl, rfl, rfl⟩, holds_of_open hopen, rfl, rfl, rfl⟩ rfl rfl rfl
        · rename_i chosen hchosen
          split
          · exact .inl rfl
          · rename_i folded hfold
            refine .inr ⟨some chosen, ?_⟩
            exact (Booked.folded hfold).settleEffect hr
              ⟨⟨rfl, rfl, rfl, rfl⟩, holds_of_open hopen, rfl, rfl, rfl⟩ rfl rfl
              (chosenActual_clamped hchosen)

/-- A candidate names a row of the pass's own task. -/
def CandidateOf (s : Store) (key : TaskKey) (c : Candidate) : Prop :=
  ∃ r, s.reservations.get? c.reservationId = some r ∧ r.key = key

variable {ms : ℤ} {c : Candidate} {out : CostReconcileOutcome}

/-- The two ways a reconcile candidate ends: the store unchanged, or its uncertain row booked at
the price of the settling call's usage. -/
theorem reconcileCandidate_cases (h : reconcileCandidate key ms s c = .ok (out, s')) :
    s' = s ∨ ∃ r snapshot p f fact cost, s.reservations.get? c.reservationId = some r ∧
      r.status = .uncertain ∧
      parseSnapshot (snapshotContext c.reservationId) r.pricingSnapshotJson = .ok snapshot ∧
      settlingCall s r = some p ∧
      cost = (snapshot.bind fun snap => snap.settleCost p.usage).map clampI64 ∧
      RowClose r (f r) cost ∧ Booked s c.reservationId key f fact cost s' ∧
      fact.reservationId = c.reservationId ∧ fact.key = key ∧
      clampI64 fact.providerCostMicro = cost.getD 0 := by
  unfold reconcileCandidate at h
  cases hr : s.reservations.get? c.reservationId with
  | none =>
    simp only [hr, Except.ok.injEq, Prod.mk.injEq] at h
    exact .inl h.2.symm
  | some r =>
    simp only [hr] at h
    by_cases huncertain : r.status ≠ .uncertain
    · simp only [if_pos huncertain, Except.ok.injEq, Prod.mk.injEq] at h
      exact .inl h.2.symm
    · have hstatus := not_not.mp huncertain
      have hholds : r.status.holds = true := by rw [hstatus]; rfl
      simp only [if_neg huncertain] at h
      cases hsnap : parseSnapshot (snapshotContext c.reservationId) r.pricingSnapshotJson with
      | error e => simp [hsnap, bind, Except.bind] at h
      | ok snapshot =>
        simp only [hsnap, bind, Except.bind, pure, Except.pure] at h
        split at h
        · simp only [Except.ok.injEq, Prod.mk.injEq] at h
          exact .inl h.2.symm
        · rename_i p hcall
          split at h
          · rename_i actual hactual
            split at h
            · simp only [Except.ok.injEq, Prod.mk.injEq] at h
              exact .inl h.2.symm
            · rename_i folded hfold
              simp only [Except.ok.injEq, Prod.mk.injEq] at h
              rw [← h.2]
              exact .inr ⟨r, snapshot, p, _, _, some (clampI64 actual), rfl, hstatus, hsnap, hcall,
                by rw [hactual]; rfl, ⟨⟨rfl, rfl, rfl, rfl⟩, hholds, rfl, rfl, rfl⟩,
                .folded hfold, rfl, rfl, by simp [clampI64]⟩
          · rename_i hunknown
            split at h
            · simp only [Except.ok.injEq, Prod.mk.injEq] at h
              exact .inl h.2.symm
            · simp only [Except.ok.injEq, Prod.mk.injEq] at h
              rw [← h.2]
              exact .inr ⟨r, snapshot, p, _, _, none, rfl, hstatus, hsnap, hcall,
                by rw [hunknown]; rfl, ⟨⟨rfl, rfl, rfl, rfl⟩, hholds, rfl, rfl, rfl⟩,
                .unknown, rfl, rfl, rfl⟩

theorem reconcileCandidate_effect (hc : CandidateOf s key c)
    (h : reconcileCandidate key ms s c = .ok (out, s')) : SettlesAtMost s s' c.reservationId := by
  obtain ⟨q, hq, rfl⟩ := hc
  obtain hsame | ⟨r, _, _, f, fact, cost, hr, -, -, -, -, hclose, hbooked, hid, hkey, hcost⟩ :=
    reconcileCandidate_cases h
  · exact .inl hsame
  · obtain rfl : r = q := Option.some.inj (hr ▸ hq)
    exact .inr ⟨cost, hbooked.settleEffect hr hclose hid hkey hcost⟩

theorem finalizeCandidate_effect {out : CostFinalizeOutcome} (hc : CandidateOf s key c)
    (h : finalizeCandidate key ms s c = .ok (out, s')) : SettlesAtMost s s' c.reservationId := by
  obtain ⟨r, hr, rfl⟩ := hc
  unfold finalizeCandidate at h
  simp only [hr] at h
  by_cases huncertain : r.status ≠ .uncertain
  · simp only [if_pos huncertain, Except.ok.injEq, Prod.mk.injEq] at h
    exact .inl h.2.symm
  · have hholds : r.status.holds = true := by rw [not_not.mp huncertain]; rfl
    simp only [if_neg huncertain] at h
    split at h
    · simp only [Except.ok.injEq, Prod.mk.injEq] at h
      exact .inl h.2.symm
    · rename_i folded hfold
      simp only [Except.ok.injEq, Prod.mk.injEq] at h
      rw [← h.2]
      refine .inr ⟨some (clampI64 r.predictedMicro), ?_⟩
      exact (Booked.folded hfold).settleEffect hr ⟨⟨rfl, rfl, rfl, rfl⟩, hholds, rfl, rfl, rfl⟩
        rfl rfl rfl

end CostLedger
