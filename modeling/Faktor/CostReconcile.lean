/-
# The reconcile pass settles each attempt from its own call

`cost_reconcile_uncertain` joins an uncertain reservation to a completed provider call by
attempt id, or by logical op id when neither side has an attempt id.  The join is written in
SQL's three-valued logic; `callMatches_iff` is its meaning.  `reconcile_settles_from_own_call`
says what follows for a whole pass over any tables: the row settles from the newest call of its
own attempt, and from no other.
-/
import Faktor.CostInvariant

open Sqlite

namespace CostLedger

/-- The two ways a call belongs to a reservation: the same attempt, or both without an attempt
id and of the same logical op. -/
def OwnCall (r : CostReservation) (p : ProviderCall) : Prop :=
  (∃ attempt, r.attemptOpId = some attempt ∧ p.attemptOpId = some attempt) ∨
    (r.attemptOpId = none ∧ p.attemptOpId = none ∧ p.opId = r.opId)

theorem callMatches_iff (r : CostReservation) (p : ProviderCall) :
    (callMatches r p).holds = true ↔
      p.sessionId = r.key.sessionId ∧ p.status = "completed" ∧ OwnCall r p := by
  simp only [callMatches, OwnCall, holds_sqlAnd, holds_sqlOr, holds_sqlEq, holds_sqlIsNull,
    holds_sqlIsNotNull]
  constructor
  · rintro ⟨⟨_, hs, hs'⟩, ⟨_, hc, hc'⟩, hown⟩
    refine ⟨Option.some.inj (hs.trans hs'.symm), Option.some.inj (hc.trans hc'.symm), ?_⟩
    rcases hown with ⟨-, attempt, hp, hr⟩ | ⟨hr, hp, _, ho, ho'⟩
    · exact .inl ⟨attempt, hr, hp⟩
    · exact .inr ⟨hr, hp, Option.some.inj (ho.trans ho'.symm)⟩
  · rintro ⟨hs, hc, hown⟩
    refine ⟨⟨_, rfl, by rw [hs]⟩, ⟨_, rfl, by rw [hc]⟩, ?_⟩
    rcases hown with ⟨attempt, hr, hp⟩ | ⟨hr, hp, ho⟩
    · exact .inl ⟨⟨attempt, hr⟩, attempt, hp, hr⟩
    · exact .inr ⟨hr, hp, _, rfl, by rw [ho]⟩

variable {r : CostReservation} {p : ProviderCall}

/-- A call that belongs to a reservation carries the reservation's attempt id. -/
theorem OwnCall.attemptOpId (h : OwnCall r p) :
    p.attemptOpId = r.attemptOpId := by
  rcases h with ⟨attempt, hr, hp⟩ | ⟨hr, hp, -⟩
  · rw [hr, hp]
  · rw [hr, hp]

/-- Row `r` became `r'` by settling from the recorded call `p`: a completed call of the same
session and the same attempt, the newest such call, at the price of that call's usage. -/
structure SettledFrom (calls : RowTable ProviderCall) (r r' : CostReservation) (callId : ℕ)
    (p : ProviderCall) : Prop where
  recorded : calls.get? callId = some p
  completed : p.status = "completed"
  session : p.sessionId = r.key.sessionId
  own : OwnCall r p
  newest : ∀ j q, calls.get? j = some q → q.status = "completed" →
    q.sessionId = r.key.sessionId → OwnCall r q → j ≤ callId
  cost : ∃ context snapshot, parseSnapshot context r.pricingSnapshotJson = .ok snapshot ∧
    r'.settledCostMicro = (snapshot.bind (·.settleCost p.usage)).map clampI64

theorem settlingCall_spec {s : Store}
    (h : settlingCall s r = some p) :
    ∃ callId, s.calls.get? callId = some p ∧ p.sessionId = r.key.sessionId ∧
      p.status = "completed" ∧ OwnCall r p ∧
      ∀ j q, s.calls.get? j = some q → q.status = "completed" →
        q.sessionId = r.key.sessionId → OwnCall r q → j ≤ callId := by
  unfold settlingCall at h
  rw [Option.map_eq_some_iff] at h
  obtain ⟨⟨callId, p'⟩, hlast, rfl⟩ := h
  obtain ⟨hget, hmatch, hnewest⟩ := RowTable.getLast?_select hlast
  obtain ⟨hsession, hcompleted, hown⟩ := (callMatches_iff r p').mp hmatch
  refine ⟨callId, hget, hsession, hcompleted, hown, fun j q hj hc hs ho => ?_⟩
  exact hnewest j q hj ((callMatches_iff r q).mpr ⟨hs, hc, ho⟩)

/-! ## The pass -/

theorem calls_insertBillingOutbox (s : Store) (fact : BillingOutboxFact) :
    (s.insertBillingOutbox fact).calls = s.calls := by
  unfold Store.insertBillingOutbox
  split <;> rfl

/-- Booking a close updates the row and writes no provider call. -/
theorem Booked.frame {s s' : Store} {id : ℕ} {key : TaskKey} {cost : Option ℕ}
    {f : CostReservation → CostReservation} {fact : BillingOutboxFact}
    (h : Booked s id key f fact cost s') :
    s'.reservations = s.reservations.update id f ∧ s'.calls = s.calls := by
  cases h with
  | folded hfold =>
    rw [reservations_insertBillingOutbox, calls_insertBillingOutbox]
    unfold Store.foldSpent at hfold
    rw [Option.map_eq_some_iff] at hfold
    obtain ⟨t, -, rfl⟩ := hfold
    exact ⟨rfl, rfl⟩
  | unknown =>
    rw [reservations_insertBillingOutbox, calls_insertBillingOutbox]
    exact ⟨rfl, rfl⟩

/-- A candidate keeps every row, or settles it from a call of the row's own attempt. -/
theorem reconcileCandidate_row {s s' : Store} {key : TaskKey} {ms : ℤ} {c : Candidate}
    {out : CostReconcileOutcome} (h : reconcileCandidate key ms s c = .ok (out, s')) {id : ℕ} (hr : s.reservations.get? id = some r) :
    s'.calls = s.calls ∧ ∃ r', s'.reservations.get? id = some r' ∧
      (r' = r ∨ (r.status = .uncertain ∧ r'.status = .settled ∧
        ∃ callId p, SettledFrom s.calls r r' callId p)) := by
  obtain rfl | ⟨q, snapshot, p, f, fact, cost, hq, huncertain, hsnap, hcall, hcost, hclose,
    hbooked, -⟩ := reconcileCandidate_cases h
  · exact ⟨rfl, r, hr, .inl rfl⟩
  · obtain ⟨hres, hcalls⟩ := hbooked.frame
    refine ⟨hcalls, ?_⟩
    rw [hres, RowTable.get?_update]
    by_cases hid : id = c.reservationId
    · subst hid
      obtain rfl : r = q := Option.some.inj (hr ▸ hq)
      obtain ⟨callId, hget, hsession, hcompleted, hown, hnewest⟩ := settlingCall_spec hcall
      refine ⟨f r, by rw [if_pos rfl, hr]; rfl, .inr ⟨huncertain, hclose.status, callId, p, ?_⟩⟩
      exact ⟨hget, hcompleted, hsession, hown, hnewest, _, snapshot, hsnap,
        hclose.settledCost.trans hcost⟩
    · exact ⟨r, by rw [if_neg hid]; exact hr, .inl rfl⟩

/-- The job of a pass keeps every row, or settles it from a call of the row's own attempt.  A
settled row is skipped by the candidates after it, so the first settlement stands. -/
theorem costReconcileJob_row (cs : List Candidate) {s s' : Store} {key : TaskKey} {ms : ℤ}
    {outs : List CostReconcileOutcome} (h : costReconcileJob s key cs ms = .ok (outs, s'))
    {id : ℕ} (hr : s.reservations.get? id = some r) :
    ∃ r', s'.reservations.get? id = some r' ∧
      (r' = r ∨ (r.status = .uncertain ∧ r'.status = .settled ∧
        ∃ callId p, SettledFrom s.calls r r' callId p)) := by
  unfold costReconcileJob at h
  induction cs generalizing s r outs with
  | nil =>
    simp only [runCandidates, Except.ok.injEq, Prod.mk.injEq] at h
    exact ⟨r, h.2 ▸ hr, .inl rfl⟩
  | cons c cs ih =>
    simp only [runCandidates, bind, Except.bind] at h
    split at h
    · cases h
    · rename_i out hout
      obtain ⟨o, mid⟩ := out
      split at h
      · cases h
      · rename_i rest hrest
        obtain ⟨outs', last⟩ := rest
        simp only [pure, Except.pure, Except.ok.injEq, Prod.mk.injEq] at h
        rw [h.2] at hrest
        obtain ⟨hcalls, r₁, hr₁, hstep⟩ := reconcileCandidate_row hout hr
        obtain ⟨r', hr', hlater⟩ := ih hrest hr₁
        rw [hcalls] at hlater
        refine ⟨r', hr', ?_⟩
        rcases hstep with rfl | ⟨huncertain, hsettled, hfrom⟩
        · exact hlater
        · rcases hlater with rfl | ⟨hagain, -⟩
          · exact .inr ⟨huncertain, hsettled, hfrom⟩
          · rw [hsettled] at hagain
            cases hagain

/-- **The reconcile pass settles an attempt only from its own call.**  Over any tables and any
candidate list: a row the pass settles was uncertain and settled from the newest completed call
of its session that has the same attempt id, or, for a row without one, no attempt id and the
same op id.  No reservation with another attempt id, or with none where this one has one, can
settle from that call. -/
theorem reconcile_settles_from_own_call (s s' : Store) (key : TaskKey)
    (candidates : List Candidate) (atMs : ℤ) (outcomes : List CostReconcileOutcome)
    (h : costReconcileJob s key candidates atMs = .ok (outcomes, s')) (id : ℕ)
    (r r' : CostReservation) (hr : s.reservations.get? id = some r)
    (hr' : s'.reservations.get? id = some r') (hopen : r.status ≠ .settled)
    (hsettled : r'.status = .settled) :
    r.status = .uncertain ∧ ∃ callId p, SettledFrom s.calls r r' callId p ∧
      (∀ attempt, r.attemptOpId = some attempt → p.attemptOpId = some attempt) ∧
      (r.attemptOpId = none → p.attemptOpId = none ∧ p.opId = r.opId) ∧
      ∀ other : CostReservation, other.attemptOpId ≠ r.attemptOpId →
        (callMatches other p).holds = false := by
  obtain ⟨q, hq, hstep⟩ := costReconcileJob_row candidates h hr
  obtain rfl : r' = q := Option.some.inj (hr' ▸ hq)
  rcases hstep with rfl | ⟨huncertain, -, callId, p, hfrom⟩
  · exact absurd hsettled hopen
  · refine ⟨huncertain, callId, p, hfrom, fun attempt hattempt => ?_, fun hnone => ?_, ?_⟩
    · rw [hfrom.own.attemptOpId, hattempt]
    · rcases hfrom.own with ⟨attempt, hattempt, -⟩ | ⟨-, hp, hop⟩
      · rw [hnone] at hattempt
        cases hattempt
      · exact ⟨hp, hop⟩
    · intro other hother
      rw [Bool.eq_false_iff]
      intro hmatch
      have hown := ((callMatches_iff other p).mp hmatch).2.2
      exact hother (hown.attemptOpId.symm.trans hfrom.own.attemptOpId)

/-- Two attempts of one op, the first uncertain: its own call and the retry's have completed,
the retry's later. -/
def retriedLedger : LedgerState :=
  run (cappedLedger 100)
    [.reserveAttempt ⟨1, 1⟩ ⟨7, 8, 0⟩ 40 1 (some (.snapshot ⟨some ⟨1000000, 0, 0, 0⟩, .exact⟩)) none,
      .markDispatched 1 2, .markUncertain 1 "timeout" none 3,
      .recordProviderCall ⟨1, 8, some 8, some 1, "p", "m", "completed", some 5, some 0⟩,
      .recordProviderCall ⟨1, 9, some 9, some 2, "p", "m", "completed", some 30, some 0⟩]

/-- The job of the pass over `retriedLedger`. -/
def retriedPass : StoreResult (List CostReconcileOutcome × Store) :=
  costReconcileJob retriedLedger.store ⟨1, 1⟩
    (costReconcileCandidates retriedLedger.store ⟨1, 1⟩) 9

/-- The uncertain first attempt settles at 5, the price of its own call. -/
theorem reconcile_settles_from_own_call_retry :
    ∃ outcomes s' r r', retriedPass = .ok (outcomes, s') ∧
      retriedLedger.store.reservations.get? 1 = some r ∧
      s'.reservations.get? 1 = some r' ∧ r'.settledCostMicro = some 5 ∧
      ∃ callId p, SettledFrom retriedLedger.store.calls r r' callId p ∧ p.attemptOpId = some 8 := by
  have hbefore : (retriedLedger.store.reservations.get? 1).map
      (fun r => (r.status, r.attemptOpId)) = some (.uncertain, some 8) := by decide +kernel
  have hafter : ((committed retriedLedger.store retriedPass).reservations.get? 1).map
      (fun r => (r.status, r.settledCostMicro)) = some (.settled, some 5) := by decide +kernel
  obtain ⟨r, hr, hrow⟩ := Option.map_eq_some_iff.mp hbefore
  obtain ⟨r', hr', hrow'⟩ := Option.map_eq_some_iff.mp hafter
  obtain ⟨hstatus, hattempt⟩ := Prod.mk.inj hrow
  obtain ⟨hstatus', hcost'⟩ := Prod.mk.inj hrow'
  cases hjob : retriedPass with
  | error e =>
    rw [hjob, committed_error] at hr'
    rw [hr] at hr'
    rw [Option.some.inj hr', hstatus'] at hstatus
    cases hstatus
  | ok out =>
    obtain ⟨outcomes, s'⟩ := out
    rw [hjob, committed_ok] at hr'
    obtain ⟨-, callId, p, hfrom, hown, -⟩ := reconcile_settles_from_own_call _ s' _ _ _ outcomes
      hjob 1 r r' hr hr' (by rw [hstatus]; decide) hstatus'
    exact ⟨outcomes, s', r, r', rfl, hr, hr', hcost', callId, p, hfrom, hown 8 hattempt⟩

end CostLedger
