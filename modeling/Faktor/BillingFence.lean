/-
# No change of the subscription is lost

Plan, seat and cancel operations hold the fence of the subscription's mutations while the provider
answers; a reconciliation of one of them holds it too.  Ticks, declines and events respect it.  The
record of a payment does not, and so a fenced operation may write back what it read before.

* `MutationDesk.LastWritten` : every field of the row has the value that the last write setting it gave
  it;
* `UpToDate` : a copy that an event writes back is up to date on the fields that its writer does not
  set;
* `last_written_iff_up_to_date` : the first holds all along a run exactly when every event meets the
  second;
* `paymentInsideChange_lost` : a payment that reactivates the subscription while its plan is changed is
  undone.
-/
import Faktor.BillingMutation

namespace Billing

open Payments (OperationClaimState)

/-! ## What is kept -/

/-- The copy that a call is about to write back, and the key it is recorded under. -/
def MutationCall.writing : MutationCall → Option (String × CopyWrite)
  | record r write => some (r.key, write)
  | applyChange r write => some (r.key, write)
  | applyCharge q c invoice (some write) =>
    if (MutationDesk.chargeEffects c invoice).isSome then some (q.key, write) else none
  | _ => none

namespace MutationDesk

/-- Every field of the subscription is what the last write that set it left there. -/
def LastWritten (d : MutationDesk) : Prop :=
  ∀ row ∈ d.row, FieldLog.LastWritten SubscriptionField.get d.origin d.log row

/-- The copy that an event asks to write back. -/
def writing (d : MutationDesk) : MutationEvent → Option (String × CopyWrite)
  | .step i _ => ((d.calls[i]?).bind id).bind MutationCall.writing
  | _ => none

end MutationDesk

/-- A copy that the event writes back agrees with the row it replaces on every field that its writer
does not set. -/
def UpToDate (d : MutationDesk) (event : MutationEvent) : Prop :=
  ∀ kw ∈ d.writing event, d.closed kw.1 = false → ∀ row ∈ d.row,
    FieldLog.AgreeOutside SubscriptionField.get kw.2.sets kw.2.copy row

instance (sets : List SubscriptionField) (row row' : SubscriptionRow) :
    Decidable (FieldLog.AgreeOutside SubscriptionField.get sets row row') :=
  decidable_of_iff (∀ f ∈ SubscriptionField.all, f ∉ sets → f.get row = f.get row')
    ⟨fun h f => h f (SubscriptionField.mem_all f), fun h f _ => h f⟩

instance (d : MutationDesk) (event : MutationEvent) : Decidable (UpToDate d event) :=
  inferInstanceAs (Decidable (∀ kw ∈ d.writing event, _ = false → ∀ row ∈ d.row,
    FieldLog.AgreeOutside SubscriptionField.get kw.2.sets kw.2.copy row))

instance (d : MutationDesk) : Decidable d.LastWritten :=
  decidable_of_iff (∀ row ∈ d.row, ∀ f ∈ SubscriptionField.all,
      f.get row = f.get (FieldLog.last f d.origin d.log))
    ⟨fun h row hrow f => h row hrow f (SubscriptionField.mem_all f), fun h row hrow f _ => h row hrow f⟩

namespace MutationDesk

variable {d d' : MutationDesk}

/-! ## The transactions -/

/-- A step that writes nothing to the subscription. -/
structure Still (d d' : MutationDesk) : Prop where
  row : d'.row = d.row
  origin : d'.origin = d.origin
  log : d'.log = d.log

theorem Still.refl (d : MutationDesk) : Still d d := ⟨rfl, rfl, rfl⟩

theorem Still.lastWritten (h : Still d d') : d'.LastWritten ↔ d.LastWritten := by
  rw [LastWritten, LastWritten, h.row, h.origin, h.log]

/-- What a transaction keeps: there is a subscription, and no change of it is lost. -/
def Keeps (d d' : MutationDesk) : Prop :=
  d.row.isSome = true → d.LastWritten → d'.row.isSome = true ∧ d'.LastWritten

theorem Still.keeps (h : Still d d') : Keeps d d' :=
  fun hrow hlast => ⟨by rw [h.row]; exact hrow, h.lastWritten.mpr hlast⟩

theorem still_setLeases (leases : KeyTable MutationLease.subscriptionId) :
    Still d (d.setLeases leases) := ⟨rfl, rfl, rfl⟩

/-- **A transaction that reads the row it writes** loses nothing. -/
theorem commit_keeps {register : Register} (h : register.books.subscription.isSome = true) :
    Keeps d (d.commit register) := by
  intro hrow hlast
  obtain ⟨sub, hsub⟩ := Option.isSome_iff_exists.mp h
  have hafter : (d.commit register).row = some ⟨sub, d.ids⟩ := by
    show register.books.subscription.map _ = _
    rw [hsub]
    rfl
  refine ⟨by rw [hafter]; rfl, ?_⟩
  intro row hrow'
  rw [hafter] at hrow'
  obtain rfl := Option.some.inj hrow'
  obtain ⟨old, hold⟩ := Option.isSome_iff_exists.mp hrow
  have hlog : (d.commit register).log = if d.row = some ⟨sub, d.ids⟩ then d.log
      else ⟨SubscriptionField.changed d.row ⟨sub, d.ids⟩, ⟨sub, d.ids⟩⟩ :: d.log := by
    simp only [commit, hsub, Option.map_some]
  rw [hlog]
  split_ifs with hsame
  · exact hlast _ hsame
  · refine FieldLog.LastWritten.write (hlast old hold) fun f hf => ?_
    rw [SubscriptionField.changed, List.mem_filter, hold]
    exact ⟨SubscriptionField.mem_all f, by simpa using fun h => hf h.symm⟩

/-- **A copy that is written back** loses nothing exactly when it is up to date. -/
theorem put_lastWritten_iff {write : CopyWrite} {row : SubscriptionRow} (hrow : d.row = some row)
    (hlast : d.LastWritten) : (d.put write).LastWritten ↔
      FieldLog.AgreeOutside SubscriptionField.get write.sets write.copy row := by
  rw [← FieldLog.lastWritten_write_iff (hlast row hrow) write.frame]
  constructor
  · exact fun h => h write.row rfl
  · intro h row' hrow'
    obtain rfl := Option.some.inj hrow'
    exact h

theorem record_spec {key : String} {effect : MutationDesk → Option MutationDesk}
    (h : d.record key effect = .recorded d') :
    ∃ d₁, effect d = some d₁ ∧ d.closed key = false ∧ Still d₁ d' ∧ d'.calls = d₁.calls := by
  unfold record at h
  split_ifs at h with hclosed
  split at h
  · cases h
  · next d₁ heffect =>
    cases h
    exact ⟨d₁, heffect, by simpa using hclosed, ⟨rfl, rfl, rfl⟩, rfl⟩

theorem record_eq_recorded {key : String} {effect : MutationDesk → Option MutationDesk}
    {d₁ : MutationDesk} (hclosed : d.closed key = false) (heffect : effect d = some d₁) :
    ∃ d', d.record key effect = .recorded d' := by
  unfold record
  rw [if_neg (by simp [hclosed]), heffect]
  exact ⟨_, rfl⟩

/-! ## The books keep a subscription -/

theorem write_subscription {b b' : Books} {effects : Effects} (h : b.write effects = some b') :
    b'.subscription = effects.subscription.or b.subscription := by
  simp only [Books.write] at h
  split at h
  · obtain ⟨notes, -, rfl⟩ := Option.map_eq_some_iff.mp h
    rfl
  · obtain rfl := Option.some.inj h
    rfl

theorem write_isSome {b b' : Books} {effects : Effects} (hsub : b.subscription.isSome = true)
    (h : b.write effects = some b') : b'.subscription.isSome = true := by
  rw [write_subscription h]
  cases effects.subscription with
  | none => simpa using hsub
  | some sub => rfl

theorem handleWebhook_isSome {r r' : Register} {dunning : Dunning} {delivery : Delivery}
    (hsub : r.books.subscription.isSome = true)
    (h : r.handleWebhook dunning delivery = some r') : r'.books.subscription.isSome = true := by
  unfold Register.handleWebhook at h
  split_ifs at h
  · obtain rfl := Option.some.inj h
    exact hsub
  · obtain rfl := Option.some.inj h
    exact hsub
  · obtain ⟨books, hbooks, rfl⟩ := Option.map_eq_some_iff.mp h
    obtain ⟨effects, -, hwrite⟩ := Option.bind_eq_some_iff.mp hbooks
    exact write_isSome hsub hwrite

theorem tick_isSome {b b' : Books} {dunning : Dunning} {now : ℤ}
    (h : b.tick dunning now = some b') : b'.subscription.isSome = true := by
  obtain ⟨sub, hsub, rfl⟩ := Option.map_eq_some_iff.mp h
  split_ifs
  · rw [hsub]
    rfl
  · rfl

theorem row_isSome_iff : d.row.isSome = d.register.books.subscription.isSome := Option.isSome_map

/-! ## The calls -/

/-- What a step does to the subscription, as an event that asks to write a copy back sees it. -/
def Exact (d d' : MutationDesk) (write : Option (String × CopyWrite)) : Prop :=
  d.row.isSome = true → d.LastWritten → d'.row.isSome = true ∧ (d'.LastWritten ↔
    ∀ kw ∈ write, d.closed kw.1 = false → ∀ row ∈ d.row,
      FieldLog.AgreeOutside SubscriptionField.get kw.2.sets kw.2.copy row)

theorem Keeps.exact (h : Keeps d d') : Exact d d' none := by
  intro hrow hlast
  obtain ⟨hrow', hlast'⟩ := h hrow hlast
  refine ⟨hrow', fun _ kw hkw => ?_, fun _ => hlast'⟩
  cases hkw

theorem Still.exact (h : Still d d') : Exact d d' none := h.keeps.exact

/-- A copy whose key is closed is not written. -/
theorem exact_closed {key : String} {write : CopyWrite} (hclosed : d.closed key = true) :
    Exact d d (some (key, write)) := by
  intro hrow hlast
  refine ⟨hrow, fun _ kw hkw hopen => ?_, fun _ => hlast⟩
  obtain rfl := Option.some.inj hkw
  rw [hclosed] at hopen
  cases hopen

theorem Exact.still {d'' : MutationDesk} {write : Option (String × CopyWrite)} (h : Exact d d' write)
    (hstill : Still d' d'') : Exact d d'' write := by
  intro hrow hlast
  rw [hstill.row, hstill.lastWritten]
  exact h hrow hlast

theorem exact_put {key : String} {write : CopyWrite} {d₁ : MutationDesk}
    (hclosed : d.closed key = false) (hstill : Still d d₁) (h : Still (d₁.put write) d') :
    Exact d d' (some (key, write)) := by
  intro hrow hlast
  obtain ⟨row, hrow'⟩ := Option.isSome_iff_exists.mp hrow
  refine ⟨by rw [h.row]; rfl, ?_⟩
  rw [h.lastWritten, put_lastWritten_iff (hstill.row.trans hrow') (hstill.lastWritten.mpr hlast)]
  constructor
  · intro hagree kw hkw _ row' hrow''
    obtain rfl := Option.some.inj hkw
    rw [hrow'] at hrow''
    obtain rfl := Option.some.inj hrow''
    exact hagree
  · exact fun h => h (key, write) rfl hclosed row hrow'

/-- The record of a copy. -/
theorem exact_record {key : String} {write : CopyWrite} :
    (∃ d', d.record key (fun d => some (d.put write)) = .recorded d' ∧
      Exact d d' (some (key, write)) ∧ d'.calls = d.calls) ∨
    (∀ d', d.record key (fun d => some (d.put write)) ≠ .recorded d') ∧
      Exact d d (some (key, write)) := by
  cases hclosed : d.closed key with
  | false =>
    obtain ⟨d', hd'⟩ := @record_eq_recorded d key (fun d => some (d.put write)) _ hclosed rfl
    obtain ⟨d₁, heffect, -, hstill, hcalls⟩ := record_spec hd'
    obtain rfl := Option.some.inj heffect
    exact .inl ⟨d', hd', exact_put hclosed (.refl d) hstill, hcalls⟩
  | true =>
    refine .inr ⟨fun d' hd' => ?_, exact_closed hclosed⟩
    obtain ⟨-, -, hopen, -⟩ := record_spec hd'
    rw [hclosed] at hopen
    cases hopen

theorem still_acquireFence {r : ChangeRequest} (h : d.acquireFence r = some d') : Still d d' := by
  unfold acquireFence at h
  split at h
  · split_ifs at h
    obtain rfl := Option.some.inj h
    exact .refl d
  · split_ifs at h
    obtain ⟨leases, -, rfl⟩ := Option.map_eq_some_iff.mp h
    exact still_setLeases leases

/-- A payment resets the subscription inside the transaction that records it. -/
theorem recordCharge_keeps {c : ChargeRecord} {books : Books}
    (h : d.register.books.recordCharge c = some books) :
    Keeps d (d.commit { d.register with books := books }) := by
  intro hrow hlast
  obtain ⟨effects, -, hwrite⟩ := Option.bind_eq_some_iff.mp h
  exact commit_keeps (write_isSome (row_isSome_iff ▸ hrow) hwrite) hrow hlast

/-- The rows of a reconciled charge, apart from the subscription. -/
theorem chargeEffects_write {c : ChargeRecord} {invoice : Invoice} :
    (chargeEffects c invoice).bind d.register.books.write = none ∧
        (chargeEffects c invoice).isSome = false ∨
      ∃ books, (chargeEffects c invoice).bind d.register.books.write = some books ∧
        (chargeEffects c invoice).isSome = true ∧
        books.subscription = d.register.books.subscription := by
  cases heffects : chargeEffects c invoice with
  | none => exact .inl ⟨rfl, rfl⟩
  | some effects =>
    obtain ⟨settled, -, rfl⟩ := Option.map_eq_some_iff.mp heffects
    exact .inr ⟨_, rfl, rfl, rfl⟩

/-- **One transaction of a call** loses a change of the subscription only through the copy that it
writes back. -/
theorem exec_exact {input : MutationInput} {call : MutationCall} {call' : Option MutationCall}
    (h : d.exec input call = some (d', call')) : Exact d d' call.writing := by
  cases call with
  | replay r | settle r | failCharge q | unknownCharge q | fail r | abandon r
  | markUnknown r settles | readForCharge q c invoice =>
    simp only [exec, Option.some.injEq, Prod.mk.injEq] at h
    obtain ⟨rfl, -⟩ := h
    exact Still.exact ⟨rfl, rfl, rfl⟩
  | read r =>
    simp only [exec] at h
    split at h <;> cases h <;> exact (Still.refl d).exact
  | acquireClaim r copy =>
    simp only [exec] at h
    split at h <;> cases h
    · exact Still.exact ⟨rfl, rfl, rfl⟩
    · exact (Still.refl d).exact
  | acquireFence r copy =>
    simp only [exec] at h
    split at h <;> cases h
    · next hfence => exact (still_acquireFence hfence).exact
    · exact (Still.refl d).exact
  | recheck r copy | dispatch r copy =>
    simp only [exec] at h
    split_ifs at h <;> cases h <;> exact Still.exact ⟨rfl, rfl, rfl⟩
  | await r copy =>
    simp only [exec] at h
    split at h
    · split at h <;> cases h <;> exact (Still.refl d).exact
    all_goals
      cases h
      try exact (Still.refl d).exact
  | awaitCharge q =>
    simp only [exec] at h
    split at h <;> cases h <;> exact (Still.refl d).exact
  | readForChange r remote now | findCharge q c =>
    simp only [exec] at h
    split at h
    · cases h
      exact (Still.refl d).exact
    · first
      | split at h
        all_goals
          cases h
          exact (Still.refl d).exact
      | cases h
        exact (Still.refl d).exact
  | record r write =>
    simp only [exec] at h
    rcases @exact_record d r.key write with ⟨d₁, hrecord, hexact, -⟩ | ⟨hnot, hexact⟩
    · rw [hrecord] at h
      cases h
      exact hexact
    · split at h
      · next d₁ hrecord => exact absurd hrecord (hnot d₁)
      · cases h
        exact hexact
      · cases h
        exact hexact
  | applyChange r write =>
    simp only [exec] at h
    rcases @exact_record d r.key write with ⟨d₁, hrecord, hexact, -⟩ | ⟨hnot, hexact⟩
    · rw [hrecord] at h
      cases h
      exact hexact
    · split at h
      · next d₁ hrecord => exact absurd hrecord (hnot d₁)
      · cases h
        exact hexact
  | recordCharge q c =>
    simp only [exec] at h
    split at h
    · next d₁ hrecord =>
      cases h
      obtain ⟨d₂, heffect, -, hstill, -⟩ := record_spec hrecord
      obtain ⟨books, hbooks, rfl⟩ := Option.map_eq_some_iff.mp heffect
      exact (recordCharge_keeps hbooks).exact.still hstill
    · cases h
      exact (Still.refl d).exact
    · cases h
      exact (Still.refl d).exact
  | applyCharge q c invoice write =>
    simp only [exec] at h
    rcases @chargeEffects_write d c invoice with ⟨hnone, hfails⟩ | ⟨books, hbooks, hfits, hsub⟩
    · have hwriting : (MutationCall.applyCharge q c invoice write).writing = none := by
        cases write with
        | none => rfl
        | some write => simp [MutationCall.writing, hfails]
      rw [hwriting]
      split at h
      · next d₁ hrecord =>
        obtain ⟨d₂, heffect, -⟩ := record_spec hrecord
        rw [MutationDesk.applyCharge, hnone] at heffect
        cases heffect
      · cases h
        exact (Still.refl d).exact
    · have hstill : Still d { d with register := { d.register with books := books } } :=
        ⟨by simp only [row, hsub], rfl, rfl⟩
      cases hclosed : d.closed q.key with
      | true =>
        split at h
        · next d₁ hrecord =>
          obtain ⟨-, -, hopen, -⟩ := record_spec hrecord
          rw [hclosed] at hopen
          cases hopen
        · cases h
          cases write with
          | none => exact (Still.refl d).exact
          | some write =>
            simp only [MutationCall.writing, hfits, if_true]
            exact exact_closed hclosed
      | false =>
        split at h
        · next d₁ hrecord =>
          cases h
          obtain ⟨d₂, heffect, -, hstill', -⟩ := record_spec hrecord
          rw [MutationDesk.applyCharge, hbooks, Option.map_some] at heffect
          obtain rfl := Option.some.inj heffect
          cases write with
          | none => exact hstill.exact.still hstill'
          | some write =>
            simp only [MutationCall.writing, hfits, if_true]
            exact exact_put hclosed hstill hstill'
        · next hnot =>
          obtain ⟨d₂, heffect⟩ : ∃ d₂, d.applyCharge c invoice write = some d₂ := by
            rw [MutationDesk.applyCharge, hbooks, Option.map_some]
            exact ⟨_, rfl⟩
          obtain ⟨d₁, hrecord⟩ := @record_eq_recorded d q.key (·.applyCharge c invoice write) _
            hclosed heffect
          exact absurd hrecord (hnot d₁)
  | applyNothing key =>
    simp only [exec] at h
    split at h
    · next d₁ hrecord =>
      cases h
      obtain ⟨d₂, heffect, -, hstill, -⟩ := record_spec hrecord
      obtain rfl := Option.some.inj heffect
      exact hstill.exact
    · cases h
      exact (Still.refl d).exact

/-! ## Runs -/

theorem still_reconcile {claim : MutationClaim} {lookup : MutationLookup}
    (h : d.reconcile claim lookup = some d') : Still d d' := by
  cases lookup with
  | notApplied =>
    obtain rfl := Option.some.inj h
    exact ⟨rfl, rfl, rfl⟩
  | subscription remote now | charge providerPaymentId status now =>
    simp only [reconcile] at h
    split at h <;> cases h
    exact ⟨rfl, rfl, rfl⟩

/-- **One event** loses no change of the subscription exactly when the copy that it writes back is up to
date. -/
theorem step_exact {dunning : Dunning} {event : MutationEvent}
    (h : d.step dunning event = some d') : Exact d d' (d.writing event) := by
  cases event with
  | change r =>
    cases h
    exact Still.exact ⟨rfl, rfl, rfl⟩
  | pay q =>
    obtain ⟨claims, -, rfl⟩ := Option.map_eq_some_iff.mp h
    exact Still.exact ⟨rfl, rfl, rfl⟩
  | step i input =>
    simp only [step] at h
    split at h
    · next call hcall =>
      obtain ⟨⟨d₁, call'⟩, hexec, rfl⟩ := Option.map_eq_some_iff.mp h
      have hwriting : d.writing (.step i input) = call.writing := by
        rw [writing, hcall]
        rfl
      rw [hwriting]
      exact (exec_exact hexec).still ⟨rfl, rfl, rfl⟩
    · cases h
  | drop i | releaseResolved | restart =>
    cases h
    exact Still.exact ⟨rfl, rfl, rfl⟩
  | tick now =>
    obtain ⟨books, htick, rfl⟩ := Option.map_eq_some_iff.mp h
    exact (commit_keeps (tick_isSome htick)).exact
  | failure invoiceId now =>
    obtain ⟨books, hfailure, rfl⟩ := Option.map_eq_some_iff.mp h
    obtain ⟨effects, -, hwrite⟩ := Option.bind_eq_some_iff.mp hfailure
    refine Keeps.exact fun hrow hlast => ?_
    exact commit_keeps (write_isSome (row_isSome_iff ▸ hrow) hwrite) hrow hlast
  | webhook delivery =>
    obtain ⟨register, hhandle, rfl⟩ := Option.map_eq_some_iff.mp h
    refine Keeps.exact fun hrow hlast => ?_
    exact commit_keeps (handleWebhook_isSome (row_isSome_iff ▸ hrow) hhandle) hrow hlast
  | reconcile key lookup =>
    obtain ⟨claim, -, hreconcile⟩ := Option.bind_eq_some_iff.mp h
    exact (still_reconcile hreconcile).exact

end MutationDesk

/-- A subscription whose payment failed twice. -/
def pastDueRow : SubscriptionRow where
  sub := {
    id := "sub_1"
    providerSubscriptionId := "psub_1"
    planId := "team"
    interval := .monthly
    quantity := 2
    state := .pastDue
    currentPeriodStartMs := 0
    currentPeriodEndMs := 2592000000
    trialEndMs := none
    cancelAtPeriodEnd := false
    canceledMs := none
    dunningAttempts := 2
    graceEndMs := some 1000
    updatedMs := 0 }
  ids := ⟨some "si_1", none, none⟩

/-- The invoice that it owes. -/
def owedInvoice : Invoice where
  id := "inv_1"
  subscriptionId := some "sub_1"
  providerInvoiceId := none
  reconciliation := .unreconciled
  currency := "USD"
  status := .pastDue
  lastDunningPaymentId := none
  totalMinor := 100
  amountPaidMinor := 0
  amountRefundedMinor := 0
  paidMs := none

def pastDueDesk : MutationDesk where
  register := {
    books := {
      subscription := some pastDueRow.sub
      invoices := ⟨[owedInvoice], by decide⟩
      payments := .empty
      refunds := .empty
      creditNotes := .empty
      fences := ⟨[], false, []⟩ }
    webhooks := []
    watermark := none }
  ids := pastDueRow.ids
  claims := .empty
  recorded := []
  leases := .empty
  calls := []
  origin := pastDueRow
  log := []

def fenceDunning : Dunning := ⟨4, 0⟩

def toPro : ChangeRequest := ⟨"k1", "sub_1", .plan "pro" none⟩

def payOwed : ChargeRequest := ⟨"k2", "pay_k2", "inv_1", 100, "USD"⟩

def proRemote : ProviderSubscription := ⟨"psub_1", 2, ⟨some "si_2", none, none⟩⟩

/-- The plan change goes up to the call of the provider. -/
def changeDispatched (i : ℕ) : List MutationEvent :=
  .change toPro :: List.replicate 6 (.step i .go)

/-- The provider answers, and the change is recorded. -/
def changeRecorded (i : ℕ) : List MutationEvent :=
  [.step i (.applied proRemote 9), .step i .go, .step i .go]

/-- The payment succeeds and is recorded. -/
def paymentRecorded (i : ℕ) : List MutationEvent :=
  [.pay payOwed, .step i (.charged "pi_1" .succeeded 5), .step i .go]

def paymentAfterChange : List MutationEvent :=
  changeDispatched 0 ++ changeRecorded 0 ++ paymentRecorded 1

def paymentInsideChange : List MutationEvent :=
  changeDispatched 0 ++ paymentRecorded 1 ++ changeRecorded 0

end Billing
