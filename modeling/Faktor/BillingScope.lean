/-
# What a webhook touches

An event reads and writes the rows of the things it concerns: the provider payment or refund that it
names, a local invoice, a subscription, and the rows that it may insert.

* `Books.concerns` : the things that an event concerns;
* `webhookEffects_within` : an event writes only rows of things it concerns.
-/
import Faktor.BillingWebhooks

namespace Billing

open Payments (InvoiceStatus PaymentStatus)

/-! ## Things -/

/-- What an event can be about: an object of the provider, a local invoice or subscription, or the
random id of the rows it may insert. -/
inductive Thing
  | payment (providerPaymentId : String)
  | refund (providerRefundId : String)
  | invoice (id : String)
  | subscription (id : String)
  | minted (uuid : String)
  deriving DecidableEq, Repr

namespace Books

variable (b : Books)

/-- An invoice, and the subscription it bills. -/
def invoiceThings : Option String → List Thing
  | none => []
  | some id =>
    .invoice id :: ((b.invoices.get? id).bind (·.subscriptionId)).toList.map .subscription

/-- A refund, and its payment with the invoice it paid. -/
def refundThings : Option Refund → List Thing
  | none => []
  | some refund =>
    .refund refund.providerRefundId ::
      match b.payments.get? refund.paymentId with
      | none => []
      | some payment =>
        .payment payment.providerPaymentId :: b.invoiceThings (some payment.invoiceId)

/-- The things that an event concerns. -/
def concerns (d : Delivery) : List Thing :=
  let object := d.event.object
  .minted d.uuid ::
    match d.event.type with
    | .paymentSucceeded =>
      object.id.toList.map .payment ++ b.invoiceThings
        (object.id.bind fun id =>
          ((b.paymentByProviderId id).map (·.invoiceId)).or object.localInvoiceId)
    | .paymentProcessing _ => object.id.toList.map .payment
    | .paymentFailed =>
      object.id.toList.map .payment ++
        b.invoiceThings ((object.id.bind b.paymentByProviderId).map (·.invoiceId))
    | .refund => object.id.toList.map .refund ++ b.refundThings (b.eventRefund object)
    | .invoicePaid =>
      .payment (object.paymentId.getD (d.event.id ++ ":payment")) ::
        b.invoiceThings ((b.eventInvoice object).map (·.id))
    | .invoiceFailed _ =>
      object.id.toList.map .payment ++ b.invoiceThings ((b.eventInvoice object).map (·.id))
    | .subscriptionUpdated | .subscriptionDeleted =>
      (object.id.bind b.subscriptionByProviderId).toList.map fun sub => .subscription sub.id
    | .other => []

end Books

/-! ## Writes -/

/-- **The rows are of these things**: the subscription and the invoice are there and keep their provider
ids, a payment row that is replaced keeps its provider id, and a refund row is there. -/
structure Within (b : Books) (things : List Thing) (effects : Effects) : Prop where
  subscription : ∀ sub ∈ effects.subscription, ∃ old, b.subscription = some old ∧ old.id = sub.id ∧
    old.providerSubscriptionId = sub.providerSubscriptionId ∧ .subscription sub.id ∈ things
  invoice : ∀ invoice ∈ effects.invoice, ∃ old, b.invoices.get? invoice.id = some old ∧
    old.providerInvoiceId = invoice.providerInvoiceId ∧ .invoice invoice.id ∈ things
  payment : ∀ payment ∈ effects.payment, .payment payment.providerPaymentId ∈ things ∧
    ((∃ old, b.payments.get? payment.id = some old ∧
        old.providerPaymentId = payment.providerPaymentId) ∨
      ∃ uuid, payment.id = "pay_" ++ uuid ∧ .minted uuid ∈ things)
  refund : ∀ refund ∈ effects.refund, .refund refund.providerRefundId ∈ things ∧
    ∃ old, b.refunds.get? refund.id = some old ∧ old.providerRefundId = refund.providerRefundId

section Within

variable {b : Books} {things : List Thing} {effects : Effects} {dunning : Dunning} {now : ℤ}

theorem within_none : Within b things .none := by
  constructor <;> intro _ h <;> cases h

variable {id : String}

theorem mem_of_paymentByProviderId {p : Payment} (h : b.paymentByProviderId id = some p) :
    b.payments.get? p.id = some p ∧ p.providerPaymentId = id :=
  ⟨KeyTable.get?_of_mem (List.mem_of_find?_eq_some h), by simpa using List.find?_some h⟩

theorem mem_of_invoiceByProviderId {i : Invoice} (h : b.invoiceByProviderId id = some i) :
    b.invoices.get? i.id = some i ∧ i.providerInvoiceId = some id :=
  ⟨KeyTable.get?_of_mem (List.mem_of_find?_eq_some h), by simpa using List.find?_some h⟩

theorem mem_of_refundByProviderId {r : Refund} (h : b.refundByProviderId id = some r) :
    b.refunds.get? r.id = some r ∧ r.providerRefundId = id :=
  ⟨KeyTable.get?_of_mem (List.mem_of_find?_eq_some h), by simpa using List.find?_some h⟩

variable {object : Object} {invoice : Invoice}

/-- The invoice that an event is about is a row under its id. -/
theorem get?_of_eventInvoice (h : b.eventInvoice object = some invoice) :
    b.invoices.get? invoice.id = some invoice := by
  unfold Books.eventInvoice at h
  split at h
  · exact (KeyTable.get?_eq_some.mp h).2 ▸ h
  · obtain ⟨id, -, hid⟩ := Option.bind_eq_some_iff.mp h
    exact (mem_of_invoiceByProviderId hid).1

variable {refund : Refund}

/-- The refund that an event is about is a row under its id. -/
theorem get?_of_eventRefund (h : b.eventRefund object = some refund) :
    b.refunds.get? refund.id = some refund := by
  unfold Books.eventRefund at h
  split at h
  · exact (KeyTable.get?_eq_some.mp h).2 ▸ h
  · obtain ⟨id, -, hid⟩ := Option.bind_eq_some_iff.mp h
    exact (mem_of_refundByProviderId hid).1

/-- An invoice that is there, with the subscription it bills among the things. -/
theorem mem_invoiceThings (h : b.invoices.get? id = some invoice) :
    .invoice invoice.id ∈ b.invoiceThings (some id) ∧
      ∀ sid, invoice.subscriptionId = some sid → .subscription sid ∈ b.invoiceThings (some id) := by
  have hid := (KeyTable.get?_eq_some.mp h).2
  refine ⟨?_, fun sid hsid => ?_⟩
  · rw [hid]
    exact List.mem_cons_self
  · refine List.mem_cons_of_mem _ ?_
    rw [h, Option.bind_some, hsid]
    exact List.mem_singleton_self _

variable {sub : Subscription}

theorem subscription_of_byId (h : b.subscriptionById id = some sub) :
    b.subscription = some sub ∧ sub.id = id := by
  obtain ⟨hsub, hid⟩ := Option.filter_eq_some_iff.mp h
  exact ⟨hsub, by simpa using hid⟩

variable {settled : Invoice} {amount : ℤ}

theorem settle_keeps (h : invoice.settle amount now = some settled) :
    settled.id = invoice.id ∧ settled.providerInvoiceId = invoice.providerInvoiceId := by
  obtain ⟨paid, -, rfl⟩ := Option.map_eq_some_iff.mp h
  simp only
  split_ifs <;> exact ⟨rfl, rfl⟩

/-- The subscription that a settlement activates. -/
theorem activated_keeps (h : b.activated invoice now = some sub) :
    ∃ old, b.subscription = some old ∧ old.id = sub.id ∧
      old.providerSubscriptionId = sub.providerSubscriptionId ∧
      invoice.subscriptionId = some sub.id := by
  obtain ⟨id, hinvoice, hid⟩ := Option.bind_eq_some_iff.mp h
  split at hid
  · cases hid
  · obtain ⟨old, hold, hactivate⟩ := Option.bind_eq_some_iff.mp hid
    obtain ⟨hsub, rfl⟩ := subscription_of_byId hold
    unfold Subscription.activate at hactivate
    split_ifs at hactivate
    obtain rfl := Option.some.inj hactivate
    exact ⟨old, hsub, rfl, rfl, hinvoice⟩

theorem failPayment_keeps {sub' : Subscription} {advance : Bool}
    (h : sub.failPayment dunning advance now = some sub') :
    sub.id = sub'.id ∧ sub.providerSubscriptionId = sub'.providerSubscriptionId := by
  unfold Subscription.failPayment at h
  by_cases hcan : sub.state.canTransitionTo .pastDue = true
  · rw [if_pos hcan] at h
    obtain rfl := Option.some.inj h
    simp only
    split_ifs <;> exact ⟨rfl, rfl⟩
  · rw [if_neg hcan] at h
    cases h

variable {payment : Payment}

/-- What a settled invoice and its payment write. -/
theorem within_settled {stored : Invoice} (hinvoice : b.invoices.get? invoice.id = some stored)
    (hstored : stored.providerInvoiceId = invoice.providerInvoiceId)
    (hsettled : invoice.settle amount now = some settled) (hthing : .invoice invoice.id ∈ things)
    (hsub : ∀ sid, invoice.subscriptionId = some sid → .subscription sid ∈ things)
    (hpayment : .payment payment.providerPaymentId ∈ things)
    (hrow : (∃ old, b.payments.get? payment.id = some old ∧
        old.providerPaymentId = payment.providerPaymentId) ∨
      ∃ uuid, payment.id = "pay_" ++ uuid ∧ .minted uuid ∈ things) :
    Within b things
      { Effects.none with
        subscription := b.activated invoice now
        invoice := some settled
        payment := some payment } := by
  obtain ⟨hid, hprovider⟩ := settle_keeps hsettled
  constructor
  · intro sub h
    obtain ⟨old, hold, hsame, hsame', hsid⟩ := activated_keeps h
    exact ⟨old, hold, hsame, hsame', hsub _ hsid⟩
  · intro i h
    obtain rfl := Option.some.inj h
    exact ⟨stored, hid ▸ hinvoice, hstored.trans hprovider.symm, hid ▸ hthing⟩
  · intro p h
    obtain rfl := Option.some.inj h
    exact ⟨hpayment, hrow⟩
  · intro _ h
    cases h

/-- What an effect on one payment row writes. -/
theorem within_payment (hthing : .payment payment.providerPaymentId ∈ things)
    (hrow : ∃ old, b.payments.get? payment.id = some old ∧
      old.providerPaymentId = payment.providerPaymentId) :
    Within b things { Effects.none with payment := some payment } := by
  constructor
  · intro _ h
    cases h
  · intro _ h
    cases h
  · intro p h
    obtain rfl := Option.some.inj h
    exact ⟨hthing, .inl hrow⟩
  · intro _ h
    cases h

theorem within_subscription {old : Subscription} (hold : b.subscription = some old) (hid : old.id = sub.id)
    (hprovider : old.providerSubscriptionId = sub.providerSubscriptionId)
    (hthing : .subscription sub.id ∈ things) :
    Within b things { Effects.none with subscription := some sub } := by
  constructor
  · intro s h
    obtain rfl := Option.some.inj h
    exact ⟨old, hold, hid, hprovider, hthing⟩
  all_goals
    intro _ h
    cases h

variable {uuid : String}

theorem within_paymentSucceeded (hminted : .minted uuid ∈ things)
    (hpayments : ∀ id ∈ object.id, .payment id ∈ things)
    (hinvoices : ∀ thing ∈ b.invoiceThings (object.id.bind fun id =>
      ((b.paymentByProviderId id).map (·.invoiceId)).or object.localInvoiceId), thing ∈ things)
    (h : b.webhookPaymentSucceeded object now uuid = some effects) : Within b things effects := by
  unfold Books.webhookPaymentSucceeded at h
  cases hid : object.id with
  | none =>
    rw [hid] at h
    obtain rfl := Option.some.inj h
    exact within_none
  | some id =>
    rw [hid] at h
    simp only at h
    split at h
    · obtain rfl := Option.some.inj h
      exact within_none
    · next invoice hinvoice =>
      obtain ⟨iid, hiid, hget⟩ := Option.bind_eq_some_iff.mp hinvoice
      rw [hid, Option.bind_some, hiid] at hinvoices
      obtain ⟨hinv, hsub⟩ := mem_invoiceThings hget
      have hrow := (KeyTable.get?_eq_some.mp hget).2 ▸ hget
      split_ifs at h
      cases hpayment : b.paymentByProviderId id with
      | some payment =>
        obtain ⟨hget', hpid⟩ := mem_of_paymentByProviderId hpayment
        simp only [hpayment, Books.paymentSucceeded] at h
        split_ifs at h
        · obtain rfl := Option.some.inj h
          exact within_none
        · obtain ⟨settled, hsettled, rfl⟩ := Option.map_eq_some_iff.mp h
          exact within_settled hrow rfl hsettled (hinvoices _ hinv) (fun sid hs => hinvoices _ (hsub sid hs))
            (hpid ▸ hpayments id hid) (.inl ⟨payment, hget', rfl⟩)
      | none =>
        simp only [hpayment, Books.paymentSucceeded] at h
        split_ifs at h
        obtain ⟨settled, hsettled, rfl⟩ := Option.map_eq_some_iff.mp h
        exact within_settled hrow rfl hsettled (hinvoices _ hinv) (fun sid hs => hinvoices _ (hsub sid hs))
          (hpayments id hid) (.inr ⟨uuid, rfl, hminted⟩)

theorem within_paymentProcessing {next : Payments.Progress}
    (hpayments : ∀ id ∈ object.id, .payment id ∈ things)
    (h : b.webhookPaymentProcessing next object = some effects) : Within b things effects := by
  unfold Books.webhookPaymentProcessing at h
  split at h
  · obtain rfl := Option.some.inj h
    exact within_none
  · next payment hpayment =>
    obtain ⟨id, hid, hfind⟩ := Option.bind_eq_some_iff.mp hpayment
    obtain ⟨hget, hpid⟩ := mem_of_paymentByProviderId hfind
    split_ifs at h
    · obtain rfl := Option.some.inj h
      exact within_payment (hpid ▸ hpayments id hid) ⟨payment, hget, rfl⟩
    · obtain rfl := Option.some.inj h
      exact within_none

/-- The failure of an invoice, with the payment row that it marks. -/
theorem within_failInvoice {identity : String} {payment : Option Payment}
    (hinvoice : b.invoices.get? invoice.id = some invoice) (hthing : .invoice invoice.id ∈ things)
    (hsub : ∀ sid, invoice.subscriptionId = some sid → .subscription sid ∈ things)
    (hpayment : Within b things { Effects.none with payment := payment })
    (h : b.failInvoice dunning invoice identity payment now = some effects) :
    Within b things effects := by
  unfold Books.failInvoice at h
  split_ifs at h
  obtain rfl := Option.some.inj h
  constructor
  · intro sub hs
    obtain ⟨old, hold, hfail⟩ := Option.bind_eq_some_iff.mp hs
    obtain ⟨sid, hsid, hbyId⟩ := Option.bind_eq_some_iff.mp hold
    obtain ⟨hsame, rfl⟩ := subscription_of_byId hbyId
    obtain ⟨hid, hprovider⟩ := failPayment_keeps hfail
    exact ⟨old, hsame, hid, hprovider, hid ▸ hsub _ hsid⟩
  · intro i hi
    obtain rfl := Option.some.inj hi
    exact ⟨invoice, hinvoice, rfl, hthing⟩
  · exact hpayment.payment
  · intro _ hr
    cases hr

theorem within_paymentFailed (hpayments : ∀ id ∈ object.id, .payment id ∈ things)
    (hinvoices : ∀ thing ∈ b.invoiceThings
      ((object.id.bind b.paymentByProviderId).map (·.invoiceId)), thing ∈ things)
    (h : b.webhookPaymentFailed dunning object now = some effects) : Within b things effects := by
  unfold Books.webhookPaymentFailed at h
  split at h
  · obtain rfl := Option.some.inj h
    exact within_none
  · next id hid =>
    split at h
    · obtain rfl := Option.some.inj h
      exact within_none
    · next payment hpayment =>
      obtain ⟨hget, hpid⟩ := mem_of_paymentByProviderId hpayment
      have hwithin : Within b things
          { Effects.none with payment := some { payment with status := .failed } } :=
        within_payment (hpid ▸ hpayments id hid) ⟨payment, hget, rfl⟩
      split at h
      · obtain rfl := Option.some.inj h
        exact within_none
      · simp only at h
        split at h
        · obtain rfl := Option.some.inj h
          exact hwithin
        · next invoice hinvoice =>
          rw [hid, Option.bind_some, hpayment, Option.map_some] at hinvoices
          obtain ⟨hinv, hsub⟩ := mem_invoiceThings hinvoice
          have hrow := (KeyTable.get?_eq_some.mp hinvoice).2 ▸ hinvoice
          split at h
          · obtain rfl := Option.some.inj h
            exact hwithin
          · exact within_failInvoice hrow (hinvoices _ hinv)
              (fun sid hs => hinvoices _ (hsub sid hs)) hwithin h

variable {eventId : String}

theorem within_invoiceFailed {paymentFailed : Bool} (hpayments : ∀ id ∈ object.id, .payment id ∈ things)
    (hinvoices : ∀ thing ∈ b.invoiceThings ((b.eventInvoice object).map (·.id)), thing ∈ things)
    (h : b.webhookInvoiceFailed dunning eventId paymentFailed object now = some effects) :
    Within b things effects := by
  have hwithin : Within b things { Effects.none with
      payment := (b.failingPayment paymentFailed object).map fun p => { p with status := .failed } } := by
    cases hfailing : b.failingPayment paymentFailed object with
    | none => exact within_none
    | some payment =>
      unfold Books.failingPayment at hfailing
      split_ifs at hfailing
      obtain ⟨id, hid, hfind⟩ := Option.bind_eq_some_iff.mp (Option.filter_eq_some_iff.mp hfailing).1
      obtain ⟨hget, hpid⟩ := mem_of_paymentByProviderId hfind
      exact within_payment (hpid ▸ hpayments id hid) ⟨payment, hget, rfl⟩
  unfold Books.webhookInvoiceFailed at h
  simp only at h
  split at h
  · obtain rfl := Option.some.inj h
    exact hwithin
  · next invoice hinvoice =>
    have hget := get?_of_eventInvoice hinvoice
    rw [hinvoice, Option.map_some] at hinvoices
    obtain ⟨hinv, hsub⟩ := mem_invoiceThings hget
    split_ifs at h
    · obtain rfl := Option.some.inj h
      exact hwithin
    · exact within_failInvoice hget (hinvoices _ hinv) (fun sid hs => hinvoices _ (hsub sid hs))
        hwithin h

/-- A settled refund keeps the ids of its rows. -/
theorem settleRefundLedger_keeps {payment' : Payment} {invoice' : Invoice} {refund' : Refund}
    {note : CreditNote} {noteId : String}
    (h : settleRefundLedger payment invoice refund noteId = some (payment', invoice', refund', note)) :
    (payment'.id = payment.id ∧ payment'.providerPaymentId = payment.providerPaymentId) ∧
      (invoice'.id = invoice.id ∧ invoice'.providerInvoiceId = invoice.providerInvoiceId) ∧
      (refund'.id = refund.id ∧ refund'.providerRefundId = refund.providerRefundId) := by
  unfold settleRefundLedger at h
  split at h
  · cases h
  · split at h
    · split at h
      · cases h
      · cases h
        exact ⟨⟨rfl, rfl⟩, ⟨rfl, rfl⟩, ⟨rfl, rfl⟩⟩
    · cases h

theorem within_refund (hrefunds : ∀ thing ∈ b.refundThings (b.eventRefund object), thing ∈ things)
    (h : b.webhookRefundObject object uuid = some effects) : Within b things effects := by
  unfold Books.webhookRefundObject at h
  split at h
  · next refund hrefund =>
    have hget := get?_of_eventRefund hrefund
    rw [hrefund] at hrefunds
    have hthing : .refund refund.providerRefundId ∈ things := hrefunds _ List.mem_cons_self
    unfold Books.webhookRefund at h
    split_ifs at h
    · obtain rfl := Option.some.inj h
      exact within_none
    · split at h
      · cases h
      · next status _ =>
        split_ifs at h
        · obtain rfl := Option.some.inj h
          exact within_none
        · obtain rfl := Option.some.inj h
          constructor
          case refund =>
            intro r hr
            obtain rfl := Option.some.inj hr
            exact ⟨hthing, refund, hget, rfl⟩
          all_goals
            intro _ hr
            cases hr
        · split at h
          · obtain rfl := Option.some.inj h
            exact within_none
          · next payment hpayment =>
            split at h
            · obtain rfl := Option.some.inj h
              exact within_none
            · next invoice hinvoice =>
              simp only [Books.refundThings, hpayment] at hrefunds
              have hpaid : .payment payment.providerPaymentId ∈ things :=
                hrefunds _ (List.mem_cons_of_mem _ List.mem_cons_self)
              have hinv : .invoice invoice.id ∈ things :=
                hrefunds _ (List.mem_cons_of_mem _
                  (List.mem_cons_of_mem _ (mem_invoiceThings hinvoice).1))
              obtain ⟨⟨payment', invoice', refund', note⟩, hsettle, rfl⟩ :=
                Option.map_eq_some_iff.mp h
              obtain ⟨⟨hpid, hppid⟩, ⟨hiid, hipid⟩, ⟨hrid, hrpid⟩⟩ := settleRefundLedger_keeps hsettle
              have hpayment' := (KeyTable.get?_eq_some.mp hpayment).2 ▸ hpayment
              have hinvoice' := (KeyTable.get?_eq_some.mp hinvoice).2 ▸ hinvoice
              constructor
              · intro _ hr
                cases hr
              · intro i hi
                obtain rfl := Option.some.inj hi
                exact ⟨invoice, hiid ▸ hinvoice', hipid.symm, hiid ▸ hinv⟩
              · intro p hp
                obtain rfl := Option.some.inj hp
                exact ⟨hppid ▸ hpaid, .inl ⟨payment, hpid ▸ hpayment', hppid.symm⟩⟩
              · intro r hr
                obtain rfl := Option.some.inj hr
                exact ⟨hrpid ▸ hthing, refund, hrid ▸ hget, hrpid.symm⟩
  · split_ifs at h
    obtain rfl := Option.some.inj h
    exact within_none

/-- The row that `invoice.paid` binds is one of the payment it names, or a new one. -/
theorem paidRow_within {paymentId : Option String} {paid : ℤ} (hminted : .minted uuid ∈ things)
    (hpayment : .payment (paymentId.getD (eventId ++ ":payment")) ∈ things) :
    .payment (b.paidRow eventId paymentId invoice paid uuid).providerPaymentId ∈ things ∧
      ((∃ old, b.payments.get? (b.paidRow eventId paymentId invoice paid uuid).id = some old ∧
          old.providerPaymentId = (b.paidRow eventId paymentId invoice paid uuid).providerPaymentId) ∨
        ∃ u, (b.paidRow eventId paymentId invoice paid uuid).id = "pay_" ++ u ∧
          .minted u ∈ things) := by
  unfold Books.paidRow
  cases paymentId with
  | none => exact ⟨hpayment, .inr ⟨uuid, rfl, hminted⟩⟩
  | some pid =>
    cases hexisting : b.paymentByProviderId pid with
    | none =>
      simp only [hexisting]
      exact ⟨hpayment, .inr ⟨uuid, rfl, hminted⟩⟩
    | some existing =>
      obtain ⟨hget, hpid⟩ := mem_of_paymentByProviderId hexisting
      simp only [hexisting]
      split_ifs
      · exact ⟨hpid ▸ hpayment, .inl ⟨existing, hget, rfl⟩⟩
      · exact ⟨hpid ▸ hpayment, .inl ⟨existing, hget, rfl⟩⟩

/-- An invoice that is only observed, and the subscription that it may activate. -/
theorem within_observed {reconciliation : Reconciliation} {sub : Option Subscription}
    (hinvoice : b.invoices.get? invoice.id = some invoice) (hthing : .invoice invoice.id ∈ things)
    (hsub : ∀ s ∈ sub, ∃ old, b.subscription = some old ∧ old.id = s.id ∧
      old.providerSubscriptionId = s.providerSubscriptionId ∧ .subscription s.id ∈ things) :
    Within b things
      { Effects.none with
        subscription := sub
        invoice := some { invoice with reconciliation := reconciliation } } := by
  constructor
  · exact hsub
  · intro i h
    obtain rfl := Option.some.inj h
    exact ⟨invoice, hinvoice, rfl, hthing⟩
  · intro _ h
    cases h
  · intro _ h
    cases h

theorem within_invoicePaid (hminted : .minted uuid ∈ things)
    (hpayment : .payment (object.paymentId.getD (eventId ++ ":payment")) ∈ things)
    (hinvoices : ∀ thing ∈ b.invoiceThings ((b.eventInvoice object).map (·.id)), thing ∈ things)
    (h : b.webhookInvoicePaid eventId object now uuid = some effects) : Within b things effects := by
  unfold Books.webhookInvoicePaid at h
  split at h
  · obtain rfl := Option.some.inj h
    exact within_none
  · next invoice hinvoice =>
    have hget := get?_of_eventInvoice hinvoice
    rw [hinvoice, Option.map_some] at hinvoices
    obtain ⟨hinv, hbills⟩ := mem_invoiceThings hget
    have hsub : ∀ sid, invoice.subscriptionId = some sid → .subscription sid ∈ things :=
      fun sid hsid => hinvoices _ (hbills sid hsid)
    split at h
    · cases h
    · split at h
      · obtain rfl := Option.some.inj h
        exact within_none
      · simp only at h
        generalize object.amountPaid.getD _ = providerPaid at h
        split at h
        · obtain rfl := Option.some.inj h
          exact within_none
        · split at h
          · obtain rfl := Option.some.inj h
            refine within_observed hget (hinvoices _ hinv) ?_
            intro _ hs
            cases hs
          · split at h
            · obtain rfl := Option.some.inj h
              refine within_observed hget (hinvoices _ hinv) ?_
              intro sub hs
              obtain ⟨old, hold, hsame, hsame', hsid⟩ := activated_keeps hs
              exact ⟨old, hold, hsame, hsame', hsub _ hsid⟩
            · obtain ⟨settled, hsettled, rfl⟩ := Option.map_eq_some_iff.mp h
              obtain ⟨hthing, hrow⟩ := paidRow_within hminted hpayment
              exact within_settled hget rfl hsettled (hinvoices _ hinv) hsub
                hthing hrow

theorem subscription_of_byProviderId (h : b.subscriptionByProviderId id = some sub) :
    b.subscription = some sub ∧ sub.providerSubscriptionId = id := by
  obtain ⟨hsub, hid⟩ := Option.filter_eq_some_iff.mp h
  exact ⟨hsub, by simpa using hid⟩

section

variable (hsubs : ∀ sub ∈ object.id.bind b.subscriptionByProviderId, .subscription sub.id ∈ things)
include hsubs

theorem within_subscriptionUpdated (h : b.webhookSubscriptionUpdated object now = some effects) :
    Within b things effects := by
  unfold Books.webhookSubscriptionUpdated at h
  split at h
  · obtain rfl := Option.some.inj h
    exact within_none
  · next sub hsub =>
    obtain ⟨id, hid, hfind⟩ := Option.bind_eq_some_iff.mp hsub
    split at h
    · obtain rfl := Option.some.inj h
      exact within_none
    · split at h
      · cases h
      · split at h
        · cases h
        · obtain rfl := Option.some.inj h
          exact within_subscription (subscription_of_byProviderId hfind).1 rfl rfl (hsubs sub hsub)

theorem within_subscriptionDeleted (h : b.webhookSubscriptionDeleted object now = some effects) :
    Within b things effects := by
  unfold Books.webhookSubscriptionDeleted at h
  split at h
  · obtain rfl := Option.some.inj h
    exact within_none
  · next sub hsub =>
    obtain ⟨id, hid, hfind⟩ := Option.bind_eq_some_iff.mp hsub
    split at h
    · cases h
    · split at h
      · obtain rfl := Option.some.inj h
        exact within_none
      · obtain rfl := Option.some.inj h
        exact within_subscription (subscription_of_byProviderId hfind).1 rfl rfl (hsubs sub hsub)

end

/-- **An event writes only rows of the things it concerns.** -/
theorem webhookEffects_within {d : Delivery} (h : b.webhookEffects dunning d = some effects) :
    Within b (b.concerns d) effects := by
  unfold Books.webhookEffects at h
  have hminted : .minted d.uuid ∈ b.concerns d := List.mem_cons_self
  cases htype : d.event.type <;> simp only [htype] at h
  case paymentSucceeded =>
    refine within_paymentSucceeded hminted ?_ ?_ h
    · intro id hid
      simp [Books.concerns, htype, Option.mem_def.mp hid]
    · intro thing hthing
      simp [Books.concerns, htype, hthing]
  case paymentProcessing next =>
    refine within_paymentProcessing ?_ h
    intro id hid
    simp [Books.concerns, htype, Option.mem_def.mp hid]
  case paymentFailed =>
    refine within_paymentFailed ?_ ?_ h
    · intro id hid
      simp [Books.concerns, htype, Option.mem_def.mp hid]
    · intro thing hthing
      rw [Books.concerns, htype]
      exact List.mem_cons_of_mem _ (List.mem_append_right _ hthing)
  case refund =>
    refine within_refund ?_ h
    intro thing hthing
    simp [Books.concerns, htype, hthing]
  case invoicePaid =>
    refine within_invoicePaid hminted ?_ ?_ h
    · simp [Books.concerns, htype]
    · intro thing hthing
      simp [Books.concerns, htype, hthing]
  case invoiceFailed paymentFailed =>
    refine within_invoiceFailed ?_ ?_ h
    · intro id hid
      simp [Books.concerns, htype, Option.mem_def.mp hid]
    · intro thing hthing
      simp [Books.concerns, htype, hthing]
  case subscriptionUpdated =>
    refine within_subscriptionUpdated ?_ h
    intro sub hsub
    simp [Books.concerns, htype, Option.mem_def.mp hsub]
  case subscriptionDeleted =>
    refine within_subscriptionDeleted ?_ h
    intro sub hsub
    simp [Books.concerns, htype, Option.mem_def.mp hsub]
  case other =>
    obtain rfl := Option.some.inj h
    exact within_none

end Within

end Billing
