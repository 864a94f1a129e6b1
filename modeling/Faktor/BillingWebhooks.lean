/-
# Webhooks on the books

A verified event is planned against the rows and committed with its event row in one transaction.
Each arm of the dispatcher is a function of the books, of the event's object, of the clock and of the
random id that a new row would get; `none` is a refusal, after which the provider delivers again.

* `webhookEffects` : the rows an event changes;
* `Register.handleWebhook` : the duplicate check, the watermark of the organization, and the commit.
-/
import Faktor.BillingModel

namespace Billing

open Payments (InvoiceStatus PaymentStatus Progress checkedAdd validAmount validCurrency)

/-! ## Events -/

/-- The fields that are read from the object of an event. -/
structure Object where
  id : Option String
  localInvoiceId : Option String
  localRefundId : Option String
  /-- The `payment_intent`, or else the `charge`, that an invoice names. -/
  paymentId : Option String
  status : Option String
  amountMinor : Option ℤ
  amount : Option ℤ
  amountReceived : Option ℤ
  amountPaid : Option ℤ
  currency : Option String
  quantity : Option ℕ
  cancelAtPeriodEnd : Option Bool
  currentPeriodEnd : Option ℤ
  deriving DecidableEq, Repr

/-- An object that carries nothing. -/
def Object.empty : Object where
  id := none
  localInvoiceId := none
  localRefundId := none
  paymentId := none
  status := none
  amountMinor := none
  amount := none
  amountReceived := none
  amountPaid := none
  currency := none
  quantity := none
  cancelAtPeriodEnd := none
  currentPeriodEnd := none

inductive EventType
  | paymentSucceeded
  | paymentProcessing (next : Progress)
  | paymentFailed
  | refund
  | invoicePaid
  /-- `invoice.payment_failed`, or `invoice.payment_action_required`. -/
  | invoiceFailed (paymentFailed : Bool)
  | subscriptionUpdated
  | subscriptionDeleted
  | other
  deriving DecidableEq, Repr

structure WebhookEvent where
  id : String
  createdMs : ℤ
  type : EventType
  object : Object
  deriving DecidableEq, Repr

/-- An event as it is handled: the time, and the random id of a row that it may insert. -/
structure Delivery where
  event : WebhookEvent
  now : ℤ
  uuid : String
  deriving DecidableEq, Repr

/-! ## Plans -/

/-- `MAX_SEATS`. -/
def maxSeats : ℕ := 1000000

namespace Books

variable (b : Books)

/-- The subscription that a settled invoice activates. -/
def activated (invoice : Invoice) (now : ℤ) : Option Subscription :=
  invoice.subscriptionId.bind fun id =>
    if b.mutationFenced id then none else (b.subscriptionById id).bind (·.activate now)

/-- `webhook_payment_succeeded_tx`, once the payment and the invoice are found. -/
def paymentSucceeded (payment : Option Payment) (invoice : Invoice) (providerPaymentId : String)
    (object : Object) (now : ℤ) (uuid : String) : Option Effects :=
  let amount := object.amountMinor.or (object.amount.or object.amountReceived)
  if amount.any (fun amount => amount < 0 || !validAmount amount)
      || object.currency.any (fun currency => !validCurrency currency) then none
  else
    match payment with
    | some payment =>
      if amount.any (· != payment.amountMinor) || object.currency.any (· != payment.currency) then
        none
      else if !payment.status.canTransitionTo .succeeded then some .none
      else
        (invoice.settle (amount.getD payment.amountMinor) now).map fun settled =>
          { Effects.none with
            subscription := b.activated invoice now
            invoice := some settled
            payment := some { payment with status := .succeeded } }
    | none =>
      if object.currency.any (· != invoice.currency) then none
      else
        let recorded := amount.getD invoice.balanceMinor
        (invoice.settle recorded now).map fun settled =>
          { Effects.none with
            subscription := b.activated invoice now
            invoice := some settled
            payment := some
              { id := "pay_" ++ uuid, invoiceId := invoice.id
                providerPaymentId := providerPaymentId, amountMinor := recorded
                refundedMinor := 0, currency := invoice.currency, status := .succeeded } }

/-- `webhook_payment_succeeded_tx`. -/
def webhookPaymentSucceeded (object : Object) (now : ℤ) (uuid : String) : Option Effects :=
  match object.id with
  | none => some .none
  | some providerPaymentId =>
    let payment := b.paymentByProviderId providerPaymentId
    match ((payment.map (·.invoiceId)).or object.localInvoiceId).bind b.invoices.get? with
    | none => some .none
    | some invoice =>
      if b.settlementFenced invoice then none
      else b.paymentSucceeded payment invoice providerPaymentId object now uuid

/-- `webhook_payment_processing_tx`. -/
def webhookPaymentProcessing (next : Progress) (object : Object) : Option Effects :=
  match object.id.bind b.paymentByProviderId with
  | none => some .none
  | some payment =>
    if payment.status.canTransitionTo next.status then
      some { Effects.none with payment := some { payment with status := next.status } }
    else some .none

/-- The invoice that a failed payment makes past due, and the subscription it fails. -/
def failInvoice (dunning : Dunning) (invoice : Invoice) (identity : String)
    (payment : Option Payment) (now : ℤ) : Option Effects :=
  if b.settlementFenced invoice then none
  else
    let advance := invoice.lastDunningPaymentId != some identity
    some
      { Effects.none with
        subscription :=
          (invoice.subscriptionId.bind b.subscriptionById).bind (·.failPayment dunning advance now)
        invoice := some { invoice with lastDunningPaymentId := some identity, status := .pastDue }
        payment := payment }

/-- `webhook_payment_failed_tx`. -/
def webhookPaymentFailed (dunning : Dunning) (object : Object) (now : ℤ) : Option Effects :=
  match object.id with
  | none => some .none
  | some providerPaymentId =>
    match b.paymentByProviderId providerPaymentId with
    | none => some .none
    | some payment =>
      if !payment.status.canTransitionTo .failed then some .none
      else
        let failed := { payment with status := .failed }
        match b.invoices.get? payment.invoiceId with
        | none => some { Effects.none with payment := some failed }
        | some invoice =>
          if !invoice.status.canTransitionTo .pastDue then
            some { Effects.none with payment := some failed }
          else b.failInvoice dunning invoice providerPaymentId (some failed) now

/-- Whether a refund event agrees with the refund that is recorded. -/
def refundAgrees (refund : Refund) (object : Object) : Bool :=
  !object.id.any (· != refund.providerRefundId)
    && !(object.amountMinor.or object.amount).any (· != refund.amountMinor)
    && !object.currency.any (fun currency => currency.toLower != refund.currency.toLower)

/-- `webhook_refund_tx`, once the refund is found. -/
def webhookRefund (refund : Refund) (object : Object) (uuid : String) : Option Effects :=
  if refund.creditNoteId.isSome then some .none
  else if !refundAgrees refund object then none
  else
    match object.status.bind RefundStatus.parse with
    | none => none
    | some next =>
      if !refund.status.canTransitionTo next then some .none
      else if next ≠ .succeeded then
        some { Effects.none with refund := some { refund with status := next } }
      else
        match b.payments.get? refund.paymentId with
        | none => some .none
        | some payment =>
          match b.invoices.get? payment.invoiceId with
          | none => some .none
          | some invoice =>
            (settleRefundLedger payment invoice { refund with status := .succeeded }
              ("cn_" ++ uuid)).map fun (payment, invoice, refund, note) =>
              { Effects.none with
                invoice := some invoice
                payment := some payment
                refund := some refund
                creditNote := some note }

/-- The refund that a refund event is about. -/
def eventRefund (object : Object) : Option Refund :=
  match object.localRefundId with
  | some localId => b.refunds.get? localId
  | none => object.id.bind b.refundByProviderId

/-- `webhook_refund_tx`: an event whose refund is not recorded yet is refused while a refund of the
organization is in flight. -/
def webhookRefundObject (object : Object) (uuid : String) : Option Effects :=
  match b.eventRefund object with
  | some refund => b.webhookRefund refund object uuid
  | none => if object.id.isSome && !b.fences.refunds.isEmpty then none else some .none

/-- The invoice that an invoice event is about. -/
def eventInvoice (object : Object) : Option Invoice :=
  match object.localInvoiceId with
  | some localId => b.invoices.get? localId
  | none => object.id.bind b.invoiceByProviderId

/-- The payment row that `invoice.paid` binds. -/
def paidRow (eventId : String) (paymentId : Option String) (invoice : Invoice) (paid : ℤ)
    (uuid : String) : Payment :=
  let minted (providerPaymentId : String) : Payment :=
    { id := "pay_" ++ uuid, invoiceId := invoice.id, providerPaymentId := providerPaymentId
      amountMinor := paid, refundedMinor := 0, currency := invoice.currency, status := .succeeded }
  match paymentId with
  | some providerPaymentId =>
    match b.paymentByProviderId providerPaymentId with
    | some existing =>
      if existing.status.canTransitionTo .succeeded then { existing with status := .succeeded }
      else existing
    | none => minted providerPaymentId
  | none => minted (eventId ++ ":payment")

/-- `webhook_invoice_paid_tx`. -/
def webhookInvoicePaid (eventId : String) (object : Object) (now : ℤ) (uuid : String) :
    Option Effects :=
  match b.eventInvoice object with
  | none => some .none
  | some invoice =>
    if b.settlementFenced invoice then none
    else if (object.id.or invoice.providerInvoiceId).isNone then some .none
    else
      let status := object.status.getD "paid"
      if status ∈ ["processing", "pending", "requires_action", "open", "draft"] then some .none
      else
        let total := (object.amount.or object.amountPaid).getD invoice.totalMinor
        let providerPaid := object.amountPaid.getD (if status = "paid" then total else 0)
        let currency := (object.currency.map String.toUpper).getD invoice.currency
        let invoice := { invoice with reconciliation := invoice.observe currency total }
        if invoice.reconciliation.isConflict || !invoice.status.canTransitionTo .paid then
          some { Effects.none with invoice := some invoice }
        else
          let paid := min (max providerPaid 0) invoice.balanceMinor
          if invoice.totalMinor ≤ invoice.amountPaidMinor ∨ paid ≤ 0 then
            some { Effects.none with
              subscription := b.activated invoice now, invoice := some invoice }
          else
            (invoice.settle paid now).map fun settled =>
              { Effects.none with
                subscription := b.activated invoice now
                invoice := some settled
                payment := some (b.paidRow eventId object.paymentId invoice paid uuid) }

/-- The payment that an invoice event marks failed. -/
def failingPayment (paymentFailed : Bool) (object : Object) : Option Payment :=
  if paymentFailed then
    (object.id.bind b.paymentByProviderId).filter (·.status.canTransitionTo .failed)
  else none

/-- The identity of the failure that an invoice event reports. -/
def failureIdentity (eventId : String) (paymentFailed : Bool) (object : Object) : String :=
  (((b.failingPayment paymentFailed object).map (·.providerPaymentId)).or object.paymentId).getD
    eventId

/-- `webhook_invoice_failed_tx`. -/
def webhookInvoiceFailed (dunning : Dunning) (eventId : String) (paymentFailed : Bool)
    (object : Object) (now : ℤ) : Option Effects :=
  let failed : Option Payment :=
    (b.failingPayment paymentFailed object).map fun payment => { payment with status := .failed }
  match b.eventInvoice object with
  | none => some { Effects.none with payment := failed }
  | some invoice =>
    if !invoice.status.canTransitionTo .pastDue then some { Effects.none with payment := failed }
    else
      b.failInvoice dunning invoice (b.failureIdentity eventId paymentFailed object) failed now

/-- A subscription event is refused while an operation holds the subscription. -/
def subscriptionFenced (sub : Subscription) : Bool :=
  b.mutationFenced sub.id || b.fences.subscribing

/-- `webhook_subscription_updated_tx`: seconds are scaled, and the period never shrinks. -/
def webhookSubscriptionUpdated (object : Object) (now : ℤ) : Option Effects :=
  match object.id.bind b.subscriptionByProviderId with
  | none => some .none
  | some sub =>
    if sub.state = .canceled then some .none
    else if b.subscriptionFenced sub then none
    else if object.quantity.any (fun quantity => quantity == 0 || maxSeats < quantity) then none
    else
      let next := (object.status.bind SubscriptionState.parse).filter sub.state.canTransitionTo
      let ending := object.currentPeriodEnd.map fun e => if |e| < 10000000000 then e * 1000 else e
      some { Effects.none with
        subscription := some
          { sub with
            state := next.getD sub.state
            canceledMs := if next = some .canceled then some now else sub.canceledMs
            quantity := object.quantity.getD sub.quantity
            cancelAtPeriodEnd := object.cancelAtPeriodEnd.getD sub.cancelAtPeriodEnd
            currentPeriodEndMs := max sub.currentPeriodEndMs (ending.getD sub.currentPeriodEndMs)
            updatedMs := now } }

/-- `webhook_subscription_deleted_tx`. -/
def webhookSubscriptionDeleted (object : Object) (now : ℤ) : Option Effects :=
  match object.id.bind b.subscriptionByProviderId with
  | none => some .none
  | some sub =>
    if b.subscriptionFenced sub then none
    else if sub.state = .canceled ∧ sub.canceledMs.isSome then some .none
    else
      some { Effects.none with
        subscription := some { sub.cancelNow now with updatedMs := now } }

/-- `webhook_blocked_by_fence`, which a subscription event passes first. -/
def blockedByFence (event : WebhookEvent) : Bool :=
  (event.type == .subscriptionUpdated || event.type == .subscriptionDeleted)
    && event.object.id.any fun id =>
      b.fences.subscribing || (b.subscriptionByProviderId id).any fun sub => b.mutationFenced sub.id

/-- `webhook_effects_tx`. -/
def webhookEffects (dunning : Dunning) (d : Delivery) : Option Effects :=
  let object := d.event.object
  match d.event.type with
  | .paymentSucceeded => b.webhookPaymentSucceeded object d.now d.uuid
  | .paymentProcessing next => b.webhookPaymentProcessing next object
  | .paymentFailed => b.webhookPaymentFailed dunning object d.now
  | .refund => b.webhookRefundObject object d.uuid
  | .invoicePaid => b.webhookInvoicePaid d.event.id object d.now d.uuid
  | .invoiceFailed paymentFailed =>
    b.webhookInvoiceFailed dunning d.event.id paymentFailed object d.now
  | .subscriptionUpdated => b.webhookSubscriptionUpdated object d.now
  | .subscriptionDeleted => b.webhookSubscriptionDeleted object d.now
  | .other => some .none

end Books

/-! ## The transaction -/

/-- The books with the event rows and the watermark of the organization. -/
structure Register where
  books : Books
  webhooks : List String
  watermark : Option (ℤ × String)

namespace Register

variable (r : Register)

/-- The event is not newer than the watermark. -/
def stale (event : WebhookEvent) : Bool :=
  r.watermark.any fun (lastCreated, lastId) =>
    event.createdMs < lastCreated || (event.createdMs == lastCreated && event.id ≤ lastId)

/-- `handle_webhook`: a duplicate changes nothing, a stale event is only recorded, and every other one
is committed with its rows; `none` when it is refused. -/
def handleWebhook (dunning : Dunning) (d : Delivery) : Option Register :=
  if r.books.blockedByFence d.event then none
  else if d.event.id ∈ r.webhooks then some r
  else if r.stale d.event then some { r with webhooks := d.event.id :: r.webhooks }
  else
    ((r.books.webhookEffects dunning d).bind r.books.write).map fun books =>
      { books := books, webhooks := d.event.id :: r.webhooks
        watermark := some (d.event.createdMs, d.event.id) }

end Register

end Billing
