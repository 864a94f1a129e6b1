/-
# The records of payments and refunds

The transactions that a payment, a refund, a decline and the lifecycle make on the books, apart from
webhooks.  Each reads its rows inside the transaction; `none` says that it fails and writes nothing.

* `Books.recordCharge`, `Books.recordRefund` : what the live calls record after the provider answered;
* `Books.recordPaymentFailure` : the bookkeeping of a decline;
* `Books.tick` : the lifecycle of the subscription.
-/
import Faktor.BillingWebhooks

namespace Billing

open Payments (InvoiceStatus PaymentStatus)

/-- A charge that the provider answered: the payment row to insert, with the status it answered. -/
structure ChargeRecord where
  paymentId : String
  invoiceId : String
  providerPaymentId : String
  amountMinor : ℤ
  currency : String
  status : PaymentStatus
  now : ℤ
  deriving DecidableEq, Repr

/-- A refund that the provider answered. -/
structure RefundRecord where
  refundId : String
  paymentId : String
  providerRefundId : String
  amountMinor : ℤ
  currency : String
  status : RefundStatus
  uuid : String
  deriving DecidableEq, Repr

namespace Books

variable (b : Books)

/-- The subscription that a charge resets when it succeeds, whatever operation holds it. -/
def resetByCharge (invoice : Invoice) (now : ℤ) : Option Subscription :=
  (invoice.subscriptionId.bind b.subscriptionById).map fun sub =>
    { sub with
      state := if sub.state.canTransitionTo .active then .active else sub.state
      dunningAttempts := 0
      graceEndMs := none
      updatedMs := now }

/-- The rows of a charge that `pay_invoice` records: none when a payment with the provider's id is
there. -/
def chargeEffects (c : ChargeRecord) : Option Effects :=
  (b.invoices.get? c.invoiceId).bind fun invoice =>
    match b.paymentByProviderId c.providerPaymentId with
    | some _ => some .none
    | none =>
      let row : Payment :=
        { id := c.paymentId, invoiceId := c.invoiceId, providerPaymentId := c.providerPaymentId
          amountMinor := c.amountMinor, refundedMinor := 0, currency := c.currency
          status := c.status }
      if c.status = .succeeded then
        (invoice.settle c.amountMinor c.now).map fun settled =>
          { Effects.none with
            subscription := b.resetByCharge invoice c.now
            invoice := some settled
            payment := some row }
      else
        -- the subscription row that was read is written back as it is
        some { Effects.none with
          subscription := invoice.subscriptionId.bind b.subscriptionById
          invoice := some invoice
          payment := some row }

def recordCharge (c : ChargeRecord) : Option Books := (b.chargeEffects c).bind b.write

/-- The rows of a refund that `refund` records: none when a refund with the provider's id is there. -/
def refundEffects (c : RefundRecord) : Option Effects :=
  (b.payments.get? c.paymentId).bind fun payment =>
    (b.invoices.get? payment.invoiceId).bind fun invoice =>
      match b.refundByProviderId c.providerRefundId with
      | some _ => some .none
      | none =>
        let row : Refund :=
          { id := c.refundId, paymentId := c.paymentId, providerRefundId := c.providerRefundId
            amountMinor := c.amountMinor, currency := c.currency, status := c.status
            creditNoteId := none }
        if c.status = .succeeded then
          (settleRefundLedger payment invoice row ("cn_" ++ c.uuid)).map
            fun (payment, invoice, refund, note) =>
              { Effects.none with
                invoice := some invoice
                payment := some payment
                refund := some refund
                creditNote := some note }
        else some { Effects.none with refund := some row }

def recordRefund (c : RefundRecord) : Option Books := (b.refundEffects c).bind b.write

/-- The rows of `record_payment_failure`: the invoice becomes past due where it may, and the
subscription, unless an operation holds it, counts an attempt. -/
def failureEffects (dunning : Dunning) (invoiceId : String) (now : ℤ) : Option Effects :=
  (b.invoices.get? invoiceId).map fun invoice =>
    let failed :=
      if invoice.status.canTransitionTo .pastDue then { invoice with status := .pastDue }
      else invoice
    let sub := invoice.subscriptionId.bind b.subscriptionById
    { Effects.none with
      invoice := some failed
      subscription :=
        if failed.status ≠ .pastDue ∨ b.settlementFenced invoice then none
        else sub.bind (·.failPayment dunning true now) }

def recordPaymentFailure (dunning : Dunning) (invoiceId : String) (now : ℤ) : Option Books :=
  (b.failureEffects dunning invoiceId now).bind b.write

end Books

/-! ## The lifecycle -/

namespace Subscription

variable (sub : Subscription)

/-- The end of the trial. -/
def tickTrial (now : ℤ) : Subscription :=
  if sub.state = .trialing ∧ sub.trialEndMs.any (· ≤ now) then
    if sub.cancelAtPeriodEnd then { sub.cancelNow now with updatedMs := now }
    else
      let anchor := sub.trialEndMs.getD now
      { sub with
        state := .active
        currentPeriodStartMs := anchor
        currentPeriodEndMs := anchor + sub.interval.periodMs
        updatedMs := now }
  else sub

/-- The end of the period. -/
def tickPeriod (now : ℤ) : Subscription :=
  if (sub.state = .active ∨ sub.state = .pastDue) ∧ sub.currentPeriodEndMs ≤ now then
    if sub.cancelAtPeriodEnd then sub.cancelNow now
    else
      { sub with
        currentPeriodStartMs := sub.currentPeriodEndMs
        currentPeriodEndMs := sub.currentPeriodEndMs + sub.interval.periodMs
        updatedMs := now }
  else sub

/-- The end of the grace, or of the attempts. -/
def tickDunning (dunning : Dunning) (now : ℤ) : Subscription :=
  if sub.state = .pastDue
      ∧ (sub.graceEndMs.any (· ≤ now) = true ∨ dunning.maxAttempts ≤ sub.dunningAttempts) then
    sub.cancelNow now
  else sub

end Subscription

/-- `tick`: nothing is written while an operation holds the subscription; `none` when there is no
subscription. -/
def Books.tick (b : Books) (dunning : Dunning) (now : ℤ) : Option Books :=
  b.subscription.map fun sub =>
    if b.subscriptionFenced sub then b
    else { b with subscription := some (((sub.tickTrial now).tickPeriod now).tickDunning dunning now) }

end Billing
