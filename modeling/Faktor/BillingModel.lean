/-
# The books of an organization

The rows of one organization that payments, refunds, webhooks and the subscription's lifecycle read
and write, and what a settlement, a failure or a refund does to them.

* `Invoice.settle` : a credit, and the transition to paid;
* `Subscription.activate`, `Subscription.failPayment` : what a success and a failed payment do to the
  subscription;
* `settleRefundLedger` : the settled part of a refund;
* `Books` : the rows, with the fences that are held on them.
-/
import Faktor.KeyTable
import Faktor.PaymentModel

namespace Billing

open Payments (InvoiceStatus PaymentStatus checkedAdd validAmount validCurrency)

/-! ## Rows -/

/-- `InvoiceReconciliationState`. -/
inductive Reconciliation
  | unreconciled
  | matched
  | amountMismatch
  | currencyMismatch
  | providerInvoiceMissing
  deriving DecidableEq, Repr

def Reconciliation.isConflict : Reconciliation → Bool
  | amountMismatch | currencyMismatch | providerInvoiceMissing => true
  | _ => false

/-- An invoice; its lines, their tax and its period are written once and never read again here. -/
structure Invoice where
  id : String
  subscriptionId : Option String
  providerInvoiceId : Option String
  reconciliation : Reconciliation
  currency : String
  status : InvoiceStatus
  lastDunningPaymentId : Option String
  totalMinor : ℤ
  amountPaidMinor : ℤ
  amountRefundedMinor : ℤ
  paidMs : Option ℤ
  deriving DecidableEq, Repr

namespace Invoice

def balanceMinor (invoice : Invoice) : ℤ := max (invoice.totalMinor - invoice.amountPaidMinor) 0

/-- Add a credit that is clamped to the balance, and close the invoice when it is covered. -/
def settle (invoice : Invoice) (amount now : ℤ) : Option Invoice :=
  (checkedAdd invoice.amountPaidMinor (max 0 (min amount invoice.balanceMinor))).map fun paid =>
    let invoice := { invoice with amountPaidMinor := paid }
    if invoice.totalMinor ≤ paid ∧ invoice.status.canTransitionTo .paid = true then
      { invoice with status := .paid, paidMs := some now }
    else invoice

/-- What a provider's view of the invoice says of it. -/
def observe (invoice : Invoice) (currency : String) (amount : ℤ) : Reconciliation :=
  if currency ≠ invoice.currency then .currencyMismatch
  else if amount ≠ invoice.totalMinor then .amountMismatch
  else .matched

end Invoice

structure Payment where
  id : String
  invoiceId : String
  providerPaymentId : String
  amountMinor : ℤ
  refundedMinor : ℤ
  currency : String
  status : PaymentStatus
  deriving DecidableEq, Repr

inductive RefundStatus
  | pending
  | succeeded
  | failed
  deriving DecidableEq, Repr

namespace RefundStatus

def parse (raw : String) : Option RefundStatus :=
  if raw = "pending" ∨ raw = "processing" ∨ raw = "requires_action" then some pending
  else if raw = "succeeded" then some succeeded
  else if raw = "failed" ∨ raw = "canceled" then some failed
  else none

/-- A pending refund resolves to a terminal state. -/
def canTransitionTo (status next : RefundStatus) : Bool := status == pending && next != pending

end RefundStatus

structure Refund where
  id : String
  paymentId : String
  providerRefundId : String
  amountMinor : ℤ
  currency : String
  status : RefundStatus
  creditNoteId : Option String
  deriving DecidableEq, Repr

structure CreditNote where
  id : String
  invoiceId : String
  paymentId : String
  amountMinor : ℤ
  currency : String
  deriving DecidableEq, Repr

inductive SubscriptionState
  | trialing
  | active
  | pastDue
  | canceled
  deriving DecidableEq, Repr

namespace SubscriptionState

def parse (raw : String) : Option SubscriptionState :=
  if raw = "trialing" then some trialing
  else if raw = "active" then some active
  else if raw = "past_due" then some pastDue
  else if raw = "canceled" then some canceled
  else none

/-- A canceled subscription is terminal, and a live one never goes back to its trial. -/
def canTransitionTo : SubscriptionState → SubscriptionState → Bool
  | canceled, next => next == canceled
  | active, next | pastDue, next => next != trialing
  | trialing, _ => true

end SubscriptionState

inductive BillingInterval
  | monthly
  | annual
  deriving DecidableEq, Repr

def BillingInterval.periodMs : BillingInterval → ℤ
  | monthly => 30 * 24 * 60 * 60 * 1000
  | annual => 365 * 24 * 60 * 60 * 1000

structure Subscription where
  id : String
  providerSubscriptionId : String
  planId : String
  interval : BillingInterval
  quantity : ℕ
  state : SubscriptionState
  currentPeriodStartMs : ℤ
  currentPeriodEndMs : ℤ
  trialEndMs : Option ℤ
  cancelAtPeriodEnd : Bool
  canceledMs : Option ℤ
  dunningAttempts : ℕ
  graceEndMs : Option ℤ
  updatedMs : ℤ
  deriving DecidableEq, Repr

/-- The dunning policy: `max_attempts` and `grace_ms.max(0)`. -/
structure Dunning where
  maxAttempts : ℕ
  graceMs : ℤ
  deriving DecidableEq, Repr

/-- `u32::saturating_add(1)`. -/
def nextAttempt (attempts : ℕ) : ℕ := min (attempts + 1) (2 ^ 32 - 1)

namespace Subscription

variable (sub : Subscription)

/-- A settled invoice activates the subscription. -/
def activate (now : ℤ) : Option Subscription :=
  if sub.state.canTransitionTo .active then
    some { sub with state := .active, dunningAttempts := 0, graceEndMs := none, updatedMs := now }
  else none

def cancelNow (now : ℤ) : Subscription :=
  { sub with state := .canceled, canceledMs := some now, cancelAtPeriodEnd := false }

/-- A failed payment: the attempt is counted when `advance` says so, and the subscription is canceled
when its attempts are exhausted. -/
def failPayment (dunning : Dunning) (advance : Bool) (now : ℤ) : Option Subscription :=
  if sub.state.canTransitionTo .pastDue then
    let sub := { sub with
      state := .pastDue
      dunningAttempts := if advance then nextAttempt sub.dunningAttempts else sub.dunningAttempts
      graceEndMs := sub.graceEndMs.or (some (now + dunning.graceMs))
      updatedMs := now }
    some (if dunning.maxAttempts ≤ sub.dunningAttempts then sub.cancelNow now else sub)
  else none

end Subscription

/-- `settle_refund_ledger`, for a refund that succeeded; `none` when it was settled before or exceeds
the payment. -/
def settleRefundLedger (payment : Payment) (invoice : Invoice) (refund : Refund)
    (creditNoteId : String) : Option (Payment × Invoice × Refund × CreditNote) :=
  if refund.creditNoteId.isSome then none
  else
    match checkedAdd payment.refundedMinor refund.amountMinor,
        checkedAdd invoice.amountRefundedMinor refund.amountMinor with
    | some refunded, some invoiceRefunded =>
      if payment.amountMinor < refunded then none
      else
        some ({ payment with
                refundedMinor := refunded
                status := if payment.amountMinor ≤ refunded then .refunded else .partiallyRefunded },
          { invoice with amountRefundedMinor := invoiceRefunded },
          { refund with creditNoteId := some creditNoteId },
          { id := creditNoteId, invoiceId := invoice.id, paymentId := payment.id,
            amountMinor := refund.amountMinor, currency := refund.currency })
    | _, _ => none

/-! ## The books -/

/-- The leases that the writers of these rows ask about. -/
structure Fences where
  /-- The subscriptions that a plan, seat or cancel operation holds. -/
  mutations : List String
  /-- A subscribe operation holds the organization's subscription. -/
  subscribing : Bool
  /-- The payments that a refund holds. -/
  refunds : List String
  deriving DecidableEq, Repr

structure Books where
  subscription : Option Subscription
  invoices : KeyTable Invoice.id
  payments : KeyTable Payment.id
  refunds : KeyTable Refund.id
  creditNotes : KeyTable CreditNote.id
  fences : Fences

namespace Books

variable (b : Books)

/-- `payment_by_provider_id`. -/
def paymentByProviderId (providerPaymentId : String) : Option Payment :=
  b.payments.rows.find? fun p => p.providerPaymentId = providerPaymentId

/-- `invoice_by_provider_id`. -/
def invoiceByProviderId (providerInvoiceId : String) : Option Invoice :=
  b.invoices.rows.find? fun i => i.providerInvoiceId = some providerInvoiceId

/-- `refund_by_provider_id`. -/
def refundByProviderId (providerRefundId : String) : Option Refund :=
  b.refunds.rows.find? fun r => r.providerRefundId = providerRefundId

/-- `subscription_by_id`. -/
def subscriptionById (id : String) : Option Subscription := b.subscription.filter (·.id = id)

/-- `subscription_by_provider_id`. -/
def subscriptionByProviderId (id : String) : Option Subscription :=
  b.subscription.filter (·.providerSubscriptionId = id)

/-- `subscription_mutation_fence_active`. -/
def mutationFenced (subscriptionId : String) : Bool := b.fences.mutations.contains subscriptionId

/-- `settlement_fenced_by_subscription_mutation`. -/
def settlementFenced (invoice : Invoice) : Bool := invoice.subscriptionId.any b.mutationFenced

end Books

/-! ## Rows to write -/

/-- The rows that a transaction writes. -/
structure Effects where
  subscription : Option Subscription
  invoice : Option Invoice
  payment : Option Payment
  refund : Option Refund
  creditNote : Option CreditNote
  deriving DecidableEq, Repr

/-- `WebhookEffects::default`. -/
def Effects.none : Effects :=
  ⟨Option.none, Option.none, Option.none, Option.none, Option.none⟩

/-- Write the rows: the subscription, the payment and the refund are inserted or replaced, the invoice
is updated, and the credit note is inserted, which fails when its id is taken. -/
def Books.write (b : Books) (effects : Effects) : Option Books :=
  let b := { b with
    subscription := effects.subscription.or b.subscription
    invoices := effects.invoice.elim b.invoices b.invoices.replace
    payments := effects.payment.elim b.payments b.payments.put
    refunds := effects.refund.elim b.refunds b.refunds.put }
  match effects.creditNote with
  | some note => (b.creditNotes.insert? note).map fun notes => { b with creditNotes := notes }
  | none => some b

end Billing
