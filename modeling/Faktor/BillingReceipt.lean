/-
# One receipt for one provider payment

A provider names the money of one payment by its intent and by its charge.  A call records it under the
id that the provider answered, an event finds it under the id of its object or under the id that its
invoice names, and a reconciliation looks for it before the transaction that inserts it.

* `PaidOnce` : one row stands for the payment, it is credited once, and no more than its amount is
  refunded;
* `SameReceipt` : an event that receives the payment names it as the row that stands for it does, and an
  invoice that is paid does not credit it again;
* `paid_once_of_same_receipt` : in a run whose events meet the second, the first holds;
* `paidUnderBothIds_refunded_twice` : one payment, reported under both ids, is refunded twice.
-/
import Faktor.BillingFence
import Faktor.BillingScope

namespace Billing

open Payments (InvoiceStatus PaymentStatus checkedAdd)

/-! ## Credits -/

/-- The ids that a provider gives the money of one payment. -/
structure ProviderPayment where
  intent : String
  charge : String
  deriving DecidableEq, Repr

def ProviderPayment.names (P : ProviderPayment) (id : String) : Bool := id == P.intent || id == P.charge

/-- An amount that a payment row adds to what an invoice has received. -/
structure Credit where
  providerPaymentId : String
  amountMinor : ℤ
  deriving DecidableEq, Repr

/-- Rows that a transaction writes; a reconciliation makes them of a copy of the invoice. -/
structure Plan where
  effects : Effects
  copy : Option Invoice
  deriving DecidableEq, Repr

namespace Books

variable (b : Books)

/-- The rows that stand for a provider payment. -/
def standing (P : ProviderPayment) : List Payment :=
  b.payments.rows.filter fun p => P.names p.providerPaymentId

/-- The credit of a transaction: what its invoice has received more than before. -/
def credit (plan : Plan) : Option Credit :=
  plan.effects.payment.bind fun p => plan.effects.invoice.bind fun invoice =>
    (plan.copy.or (b.invoices.get? invoice.id)).bind fun before =>
      if before.amountPaidMinor < invoice.amountPaidMinor then
        some ⟨p.providerPaymentId, invoice.amountPaidMinor - before.amountPaidMinor⟩
      else none

/-- The payment rows after a transaction. -/
def paymentsAfter (effects : Effects) : KeyTable Payment.id :=
  effects.payment.elim b.payments b.payments.put

end Books

/-! ## Runs -/

/-- The rows of the organization, with the credits that have been given. -/
structure Receipts where
  desk : MutationDesk
  credits : List Credit

inductive ReceiptEvent
  | desk (event : MutationEvent)
  /-- A refund that the provider answered is recorded. -/
  | refund (c : RefundRecord)
  deriving DecidableEq, Repr

namespace MutationDesk

variable (d : MutationDesk)

/-- The rows that a transaction of a call writes for a payment. -/
def plannedByCall : MutationCall → Option Plan
  | .recordCharge q c =>
    if d.closed q.key then none else (d.register.books.chargeEffects c).map fun e => ⟨e, none⟩
  | .applyCharge q c invoice _ =>
    if d.closed q.key then none else (chargeEffects c invoice).map fun e => ⟨e, some invoice⟩
  | _ => none

/-- The rows that an event writes, when it is neither refused, nor a duplicate, nor stale. -/
def plannedByWebhook (dunning : Dunning) (delivery : Delivery) : Option Plan :=
  let r := d.register
  if r.books.blockedByFence delivery.event || delivery.event.id ∈ r.webhooks
      || r.stale delivery.event then none
  else (r.books.webhookEffects dunning delivery).map fun e => ⟨e, none⟩

/-- The rows that a transaction writes for a payment. -/
def planned (dunning : Dunning) : ReceiptEvent → Option Plan
  | .desk (.step i _) => ((d.calls[i]?).bind id).bind d.plannedByCall
  | .desk (.webhook delivery) => d.plannedByWebhook dunning delivery
  | .desk _ => none
  | .refund c => (d.register.books.refundEffects c).map fun e => ⟨e, none⟩

end MutationDesk

namespace Receipts

variable (r : Receipts)

def books : Books := r.desk.register.books

/-- The credits of a provider payment. -/
def credited (P : ProviderPayment) : List Credit :=
  r.credits.filter fun c => P.names c.providerPaymentId

/-- One event. -/
def step (dunning : Dunning) (r : Receipts) (event : ReceiptEvent) : Option Receipts :=
  let desk : Option MutationDesk :=
    match event with
    | .desk event => r.desk.step dunning event
    | .refund c => (r.books.recordRefund c).map fun books =>
      r.desk.commit { r.desk.register with books := books }
  desk.map fun desk =>
    { desk := desk
      credits := ((r.desk.planned dunning event).bind r.books.credit).toList ++ r.credits }

end Receipts

/-- **The payment is received once**: one row stands for it, it is credited once and by no more than its
amount, and no more than its amount is refunded. -/
structure PaidOnce (P : ProviderPayment) (r : Receipts) : Prop where
  oneRow : (r.books.standing P).length ≤ 1
  oneCredit : (r.credited P).length ≤ 1
  creditSettled : ∀ c ∈ r.credited P, ∃ p ∈ r.books.standing P,
    p.status.isSettled = true ∧ c.amountMinor ≤ p.amountMinor
  refunded : ∀ p ∈ r.books.standing P,
    ((r.books.standing P).map (·.refundedMinor)).sum ≤ max 0 p.amountMinor

/-! ## What the events must agree on -/

/-- What `invoice.paid` credits to an invoice. -/
def Invoice.paidBy (invoice : Invoice) (object : Object) : ℤ :=
  let total := (object.amount.or object.amountPaid).getD invoice.totalMinor
  let providerPaid := object.amountPaid.getD (if object.status.getD "paid" = "paid" then total else 0)
  min (max providerPaid 0) invoice.balanceMinor

/-- An invoice that `invoice.paid` finds open, in agreement with the provider, and credits. -/
def Invoice.takes (invoice : Invoice) (object : Object) : Bool :=
  let total := (object.amount.or object.amountPaid).getD invoice.totalMinor
  let currency := (object.currency.map String.toUpper).getD invoice.currency
  (object.id.or invoice.providerInvoiceId).isSome
    && decide (object.status.getD "paid" ∉
      ["processing", "pending", "requires_action", "open", "draft"])
    && !(invoice.observe currency total).isConflict
    && invoice.status.canTransitionTo .paid
    && decide (invoice.amountPaidMinor < invoice.totalMinor)
    && decide (0 < invoice.paidBy object)

namespace Books

variable (b : Books)

/-- The id under which an event looks for the payment that it receives, and the invoice that it is
for. -/
def receives (event : WebhookEvent) : Option (String × Invoice) :=
  let object := event.object
  match event.type with
  | .paymentSucceeded =>
    object.id.bind fun id =>
      ((((b.paymentByProviderId id).map (·.invoiceId)).or object.localInvoiceId).bind
        b.invoices.get?).map fun invoice => (id, invoice)
  | .invoicePaid =>
    ((b.eventInvoice object).filter (·.takes object)).map fun invoice =>
      (object.paymentId.getD (event.id ++ ":payment"), invoice)
  | _ => none

/-- The row that stands for the payment carries the id under which the event looks for it; an event of
an invoice that is paid names it, it has not settled, and it covers what the invoice takes. -/
def SameReceipt (P : ProviderPayment) (event : WebhookEvent) : Prop :=
  ∀ seen ∈ b.receives event, P.names seen.1 = true → ∀ p ∈ b.standing P,
    p.providerPaymentId = seen.1 ∧ (event.type = .invoicePaid →
      event.object.paymentId.isSome = true ∧ p.status.isTransient = true ∧
        seen.2.paidBy event.object ≤ p.amountMinor)

end Books

namespace MutationDesk

/-- A call records a payment under the id of the row that stands for it, and a reconciliation records
one for which no row stands. -/
def CallSameReceipt (d : MutationDesk) (P : ProviderPayment) : MutationCall → Prop
  | .recordCharge q c =>
    d.closed q.key = false → P.names c.providerPaymentId = true →
      ∀ p ∈ d.register.books.standing P, p.providerPaymentId = c.providerPaymentId
  | .applyCharge q c _ _ =>
    d.closed q.key = false → P.names c.providerPaymentId = true → d.register.books.standing P = []
  | _ => True

end MutationDesk

/-- **The receivers of the payment agree on it.** -/
def SameReceipt (P : ProviderPayment) (r : Receipts) : ReceiptEvent → Prop
  | .desk (.step i _) => ∀ call ∈ (r.desk.calls[i]?).bind id, r.desk.CallSameReceipt P call
  | .desk (.webhook delivery) =>
    delivery.event.id ∉ r.desk.register.webhooks → r.desk.register.stale delivery.event = false →
      r.books.SameReceipt P delivery.event
  | _ => True

/-- The random id of a new row is not the id of the row of another payment. -/
def NewId (dunning : Dunning) (r : Receipts) (event : ReceiptEvent) : Prop :=
  ∀ plan ∈ r.desk.planned dunning event, ∀ p ∈ plan.effects.payment,
    ∀ old ∈ r.books.payments.get? p.id, old.providerPaymentId = p.providerPaymentId

section Decide

variable {P : ProviderPayment} {r : Receipts} {d : MutationDesk} {event : WebhookEvent}

instance : Decidable (r.books.SameReceipt P event) :=
  inferInstanceAs (Decidable (∀ seen ∈ r.books.receives event, _ → ∀ p ∈ r.books.standing P, _))

instance : (call : MutationCall) → Decidable (d.CallSameReceipt P call)
  | .recordCharge q c =>
    inferInstanceAs (Decidable (d.closed q.key = false → P.names c.providerPaymentId = true →
      ∀ p ∈ d.register.books.standing P, p.providerPaymentId = c.providerPaymentId))
  | .applyCharge q c _ _ =>
    inferInstanceAs (Decidable (d.closed q.key = false → P.names c.providerPaymentId = true →
      d.register.books.standing P = []))
  | .replay _ | .read _ | .acquireClaim _ _ | .acquireFence _ _ | .abandon _ | .recheck _ _
  | .fail _ | .dispatch _ _ | .await _ _ | .markUnknown _ _ | .record _ _ | .settle _
  | .awaitCharge _ | .failCharge _ | .unknownCharge _ | .readForChange _ _ _ | .applyChange _ _
  | .findCharge _ _ | .readForCharge _ _ _ | .applyNothing _ => .isTrue trivial

instance : (event : ReceiptEvent) → Decidable (SameReceipt P r event)
  | .desk (.step i _) =>
    inferInstanceAs (Decidable (∀ call ∈ (r.desk.calls[i]?).bind id, r.desk.CallSameReceipt P call))
  | .desk (.webhook delivery) =>
    inferInstanceAs (Decidable (delivery.event.id ∉ r.desk.register.webhooks →
      r.desk.register.stale delivery.event = false → r.books.SameReceipt P delivery.event))
  | .desk (.change _) | .desk (.pay _) | .desk (.drop _) | .desk .releaseResolved | .desk .restart
  | .desk (.tick _) | .desk (.failure _ _) | .desk (.reconcile _ _) | .refund _ => .isTrue trivial

instance (dunning : Dunning) (event : ReceiptEvent) : Decidable (NewId dunning r event) :=
  inferInstanceAs (Decidable (∀ plan ∈ r.desk.planned dunning event, ∀ p ∈ plan.effects.payment,
    ∀ old ∈ r.books.payments.get? p.id, old.providerPaymentId = p.providerPaymentId))

end Decide

/-! ## What a transaction does to the payment rows -/

/-- A row that takes the place of one of the same payment and of the same amount. -/
structure Follows (b : Books) (p old : Payment) : Prop where
  get : b.payments.get? p.id = some old
  providerId : p.providerPaymentId = old.providerPaymentId
  amount : p.amountMinor = old.amountMinor
  invoiceId : p.invoiceId = old.invoiceId
  refunded : old.refundedMinor ≤ max 0 old.amountMinor → p.refundedMinor ≤ max 0 p.amountMinor
  settled : old.status.isSettled = true → p.status.isSettled = true

section Credit

variable {b : Books} {plan : Plan} {c : Credit} {p : Payment}

theorem credit_named (hp : plan.effects.payment = some p) (h : c ∈ b.credit plan) :
    c.providerPaymentId = p.providerPaymentId := by
  rw [Option.mem_def, Books.credit, hp, Option.bind_some] at h
  obtain ⟨invoice, -, h⟩ := Option.bind_eq_some_iff.mp h
  obtain ⟨before, -, h⟩ := Option.bind_eq_some_iff.mp h
  split_ifs at h
  obtain rfl := Option.some.inj h
  rfl

theorem credit_of_no_invoice (h : plan.effects.invoice = none) : b.credit plan = none := by
  rw [Books.credit, h]
  cases plan.effects.payment <;> rfl

/-- An invoice that has received what it had received before gives no credit. -/
theorem credit_of_unchanged {invoice before : Invoice} (hi : plan.effects.invoice = some invoice)
    (hbefore : plan.copy.or (b.invoices.get? invoice.id) = some before)
    (hsame : invoice.amountPaidMinor = before.amountPaidMinor) : b.credit plan = none := by
  rw [Books.credit, hi]
  cases plan.effects.payment with
  | none => rfl
  | some p =>
    rw [Option.bind_some, Option.bind_some, hbefore, Option.bind_some, hsame, if_neg (lt_irrefl _)]

theorem not_credit_of_unchanged {invoice before : Invoice}
    (hi : plan.effects.invoice = some invoice)
    (hbefore : plan.copy.or (b.invoices.get? invoice.id) = some before)
    (hsame : invoice.amountPaidMinor = before.amountPaidMinor) : c ∉ b.credit plan := by
  rw [credit_of_unchanged hi hbefore hsame]
  exact Option.not_mem_none c

theorem settle_amountPaid {invoice settled : Invoice} {amount now : ℤ}
    (h : invoice.settle amount now = some settled) :
    settled.amountPaidMinor = invoice.amountPaidMinor + max 0 (min amount invoice.balanceMinor) := by
  obtain ⟨paid, hpaid, rfl⟩ := Option.map_eq_some_iff.mp h
  have hsum : paid = invoice.amountPaidMinor + max 0 (min amount invoice.balanceMinor) := by
    unfold checkedAdd at hpaid
    split_ifs at hpaid
    exact (Option.some.inj hpaid).symm
  simp only
  split_ifs <;> exact hsum

/-- A settlement credits at most the amount that is settled. -/
theorem credit_le {invoice before settled : Invoice} {amount now : ℤ}
    (hi : plan.effects.invoice = some settled) (hsettle : invoice.settle amount now = some settled)
    (hbefore : plan.copy.or (b.invoices.get? settled.id) = some before)
    (hsame : before.amountPaidMinor = invoice.amountPaidMinor) (h : c ∈ b.credit plan) :
    c.amountMinor ≤ amount := by
  rw [Option.mem_def, Books.credit, hi] at h
  obtain ⟨p, -, h⟩ := Option.bind_eq_some_iff.mp h
  rw [Option.bind_some, hbefore, Option.bind_some] at h
  split_ifs at h with hraise
  obtain rfl := Option.some.inj h
  have hpaid := settle_amountPaid hsettle
  show settled.amountPaidMinor - before.amountPaidMinor ≤ amount
  omega

/-- The invoice of a settlement is read inside the transaction. -/
theorem credit_le_stored {e : Effects} {invoice before settled : Invoice} {amount now : ℤ}
    (hi : e.invoice = some settled) (hsettle : invoice.settle amount now = some settled)
    (hget : b.invoices.get? settled.id = some before)
    (hsame : before.amountPaidMinor = invoice.amountPaidMinor) (h : c ∈ b.credit ⟨e, none⟩) :
    c.amountMinor ≤ amount :=
  @credit_le b ⟨e, none⟩ c invoice before settled amount now hi hsettle hget hsame h

end Credit

/-- **What an event does to the payment rows.** -/
inductive PaymentEffect (b : Books) (event : WebhookEvent) (e : Effects) : Prop
  | nothing (hpayment : e.payment = none)
  /-- A row changes, and no invoice is credited. -/
  | kept {p old : Payment} (hpayment : e.payment = some p) (hfollows : Follows b p old)
      (hcredit : b.credit ⟨e, none⟩ = none)
  /-- A row settles, and its invoice is credited. -/
  | settled {p old : Payment} (hpayment : e.payment = some p) (hfollows : Follows b p old)
      (hold : old.status.isTransient = true) (hsettled : p.status.isSettled = true)
      (hcredit : ∀ c ∈ b.credit ⟨e, none⟩, c.amountMinor ≤ p.amountMinor)
  /-- An invoice is paid, and credited by a payment that is there. -/
  | paid {p old : Payment} {invoice : Invoice} (hpayment : e.payment = some p)
      (hfollows : Follows b p old) (htype : event.type = .invoicePaid)
      (hreceives : b.receives event = some (p.providerPaymentId, invoice))
      (hsettled : old.status.isTransient = true → p.status.isSettled = true)
      (hcredit : ∀ c ∈ b.credit ⟨e, none⟩, c.amountMinor ≤ invoice.paidBy event.object)
  /-- A row is inserted. -/
  | minted {p : Payment} {invoice : Invoice} (hpayment : e.payment = some p)
      (hfree : b.paymentByProviderId p.providerPaymentId = none ∨
        event.type = .invoicePaid ∧ event.object.paymentId = none)
      (hinvoice : (b.invoices.get? p.invoiceId).isSome = true)
      (hreceives : b.receives event = some (p.providerPaymentId, invoice))
      (hrefunded : p.refundedMinor = 0) (hsettled : p.status.isSettled = true)
      (hcredit : ∀ c ∈ b.credit ⟨e, none⟩, c.amountMinor ≤ p.amountMinor)

section Webhooks

variable {b : Books} {dunning : Dunning} {event : WebhookEvent} {e : Effects} {now : ℤ}
  {uuid : String}

/-- A transient payment may succeed. -/
theorem canSucceed_of_isTransient {status : PaymentStatus} (h : status.isTransient = true) :
    status.canTransitionTo .succeeded = true := by
  cases status <;> first | rfl | cases h

/-- A row with another status. -/
theorem Follows.setStatus {p : Payment} {status : PaymentStatus} (h : b.payments.get? p.id = some p)
    (hsettled : p.status.isSettled = true → status.isSettled = true) :
    Follows b { p with status := status } p :=
  ⟨h, rfl, rfl, rfl, fun h => h, hsettled⟩

theorem Follows.setTransient {p : Payment} {status : PaymentStatus}
    (h : b.payments.get? p.id = some p) (hold : p.status.isTransient = true) :
    Follows b { p with status := status } p := by
  refine .setStatus h fun hsettled => ?_
  rw [PaymentStatus.not_isSettled_of_isTransient hold] at hsettled
  cases hsettled

/-- The invoice that a settlement starts from is its row. -/
theorem get?_of_settle {invoice settled : Invoice} {amount : ℤ}
    (hget : b.invoices.get? invoice.id = some invoice)
    (h : invoice.settle amount now = some settled) :
    b.invoices.get? settled.id = some invoice := by
  rw [(settle_keeps h).1]
  exact hget

theorem receipt_paymentSucceeded (htype : event.type = .paymentSucceeded)
    (h : b.webhookPaymentSucceeded event.object now uuid = some e) : PaymentEffect b event e := by
  unfold Books.webhookPaymentSucceeded at h
  cases hid : event.object.id with
  | none =>
    rw [hid] at h
    obtain rfl := Option.some.inj h
    exact .nothing rfl
  | some id =>
    rw [hid] at h
    simp only at h
    split at h
    · obtain rfl := Option.some.inj h
      exact .nothing rfl
    · next invoice hinvoice =>
      obtain ⟨iid, -, hget⟩ := Option.bind_eq_some_iff.mp hinvoice
      have hrow := (KeyTable.get?_eq_some.mp hget).2 ▸ hget
      have hreceives : b.receives event = some (id, invoice) := by
        rw [Books.receives, htype]
        simp only [hid, Option.bind_some, hinvoice, Option.map_some]
      split_ifs at h
      cases hpayment : b.paymentByProviderId id with
      | some payment =>
        obtain ⟨hget', hpid⟩ := mem_of_paymentByProviderId hpayment
        simp only [hpayment, Books.paymentSucceeded] at h
        split_ifs at h with _ hagrees hstatus
        · obtain rfl := Option.some.inj h
          exact .nothing rfl
        · obtain ⟨settled, hsettled, rfl⟩ := Option.map_eq_some_iff.mp h
          have hold : payment.status.isTransient = true :=
            PaymentStatus.isTransient_of_canTransitionTo_succeeded (by simpa using hstatus)
          refine .settled rfl (.setTransient hget' hold) hold rfl fun c hc => ?_
          have hle := credit_le_stored rfl hsettled (get?_of_settle hrow hsettled) rfl hc
          -- an amount that the event names is the amount of the row
          have hamount : (event.object.amountMinor.or
              (event.object.amount.or event.object.amountReceived)).getD payment.amountMinor
                = payment.amountMinor := by
            cases hamount : event.object.amountMinor.or
                (event.object.amount.or event.object.amountReceived) with
            | none => rfl
            | some amount =>
              rw [hamount] at hagrees
              simp only [Option.any_some, bne_iff_ne, Bool.or_eq_true, not_or] at hagrees
              exact not_not.mp hagrees.1
          rw [hamount] at hle
          exact hle
      | none =>
        simp only [hpayment, Books.paymentSucceeded] at h
        split_ifs at h
        obtain ⟨settled, hsettled, rfl⟩ := Option.map_eq_some_iff.mp h
        exact .minted rfl (.inl hpayment) (by rw [hrow]; rfl) hreceives rfl rfl fun c hc =>
          credit_le_stored rfl hsettled (get?_of_settle hrow hsettled) rfl hc

theorem receipt_paymentProcessing {next : Payments.Progress} {object : Object}
    (h : b.webhookPaymentProcessing next object = some e) : PaymentEffect b event e := by
  unfold Books.webhookPaymentProcessing at h
  split at h
  · obtain rfl := Option.some.inj h
    exact .nothing rfl
  · next payment hpayment =>
    obtain ⟨id, -, hfind⟩ := Option.bind_eq_some_iff.mp hpayment
    split_ifs at h with hstatus
    · obtain rfl := Option.some.inj h
      have hold : payment.status.isTransient = true :=
        PaymentStatus.isTransient_of_canTransitionTo_isTransient hstatus (by cases next <;> rfl)
      exact .kept rfl (.setTransient (mem_of_paymentByProviderId hfind).1 hold)
        (credit_of_no_invoice rfl)
    · obtain rfl := Option.some.inj h
      exact .nothing rfl

/-- A failure marks a row that had not settled, and credits nothing. -/
theorem receipt_failInvoice {invoice : Invoice} {identity : String} {payment : Option Payment}
    (hget : b.invoices.get? invoice.id = some invoice)
    (hpayment : ∀ p ∈ payment, ∃ old, Follows b p old)
    (h : b.failInvoice dunning invoice identity payment now = some e) : PaymentEffect b event e := by
  unfold Books.failInvoice at h
  split_ifs at h
  obtain rfl := Option.some.inj h
  cases payment with
  | none => exact .nothing rfl
  | some p =>
    obtain ⟨old, hold⟩ := hpayment p rfl
    exact .kept rfl hold (credit_of_unchanged rfl hget rfl)

theorem receipt_failed {payment : Option Payment} (hpayment : ∀ p ∈ payment, ∃ old, Follows b p old) :
    PaymentEffect b event { Effects.none with payment := payment } := by
  cases payment with
  | none => exact .nothing rfl
  | some p =>
    obtain ⟨old, hold⟩ := hpayment p rfl
    exact .kept rfl hold (credit_of_no_invoice rfl)

theorem receipt_paymentFailed {object : Object}
    (h : b.webhookPaymentFailed dunning object now = some e) : PaymentEffect b event e := by
  unfold Books.webhookPaymentFailed at h
  split at h
  · obtain rfl := Option.some.inj h
    exact .nothing rfl
  · split at h
    · obtain rfl := Option.some.inj h
      exact .nothing rfl
    · next payment hpayment =>
      split_ifs at h with hstatus
      · obtain rfl := Option.some.inj h
        exact .nothing rfl
      · have hold : payment.status.isTransient = true :=
          PaymentStatus.isTransient_of_canTransitionTo_failed (by simpa using hstatus)
        have hfollows : ∀ p ∈ some { payment with status := PaymentStatus.failed },
            ∃ old, Follows b p old := by
          intro p hp
          obtain rfl := Option.some.inj hp
          exact ⟨payment, .setTransient (mem_of_paymentByProviderId hpayment).1 hold⟩
        simp only at h
        split at h
        · obtain rfl := Option.some.inj h
          exact receipt_failed hfollows
        · next invoice hinvoice =>
          split at h
          · obtain rfl := Option.some.inj h
            exact receipt_failed hfollows
          · exact receipt_failInvoice ((KeyTable.get?_eq_some.mp hinvoice).2 ▸ hinvoice) hfollows h

theorem receipt_invoiceFailed {eventId : String} {paymentFailed : Bool} {object : Object}
    (h : b.webhookInvoiceFailed dunning eventId paymentFailed object now = some e) :
    PaymentEffect b event e := by
  have hfollows : ∀ p ∈ (b.failingPayment paymentFailed object).map
      fun payment => { payment with status := PaymentStatus.failed }, ∃ old, Follows b p old := by
    intro p hp
    obtain ⟨payment, hfailing, rfl⟩ := Option.map_eq_some_iff.mp hp
    unfold Books.failingPayment at hfailing
    split_ifs at hfailing
    obtain ⟨hfind, hstatus⟩ := Option.filter_eq_some_iff.mp hfailing
    obtain ⟨id, -, hfind⟩ := Option.bind_eq_some_iff.mp hfind
    exact ⟨payment, .setTransient (mem_of_paymentByProviderId hfind).1
      (PaymentStatus.isTransient_of_canTransitionTo_failed hstatus)⟩
  unfold Books.webhookInvoiceFailed at h
  simp only at h
  split at h
  · obtain rfl := Option.some.inj h
    exact receipt_failed hfollows
  · next invoice hinvoice =>
    split_ifs at h
    · obtain rfl := Option.some.inj h
      exact receipt_failed hfollows
    · exact receipt_failInvoice (get?_of_eventInvoice hinvoice) hfollows h

/-- A settled refund follows its payment row, and credits nothing. -/
theorem receipt_settleRefund {payment payment' : Payment} {invoice invoice' : Invoice}
    {refund refund' : Refund} {note : CreditNote} {noteId : String}
    (hpayment : b.payments.get? payment.id = some payment)
    (hinvoice : b.invoices.get? invoice.id = some invoice)
    (h : settleRefundLedger payment invoice refund noteId = some (payment', invoice', refund', note)) :
    Follows b payment' payment ∧
      b.credit ⟨⟨none, some invoice', some payment', some refund', some note⟩, none⟩ = none := by
  unfold settleRefundLedger at h
  split_ifs at h
  split at h
  · split_ifs at h with hover hfull
    all_goals
      simp only [Option.some.injEq, Prod.mk.injEq] at h
      obtain ⟨rfl, rfl, -, -⟩ := h
      refine ⟨⟨hpayment, rfl, rfl, rfl, fun _ => ?_, fun _ => rfl⟩, credit_of_unchanged rfl hinvoice rfl⟩
      exact le_trans (not_lt.mp hover) (le_max_right _ _)
  · cases h

theorem receipt_refund {object : Object} (h : b.webhookRefundObject object uuid = some e) :
    PaymentEffect b event e := by
  unfold Books.webhookRefundObject at h
  split at h
  · next refund hrefund =>
    unfold Books.webhookRefund at h
    split_ifs at h
    · obtain rfl := Option.some.inj h
      exact .nothing rfl
    · split at h
      · cases h
      · split_ifs at h
        · obtain rfl := Option.some.inj h
          exact .nothing rfl
        · obtain rfl := Option.some.inj h
          exact .nothing rfl
        · split at h
          · obtain rfl := Option.some.inj h
            exact .nothing rfl
          · next payment hpayment =>
            split at h
            · obtain rfl := Option.some.inj h
              exact .nothing rfl
            · next invoice hinvoice =>
              obtain ⟨⟨payment', invoice', refund', note⟩, hsettle, rfl⟩ :=
                Option.map_eq_some_iff.mp h
              obtain ⟨hfollows, hcredit⟩ := receipt_settleRefund
                ((KeyTable.get?_eq_some.mp hpayment).2 ▸ hpayment)
                ((KeyTable.get?_eq_some.mp hinvoice).2 ▸ hinvoice) hsettle
              exact .kept rfl hfollows hcredit
  · split_ifs at h
    obtain rfl := Option.some.inj h
    exact .nothing rfl

/-- The row that `invoice.paid` binds. -/
theorem receipt_paidRow {invoice settled : Invoice} {reconciliation : Reconciliation}
    {sub : Option Subscription} {paid : ℤ} (htype : event.type = .invoicePaid)
    (hget : b.invoices.get? invoice.id = some invoice)
    (hreceives : b.receives event
      = some (event.object.paymentId.getD (event.id ++ ":payment"), invoice))
    (hpaid : paid = invoice.paidBy event.object)
    (hcredit : ∀ p, ∀ c ∈ b.credit ⟨{ Effects.none with
      subscription := sub, invoice := some settled, payment := some p }, none⟩,
      c.amountMinor ≤ paid) :
    PaymentEffect b event { Effects.none with
      subscription := sub
      invoice := some settled
      payment := some (b.paidRow event.id event.object.paymentId
        { invoice with reconciliation := reconciliation } paid uuid) } := by
  have hthere : (b.invoices.get? invoice.id).isSome = true := by rw [hget]; rfl
  cases hid : event.object.paymentId with
  | none =>
    rw [hid] at hreceives
    exact .minted rfl (.inr ⟨htype, hid⟩) hthere hreceives rfl rfl fun c hc => hcredit _ c hc
  | some id =>
    rw [hid, Option.getD_some] at hreceives
    cases hfind : b.paymentByProviderId id with
    | none =>
      simp only [Books.paidRow, hfind]
      exact .minted rfl (.inl hfind) hthere hreceives rfl rfl fun c hc => hcredit _ c hc
    | some old =>
      obtain ⟨hget', hold⟩ := mem_of_paymentByProviderId hfind
      simp only [Books.paidRow, hfind]
      rw [hpaid] at hcredit
      split_ifs with hstatus
      · have htransient := PaymentStatus.isTransient_of_canTransitionTo_succeeded hstatus
        exact .paid rfl (.setTransient hget' htransient) htype (hold ▸ hreceives) (fun _ => rfl)
          fun c hc => hcredit _ c hc
      · refine .paid rfl (.setStatus hget' fun h => h) htype (hold ▸ hreceives) (fun htransient => ?_)
          fun c hc => hcredit _ c hc
        exact absurd (canSucceed_of_isTransient htransient) hstatus

theorem receipt_invoicePaid (htype : event.type = .invoicePaid)
    (h : b.webhookInvoicePaid event.id event.object now uuid = some e) : PaymentEffect b event e := by
  unfold Books.webhookInvoicePaid at h
  split at h
  · obtain rfl := Option.some.inj h
    exact .nothing rfl
  · next invoice hinvoice =>
    have hget := get?_of_eventInvoice hinvoice
    split at h
    · cases h
    · split at h
      · obtain rfl := Option.some.inj h
        exact .nothing rfl
      · next hnamed =>
        simp only at h
        generalize hproviderPaid : event.object.amountPaid.getD _ = providerPaid at h
        split at h
        · obtain rfl := Option.some.inj h
          exact .nothing rfl
        · next hfinal =>
          split at h
          · obtain rfl := Option.some.inj h
            exact .nothing rfl
          · next hopen =>
            split at h
            · obtain rfl := Option.some.inj h
              exact .nothing rfl
            · next howed =>
              obtain ⟨settled, hsettled, rfl⟩ := Option.map_eq_some_iff.mp h
              have hpaid : min (max providerPaid 0) invoice.balanceMinor
                  = invoice.paidBy event.object := by
                rw [Invoice.paidBy, hproviderPaid]
              have htakes : invoice.takes event.object = true := by
                simp only [Bool.or_eq_true, not_or, Bool.not_eq_true, Bool.not_eq_false'] at hopen
                rw [not_or, not_le, not_le] at howed
                have hid : (event.object.id.or invoice.providerInvoiceId).isSome = true := by
                  rwa [Option.isNone_iff_eq_none, ← ne_eq, ← Option.isSome_iff_ne_none] at hnamed
                simp only [Invoice.takes, hid, hopen.1, hopen.2, Bool.true_and, Bool.not_false,
                  Bool.and_eq_true, decide_eq_true_eq]
                exact ⟨⟨⟨⟨hfinal, trivial⟩, trivial⟩, howed.1⟩, hpaid ▸ howed.2⟩
              have hreceives : b.receives event
                  = some (event.object.paymentId.getD (event.id ++ ":payment"), invoice) := by
                rw [Books.receives, htype]
                simp only [hinvoice, Option.filter_some, htakes, if_true, Option.map_some]
              have hstored : b.invoices.get? settled.id = some invoice := by
                rw [(settle_keeps hsettled).1]
                exact hget
              exact receipt_paidRow htype hget hreceives hpaid fun p c hc =>
                credit_le_stored rfl hsettled hstored rfl hc

/-- **Every event** has one of these effects. -/
theorem webhookEffects_receipt {delivery : Delivery}
    (h : b.webhookEffects dunning delivery = some e) : PaymentEffect b delivery.event e := by
  unfold Books.webhookEffects at h
  cases htype : delivery.event.type <;> simp only [htype] at h
  case paymentSucceeded => exact receipt_paymentSucceeded htype h
  case paymentProcessing next => exact receipt_paymentProcessing h
  case paymentFailed => exact receipt_paymentFailed h
  case refund => exact receipt_refund h
  case invoicePaid => exact receipt_invoicePaid htype h
  case invoiceFailed paymentFailed => exact receipt_invoiceFailed h
  case subscriptionUpdated =>
    refine .nothing ?_
    unfold Books.webhookSubscriptionUpdated at h
    split at h
    · obtain rfl := Option.some.inj h
      rfl
    · split_ifs at h <;> obtain rfl := Option.some.inj h <;> rfl
  case subscriptionDeleted =>
    refine .nothing ?_
    unfold Books.webhookSubscriptionDeleted at h
    split at h
    · obtain rfl := Option.some.inj h
      rfl
    · split_ifs at h <;> obtain rfl := Option.some.inj h <;> rfl
  case other =>
    obtain rfl := Option.some.inj h
    exact .nothing rfl

end Webhooks

/-! ## What keeps the payment received once -/

/-- A transaction as the payment sees it. -/
inductive Entry (P : ProviderPayment) (b : Books) (plan : Plan) : Prop
  /-- It writes no row of the payment. -/
  | elsewhere (h : ∀ p ∈ plan.effects.payment, P.names p.providerPaymentId = false)
  | kept {p old : Payment} (hpayment : plan.effects.payment = some p) (hfollows : Follows b p old)
      (hcredit : b.credit plan = none)
  /-- The row settles. -/
  | settled {p old : Payment} (hpayment : plan.effects.payment = some p) (hfollows : Follows b p old)
      (hold : old.status.isTransient = true) (hsettled : p.status.isSettled = true)
      (hcredit : ∀ c ∈ b.credit plan, c.amountMinor ≤ p.amountMinor)
  /-- The first row of the payment is inserted. -/
  | inserted {p : Payment} (hpayment : plan.effects.payment = some p) (hnone : b.standing P = [])
      (hrefunded : p.refundedMinor = 0)
      (hcredit : ∀ c ∈ b.credit plan, p.status.isSettled = true ∧ c.amountMinor ≤ p.amountMinor)

section Standing

variable {P : ProviderPayment} {b : Books} {p old : Payment}

theorem mem_standing : p ∈ b.standing P ↔ p ∈ b.payments.rows ∧ P.names p.providerPaymentId = true :=
  List.mem_filter

/-- The standing rows after a row is written. -/
theorem standing_put {b' : Books} (h : b'.payments = b.payments.put p) :
    b'.standing P = (b.standing P).filter (fun q => !decide (q.id = p.id))
      ++ if P.names p.providerPaymentId then [p] else [] := by
  rw [Books.standing, h]
  show ((b.payments.rows.filter fun q => !decide (q.id = p.id)) ++ [p]).filter _ = _
  rw [List.filter_append, List.filter_filter, Books.standing, List.filter_filter]
  congr 1
  · apply List.filter_congr
    intro q _
    exact Bool.and_comm _ _
  · by_cases hp : P.names p.providerPaymentId = true
    · simp [hp]
    · simp [hp]

/-- The row of another payment leaves the standing rows alone. -/
theorem standing_put_of_not_names {b' : Books} (h : b'.payments = b.payments.put p)
    (hp : P.names p.providerPaymentId = false)
    (hnew : ∀ old ∈ b.payments.get? p.id, old.providerPaymentId = p.providerPaymentId) :
    b'.standing P = b.standing P := by
  rw [standing_put h, hp, if_neg Bool.false_ne_true, List.append_nil]
  refine List.filter_eq_self.mpr fun q hq => ?_
  obtain ⟨hq, hnames⟩ := mem_standing.mp hq
  rw [Bool.not_eq_true', decide_eq_false_iff_not]
  intro hid
  rw [hnew q (hid ▸ KeyTable.get?_of_mem hq), hp] at hnames
  cases hnames

/-- A row that follows the only one takes its place. -/
theorem standing_put_of_follows {b' : Books} (h : b'.payments = b.payments.put p)
    (hfollows : Follows b p old) (hone : (b.standing P).length ≤ 1)
    (hp : P.names p.providerPaymentId = true) : b.standing P = [old] ∧ b'.standing P = [p] := by
  obtain ⟨hmem, hid⟩ := KeyTable.get?_eq_some.mp hfollows.get
  have hold : old ∈ b.standing P := mem_standing.mpr ⟨hmem, hfollows.providerId ▸ hp⟩
  have hstanding : b.standing P = [old] := by
    obtain ⟨q, hq⟩ := List.length_eq_one_iff.mp
      (le_antisymm hone (List.length_pos_of_mem hold))
    rw [hq] at hold ⊢
    rw [List.mem_singleton.mp hold]
  refine ⟨hstanding, ?_⟩
  rw [standing_put h, hstanding, if_pos hp, List.filter_cons_of_neg (by simp [hid]), List.filter_nil,
    List.nil_append]

end Standing

section Entries

variable {P : ProviderPayment} {r r' : Receipts} {plan : Plan}

/-- The payment with its only row. -/
theorem PaidOnce.of_standing {p : Payment} (hstanding : r.books.standing P = [p])
    (hone : (r.credited P).length ≤ 1)
    (hcredit : ∀ c ∈ r.credited P, p.status.isSettled = true ∧ c.amountMinor ≤ p.amountMinor)
    (hrefunded : p.refundedMinor ≤ max 0 p.amountMinor) : PaidOnce P r where
  oneRow := by rw [hstanding]; exact le_refl 1
  oneCredit := hone
  creditSettled c hc := ⟨p, by rw [hstanding]; exact List.mem_singleton_self p, hcredit c hc⟩
  refunded q hq := by
    rw [hstanding] at hq ⊢
    obtain rfl := List.mem_singleton.mp hq
    simpa using hrefunded

/-- What is known of the only row. -/
theorem PaidOnce.of_mem {p : Payment} (h : PaidOnce P r) (hstanding : r.books.standing P = [p]) :
    (∀ c ∈ r.credited P, p.status.isSettled = true ∧ c.amountMinor ≤ p.amountMinor) ∧
      p.refundedMinor ≤ max 0 p.amountMinor := by
  constructor
  · intro c hc
    obtain ⟨q, hq, hsettled⟩ := h.creditSettled c hc
    rw [hstanding] at hq
    obtain rfl := List.mem_singleton.mp hq
    exact hsettled
  · have hrefunded := h.refunded p (by rw [hstanding]; exact List.mem_singleton_self p)
    rw [hstanding] at hrefunded
    simpa using hrefunded

/-- Without a settled row there is no credit. -/
theorem PaidOnce.credited_eq_nil (h : PaidOnce P r)
    (hnone : ∀ p ∈ r.books.standing P, p.status.isSettled = false) : r.credited P = [] := by
  refine List.eq_nil_iff_forall_not_mem.mpr fun c hc => ?_
  obtain ⟨p, hp, hsettled, -⟩ := h.creditSettled c hc
  rw [hnone p hp] at hsettled
  cases hsettled

/-- The credits after a transaction. -/
theorem credited_after (hcredits : r'.credits = (r.books.credit plan).toList ++ r.credits) :
    r'.credited P
      = (r.books.credit plan).toList.filter (fun c => P.names c.providerPaymentId) ++ r.credited P := by
  rw [Receipts.credited, hcredits, List.filter_append, Receipts.credited]

/-- A payment without a credit that gets one. -/
theorem credited_first (hcredits : r'.credits = (r.books.credit plan).toList ++ r.credits)
    (hnone : r.credited P = []) :
    (r'.credited P).length ≤ 1 ∧ ∀ c ∈ r'.credited P, c ∈ r.books.credit plan := by
  rw [credited_after hcredits, hnone, List.append_nil]
  constructor
  · refine le_trans (List.length_filter_le _ _) ?_
    cases r.books.credit plan with
    | none => exact Nat.zero_le 1
    | some c => exact le_refl 1
  · intro c hc
    exact Option.mem_toList.mp (List.mem_of_mem_filter hc)

/-- **Every such transaction keeps the payment received once.** -/
theorem PaidOnce.entry (h : PaidOnce P r) (hentry : Entry P r.books plan)
    (hnew : ∀ p ∈ plan.effects.payment, ∀ old ∈ r.books.payments.get? p.id,
      old.providerPaymentId = p.providerPaymentId)
    (hrows : r'.books.payments = r.books.paymentsAfter plan.effects)
    (hcredits : r'.credits = (r.books.credit plan).toList ++ r.credits) : PaidOnce P r' := by
  -- a transaction of another payment
  have hother : (∀ p ∈ plan.effects.payment, P.names p.providerPaymentId = false) →
      PaidOnce P r' := by
    intro hp
    have hcredited : r'.credited P = r.credited P := by
      rw [credited_after hcredits, List.filter_eq_nil_iff.mpr, List.nil_append]
      intro c hc
      have hc := Option.mem_toList.mp hc
      cases hpayment : plan.effects.payment with
      | none =>
        rw [Books.credit, hpayment] at hc
        cases hc
      | some p => simp [credit_named hpayment hc, hp p hpayment]
    have hstanding : r'.books.standing P = r.books.standing P := by
      cases hpayment : plan.effects.payment with
      | none =>
        rw [Books.standing, hrows, Books.paymentsAfter, hpayment]
        rfl
      | some p =>
        rw [Books.paymentsAfter, hpayment] at hrows
        exact standing_put_of_not_names hrows (hp p hpayment) (hnew p hpayment)
    constructor
    · rw [hstanding]
      exact h.oneRow
    · rw [hcredited]
      exact h.oneCredit
    · rw [hcredited, hstanding]
      exact h.creditSettled
    · rw [hstanding]
      exact h.refunded
  -- a row of the payment that follows the one that stands for it
  have hfollowed : ∀ {p old}, plan.effects.payment = some p → Follows r.books p old →
      P.names p.providerPaymentId = true →
      r.books.standing P = [old] ∧ r'.books.standing P = [p] := by
    intro p old hpayment hfollows hp
    rw [Books.paymentsAfter, hpayment] at hrows
    exact standing_put_of_follows hrows hfollows h.oneRow hp
  have hforeign : ∀ {p}, plan.effects.payment = some p → P.names p.providerPaymentId = false →
      PaidOnce P r' := by
    intro p hpayment hp
    refine hother fun q hq => ?_
    rw [hpayment] at hq
    obtain rfl := Option.some.inj hq
    exact hp
  cases hentry with
  | elsewhere hp => exact hother hp
  | @kept p old hpayment hfollows hcredit =>
    cases hp : P.names p.providerPaymentId with
    | false => exact hforeign hpayment hp
    | true =>
      obtain ⟨hold, hstanding⟩ := hfollowed hpayment hfollows hp
      obtain ⟨hsettled, hrefunded⟩ := h.of_mem hold
      have hcredited : r'.credited P = r.credited P := by
        rw [credited_after hcredits, hcredit]
        rfl
      refine .of_standing hstanding (hcredited ▸ h.oneCredit) ?_ (hfollows.refunded hrefunded)
      rw [hcredited]
      intro c hc
      obtain ⟨hc, hamount⟩ := hsettled c hc
      exact ⟨hfollows.settled hc, hfollows.amount ▸ hamount⟩
  | @settled p old hpayment hfollows htransient hsettled hcredit =>
    cases hp : P.names p.providerPaymentId with
    | false => exact hforeign hpayment hp
    | true =>
      obtain ⟨hold, hstanding⟩ := hfollowed hpayment hfollows hp
      have hnone : r.credited P = [] := by
        refine h.credited_eq_nil fun q hq => ?_
        rw [hold] at hq
        obtain rfl := List.mem_singleton.mp hq
        exact PaymentStatus.not_isSettled_of_isTransient htransient
      obtain ⟨hone, hfirst⟩ := credited_first hcredits hnone
      exact .of_standing hstanding hone (fun c hc => ⟨hsettled, hcredit c (hfirst c hc)⟩)
        (hfollows.refunded (h.of_mem hold).2)
  | @inserted p hpayment hempty hrefunded hcredit =>
    cases hp : P.names p.providerPaymentId with
    | false => exact hforeign hpayment hp
    | true =>
      have hstanding : r'.books.standing P = [p] := by
        rw [Books.paymentsAfter, hpayment] at hrows
        rw [standing_put hrows, hempty, if_pos hp]
        rfl
      have hnone : r.credited P = [] := by
        refine h.credited_eq_nil fun q hq => ?_
        rw [hempty] at hq
        cases hq
      obtain ⟨hone, hfirst⟩ := credited_first hcredits hnone
      refine .of_standing hstanding hone (fun c hc => hcredit c (hfirst c hc)) ?_
      rw [hrefunded]
      exact le_max_left _ _

end Entries

/-! ## The transactions -/

section Transactions

variable {b b' : Books} {d d' : MutationDesk} {e : Effects} {c : ChargeRecord}

theorem write_payments (h : b.write e = some b') : b'.payments = b.paymentsAfter e := by
  simp only [Books.write] at h
  split at h
  · obtain ⟨notes, -, rfl⟩ := Option.map_eq_some_iff.mp h
    rfl
  · obtain rfl := Option.some.inj h
    rfl

/-- Rows without a credit note can be written. -/
theorem write_of_no_note (h : e.creditNote = none) : ∃ b', b.write e = some b' := by
  simp only [Books.write, h]
  exact ⟨_, rfl⟩

/-- The row of a charge: none when one is there under the provider's id, and a new one else. -/
theorem chargeEffects_spec (h : b.chargeEffects c = some e) :
    e.creditNote = none ∧ (e.payment = none ∨
      b.paymentByProviderId c.providerPaymentId = none ∧ ∃ p, e.payment = some p ∧
        p.providerPaymentId = c.providerPaymentId ∧ p.refundedMinor = 0 ∧
        ∀ credit ∈ b.credit ⟨e, none⟩,
          p.status.isSettled = true ∧ credit.amountMinor ≤ p.amountMinor) := by
  obtain ⟨invoice, hinvoice, h⟩ := Option.bind_eq_some_iff.mp h
  have hget := (KeyTable.get?_eq_some.mp hinvoice).2 ▸ hinvoice
  split at h
  · obtain rfl := Option.some.inj h
    exact ⟨rfl, .inl rfl⟩
  · next hfree =>
    simp only at h
    split_ifs at h with hstatus
    · obtain ⟨settled, hsettled, rfl⟩ := Option.map_eq_some_iff.mp h
      refine ⟨rfl, .inr ⟨hfree, _, rfl, rfl, rfl, fun credit hcredit => ⟨?_, ?_⟩⟩⟩
      · rw [hstatus]
        rfl
      · exact credit_le_stored rfl hsettled (get?_of_settle hget hsettled) rfl hcredit
    · obtain rfl := Option.some.inj h
      refine ⟨rfl, .inr ⟨hfree, _, rfl, rfl, rfl, fun credit hcredit => ?_⟩⟩
      exact absurd hcredit (not_credit_of_unchanged rfl hget rfl)

/-- The row of a reconciled charge, and what it credits to its copy of the invoice. -/
theorem reconciledEffects_spec {invoice : Invoice}
    (h : MutationDesk.chargeEffects c invoice = some e) :
    e.creditNote = none ∧ ∃ p, e.payment = some p ∧ p.providerPaymentId = c.providerPaymentId ∧
      p.refundedMinor = 0 ∧ ∀ credit ∈ b.credit ⟨e, some invoice⟩,
        p.status.isSettled = true ∧ credit.amountMinor ≤ p.amountMinor := by
  obtain ⟨settled, hsettled, rfl⟩ := Option.map_eq_some_iff.mp h
  refine ⟨rfl, _, rfl, rfl, rfl, fun credit hcredit => ?_⟩
  split_ifs at hsettled with hstatus
  · refine ⟨by rw [hstatus]; rfl, ?_⟩
    exact credit_le rfl hsettled rfl rfl hcredit
  · obtain rfl := Option.some.inj hsettled
    exact absurd hcredit (not_credit_of_unchanged rfl rfl rfl)

/-- The payment rows after a planned transaction. -/
def rowsAfter (b : Books) (plan : Option Plan) : KeyTable Payment.id :=
  plan.elim b.payments fun plan => b.paymentsAfter plan.effects

/-- The outcomes of a record. -/
theorem record_cases (d : MutationDesk) (key : String)
    (effect : MutationDesk → Option MutationDesk) :
    (d.closed key = true ∧ d.record key effect = .conflict) ∨
      (d.closed key = false ∧ effect d = none ∧ d.record key effect = .failed) ∨
      ∃ d₁ d', d.closed key = false ∧ effect d = some d₁ ∧ d.record key effect = .recorded d' ∧
        d'.register = d₁.register := by
  unfold MutationDesk.record
  cases hclosed : d.closed key with
  | true => exact .inl ⟨rfl, rfl⟩
  | false =>
    cases heffect : effect d with
    | none => exact .inr (.inl ⟨rfl, rfl, rfl⟩)
    | some d₁ => exact .inr (.inr ⟨d₁, _, rfl, rfl, rfl, rfl⟩)

/-- A record that leaves the register's books alone. -/
theorem record_payments {key : String} {effect : MutationDesk → Option MutationDesk}
    (heffect : ∀ d₁, effect d = some d₁ → d₁.register.books.payments = d.register.books.payments)
    (h : d.record key effect = .recorded d') :
    d'.register.books.payments = d.register.books.payments := by
  rcases record_cases d key effect with ⟨-, hrecord⟩ | ⟨-, -, hrecord⟩ |
    ⟨d₁, d₂, -, heff, hrecord, hregister⟩
  · rw [hrecord] at h
    cases h
  · rw [hrecord] at h
    cases h
  · rw [hrecord] at h
    cases h
    rw [hregister, heffect d₁ heff]

theorem acquireFence_payments {q : ChangeRequest} (h : d.acquireFence q = some d') :
    d'.register.books.payments = d.register.books.payments := by
  unfold MutationDesk.acquireFence at h
  split at h
  · split_ifs at h
    obtain rfl := Option.some.inj h
    rfl
  · split_ifs at h
    obtain ⟨leases, -, rfl⟩ := Option.map_eq_some_iff.mp h
    rfl

/-- A call changes the payment rows only by the record of a charge. -/
theorem exec_payments {input : MutationInput} {call : MutationCall} {call' : Option MutationCall}
    (h : d.exec input call = some (d', call')) :
    d'.register.books.payments = rowsAfter d.register.books (d.plannedByCall call) := by
  cases call with
  | replay q | settle q | failCharge q | unknownCharge q | fail q | abandon q
  | markUnknown q settles | readForCharge q c invoice =>
    simp only [MutationDesk.exec, Option.some.injEq, Prod.mk.injEq] at h
    obtain ⟨rfl, -⟩ := h
    rfl
  | read q | acquireClaim q copy | awaitCharge q =>
    simp only [MutationDesk.exec] at h
    split at h <;> cases h <;> rfl
  | acquireFence q copy =>
    simp only [MutationDesk.exec] at h
    split at h <;> cases h
    · next hfence => exact acquireFence_payments hfence
    · rfl
  | recheck q copy | dispatch q copy =>
    simp only [MutationDesk.exec] at h
    split_ifs at h <;> cases h <;> rfl
  | await q copy =>
    simp only [MutationDesk.exec] at h
    split at h
    · split at h <;> cases h <;> rfl
    all_goals
      cases h
      try rfl
  | readForChange q remote now | findCharge q c =>
    simp only [MutationDesk.exec] at h
    split at h
    · cases h
      rfl
    · first
      | split at h
        all_goals
          cases h
          rfl
      | cases h
        rfl
  | record q write | applyChange q write =>
    simp only [MutationDesk.exec] at h
    split at h <;> cases h
    · next hrecord =>
      refine record_payments (fun d₁ heffect => ?_) hrecord
      obtain rfl := Option.some.inj heffect
      rfl
    all_goals rfl
  | applyNothing key =>
    simp only [MutationDesk.exec] at h
    split at h <;> cases h
    · next hrecord =>
      refine record_payments (fun d₁ heffect => ?_) hrecord
      obtain rfl := Option.some.inj heffect
      rfl
    · rfl
  | recordCharge q c =>
    simp only [MutationDesk.exec] at h
    rcases record_cases d q.key fun d : MutationDesk =>
        (d.register.books.recordCharge c).map fun books =>
          d.commit { d.register with books := books } with
      ⟨hclosed, hrecord⟩ | ⟨hclosed, heffect, hrecord⟩ |
      ⟨d₁, d₂, hclosed, heffect, hrecord, hregister⟩
    · rw [hrecord] at h
      cases h
      rw [MutationDesk.plannedByCall, if_pos hclosed]
      rfl
    · rw [hrecord] at h
      cases h
      rw [MutationDesk.plannedByCall, if_neg (by simp [hclosed])]
      cases heffects : d.register.books.chargeEffects c with
      | none => rfl
      | some effects =>
        -- rows without a credit note are always written
        obtain ⟨books, hwrite⟩ := @write_of_no_note d.register.books effects
          (chargeEffects_spec heffects).1
        rw [Option.map_eq_none_iff, Books.recordCharge, heffects, Option.bind_some, hwrite] at heffect
        cases heffect
    · rw [hrecord] at h
      cases h
      obtain ⟨books, hbooks, rfl⟩ := Option.map_eq_some_iff.mp heffect
      obtain ⟨effects, heffects, hwrite⟩ := Option.bind_eq_some_iff.mp hbooks
      rw [hregister, MutationDesk.plannedByCall, if_neg (by simp [hclosed]), heffects]
      exact write_payments hwrite
  | applyCharge q c invoice write =>
    simp only [MutationDesk.exec] at h
    rcases record_cases d q.key (·.applyCharge c invoice write) with
      ⟨hclosed, hrecord⟩ | ⟨hclosed, heffect, hrecord⟩ |
      ⟨d₁, d₂, hclosed, heffect, hrecord, hregister⟩
    · rw [hrecord] at h
      cases h
      rw [MutationDesk.plannedByCall, if_pos hclosed]
      rfl
    · rw [hrecord] at h
      cases h
      rw [MutationDesk.plannedByCall, if_neg (by simp [hclosed])]
      cases heffects : MutationDesk.chargeEffects c invoice with
      | none => rfl
      | some effects =>
        obtain ⟨books, hwrite⟩ := @write_of_no_note d.register.books effects
          (@reconciledEffects_spec d.register.books _ _ _ heffects).1
        rw [MutationDesk.applyCharge, Option.map_eq_none_iff, heffects, Option.bind_some, hwrite]
          at heffect
        cases heffect
    · rw [hrecord] at h
      cases h
      obtain ⟨books, hbooks, rfl⟩ := Option.map_eq_some_iff.mp heffect
      obtain ⟨effects, heffects, hwrite⟩ := Option.bind_eq_some_iff.mp hbooks
      rw [hregister, MutationDesk.plannedByCall, if_neg (by simp [hclosed]), heffects]
      cases write with
      | none => exact write_payments hwrite
      | some write =>
        show books.payments = _
        exact write_payments hwrite

/-- **The payment rows after an event** are those that it planned. -/
theorem step_payments {dunning : Dunning} {event : MutationEvent} (h : d.step dunning event = some d') :
    d'.register.books.payments = rowsAfter d.register.books (d.planned dunning (.desk event)) := by
  cases event with
  | change q =>
    cases h
    rfl
  | pay q =>
    obtain ⟨claims, -, rfl⟩ := Option.map_eq_some_iff.mp h
    rfl
  | step i input =>
    simp only [MutationDesk.step] at h
    split at h
    · next call hcall =>
      obtain ⟨⟨d₁, call'⟩, hexec, rfl⟩ := Option.map_eq_some_iff.mp h
      have hplanned : d.planned dunning (.desk (.step i input)) = d.plannedByCall call := by
        rw [MutationDesk.planned, hcall]
        rfl
      rw [hplanned]
      show d₁.register.books.payments = _
      exact exec_payments hexec
    · cases h
  | drop i | releaseResolved | restart =>
    cases h
    rfl
  | tick now =>
    obtain ⟨books, htick, rfl⟩ := Option.map_eq_some_iff.mp h
    obtain ⟨sub, -, rfl⟩ := Option.map_eq_some_iff.mp htick
    show (if _ then _ else _ : Books).payments = _
    split_ifs <;> rfl
  | failure invoiceId now =>
    obtain ⟨books, hfailure, rfl⟩ := Option.map_eq_some_iff.mp h
    obtain ⟨effects, heffects, hwrite⟩ := Option.bind_eq_some_iff.mp hfailure
    obtain ⟨invoice, -, rfl⟩ := Option.map_eq_some_iff.mp heffects
    exact write_payments hwrite
  | webhook delivery =>
    obtain ⟨register, hhandle, rfl⟩ := Option.map_eq_some_iff.mp h
    show register.books.payments = rowsAfter _ (d.plannedByWebhook dunning delivery)
    unfold Register.handleWebhook at hhandle
    unfold MutationDesk.plannedByWebhook
    split_ifs at hhandle with hfenced hseen hstale
    · obtain rfl := Option.some.inj hhandle
      rw [if_pos (by simp [hseen])]
      rfl
    · obtain rfl := Option.some.inj hhandle
      rw [if_pos (by simp [hstale])]
      rfl
    · obtain ⟨books, hbooks, rfl⟩ := Option.map_eq_some_iff.mp hhandle
      obtain ⟨effects, heffects, hwrite⟩ := Option.bind_eq_some_iff.mp hbooks
      rw [if_neg (by simp [hfenced, hseen, hstale]), heffects]
      exact write_payments hwrite
  | reconcile key lookup =>
    obtain ⟨claim, -, hreconcile⟩ := Option.bind_eq_some_iff.mp h
    cases lookup with
    | notApplied =>
      obtain rfl := Option.some.inj hreconcile
      rfl
    | subscription remote now | charge providerPaymentId status now =>
      simp only [MutationDesk.reconcile] at hreconcile
      split at hreconcile <;> cases hreconcile
      rfl

end Transactions

/-! ## Runs -/

section Runs

variable {P : ProviderPayment} {dunning : Dunning} {r r' : Receipts} {event : ReceiptEvent}

theorem receipts_payments (h : r.step dunning event = some r') :
    r'.books.payments = rowsAfter r.books (r.desk.planned dunning event) ∧
      r'.credits = ((r.desk.planned dunning event).bind r.books.credit).toList ++ r.credits := by
  obtain ⟨desk, hdesk, rfl⟩ := Option.map_eq_some_iff.mp h
  refine ⟨?_, rfl⟩
  cases event with
  | desk event => exact step_payments hdesk
  | refund c =>
    obtain ⟨books, hbooks, rfl⟩ := Option.map_eq_some_iff.mp hdesk
    obtain ⟨effects, heffects, hwrite⟩ := Option.bind_eq_some_iff.mp hbooks
    rw [MutationDesk.planned, show r.desk.register.books.refundEffects c = some effects from heffects]
    exact write_payments hwrite

/-- The record of a refund settles a part of its payment row. -/
theorem entry_refund {c : RefundRecord} {e : Effects} (h : r.books.refundEffects c = some e) :
    Entry P r.books ⟨e, none⟩ := by
  obtain ⟨payment, hpayment, h⟩ := Option.bind_eq_some_iff.mp h
  obtain ⟨invoice, hinvoice, h⟩ := Option.bind_eq_some_iff.mp h
  have hnothing : ∀ refund : Option Refund,
      Entry P r.books ⟨{ Effects.none with refund := refund }, none⟩ := by
    intro refund
    refine .elsewhere fun p hp => ?_
    cases hp
  split at h
  · obtain rfl := Option.some.inj h
    exact hnothing none
  · simp only at h
    split_ifs at h
    · obtain ⟨⟨payment', invoice', refund', note⟩, hsettle, rfl⟩ := Option.map_eq_some_iff.mp h
      obtain ⟨hfollows, hcredit⟩ := receipt_settleRefund
        ((KeyTable.get?_eq_some.mp hpayment).2 ▸ hpayment)
        ((KeyTable.get?_eq_some.mp hinvoice).2 ▸ hinvoice) hsettle
      exact .kept rfl hfollows hcredit
    · obtain rfl := Option.some.inj h
      exact hnothing _

theorem Entry.of_not_names {plan : Plan} {p : Payment} (hpayment : plan.effects.payment = some p)
    (hp : P.names p.providerPaymentId = false) : Entry P r.books plan := by
  refine .elsewhere fun q hq => ?_
  rw [hpayment] at hq
  obtain rfl := Option.some.inj hq
  exact hp

/-- No row stands for a payment when none carries the id that such a row would carry. -/
theorem standing_eq_nil {id : String} (hfree : r.books.paymentByProviderId id = none)
    (hsame : ∀ p ∈ r.books.standing P, p.providerPaymentId = id) : r.books.standing P = [] := by
  refine List.eq_nil_iff_forall_not_mem.mpr fun p hp => ?_
  have hfind := List.find?_eq_none.mp hfree p (mem_standing.mp hp).1
  simp [hsame p hp] at hfind

/-- An event that agrees with the row of the payment. -/
theorem entry_webhook {event : WebhookEvent} {e : Effects} (hsame : r.books.SameReceipt P event)
    (h : PaymentEffect r.books event e) : Entry P r.books ⟨e, none⟩ := by
  cases h with
  | nothing hpayment =>
    refine .elsewhere fun p hp => ?_
    rw [show (⟨e, none⟩ : Plan).effects.payment = none from hpayment] at hp
    cases hp
  | kept hpayment hfollows hcredit => exact .kept hpayment hfollows hcredit
  | settled hpayment hfollows hold hsettled hcredit =>
    exact .settled hpayment hfollows hold hsettled hcredit
  | @paid p old invoice hpayment hfollows htype hreceives hsettled hcredit =>
    cases hp : P.names p.providerPaymentId with
    | false => exact .of_not_names hpayment hp
    | true =>
      have hold : old ∈ r.books.standing P :=
        mem_standing.mpr ⟨(KeyTable.get?_eq_some.mp hfollows.get).1, hfollows.providerId ▸ hp⟩
      obtain ⟨-, hpaid⟩ := hsame _ hreceives hp old hold
      obtain ⟨-, htransient, hcovers⟩ := hpaid htype
      refine .settled hpayment hfollows htransient (hsettled htransient) fun c hc => ?_
      rw [hfollows.amount]
      exact le_trans (hcredit c hc) hcovers
  | @minted p invoice hpayment hfree hinvoice hreceives hrefunded hsettled hcredit =>
    cases hp : P.names p.providerPaymentId with
    | false => exact .of_not_names hpayment hp
    | true =>
      have hseen := hsame _ hreceives hp
      refine .inserted hpayment ?_ hrefunded fun c hc => ⟨hsettled, hcredit c hc⟩
      rcases hfree with hfree | ⟨htype, hunnamed⟩
      · exact standing_eq_nil hfree fun q hq => (hseen q hq).1
      · -- an invoice that is paid without naming its payment
        refine List.eq_nil_iff_forall_not_mem.mpr fun q hq => ?_
        have hnamed := ((hseen q hq).2 htype).1
        rw [hunnamed] at hnamed
        cases hnamed

/-- A charge that agrees with the row of the payment. -/
theorem entry_call {call : MutationCall} {plan : Plan} (hsame : r.desk.CallSameReceipt P call)
    (h : r.desk.plannedByCall call = some plan) : Entry P r.books plan := by
  cases call with
  | recordCharge q c =>
    simp only [MutationDesk.plannedByCall] at h
    split_ifs at h with hclosed
    obtain ⟨e, heffects, rfl⟩ := Option.map_eq_some_iff.mp h
    obtain ⟨-, hpayment | ⟨hfree, p, hpayment, hid, hrefunded, hcredit⟩⟩ := chargeEffects_spec heffects
    · refine .elsewhere fun p hp => ?_
      rw [show (⟨e, none⟩ : Plan).effects.payment = none from hpayment] at hp
      cases hp
    · cases hp : P.names p.providerPaymentId with
      | false => exact .of_not_names hpayment hp
      | true =>
        have hstanding := hsame (by simpa using hclosed) (hid ▸ hp)
        exact .inserted hpayment (standing_eq_nil hfree hstanding) hrefunded hcredit
  | applyCharge q c invoice write =>
    simp only [MutationDesk.plannedByCall] at h
    split_ifs at h with hclosed
    obtain ⟨e, heffects, rfl⟩ := Option.map_eq_some_iff.mp h
    obtain ⟨-, p, hpayment, hid, hrefunded, hcredit⟩ :=
      @reconciledEffects_spec r.books e c invoice heffects
    cases hp : P.names p.providerPaymentId with
    | false => exact .of_not_names hpayment hp
    | true =>
      exact .inserted hpayment (hsame (by simpa using hclosed) (hid ▸ hp)) hrefunded hcredit
  | _ => cases h

/-- **One event** keeps the payment received once. -/
theorem PaidOnce.step (h : PaidOnce P r) (hsame : SameReceipt P r event)
    (hnew : NewId dunning r event) (hstep : r.step dunning event = some r') : PaidOnce P r' := by
  obtain ⟨hrows, hcredits⟩ := receipts_payments hstep
  cases hplan : r.desk.planned dunning event with
  | none =>
    rw [hplan] at hrows hcredits
    have hbooks : r'.books.standing P = r.books.standing P := by
      rw [Books.standing, hrows]
      rfl
    have hcredited : r'.credited P = r.credited P := by rw [Receipts.credited, hcredits]; rfl
    exact ⟨hbooks ▸ h.oneRow, hcredited ▸ h.oneCredit, hbooks ▸ hcredited ▸ h.creditSettled,
      hbooks ▸ h.refunded⟩
  | some plan =>
    rw [hplan] at hrows hcredits
    refine h.entry ?_ (hnew plan hplan) hrows hcredits
    cases event with
    | refund c =>
      obtain ⟨e, heffects, rfl⟩ := Option.map_eq_some_iff.mp hplan
      exact entry_refund heffects
    | desk event =>
      cases event with
      | step i input =>
        obtain ⟨call, hcall, hplan⟩ := Option.bind_eq_some_iff.mp hplan
        exact entry_call (hsame call hcall) hplan
      | webhook delivery =>
        simp only [MutationDesk.planned, MutationDesk.plannedByWebhook] at hplan
        split_ifs at hplan with hblocked
        simp only [Bool.or_eq_true, decide_eq_true_eq, not_or, Bool.not_eq_true] at hblocked
        obtain ⟨e, heffects, rfl⟩ := Option.map_eq_some_iff.mp hplan
        exact entry_webhook (hsame hblocked.1.2 hblocked.2) (webhookEffects_receipt heffects)
      | _ => cases hplan

end Runs

/-- **One receipt for one provider payment.**  In every interleaving of payments, refunds,
reconciliations and events, in which the receivers of the payment agree on the row that stands for it:
one row stands for it, it is credited once, and no more than its amount is refunded. -/
theorem paid_once_of_same_receipt {P : ProviderPayment} {dunning : Dunning} {r₀ r : Receipts}
    {events : List ReceiptEvent} (hrows : r₀.books.standing P = []) (hcredits : r₀.credited P = [])
    (hsame : Trace.Along (Receipts.step dunning)
      (fun r event => SameReceipt P r event ∧ NewId dunning r event) r₀ events)
    (hrun : Trace.run (Receipts.step dunning) r₀ events = some r) : PaidOnce P r := by
  have hstart : PaidOnce P r₀ := by
    constructor
    · rw [hrows]
      exact Nat.zero_le 1
    · rw [hcredits]
      exact Nat.zero_le 1
    · rw [hcredits]
      intro c hc
      cases hc
    · rw [hrows]
      intro p hp
      cases hp
  exact Trace.run_invariant_along (fun r event r' h hcond hstep => h.step hcond.1 hcond.2 hstep)
    hstart hsame hrun

/-! ## One payment under two ids -/

def receiptPayment : ProviderPayment := ⟨"pi_1", "ch_1"⟩

/-- The owed invoice, before anything is received. -/
def owedReceipts : Receipts := ⟨pastDueDesk, []⟩

/-- The provider reports that a payment succeeded. -/
def receiptEvent (eventId : String) (createdMs : ℤ) (object : Object) (uuid : String) :
    ReceiptEvent :=
  .desk (.webhook ⟨⟨eventId, createdMs, .paymentSucceeded, object⟩, createdMs, uuid⟩)

/-- A refund of the whole amount. -/
def refundOwed (refundId paymentId providerRefundId uuid : String) : ReceiptEvent :=
  .refund ⟨refundId, paymentId, providerRefundId, 100, "USD", .succeeded, uuid⟩

/-- The payment is recorded while it is processed; its event, the paid invoice and its charge follow. -/
def paidUnderOneId : List ReceiptEvent :=
  [.desk (.pay payOwed), .desk (.step 0 (.charged "pi_1" .processing 5)), .desk (.step 0 .go),
    receiptEvent "evt_1" 6 { Object.empty with id := some "pi_1", amount := some 100 } "u1",
    .desk (.webhook ⟨⟨"evt_2", 7, .invoicePaid, { Object.empty with
      id := some "in_1", localInvoiceId := some "inv_1", paymentId := some "pi_1" }⟩, 7, "u2"⟩),
    receiptEvent "evt_3" 8 { Object.empty with id := some "ch_1", amount := some 100 } "u3",
    refundOwed "ref_1" "pay_k2" "re_1" "n1"]

/-- It is received once, and refunded once. -/
theorem paidUnderOneId_paid_once : ∃ r,
    Trace.run (Receipts.step fenceDunning) owedReceipts paidUnderOneId = some r ∧
      r.books.payments.rows.map (fun p => (p.id, p.refundedMinor)) = [("pay_k2", 100)] ∧
      r.credits = [⟨"pi_1", 100⟩] ∧ PaidOnce receiptPayment r := by
  have hsame : Trace.Along (Receipts.step fenceDunning)
      (fun r event => SameReceipt receiptPayment r event ∧ NewId fenceDunning r event)
      owedReceipts paidUnderOneId := by decide +kernel
  exact ⟨_, rfl, by decide +kernel, by decide +kernel, paid_once_of_same_receipt rfl rfl hsame rfl⟩

/-- The payment is reported by its intent, and again by its charge, which names the intent. -/
def paidUnderBothIds : List ReceiptEvent :=
  [receiptEvent "evt_1" 1 { Object.empty with
      id := some "pi_1", localInvoiceId := some "inv_1", amount := some 100 } "u1",
    receiptEvent "evt_2" 2 { Object.empty with
      id := some "ch_1", paymentId := some "pi_1", localInvoiceId := some "inv_1"
      amount := some 100 } "u2",
    refundOwed "ref_1" "pay_u1" "re_1" "n1", refundOwed "ref_2" "pay_u2" "re_2" "n2"]

/-- Two rows stand for it, and each is refunded in full. -/
theorem paidUnderBothIds_refunded_twice : ∃ r,
    owedReceipts.books.standing receiptPayment = [] ∧ owedReceipts.credited receiptPayment = [] ∧
      Trace.run (Receipts.step fenceDunning) owedReceipts paidUnderBothIds = some r ∧
      (r.books.standing receiptPayment).map (fun p => (p.id, p.amountMinor, p.refundedMinor))
        = [("pay_u1", 100, 100), ("pay_u2", 100, 100)] ∧
      ¬ PaidOnce receiptPayment r := by
  refine ⟨_, rfl, rfl, rfl, by decide +kernel, fun h => ?_⟩
  exact absurd h.oneRow (by decide +kernel)

end Billing
