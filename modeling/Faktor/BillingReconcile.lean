/-
# What a reconciliation pass writes back

`reconcile` reads the invoices of an organization, asks the provider about each and writes the whole
row that it read back, with a new reconciliation state.  A payment, a refund or a webhook that commits
in between is undone.

* `Desk.step` : the transactions on the books, and the reads and writes of any number of passes;
* `Fresh` : the row that a pass writes back is still the row it read, but for its reconciliation;
* `reconcile_keeps_iff_fresh` : the invoices are what the payments, refunds and webhooks left, in every
  state of a run, exactly when every write of the run is fresh.
-/
import Faktor.BillingRecords
import Faktor.Trace

namespace Billing

open Payments (InvoiceStatus PaymentStatus)

/-! ## Passes -/

/-- The provider's view of an invoice. -/
structure Snapshot where
  currency : String
  amountMinor : ℤ
  deriving DecidableEq, Repr

/-- The reconciliation state that the provider's answer gives; `none` when it has no such invoice. -/
def Invoice.reconciled (invoice : Invoice) : Option Snapshot → Reconciliation
  | some snapshot => invoice.observe snapshot.currency snapshot.amountMinor
  | none => .providerInvoiceMissing

/-- The books, the passes in flight with the invoices they have still to write, and the invoices as
the last payment, refund or webhook left them. -/
structure Desk where
  register : Register
  passes : List (List Invoice)
  left : String → Option Invoice

namespace Desk

def invoice (d : Desk) (id : String) : Option Invoice := d.register.books.invoices.get? id

end Desk

/-- A transaction on the books, or a transaction of a pass. -/
inductive DeskEvent
  | charge (c : ChargeRecord)
  | refund (c : RefundRecord)
  | failure (invoiceId : String) (now : ℤ)
  | webhook (d : Delivery)
  /-- A pass reads the invoices with these ids that are linked to the provider. -/
  | read (ids : List String)
  /-- The `i`-th pass writes its next invoice, with the provider's answer. -/
  | write (i : ℕ) (answer : Option Snapshot)
  /-- The provider cannot be asked, and the `i`-th pass ends. -/
  | stop (i : ℕ)
  deriving DecidableEq, Repr

/-- The payments, refunds and webhooks of a desk. -/
def Register.transact (dunning : Dunning) (r : Register) : DeskEvent → Option Register
  | .charge c => (r.books.recordCharge c).map fun books => { r with books := books }
  | .refund c => (r.books.recordRefund c).map fun books => { r with books := books }
  | .failure invoiceId now =>
    (r.books.recordPaymentFailure dunning invoiceId now).map fun books => { r with books := books }
  | .webhook d => r.handleWebhook dunning d
  | _ => none

namespace Desk

/-- The invoices with these ids that are linked to the provider. -/
def linked (d : Desk) (ids : List String) : List Invoice :=
  (ids.filterMap d.invoice).filter (·.providerInvoiceId.isSome)

/-- `record_reconciliation`: the whole row is updated. -/
def recordReconciliation (d : Desk) (invoice : Invoice) (answer : Option Snapshot) : Desk :=
  let updated := { invoice with reconciliation := invoice.reconciled answer }
  let books := { d.register.books with invoices := d.register.books.invoices.replace updated }
  { d with register := { d.register with books := books } }

/-- One transaction. -/
def step (dunning : Dunning) (d : Desk) : DeskEvent → Option Desk
  | .read ids => some { d with passes := d.passes ++ [d.linked ids] }
  | .write i answer =>
    match d.passes[i]? with
    | some (invoice :: rest) =>
      some { d.recordReconciliation invoice answer with passes := d.passes.set i rest }
    | _ => none
  | .stop i => some { d with passes := d.passes.set i [] }
  | event =>
    (d.register.transact dunning event).map fun r =>
      { d with register := r, left := fun id => r.books.invoices.get? id }

end Desk

/-! ## The frame of a pass -/

/-- An invoice but for its reconciliation state. -/
def Invoice.authored (invoice : Invoice) : Invoice :=
  { invoice with reconciliation := .unreconciled }

/-- Every invoice is what the last payment, refund or webhook left, but for its reconciliation. -/
def Desk.Kept (d : Desk) : Prop :=
  ∀ id, (d.invoice id).map Invoice.authored = (d.left id).map Invoice.authored

/-- The row that a pass writes back is still the row that it read, but for its reconciliation. -/
def Fresh (d : Desk) : DeskEvent → Prop
  | .write i _ =>
    ∀ invoice ∈ (d.passes[i]?).bind List.head?, ∀ current ∈ d.invoice invoice.id,
      current.authored = invoice.authored
  | _ => True

instance (d : Desk) : (event : DeskEvent) → Decidable (Fresh d event)
  | .write i _ =>
    inferInstanceAs (Decidable (∀ invoice ∈ (d.passes[i]?).bind List.head?,
      ∀ current ∈ d.invoice invoice.id, current.authored = invoice.authored))
  | .charge _ | .refund _ | .failure _ _ | .webhook _ | .read _ | .stop _ =>
    inferInstanceAs (Decidable True)

/-- The invoices after a pass has written one back. -/
theorem invoice_recordReconciliation (d : Desk) (invoice : Invoice) (answer : Option Snapshot)
    (id : String) :
    ((d.recordReconciliation invoice answer).invoice id).map Invoice.authored =
      if invoice.id = id then (d.invoice id).map fun _ => invoice.authored
      else (d.invoice id).map Invoice.authored := by
  show ((d.register.books.invoices.replace _).get? id).map Invoice.authored = _
  rw [KeyTable.get?_replace]
  split
  · rw [Option.map_map]
    rfl
  · rfl

/-- A write keeps the invoices exactly when it is fresh. -/
theorem kept_write_iff {d d' : Desk} {dunning : Dunning} (hkept : d.Kept) {i : ℕ}
    {answer : Option Snapshot} (h : d.step dunning (.write i answer) = some d') :
    d'.Kept ↔ Fresh d (.write i answer) := by
  simp only [Desk.step] at h
  split at h
  · next invoice rest hpass =>
    obtain rfl := Option.some.inj h
    have hrow := invoice_recordReconciliation d invoice answer
    constructor
    · intro hkept' invoice' hinvoice' current hcurrent
      rw [hpass] at hinvoice'
      obtain rfl := Option.some.inj hinvoice'
      have hid := (hrow invoice.id).symm.trans ((hkept' invoice.id).trans (hkept invoice.id).symm)
      rw [if_pos rfl, Option.mem_def.mp hcurrent] at hid
      exact (Option.some.inj hid).symm
    · intro hfresh id
      refine (hrow id).trans (Eq.trans ?_ (hkept id))
      split
      · next hid =>
        subst hid
        cases hcurrent : d.invoice invoice.id with
        | none => rfl
        | some current =>
          have hsame := hfresh invoice (by rw [hpass]; rfl) current hcurrent
          rw [Option.map_some, Option.map_some, hsame]
      · rfl
  · cases h

/-- Every other step leaves the invoices kept. -/
theorem kept_of_not_write {d d' : Desk} {dunning : Dunning} (hkept : d.Kept) {event : DeskEvent}
    (hwrite : ∀ i answer, event ≠ .write i answer) (h : d.step dunning event = some d') :
    d'.Kept := by
  cases event with
  | write i answer => exact absurd rfl (hwrite i answer)
  | read ids =>
    obtain rfl := Option.some.inj h
    exact hkept
  | stop i =>
    obtain rfl := Option.some.inj h
    exact hkept
  | charge c | refund c | failure invoiceId now | webhook d =>
    obtain ⟨r, -, rfl⟩ := Option.map_eq_some_iff.mp h
    exact fun id => rfl

theorem kept_step_iff {d d' : Desk} {dunning : Dunning} (hkept : d.Kept) {event : DeskEvent}
    (h : d.step dunning event = some d') : d'.Kept ↔ Fresh d event := by
  cases event with
  | write i answer => exact kept_write_iff hkept h
  | read ids | stop i | charge c | refund c | failure invoiceId now | webhook d =>
    exact ⟨fun _ => trivial, fun _ => kept_of_not_write hkept (by simp) h⟩

/-- **The frame of a reconciliation pass.**  In every interleaving of any number of passes with
payments, refunds, declines and webhooks: the invoices are what the last payment, refund or webhook
left, in every state that is reached, exactly when every row that a pass writes back is still the row
that it read. -/
theorem reconcile_keeps_iff_fresh {d₀ d : Desk} {dunning : Dunning} {events : List DeskEvent}
    (hkept : d₀.Kept) (hrun : Trace.run (Desk.step dunning) d₀ events = some d) :
    (∀ done d', done <+: events → Trace.run (Desk.step dunning) d₀ done = some d' → d'.Kept) ↔
      Trace.Along (Desk.step dunning) Fresh d₀ events :=
  have hinv : ∀ d e d', (fun _ : Desk => True) d → d.Kept → Desk.step dunning d e = some d' →
      (fun _ : Desk => True) d' := fun _ _ _ _ _ _ => trivial
  Trace.forall_prefix_iff_along hinv (fun _ _ _ _ hkept hstep => kept_step_iff hkept hstep) trivial
    hkept hrun

/-! ## A payment inside the window -/

/-- An open invoice over 100 that is linked to the provider. -/
def linkedInvoice : Invoice where
  id := "in_1"
  subscriptionId := none
  providerInvoiceId := some "si_1"
  reconciliation := .unreconciled
  currency := "EUR"
  status := .opened
  lastDunningPaymentId := none
  totalMinor := 100
  amountPaidMinor := 0
  amountRefundedMinor := 0
  paidMs := none

def linkedBooks : Books where
  subscription := none
  invoices := ⟨[linkedInvoice], by simp⟩
  payments := .empty
  refunds := .empty
  creditNotes := .empty
  fences := ⟨[], false, []⟩

def linkedDesk : Desk where
  register := { books := linkedBooks, webhooks := [], watermark := none }
  passes := []
  left := linkedBooks.invoices.get?

theorem linkedDesk_kept : linkedDesk.Kept := fun _ => rfl

def deskDunning : Dunning := ⟨4, 0⟩

def charged100 : ChargeRecord where
  paymentId := "pay_1"
  invoiceId := "in_1"
  providerPaymentId := "pi_1"
  amountMinor := 100
  currency := "EUR"
  status := .succeeded
  now := 7

/-- A pass that reads and writes, then a payment. -/
def passThenCharge : List DeskEvent :=
  [.read ["in_1"], .write 0 (some ⟨"EUR", 100⟩), .charge charged100]

/-- The invoice is paid and reconciled, and every state on the way keeps what was left. -/
theorem passThenCharge_kept : ∃ d,
    Trace.run (Desk.step deskDunning) linkedDesk passThenCharge = some d ∧
      (d.invoice "in_1").map (fun i => (i.status, i.amountPaidMinor, i.reconciliation)) =
        some (.paid, 100, .matched) ∧ d.Kept := by
  have hfresh : Trace.Along (Desk.step deskDunning) Fresh linkedDesk passThenCharge := by
    decide +kernel
  refine ⟨_, rfl, by decide +kernel, ?_⟩
  exact (reconcile_keeps_iff_fresh linkedDesk_kept rfl).mpr hfresh passThenCharge _
    List.prefix_rfl rfl

/-- A payment between the read and the write of a pass. -/
def chargeInsidePass : List DeskEvent :=
  [.read ["in_1"], .charge charged100, .write 0 (some ⟨"EUR", 100⟩)]

/-- **A pass undoes a payment.**  The charge settled the invoice; the pass writes back the row that it
read before, and the invoice is open again with nothing paid. -/
theorem chargeInsidePass_undone : ∃ d,
    Trace.run (Desk.step deskDunning) linkedDesk chargeInsidePass = some d ∧
      (d.left "in_1").map (fun i => (i.status, i.amountPaidMinor, i.paidMs)) =
        some (.paid, 100, some 7) ∧
      (d.invoice "in_1").map (fun i => (i.status, i.amountPaidMinor, i.paidMs)) =
        some (.opened, 0, none) ∧ ¬ d.Kept := by
  refine ⟨_, rfl, by decide +kernel, by decide +kernel, fun hkept => ?_⟩
  exact absurd (hkept "in_1") (by decide +kernel)

end Billing
