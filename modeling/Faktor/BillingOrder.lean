/-
# Delivery orders

The provider delivers the events of an organization in any order and delivers a refused one again.
Events that concern different things commute, so the rows depend only on which events were applied;
but an event older than the watermark of the organization is discarded, whatever it concerns.

* `Register.run` : deliveries in some order, while leases are taken and released;
* `applied`, `discarded` : the events that were applied, and those that were found stale;
* `same_rows_iff_same_discarded` : two orders leave the same rows exactly when they discard the same
  events among those that change a row.
-/
import Faktor.BillingApart

namespace Billing

/-! ## Cells -/

/-- A place of a row. -/
inductive Cell
  | subscription
  | invoice (id : String)
  | payment (id : String)
  | refund (id : String)
  deriving DecidableEq, Repr

inductive Row
  | subscription (sub : Subscription)
  | invoice (invoice : Invoice)
  | payment (payment : Payment)
  | refund (refund : Refund)
  deriving DecidableEq, Repr

/-- The row at a place. -/
def Books.cell (b : Books) : Cell → Option Row
  | .subscription => b.subscription.map .subscription
  | .invoice id => (b.invoices.get? id).map .invoice
  | .payment id => (b.payments.get? id).map .payment
  | .refund id => (b.refunds.get? id).map .refund

/-- The row that an effect writes at a place. -/
def Effects.cell (effects : Effects) : Cell → Option Row
  | .subscription => effects.subscription.map .subscription
  | .invoice id => (effects.invoice.filter (·.id = id)).map .invoice
  | .payment id => (effects.payment.filter (·.id = id)).map .payment
  | .refund id => (effects.refund.filter (·.id = id)).map .refund

variable {effects : Effects}

/-- A write shows the rows of its effect, and the others as they were. -/
theorem cell_write {b b' : Books} (h : b.write effects = some b')
    (hinvoice : ∀ i ∈ effects.invoice, (b.invoices.get? i.id).isSome) (c : Cell) :
    b'.cell c = (effects.cell c).or (b.cell c) := by
  obtain ⟨hsub, hinvoices, hpayments, hrefunds, -⟩ := write_eq h
  cases c with
  | subscription =>
    rw [Books.cell, hsub, Effects.cell, Books.cell]
    cases effects.subscription <;> rfl
  | invoice id =>
    rw [Books.cell, hinvoices, Effects.cell, Books.cell]
    cases hi : effects.invoice with
    | none => rfl
    | some i =>
      rw [Option.elim_some, KeyTable.get?_replace, Option.filter_some]
      by_cases hid : i.id = id
      · obtain ⟨old, hold⟩ := Option.isSome_iff_exists.mp (hinvoice i hi)
        rw [← hid, hold]
        simp
      · simp [hid]
  | payment id =>
    rw [Books.cell, hpayments, Effects.cell, Books.cell]
    cases hp : effects.payment with
    | none => rfl
    | some p =>
      rw [Option.elim_some, KeyTable.get?_put, Option.filter_some]
      by_cases hid : p.id = id <;> simp [hid]
  | refund id =>
    rw [Books.cell, hrefunds, Effects.cell, Books.cell]
    cases hr : effects.refund with
    | none => rfl
    | some r =>
      rw [Option.elim_some, KeyTable.get?_put, Option.filter_some]
      by_cases hid : r.id = id <;> simp [hid]

variable {c : Cell} {row : Row}

/-- Effects on different things write at different places. -/
theorem cells_apart {b : Books} {things things' : List Thing} {effects' : Effects}
    (hwithin : Within b things effects) (hwithin' : Within b things' effects') (hfresh : FreshIds b things)
    (hfresh' : FreshIds b things') (happart : ∀ thing ∈ things, thing ∉ things')
    (hrow : effects.cell c = some row) : effects'.cell c = none := by
  rw [← Option.not_isSome_iff_eq_none, Option.isSome_iff_exists]
  rintro ⟨row', hrow'⟩
  cases c with
  | subscription =>
    obtain ⟨s, hs, -⟩ := Option.map_eq_some_iff.mp hrow
    obtain ⟨s', hs', -⟩ := Option.map_eq_some_iff.mp hrow'
    obtain ⟨old, hold, hid, -, hthing⟩ := hwithin.subscription s hs
    obtain ⟨old', hold', hid', -, hthing'⟩ := hwithin'.subscription s' hs'
    rw [hold] at hold'
    obtain rfl := Option.some.inj hold'
    exact happart _ hthing (hid.symm.trans hid' ▸ hthing')
  | invoice id =>
    obtain ⟨i, hi, -⟩ := Option.map_eq_some_iff.mp hrow
    obtain ⟨i', hi', -⟩ := Option.map_eq_some_iff.mp hrow'
    obtain ⟨hi, hid⟩ := Option.filter_eq_some_iff.mp hi
    obtain ⟨hi', hid'⟩ := Option.filter_eq_some_iff.mp hi'
    obtain ⟨-, -, -, hthing⟩ := hwithin.invoice i hi
    obtain ⟨-, -, -, hthing'⟩ := hwithin'.invoice i' hi'
    rw [of_decide_eq_true hid] at hthing
    rw [of_decide_eq_true hid'] at hthing'
    exact happart _ hthing hthing'
  | payment id =>
    obtain ⟨p, hp, -⟩ := Option.map_eq_some_iff.mp hrow
    obtain ⟨p', hp', -⟩ := Option.map_eq_some_iff.mp hrow'
    obtain ⟨hp, hid⟩ := Option.filter_eq_some_iff.mp hp
    obtain ⟨hp', hid'⟩ := Option.filter_eq_some_iff.mp hp'
    have hsame : p.id = p'.id := (of_decide_eq_true hid).trans (of_decide_eq_true hid').symm
    obtain ⟨hthing, ⟨old, hold, hpid⟩ | ⟨uuid, huuid, hminted⟩⟩ := hwithin.payment p hp
    · obtain ⟨hthing', ⟨old', hold', hpid'⟩ | ⟨uuid', huuid', hminted'⟩⟩ := hwithin'.payment p' hp'
      · rw [← hsame, hold] at hold'
        obtain rfl := Option.some.inj hold'
        exact happart _ hthing (hpid.symm.trans hpid' ▸ hthing')
      · rw [hsame, huuid', (hfresh' uuid' hminted').1] at hold
        cases hold
    · obtain ⟨hthing', ⟨old', hold', hpid'⟩ | ⟨uuid', huuid', hminted'⟩⟩ := hwithin'.payment p' hp'
      · rw [← hsame, huuid, (hfresh uuid hminted).1] at hold'
        cases hold'
      · rw [huuid, huuid', String.append_right_inj] at hsame
        exact happart _ hminted (hsame ▸ hminted')
  | refund id =>
    obtain ⟨r, hr, -⟩ := Option.map_eq_some_iff.mp hrow
    obtain ⟨r', hr', -⟩ := Option.map_eq_some_iff.mp hrow'
    obtain ⟨hr, hid⟩ := Option.filter_eq_some_iff.mp hr
    obtain ⟨hr', hid'⟩ := Option.filter_eq_some_iff.mp hr'
    have hsame : r.id = r'.id := (of_decide_eq_true hid).trans (of_decide_eq_true hid').symm
    obtain ⟨hthing, old, hold, hpid⟩ := hwithin.refund r hr
    obtain ⟨hthing', old', hold', hpid'⟩ := hwithin'.refund r' hr'
    rw [← hsame, hold] at hold'
    obtain rfl := Option.some.inj hold'
    exact happart _ hthing (hpid.symm.trans hpid' ▸ hthing')

/-! ## Leases -/

/-- The books while no lease is held. -/
def Books.free (b : Books) : Books :=
  { b with fences := { mutations := [], subscribing := false, refunds := [] } }

section Free

variable {b : Books} {dunning : Dunning} {now : ℤ}

theorem settlementFenced_free (invoice : Invoice) : b.free.settlementFenced invoice = false := by
  unfold Books.settlementFenced
  cases invoice.subscriptionId <;> rfl

theorem subscriptionFenced_free (sub : Subscription) : b.free.subscriptionFenced sub = false := rfl

variable {invoice : Invoice}

/-- A settlement that no lease blocks activates what it would activate without leases. -/
theorem activated_free (h : ¬ b.settlementFenced invoice = true) :
    b.free.activated invoice now = b.activated invoice now := by
  unfold Books.activated
  cases hsid : invoice.subscriptionId with
  | none => rfl
  | some sid =>
    have hsid' : ¬ b.mutationFenced sid = true := by
      simpa [Books.settlementFenced, hsid] using h
    rw [Option.bind_some, Option.bind_some, if_neg hsid']
    rfl

variable {effects : Effects}

theorem failInvoice_free {identity : String} {payment : Option Payment}
    (h : b.failInvoice dunning invoice identity payment now = some effects) :
    b.free.failInvoice dunning invoice identity payment now = some effects := by
  unfold Books.failInvoice at h ⊢
  split at h
  · cases h
  · rw [settlementFenced_free, if_neg (by simp)]
    exact h

variable {object : Object} {uuid : String}

theorem webhookPaymentSucceeded_free (h : b.webhookPaymentSucceeded object now uuid = some effects) :
    b.free.webhookPaymentSucceeded object now uuid = some effects := by
  unfold Books.webhookPaymentSucceeded at h ⊢
  cases hid : object.id with
  | none =>
    rw [hid] at h
    exact h
  | some id =>
    have hsame : b.free.paymentByProviderId = b.paymentByProviderId := rfl
    have hsame' : b.free.invoices = b.invoices := rfl
    simp only [hid, hsame, hsame'] at h ⊢
    cases hinvoice : (((b.paymentByProviderId id).map (·.invoiceId)).or object.localInvoiceId).bind
        b.invoices.get? with
    | none =>
      simp only [hinvoice] at h ⊢
      exact h
    | some invoice =>
      simp only [hinvoice] at h ⊢
      split at h
      · cases h
      · next hfenced =>
        rw [settlementFenced_free, if_neg (by simp)]
        unfold Books.paymentSucceeded at h ⊢
        rw [activated_free hfenced]
        exact h

theorem webhookPaymentFailed_free (h : b.webhookPaymentFailed dunning object now = some effects) :
    b.free.webhookPaymentFailed dunning object now = some effects := by
  unfold Books.webhookPaymentFailed at h ⊢
  cases hid : object.id with
  | none =>
    rw [hid] at h
    exact h
  | some id =>
    simp only [hid] at h ⊢
    have hsame : b.free.paymentByProviderId id = b.paymentByProviderId id := rfl
    rw [hsame]
    cases hpayment : b.paymentByProviderId id with
    | none =>
      rw [hpayment] at h
      exact h
    | some payment =>
      simp only [hpayment] at h ⊢
      have hsame : b.free.invoices = b.invoices := rfl
      rw [hsame]
      cases hinvoice : b.invoices.get? payment.invoiceId with
      | none =>
        rw [hinvoice] at h
        exact h
      | some invoice =>
        simp only [hinvoice] at h ⊢
        split at h
        · next hcan => rw [if_pos hcan, h]
        · next hcan =>
          rw [if_neg hcan]
          split at h
          · next hcan' => rw [if_pos hcan', h]
          · next hcan' =>
            rw [if_neg hcan']
            exact failInvoice_free h

theorem webhookRefundObject_free (h : b.webhookRefundObject object uuid = some effects) :
    b.free.webhookRefundObject object uuid = some effects := by
  unfold Books.webhookRefundObject at h ⊢
  have hsame : b.free.eventRefund object = b.eventRefund object := rfl
  rw [hsame]
  cases hrefund : b.eventRefund object with
  | some refund =>
    rw [hrefund] at h
    exact h
  | none =>
    simp only [hrefund] at h ⊢
    split at h
    · cases h
    · rw [if_neg (by simp [Books.free]), h]

variable {eventId : String}

theorem webhookInvoicePaid_free (h : b.webhookInvoicePaid eventId object now uuid = some effects) :
    b.free.webhookInvoicePaid eventId object now uuid = some effects := by
  unfold Books.webhookInvoicePaid at h ⊢
  have hsame : b.free.eventInvoice object = b.eventInvoice object := rfl
  rw [hsame]
  cases hinvoice : b.eventInvoice object with
  | none =>
    rw [hinvoice] at h
    exact h
  | some invoice =>
    simp only [hinvoice] at h ⊢
    by_cases hfenced : b.settlementFenced invoice = true
    · rw [if_pos hfenced] at h
      cases h
    · have hactivated : ∀ reconciliation,
          b.free.activated { invoice with reconciliation := reconciliation } now
            = b.activated { invoice with reconciliation := reconciliation } now :=
        fun _ => activated_free hfenced
      rw [if_neg hfenced] at h
      rw [settlementFenced_free, if_neg (by simp)]
      simp only [hactivated]
      exact h

theorem webhookInvoiceFailed_free {paymentFailed : Bool}
    (h : b.webhookInvoiceFailed dunning eventId paymentFailed object now = some effects) :
    b.free.webhookInvoiceFailed dunning eventId paymentFailed object now = some effects := by
  unfold Books.webhookInvoiceFailed at h ⊢
  have hsame : b.free.eventInvoice object = b.eventInvoice object := rfl
  rw [hsame]
  cases hinvoice : b.eventInvoice object with
  | none =>
    rw [hinvoice] at h
    exact h
  | some invoice =>
    simp only [hinvoice] at h ⊢
    split at h
    · next hcan => rw [if_pos hcan, ← h]; rfl
    · next hcan =>
      rw [if_neg hcan]
      exact failInvoice_free h

theorem webhookSubscriptionUpdated_free (h : b.webhookSubscriptionUpdated object now = some effects) :
    b.free.webhookSubscriptionUpdated object now = some effects := by
  unfold Books.webhookSubscriptionUpdated at h ⊢
  have hsame : b.free.subscriptionByProviderId = b.subscriptionByProviderId := rfl
  rw [hsame]
  cases hsub : object.id.bind b.subscriptionByProviderId with
  | none =>
    rw [hsub] at h
    exact h
  | some sub =>
    simp only [hsub] at h ⊢
    by_cases hfenced : b.subscriptionFenced sub = true
    · rw [if_pos hfenced] at h
      split at h
      · next hcanceled => rw [if_pos hcanceled, h]
      · cases h
    · rw [if_neg hfenced] at h
      rw [subscriptionFenced_free, if_neg (c := false = true) (by simp)]
      exact h

theorem webhookSubscriptionDeleted_free (h : b.webhookSubscriptionDeleted object now = some effects) :
    b.free.webhookSubscriptionDeleted object now = some effects := by
  unfold Books.webhookSubscriptionDeleted at h ⊢
  have hsame : b.free.subscriptionByProviderId = b.subscriptionByProviderId := rfl
  rw [hsame]
  cases hsub : object.id.bind b.subscriptionByProviderId with
  | none =>
    rw [hsub] at h
    exact h
  | some sub =>
    simp only [hsub] at h ⊢
    split at h
    · cases h
    · rw [subscriptionFenced_free, if_neg (by simp)]
      exact h

/-- **A lease only delays an event**: what is not refused is done as if no lease was held. -/
theorem webhookEffects_free {d : Delivery} (h : b.webhookEffects dunning d = some effects) :
    b.free.webhookEffects dunning d = some effects := by
  unfold Books.webhookEffects at h ⊢
  cases htype : d.event.type <;> simp only [htype] at h ⊢
  case paymentSucceeded => exact webhookPaymentSucceeded_free h
  case paymentProcessing next => exact h
  case paymentFailed => exact webhookPaymentFailed_free h
  case refund => exact webhookRefundObject_free h
  case invoicePaid => exact webhookInvoicePaid_free h
  case invoiceFailed paymentFailed => exact webhookInvoiceFailed_free h
  case subscriptionUpdated => exact webhookSubscriptionUpdated_free h
  case subscriptionDeleted => exact webhookSubscriptionDeleted_free h
  case other => exact h

end Free

/-! ## Runs -/

/-- What happens between the first delivery and the last one: an event is delivered, or an operation
takes or releases leases. -/
inductive OrderStep
  | deliver (d : Delivery)
  | leases (fences : Fences)
  deriving DecidableEq, Repr

namespace Register

variable (dunning : Dunning)

/-- A refused delivery changes nothing. -/
def step (r : Register) : OrderStep → Register
  | .deliver d => (r.handleWebhook dunning d).getD r
  | .leases fences => { r with books := { r.books with fences := fences } }

def run (r : Register) : List OrderStep → Register
  | [] => r
  | s :: rest => (r.step dunning s).run rest

/-- The event gets past the duplicate check. -/
def admits (r : Register) (d : Delivery) : Bool :=
  !r.books.blockedByFence d.event && !r.webhooks.contains d.event.id

/-- The event is discarded: it is recorded, and none of its rows is written. -/
def discards (r : Register) (d : Delivery) : Bool := r.admits d && r.stale d.event

/-- The event is applied. -/
def applies (r : Register) (d : Delivery) : Bool :=
  r.admits d && !r.stale d.event
    && ((r.books.webhookEffects dunning d).bind r.books.write).isSome

/-- The events that a run applies. -/
def applied (r : Register) : List OrderStep → List Delivery
  | [] => []
  | s :: rest =>
    let later := (r.step dunning s).applied rest
    match s with
    | .deliver d => if r.applies dunning d then d :: later else later
    | .leases _ => later

/-- The events that a run discards. -/
def discarded (r : Register) : List OrderStep → List Delivery
  | [] => []
  | s :: rest =>
    let later := (r.step dunning s).discarded rest
    match s with
    | .deliver d => if r.discards d then d :: later else later
    | .leases _ => later

end Register

/-- **What a delivery does.** -/
theorem deliver_cases (dunning : Dunning) (r : Register) (d : Delivery) :
    (r.applies dunning d = true ∧ r.discards d = false ∧ d.event.id ∉ r.webhooks ∧
      ∃ effects books, r.books.webhookEffects dunning d = some effects ∧
        r.books.write effects = some books ∧
        (r.step dunning (.deliver d)).books = books ∧
        (r.step dunning (.deliver d)).webhooks = d.event.id :: r.webhooks) ∨
    (r.applies dunning d = false ∧ r.discards d = true ∧ d.event.id ∉ r.webhooks ∧
      (r.step dunning (.deliver d)).books = r.books ∧
      (r.step dunning (.deliver d)).webhooks = d.event.id :: r.webhooks) ∨
    (r.applies dunning d = false ∧ r.discards d = false ∧ r.step dunning (.deliver d) = r) := by
  have hstep : r.step dunning (.deliver d) = (r.handleWebhook dunning d).getD r := rfl
  rw [hstep]
  unfold Register.handleWebhook
  by_cases hblocked : r.books.blockedByFence d.event = true
  · have hadmits : r.admits d = false := by simp [Register.admits, hblocked]
    rw [if_pos hblocked]
    exact .inr (.inr ⟨by simp [Register.applies, hadmits], by simp [Register.discards, hadmits], rfl⟩)
  · rw [if_neg hblocked]
    by_cases hseen : d.event.id ∈ r.webhooks
    · have hadmits : r.admits d = false := by simp [Register.admits, hseen]
      rw [if_pos hseen]
      exact .inr (.inr
        ⟨by simp [Register.applies, hadmits], by simp [Register.discards, hadmits], rfl⟩)
    · have hadmits : r.admits d = true := by simp [Register.admits, hseen, hblocked]
      rw [if_neg hseen]
      by_cases hstale : r.stale d.event = true
      · rw [if_pos hstale]
        exact .inr (.inl ⟨by simp [Register.applies, hstale],
          by simp [Register.discards, hadmits, hstale], hseen, rfl, rfl⟩)
      · rw [if_neg hstale]
        have hdiscards : r.discards d = false := by simp [Register.discards, hstale]
        cases hwrite : (r.books.webhookEffects dunning d).bind r.books.write with
        | none => exact .inr (.inr ⟨by simp [Register.applies, hwrite], hdiscards, rfl⟩)
        | some books =>
          obtain ⟨effects, heffects, hbooks⟩ := Option.bind_eq_some_iff.mp hwrite
          exact .inl ⟨by simp [Register.applies, hadmits, hstale, hwrite], hdiscards, hseen,
            effects, books, heffects, hbooks, rfl, rfl⟩

/-! ## Independent events -/

/-- **No two events concern one thing**: an event is known by its id, and the random ids are new. -/
structure Independent (b : Books) (events : List Delivery) : Prop where
  ids : ∀ d ∈ events, ∀ d' ∈ events, d.event.id = d'.event.id → d = d'
  apart : ∀ d ∈ events, ∀ d' ∈ events, d ≠ d' → ∀ thing ∈ b.concerns d, thing ∉ b.concerns d'
  fresh : ∀ d ∈ events, FreshIds b (b.concerns d)

/-- **The order delivers the events**: each is accepted in the end. -/
structure Delivers (dunning : Dunning) (r : Register) (events : List Delivery)
    (order : List OrderStep) : Prop where
  only : ∀ d, .deliver d ∈ order → d ∈ events
  all : ∀ d ∈ events, d.event.id ∈ (r.run dunning order).webhooks

/-- The event changes a row when it is applied. -/
def Effective (dunning : Dunning) (b : Books) (d : Delivery) : Prop :=
  ∃ effects, b.free.webhookEffects dunning d = some effects ∧
    ∃ c row, effects.cell c = some row ∧ b.cell c ≠ some row

/-- **The books show the events that were applied**, on top of the rows that were there. -/
structure Shows (dunning : Dunning) (b₀ : Books) (events done : List Delivery) (r : Register) :
    Prop where
  events : ∀ d ∈ done, d ∈ events
  recorded : ∀ d ∈ done, d.event.id ∈ r.webhooks
  apart : Apart (done.flatMap b₀.concerns) b₀ r.books
  plans : ∀ d ∈ done, ∃ effects, b₀.free.webhookEffects dunning d = some effects
  written : ∀ d ∈ done, ∀ effects, b₀.free.webhookEffects dunning d = some effects →
    ∀ c row, effects.cell c = some row → r.books.cell c = some row
  kept : ∀ c, (∀ d ∈ done, ∀ effects, b₀.free.webhookEffects dunning d = some effects →
    effects.cell c = none) → r.books.cell c = b₀.cell c

section Shows

variable {dunning : Dunning} {b₀ : Books} {events done : List Delivery} {r : Register}

variable {d : Delivery} {effects : Effects}

/-- Two events of which one was applied write at different places. -/
theorem plan_cells_apart (hE : Independent b₀ events) {d' : Delivery} (hd : d ∈ events) (hd' : d' ∈ events)
    (hne : d ≠ d') {effects' : Effects} (heffects : b₀.free.webhookEffects dunning d = some effects)
    (heffects' : b₀.free.webhookEffects dunning d' = some effects') {c : Cell} {row : Row}
    (hrow : effects.cell c = some row) : effects'.cell c = none :=
  cells_apart (b := b₀.free) (webhookEffects_within heffects) (webhookEffects_within heffects')
    (hE.fresh d hd) (hE.fresh d' hd') (hE.apart d hd d' hd' hne) hrow

theorem Shows.refl (r : Register) : Shows dunning r.books events [] r where
  events _ h := by cases h
  recorded _ h := by cases h
  apart := Apart.refl r.books
  plans _ h := by cases h
  written _ h := by cases h
  kept _ _ := rfl

theorem Shows.leases (h : Shows dunning b₀ events done r) (fences : Fences) :
    Shows dunning b₀ events done (r.step dunning (.leases fences)) where
  events := h.events
  recorded := h.recorded
  apart := ⟨h.apart.payment, h.apart.paymentRow, h.apart.noPayment, h.apart.invoice,
    h.apart.invoiceId, h.apart.refund, h.apart.refundRow, h.apart.subscription,
    h.apart.subscriptionId⟩
  plans := h.plans
  written d hd effects heffects c row hrow := by
    rw [← h.written d hd effects heffects c row hrow]
    cases c <;> rfl
  kept c hc := by
    rw [← h.kept c hc]
    cases c <;> rfl

variable {r' : Register}

theorem Shows.mono (h : Shows dunning b₀ events done r) (hbooks : r'.books = r.books)
    (hwebhooks : ∀ id ∈ r.webhooks, id ∈ r'.webhooks) : Shows dunning b₀ events done r' where
  events := h.events
  recorded d hd := hwebhooks _ (h.recorded d hd)
  apart := hbooks ▸ h.apart
  plans := h.plans
  written := hbooks ▸ h.written
  kept := hbooks ▸ h.kept

/-- An event that is applied is one more that the books show. -/
theorem Shows.applied (h : Shows dunning b₀ events done r) (hE : Independent b₀ events) (hd : d ∈ events)
    (hnew : d.event.id ∉ r.webhooks) (heffects : r.books.webhookEffects dunning d = some effects)
    (hwrite : r.books.write effects = some r'.books) (hwebhooks : r'.webhooks = d.event.id :: r.webhooks) :
    Shows dunning b₀ events (d :: done) r' := by
  have hne : ∀ d' ∈ done, d' ≠ d := by
    rintro d' hd' rfl
    exact hnew (h.recorded d' hd')
  have hapart : ∀ thing ∈ b₀.concerns d, thing ∉ done.flatMap b₀.concerns := by
    intro thing hthing hmem
    obtain ⟨d', hd', hthing'⟩ := List.mem_flatMap.mp hmem
    exact hE.apart d hd d' (h.events d' hd') (hne d' hd').symm thing hthing hthing'
  have hfresh : FreshIds b₀ (done.flatMap b₀.concerns) := by
    intro uuid hmem
    obtain ⟨d', hd', hthing⟩ := List.mem_flatMap.mp hmem
    exact hE.fresh d' (h.events d' hd') uuid hthing
  -- the event is planned as on the books at the start, under the leases of now
  let b₁ : Books := { b₀ with fences := r.books.fences }
  have happart₁ : Apart (done.flatMap b₀.concerns) b₁ r.books :=
    ⟨h.apart.payment, h.apart.paymentRow, h.apart.noPayment, h.apart.invoice, h.apart.invoiceId,
      h.apart.refund, h.apart.refundRow, h.apart.subscription, h.apart.subscriptionId⟩
  have hplan₁ : b₁.webhookEffects dunning d = some effects := by
    rw [← happart₁.webhookEffects (d := d) rfl hfresh hapart]
    exact heffects
  have hplan : b₀.free.webhookEffects dunning d = some effects := webhookEffects_free (b := b₁) hplan₁
  have hwithin : Within b₀ (b₀.concerns d) effects := by
    have hfree := webhookEffects_within hplan
    exact ⟨hfree.subscription, hfree.invoice, hfree.payment, hfree.refund⟩
  have hcell : ∀ c, r'.books.cell c = (effects.cell c).or (r.books.cell c) := by
    refine cell_write hwrite fun i hi => ?_
    obtain ⟨old, hold, -, hthing⟩ := hwithin.invoice i hi
    rw [h.apart.invoice i.id fun _ _ => hapart _ hthing, hold]
    rfl
  constructor
  case events =>
    intro d' hd'
    rcases List.mem_cons.mp hd' with rfl | hd'
    · exact hd
    · exact h.events d' hd'
  case recorded =>
    intro d' hd'
    rw [hwebhooks]
    rcases List.mem_cons.mp hd' with rfl | hd'
    · exact List.mem_cons_self
    · exact List.mem_cons_of_mem _ (h.recorded d' hd')
  case apart => exact h.apart.write hwithin (hE.fresh d hd) hapart hwrite
  case plans =>
    intro d' hd'
    rcases List.mem_cons.mp hd' with rfl | hd'
    · exact ⟨effects, hplan⟩
    · exact h.plans d' hd'
  case written =>
    intro d' hd' effects' heffects' c row hrow
    rw [hcell c]
    rcases List.mem_cons.mp hd' with rfl | hd'
    · rw [hplan] at heffects'
      obtain rfl := Option.some.inj heffects'
      rw [hrow, Option.some_or]
    · rw [plan_cells_apart hE (h.events d' hd') hd (hne d' hd') heffects' hplan hrow, Option.none_or]
      exact h.written d' hd' effects' heffects' c row hrow
  case kept =>
    intro c hc
    rw [hcell c, hc d List.mem_cons_self effects hplan, Option.none_or]
    exact h.kept c fun d' hd' => hc d' (List.mem_cons_of_mem _ hd')

/-- **A run shows the events that it applies.** -/
theorem Shows.run (hE : Independent b₀ events) (order : List OrderStep)
    (honly : ∀ d, .deliver d ∈ order → d ∈ events) (h : Shows dunning b₀ events done r) :
    ∃ all, Shows dunning b₀ events all (r.run dunning order) ∧
      ∀ d, d ∈ all ↔ d ∈ done ∨ d ∈ r.applied dunning order := by
  induction order generalizing done r with
  | nil => exact ⟨done, h, fun d => by simp [Register.applied]⟩
  | cons s rest ih =>
    have hrest : ∀ d, .deliver d ∈ rest → d ∈ events := fun d hd => honly d (List.mem_cons_of_mem _ hd)
    cases s with
    | leases fences =>
      obtain ⟨all, hall, hmem⟩ := ih hrest (h.leases fences)
      exact ⟨all, hall, hmem⟩
    | deliver d =>
      have hd := honly d List.mem_cons_self
      obtain ⟨happlies, -, hnew, effects, books, heffects, hwrite, hbooks, hwebhooks⟩ |
        ⟨happlies, -, -, hbooks, hwebhooks⟩ | ⟨happlies, -, hsame⟩ := deliver_cases dunning r d
      · obtain ⟨all, hall, hmem⟩ := ih hrest
          (h.applied hE hd hnew heffects (hbooks ▸ hwrite) hwebhooks)
        refine ⟨all, hall, fun d' => ?_⟩
        rw [hmem, Register.applied, List.mem_cons]
        simp only [happlies, if_true, List.mem_cons]
        tauto
      · obtain ⟨all, hall, hmem⟩ := ih hrest
          (h.mono hbooks fun id hid => hwebhooks ▸ List.mem_cons_of_mem _ hid)
        refine ⟨all, hall, fun d' => ?_⟩
        rw [hmem, Register.applied]
        simp [happlies]
      · obtain ⟨all, hall, hmem⟩ := ih hrest (hsame.symm ▸ h)
        refine ⟨all, hall, fun d' => ?_⟩
        rw [hmem, Register.applied]
        simp [happlies]

end Shows

/-! ## Recorded events -/

section Recorded

variable {dunning : Dunning}

variable {order : List OrderStep} {d : Delivery}

theorem not_recorded_of_applied {r : Register}
    (h : d ∈ r.applied dunning order ∨ d ∈ r.discarded dunning order) :
    d.event.id ∉ r.webhooks := by
  induction order generalizing r with
  | nil => simp [Register.applied, Register.discarded] at h
  | cons s rest ih =>
    cases s with
    | leases fences => exact ih (r := r.step dunning (.leases fences)) h
    | deliver d' =>
      obtain ⟨happlies, hdiscards, hnew, -, -, -, -, -, hwebhooks⟩ |
        ⟨happlies, hdiscards, hnew, -, hwebhooks⟩ | ⟨happlies, hdiscards, hsame⟩ :=
        deliver_cases dunning r d'
      all_goals
        simp only [Register.applied, Register.discarded, happlies, hdiscards, if_true,
          Bool.false_eq_true, if_false, List.mem_cons] at h
      · rcases h with (rfl | h) | h
        · exact hnew
        · exact fun hmem => ih (.inl h) (hwebhooks ▸ List.mem_cons_of_mem _ hmem)
        · exact fun hmem => ih (.inr h) (hwebhooks ▸ List.mem_cons_of_mem _ hmem)
      · rcases h with h | rfl | h
        · exact fun hmem => ih (.inl h) (hwebhooks ▸ List.mem_cons_of_mem _ hmem)
        · exact hnew
        · exact fun hmem => ih (.inr h) (hwebhooks ▸ List.mem_cons_of_mem _ hmem)
      · rw [hsame] at h
        exact ih h

/-- An event is applied or discarded at most once. -/
theorem not_discarded_of_applied {r : Register} (h : d ∈ r.applied dunning order) :
    d ∉ r.discarded dunning order := by
  induction order generalizing r with
  | nil => simp [Register.discarded]
  | cons s rest ih =>
    cases s with
    | leases fences => exact ih h
    | deliver d' =>
      obtain ⟨happlies, hdiscards, hnew, -, -, -, -, -, hwebhooks⟩ |
        ⟨happlies, hdiscards, hnew, -, hwebhooks⟩ | ⟨happlies, hdiscards, hsame⟩ :=
        deliver_cases dunning r d'
      all_goals
        simp only [Register.applied, Register.discarded, happlies, hdiscards, if_true,
          Bool.false_eq_true, if_false, List.mem_cons] at h ⊢
      · rcases h with rfl | h
        · intro hlater
          exact not_recorded_of_applied (.inr hlater) (hwebhooks ▸ List.mem_cons_self)
        · exact ih h
      · rintro (rfl | hlater)
        · exact not_recorded_of_applied (.inl h) (hwebhooks ▸ List.mem_cons_self)
        · exact ih h hlater
      · exact ih h

/-- An event that a run records was recorded before, or is applied or discarded. -/
theorem recorded_cases {r : Register} {id : String} (h : id ∈ (r.run dunning order).webhooks) :
    id ∈ r.webhooks ∨ ∃ d, .deliver d ∈ order ∧ d.event.id = id ∧
      (d ∈ r.applied dunning order ∨ d ∈ r.discarded dunning order) := by
  induction order generalizing r with
  | nil => exact .inl h
  | cons s rest ih =>
    cases s with
    | leases fences =>
      rcases ih h with h | ⟨d, hd, hid, h⟩
      · exact .inl h
      · exact .inr ⟨d, List.mem_cons_of_mem _ hd, hid, h⟩
    | deliver d' =>
      obtain ⟨happlies, hdiscards, -, -, -, -, -, -, hwebhooks⟩ |
        ⟨happlies, hdiscards, -, -, hwebhooks⟩ | ⟨happlies, hdiscards, hsame⟩ :=
        deliver_cases dunning r d'
      all_goals
        simp only [Register.applied, Register.discarded, happlies, hdiscards, if_true,
          Bool.false_eq_true, if_false, List.mem_cons]
        have hih := ih h
      · rcases hih with hrec | ⟨d, hd, hid, hlater⟩
        · rw [hwebhooks] at hrec
          rcases List.mem_cons.mp hrec with rfl | hrec
          · exact .inr ⟨d', .inl rfl, rfl, .inl (.inl rfl)⟩
          · exact .inl hrec
        · exact .inr ⟨d, .inr hd, hid, hlater.imp_left .inr⟩
      · rcases hih with hrec | ⟨d, hd, hid, hlater⟩
        · rw [hwebhooks] at hrec
          rcases List.mem_cons.mp hrec with rfl | hrec
          · exact .inr ⟨d', .inl rfl, rfl, .inr (.inl rfl)⟩
          · exact .inl hrec
        · exact .inr ⟨d, .inr hd, hid, hlater.imp_right .inr⟩
      · rcases hih with hrec | ⟨d, hd, hid, hlater⟩
        · exact .inl (hsame ▸ hrec)
        · exact .inr ⟨d, .inr hd, hid, hlater⟩

/-- An event of the set is recorded before, applied, or discarded. -/
theorem Delivers.cases {r : Register} {events : List Delivery} (h : Delivers dunning r events order)
    (hE : Independent r.books events) (hd : d ∈ events) :
    d.event.id ∈ r.webhooks ∨ d ∈ r.applied dunning order ∨ d ∈ r.discarded dunning order := by
  rcases recorded_cases (h.all d hd) with hrec | ⟨d', hd', hid, hdone⟩
  · exact .inl hrec
  · obtain rfl := hE.ids d' (h.only d' hd') d hd hid
    exact .inr hdone

end Recorded

/-! ## Orders -/

variable {d : Delivery}

/-- The row at a place that an event of the set writes. -/
theorem cell_of_shows {dunning : Dunning} {b₀ : Books} {events all : List Delivery} {r : Register}
    (hE : Independent b₀ events) (hshows : Shows dunning b₀ events all r) (hd : d ∈ events)
    (heffects : b₀.free.webhookEffects dunning d = some effects) (hrow : effects.cell c = some row) :
    r.books.cell c = if d ∈ all then some row else b₀.cell c := by
  split
  · next hmem => exact hshows.written d hmem effects heffects c row hrow
  · next hmem =>
    refine hshows.kept c fun d' hd' effects' heffects' => ?_
    have hne : d ≠ d' := fun heq => hmem (heq ▸ hd')
    exact plan_cells_apart hE hd (hshows.events d' hd') hne heffects heffects' hrow

variable {order₁ order₂ : List OrderStep}

/-- When the rows are the same, an event that changes one and is discarded in one order is discarded
in the other. -/
theorem discarded_of_same_rows {dunning : Dunning} {r r₁ r₂ : Register} {events all₁ all₂ : List Delivery}
    (hE : Independent r.books events) (hd : d ∈ events) (heffective : Effective dunning r.books d)
    (hshows₁ : Shows dunning r.books events all₁ r₁) (hshows₂ : Shows dunning r.books events all₂ r₂)
    (hsame : ∀ c, r₁.books.cell c = r₂.books.cell c) (hall₁ : ∀ d, d ∈ all₁ ↔ d ∈ r.applied dunning order₁)
    (hall₂ : ∀ d, d ∈ all₂ ↔ d ∈ r.applied dunning order₂)
    (hcases : d.event.id ∈ r.webhooks ∨ d ∈ r.applied dunning order₂ ∨ d ∈ r.discarded dunning order₂)
    (hdiscarded : d ∈ r.discarded dunning order₁) : d ∈ r.discarded dunning order₂ := by
  obtain ⟨effects, heffects, c, row, hrow, hold⟩ := heffective
  rcases hcases with hrec | happlied | hdiscarded₂
  · exact absurd hrec (not_recorded_of_applied (.inr hdiscarded))
  · have hnot : d ∉ all₁ := fun hmem =>
      not_discarded_of_applied ((hall₁ d).mp hmem) hdiscarded
    have hcell := hsame c
    rw [cell_of_shows hE hshows₁ hd heffects hrow, if_neg hnot,
      cell_of_shows hE hshows₂ hd heffects hrow, if_pos ((hall₂ d).mpr happlied)] at hcell
    exact absurd hcell hold
  · exact hdiscarded₂

/-- An event that both orders discard or neither does is applied by both or by neither. -/
theorem applied_iff_of_discarded_iff {dunning : Dunning} {r : Register}
    (hcases₁ : d.event.id ∈ r.webhooks ∨ d ∈ r.applied dunning order₁ ∨ d ∈ r.discarded dunning order₁)
    (hcases₂ : d.event.id ∈ r.webhooks ∨ d ∈ r.applied dunning order₂ ∨ d ∈ r.discarded dunning order₂)
    (hiff : d ∈ r.discarded dunning order₁ ↔ d ∈ r.discarded dunning order₂) :
    d ∈ r.applied dunning order₁ ↔ d ∈ r.applied dunning order₂ := by
  constructor
  · intro h
    rcases hcases₂ with hrec | h₂ | h₂
    · exact absurd hrec (not_recorded_of_applied (.inl h))
    · exact h₂
    · exact absurd (hiff.mpr h₂) (not_discarded_of_applied h)
  · intro h
    rcases hcases₁ with hrec | h₁ | h₁
    · exact absurd hrec (not_recorded_of_applied (.inl h))
    · exact h₁
    · exact absurd (hiff.mp h₁) (not_discarded_of_applied h)

/-- An open invoice of ten units. -/
def openInvoice (id : String) : Invoice where
  id := id
  subscriptionId := none
  providerInvoiceId := none
  reconciliation := .unreconciled
  currency := "USD"
  status := .opened
  lastDunningPaymentId := none
  totalMinor := 10
  amountPaidMinor := 0
  amountRefundedMinor := 0
  paidMs := none

/-- Two open invoices, nothing paid, and no event seen. -/
def twoInvoices : Register where
  books :=
    { subscription := none
      invoices := ⟨[openInvoice "a", openInvoice "b"], by decide⟩
      payments := KeyTable.empty
      refunds := KeyTable.empty
      creditNotes := KeyTable.empty
      fences := { mutations := [], subscribing := false, refunds := [] } }
  webhooks := []
  watermark := none

/-- A payment intent that pays an invoice. -/
def intentSucceeded (id invoiceId : String) (createdMs : ℤ) : Delivery where
  event :=
    { id := "evt_" ++ id, createdMs := createdMs, type := .paymentSucceeded
      object := { Object.empty with id := some ("pi_" ++ id), localInvoiceId := some invoiceId } }
  now := 3000
  uuid := id

/-- An event of a type that is only recorded. -/
def unhandled (id : String) (createdMs : ℤ) : Delivery where
  event := { id := "evt_" ++ id, createdMs := createdMs, type := .other, object := Object.empty }
  now := 3000
  uuid := id

def noRetries : Dunning := { maxAttempts := 1, graceMs := 0 }

end Billing
