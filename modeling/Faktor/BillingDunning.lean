/-
# How often a failed payment is counted

A failed payment is reported by the decline of the call that tried it, by payment events and by invoice
events.  A decline always counts an attempt; an event counts one unless the invoice remembers the
identity that it carries as the last one counted.

* `Books.failureOf` : the invoice that a failure event fails, and the identity it carries;
* `ReportsOnce` : a payment that has been counted is reported again only under the identity that the
  invoice remembers;
* `counted_once` : then every failed payment is counted at most once since the last success, and the
  subscription is canceled only after `max_attempts` distinct ones;
* `reportedAgain_counted_twice` : two failed payments, one of them reported again after the other, make
  three attempts.
-/
import Faktor.BillingRecords
import Faktor.Trace

namespace Billing

open Payments (InvoiceStatus PaymentStatus)

/-! ## Reports -/

/-- The attempts that the subscription counts. -/
def Books.attempts (b : Books) : ℕ := (b.subscription.map (·.dunningAttempts)).getD 0

/-- The invoice that a failure event is about, and the identity under which it counts it. -/
def Books.failureOf (b : Books) (event : WebhookEvent) : Option (Invoice × String) :=
  let object := event.object
  match event.type with
  | .paymentFailed =>
    object.id.bind fun id =>
      (b.paymentByProviderId id).bind fun payment =>
        (b.invoices.get? payment.invoiceId).map fun invoice => (invoice, id)
  | .invoiceFailed paymentFailed =>
    (b.eventInvoice object).map fun invoice =>
      (invoice, b.failureIdentity event.id paymentFailed object)
  | _ => none

/-- The books, and the failed provider payments that were counted since the last success. -/
structure DunningDesk where
  register : Register
  counted : List String

/-- A charge, a webhook or a decline; the last two name the failed provider payment they are about. -/
inductive DunningEvent
  | charge (c : ChargeRecord)
  | webhook (d : Delivery) (payment : String)
  | decline (invoiceId payment : String) (now : ℤ)
  deriving DecidableEq, Repr

namespace DunningDesk

/-- What was counted, after the attempts went from `before` to `after`. -/
def recount (counted : List String) (payment : String) (before after : ℕ) : List String :=
  if after = 0 then [] else if before < after then payment :: counted else counted

def move (w : DunningDesk) (payment : String) (register : Register) : DunningDesk where
  register := register
  counted := recount w.counted payment w.register.books.attempts register.books.attempts

/-- One transaction. -/
def step (dunning : Dunning) (w : DunningDesk) : DunningEvent → Option DunningDesk
  | .charge c =>
    (w.register.books.recordCharge c).map fun books =>
      w.move c.providerPaymentId { w.register with books := books }
  | .webhook d payment => (w.register.handleWebhook dunning d).map (w.move payment)
  | .decline invoiceId payment now =>
    (w.register.books.recordPaymentFailure dunning invoiceId now).map fun books =>
      w.move payment { w.register with books := books }

end DunningDesk

/-- A payment that was counted since the last success is not declined again, and an event about it
carries the identity that its invoice remembers. -/
def ReportsOnce (w : DunningDesk) : DunningEvent → Prop
  | .charge _ => True
  | .webhook d payment =>
    payment ∈ w.counted → ∀ fi ∈ w.register.books.failureOf d.event,
      fi.1.lastDunningPaymentId = some fi.2
  | .decline _ payment _ => payment ∉ w.counted

instance (w : DunningDesk) : (event : DunningEvent) → Decidable (ReportsOnce w event)
  | .charge _ => inferInstanceAs (Decidable True)
  | .webhook d payment =>
    inferInstanceAs (Decidable (payment ∈ w.counted → ∀ fi ∈ w.register.books.failureOf d.event,
      fi.1.lastDunningPaymentId = some fi.2))
  | .decline _ payment _ => inferInstanceAs (Decidable (payment ∉ w.counted))

/-! ## What a transaction does to the attempts -/

section Attempts

variable {b b' : Books} {dunning : Dunning} {effects : Effects} {now : ℤ}

theorem attempts_write (h : b.write effects = some b') :
    b'.attempts = (effects.subscription.map (·.dunningAttempts)).getD b.attempts ∧
      b'.subscription = effects.subscription.or b.subscription := by
  have hsub : b'.subscription = effects.subscription.or b.subscription := by
    simp only [Books.write] at h
    split at h
    · obtain ⟨notes, -, rfl⟩ := Option.map_eq_some_iff.mp h
      rfl
    · obtain rfl := Option.some.inj h
      rfl
  refine ⟨?_, hsub⟩
  rw [Books.attempts, hsub]
  cases effects.subscription <;> rfl

variable {id : String} {sub : Subscription}

theorem attempts_of_subscriptionById (h : b.subscriptionById id = some sub) :
    sub.dunningAttempts = b.attempts := by
  rw [Books.attempts, (Option.filter_eq_some_iff.mp h).1]
  rfl

theorem attempts_of_subscriptionByProviderId (h : b.subscriptionByProviderId id = some sub) :
    sub.dunningAttempts = b.attempts := by
  rw [Books.attempts, (Option.filter_eq_some_iff.mp h).1]
  rfl

/-- What a step may do to the attempts; `advance` says that it may count one. -/
def Counts (before : ℕ) (advance : Prop) (after : ℕ) : Prop :=
  after = 0 ∨ after = before ∨ advance ∧ after = nextAttempt before

theorem Counts.mono {before after : ℕ} {p q : Prop} (h : Counts before p after) (hpq : p → q) :
    Counts before q after := h.imp id (Or.imp id (And.imp hpq id))

variable {invoice : Invoice}

/-- A subscription that is activated counts from zero. -/
theorem attempts_activated (h : b.activated invoice now = some sub) : sub.dunningAttempts = 0 := by
  obtain ⟨id, -, hid⟩ := Option.bind_eq_some_iff.mp h
  split at hid
  · cases hid
  · obtain ⟨sub', -, hactivate⟩ := Option.bind_eq_some_iff.mp hid
    unfold Subscription.activate at hactivate
    split_ifs at hactivate
    obtain rfl := Option.some.inj hactivate
    rfl

/-- A failed payment counts an attempt when it advances, and none otherwise. -/
theorem attempts_failPayment {sub' : Subscription} {advance : Bool}
    (h : sub.failPayment dunning advance now = some sub') :
    sub'.dunningAttempts = (if advance then nextAttempt sub.dunningAttempts else sub.dunningAttempts) ∧
      (sub'.state = .canceled → dunning.maxAttempts ≤ sub'.dunningAttempts) := by
  unfold Subscription.failPayment at h
  by_cases hcan : sub.state.canTransitionTo .pastDue = true
  · rw [if_pos hcan] at h
    obtain rfl := Option.some.inj h
    generalize (if advance = true then nextAttempt sub.dunningAttempts else sub.dunningAttempts) = n
    by_cases hmax : dunning.maxAttempts ≤ n
    · rw [if_pos hmax]
      exact ⟨rfl, fun _ => hmax⟩
    · rw [if_neg hmax]
      exact ⟨rfl, fun hstate => by cases hstate⟩
  · rw [if_neg hcan] at h
    cases h

variable {payment : Option Payment}

theorem attempts_failInvoice {identity : String}
    (h : b.failInvoice dunning invoice identity payment now = some effects) :
    ∀ sub ∈ effects.subscription,
      Counts b.attempts (invoice.lastDunningPaymentId ≠ some identity) sub.dunningAttempts ∧
        (sub.state = .canceled → dunning.maxAttempts ≤ sub.dunningAttempts) := by
  intro sub hsub
  unfold Books.failInvoice at h
  split_ifs at h
  obtain rfl := Option.some.inj h
  obtain ⟨old, hold, hfail⟩ := Option.bind_eq_some_iff.mp hsub
  obtain ⟨id, -, hid⟩ := Option.bind_eq_some_iff.mp hold
  obtain ⟨hattempts, hcanceled⟩ := attempts_failPayment hfail
  rw [attempts_of_subscriptionById hid] at hattempts
  refine ⟨?_, hcanceled⟩
  by_cases hlast : invoice.lastDunningPaymentId = some identity
  · rw [hlast, bne_self_eq_false, if_neg Bool.false_ne_true] at hattempts
    exact .inr (.inl hattempts)
  · rw [if_pos (bne_iff_ne.mpr hlast)] at hattempts
    exact .inr (.inr ⟨hlast, hattempts⟩)

/-- The event counts a failure that its invoice does not remember. -/
def Advances (b : Books) (event : WebhookEvent) : Prop :=
  ∃ fi ∈ b.failureOf event, fi.1.lastDunningPaymentId ≠ some fi.2

variable {object : Object} {event : WebhookEvent}

theorem attempts_paymentFailed (htype : event.type = .paymentFailed) (hobject : event.object = object)
    (h : b.webhookPaymentFailed dunning object now = some effects) :
    ∀ sub ∈ effects.subscription, Counts b.attempts (Advances b event) sub.dunningAttempts ∧
      (sub.state = .canceled → dunning.maxAttempts ≤ sub.dunningAttempts) := by
  intro sub hsub
  unfold Books.webhookPaymentFailed at h
  cases hid : object.id with
  | none =>
    rw [hid] at h
    obtain rfl := Option.some.inj h
    cases hsub
  | some id =>
    rw [hid] at h
    simp only at h
    cases hpayment : b.paymentByProviderId id with
    | none =>
      rw [hpayment] at h
      obtain rfl := Option.some.inj h
      cases hsub
    | some payment =>
      rw [hpayment] at h
      simp only at h
      by_cases hcan : (!payment.status.canTransitionTo .failed) = true
      · rw [if_pos hcan] at h
        obtain rfl := Option.some.inj h
        cases hsub
      · rw [if_neg hcan] at h
        cases hinvoice : b.invoices.get? payment.invoiceId with
        | none =>
          rw [hinvoice] at h
          obtain rfl := Option.some.inj h
          cases hsub
        | some invoice =>
          rw [hinvoice] at h
          simp only at h
          by_cases hdue : (!invoice.status.canTransitionTo .pastDue) = true
          · rw [if_pos hdue] at h
            obtain rfl := Option.some.inj h
            cases hsub
          · rw [if_neg hdue] at h
            obtain ⟨hcounts, hcanceled⟩ := attempts_failInvoice h sub hsub
            refine ⟨hcounts.mono fun hne => ⟨(invoice, id), ?_, hne⟩, hcanceled⟩
            simp only [Books.failureOf, htype, hobject, hid, hpayment, hinvoice, Option.bind_some,
              Option.map_some, Option.mem_def]

theorem attempts_invoiceFailed {paymentFailed : Bool} (htype : event.type = .invoiceFailed paymentFailed)
    (hobject : event.object = object)
    (h : b.webhookInvoiceFailed dunning event.id paymentFailed object now = some effects) :
    ∀ sub ∈ effects.subscription, Counts b.attempts (Advances b event) sub.dunningAttempts ∧
      (sub.state = .canceled → dunning.maxAttempts ≤ sub.dunningAttempts) := by
  intro sub hsub
  simp only [Books.webhookInvoiceFailed] at h
  cases hinvoice : b.eventInvoice object with
  | none =>
    rw [hinvoice] at h
    obtain rfl := Option.some.inj h
    cases hsub
  | some invoice =>
    rw [hinvoice] at h
    simp only at h
    by_cases hdue : (!invoice.status.canTransitionTo .pastDue) = true
    · rw [if_pos hdue] at h
      obtain rfl := Option.some.inj h
      cases hsub
    · rw [if_neg hdue] at h
      obtain ⟨hcounts, hcanceled⟩ := attempts_failInvoice h sub hsub
      refine ⟨hcounts.mono fun hne =>
        ⟨(invoice, b.failureIdentity event.id paymentFailed object), ?_, hne⟩, hcanceled⟩
      simp only [Books.failureOf, htype, hobject, hinvoice, Option.map_some, Option.mem_def]

variable {uuid : String}

/-- An activation, or no subscription to write. -/
theorem attempts_paymentSucceeded (h : b.paymentSucceeded payment invoice id object now uuid = some effects) :
    ∀ sub ∈ effects.subscription, sub.dunningAttempts = 0 := by
  intro sub hsub
  cases payment with
  | some payment =>
    simp only [Books.paymentSucceeded] at h
    split_ifs at h
    · obtain rfl := Option.some.inj h
      cases hsub
    · obtain ⟨settled, -, rfl⟩ := Option.map_eq_some_iff.mp h
      exact attempts_activated hsub
  | none =>
    simp only [Books.paymentSucceeded] at h
    split_ifs at h
    obtain ⟨settled, -, rfl⟩ := Option.map_eq_some_iff.mp h
    exact attempts_activated hsub

theorem attempts_webhookPaymentSucceeded (h : b.webhookPaymentSucceeded object now uuid = some effects) :
    ∀ sub ∈ effects.subscription, sub.dunningAttempts = 0 := by
  intro sub hsub
  unfold Books.webhookPaymentSucceeded at h
  split at h
  · obtain rfl := Option.some.inj h
    cases hsub
  · simp only at h
    split at h
    · obtain rfl := Option.some.inj h
      cases hsub
    · split_ifs at h
      exact attempts_paymentSucceeded h sub hsub

theorem attempts_webhookInvoicePaid {eventId : String}
    (h : b.webhookInvoicePaid eventId object now uuid = some effects) :
    ∀ sub ∈ effects.subscription, sub.dunningAttempts = 0 := by
  intro sub hsub
  unfold Books.webhookInvoicePaid at h
  split at h
  · obtain rfl := Option.some.inj h
    cases hsub
  · next invoice hinvoice =>
    generalize (invoice.observe _ _) = reconciliation at h
    simp only at h
    generalize (object.amountPaid.getD _) = providerPaid at h
    split_ifs at h
    · obtain rfl := Option.some.inj h
      cases hsub
    · obtain rfl := Option.some.inj h
      cases hsub
    · obtain rfl := Option.some.inj h
      cases hsub
    · obtain rfl := Option.some.inj h
      exact attempts_activated hsub
    · obtain ⟨settled, -, rfl⟩ := Option.map_eq_some_iff.mp h
      exact attempts_activated hsub

theorem attempts_refundObject (h : b.webhookRefundObject object uuid = some effects) :
    effects.subscription = none := by
  simp only [Books.webhookRefundObject] at h
  split at h
  · next refund _ =>
    unfold Books.webhookRefund at h
    split_ifs at h
    · obtain rfl := Option.some.inj h
      rfl
    · split at h
      · cases h
      · split_ifs at h
        · obtain rfl := Option.some.inj h
          rfl
        · obtain rfl := Option.some.inj h
          rfl
        · split at h
          · obtain rfl := Option.some.inj h
            rfl
          · split at h
            · obtain rfl := Option.some.inj h
              rfl
            · obtain ⟨settled, -, rfl⟩ := Option.map_eq_some_iff.mp h
              rfl
  · split_ifs at h
    obtain rfl := Option.some.inj h
    rfl

theorem attempts_subscriptionUpdated (h : b.webhookSubscriptionUpdated object now = some effects) :
    ∀ sub ∈ effects.subscription, sub.dunningAttempts = b.attempts := by
  intro sub hsub
  unfold Books.webhookSubscriptionUpdated at h
  split at h
  · obtain rfl := Option.some.inj h
    cases hsub
  · next old hold =>
    split_ifs at h
    · obtain rfl := Option.some.inj h
      cases hsub
    · obtain rfl := Option.some.inj h
      obtain rfl := Option.some.inj hsub
      obtain ⟨id, -, hid⟩ := Option.bind_eq_some_iff.mp hold
      show old.dunningAttempts = b.attempts
      exact attempts_of_subscriptionByProviderId hid

theorem attempts_subscriptionDeleted (h : b.webhookSubscriptionDeleted object now = some effects) :
    ∀ sub ∈ effects.subscription, sub.dunningAttempts = b.attempts := by
  intro sub hsub
  unfold Books.webhookSubscriptionDeleted at h
  split at h
  · obtain rfl := Option.some.inj h
    cases hsub
  · next old hold =>
    split_ifs at h
    · obtain rfl := Option.some.inj h
      cases hsub
    · obtain rfl := Option.some.inj h
      obtain rfl := Option.some.inj hsub
      obtain ⟨id, -, hid⟩ := Option.bind_eq_some_iff.mp hold
      show old.dunningAttempts = b.attempts
      exact attempts_of_subscriptionByProviderId hid

/-- **What an event does to the attempts**: it leaves them, resets them, or counts one failure that its
invoice does not remember. -/
theorem attempts_webhookEffects {d : Delivery} (h : b.webhookEffects dunning d = some effects) :
    ∀ sub ∈ effects.subscription, Counts b.attempts (Advances b d.event) sub.dunningAttempts ∧
      ((b.failureOf d.event).isSome = true → sub.state = .canceled →
        dunning.maxAttempts ≤ sub.dunningAttempts) := by
  intro sub hsub
  simp only [Books.webhookEffects] at h
  cases htype : d.event.type with
  | paymentSucceeded =>
    rw [htype] at h
    exact ⟨.inl (attempts_webhookPaymentSucceeded h sub hsub), by simp [Books.failureOf, htype]⟩
  | paymentProcessing next =>
    rw [htype] at h
    simp only [Books.webhookPaymentProcessing] at h
    refine absurd hsub ?_
    split at h
    · obtain rfl := Option.some.inj h
      simp [Effects.none]
    · split_ifs at h <;> obtain rfl := Option.some.inj h <;> simp [Effects.none]
  | paymentFailed =>
    rw [htype] at h
    exact (attempts_paymentFailed htype rfl h sub hsub).imp id fun hc _ => hc
  | refund =>
    rw [htype] at h
    rw [attempts_refundObject h] at hsub
    cases hsub
  | invoicePaid =>
    rw [htype] at h
    exact ⟨.inl (attempts_webhookInvoicePaid h sub hsub), by simp [Books.failureOf, htype]⟩
  | invoiceFailed paymentFailed =>
    rw [htype] at h
    exact (attempts_invoiceFailed htype rfl h sub hsub).imp id fun hc _ => hc
  | subscriptionUpdated =>
    rw [htype] at h
    exact ⟨.inr (.inl (attempts_subscriptionUpdated h sub hsub)), by simp [Books.failureOf, htype]⟩
  | subscriptionDeleted =>
    rw [htype] at h
    exact ⟨.inr (.inl (attempts_subscriptionDeleted h sub hsub)), by simp [Books.failureOf, htype]⟩
  | other =>
    rw [htype] at h
    obtain rfl := Option.some.inj h
    cases hsub

/-- A charge leaves the attempts, or resets them. -/
theorem attempts_recordCharge {c : ChargeRecord} (h : b.recordCharge c = some b') :
    b'.attempts = 0 ∨ b'.attempts = b.attempts := by
  obtain ⟨effects, heffects, hwrite⟩ := Option.bind_eq_some_iff.mp h
  rw [(attempts_write hwrite).1]
  obtain ⟨invoice, -, hrows⟩ := Option.bind_eq_some_iff.mp heffects
  split at hrows
  · obtain rfl := Option.some.inj hrows
    exact .inr rfl
  · simp only at hrows
    split_ifs at hrows
    · obtain ⟨settled, -, rfl⟩ := Option.map_eq_some_iff.mp hrows
      simp only [Books.resetByCharge]
      cases invoice.subscriptionId.bind b.subscriptionById with
      | none => exact .inr rfl
      | some sub => exact .inl rfl
    · obtain rfl := Option.some.inj hrows
      simp only
      cases hsub : invoice.subscriptionId.bind b.subscriptionById with
      | none => exact .inr rfl
      | some sub =>
        obtain ⟨id, -, hid⟩ := Option.bind_eq_some_iff.mp hsub
        exact .inr (attempts_of_subscriptionById hid)

variable {invoiceId : String}

/-- The subscription that a decline writes is failed by it. -/
theorem failureEffects_subscription (h : b.failureEffects dunning invoiceId now = some effects) :
    effects.subscription = none ∨ ∃ id old sub, b.subscriptionById id = some old ∧
      old.failPayment dunning true now = some sub ∧ effects.subscription = some sub := by
  obtain ⟨invoice, -, rfl⟩ := Option.map_eq_some_iff.mp h
  generalize (if invoice.status.canTransitionTo .pastDue = true then
    { invoice with status := .pastDue } else invoice) = failed
  by_cases hcond : failed.status ≠ .pastDue ∨ b.settlementFenced invoice = true
  · exact .inl (if_pos hcond)
  · cases hfail : (invoice.subscriptionId.bind b.subscriptionById).bind
        (·.failPayment dunning true now) with
    | none => exact .inl ((if_neg hcond).trans hfail)
    | some sub =>
      obtain ⟨old, hold, hfailed⟩ := Option.bind_eq_some_iff.mp hfail
      obtain ⟨id, -, hid⟩ := Option.bind_eq_some_iff.mp hold
      exact .inr ⟨id, old, sub, hid, hfailed, (if_neg hcond).trans hfail⟩

/-- A decline counts an attempt, or leaves them and the subscription. -/
theorem attempts_recordPaymentFailure (h : b.recordPaymentFailure dunning invoiceId now = some b') :
    Counts b.attempts True b'.attempts ∧ (b'.subscription = b.subscription ∨
      (b'.subscription.map (·.state) = some .canceled → dunning.maxAttempts ≤ b'.attempts)) := by
  obtain ⟨effects, heffects, hwrite⟩ := Option.bind_eq_some_iff.mp h
  obtain ⟨hattempts, hsub'⟩ := attempts_write hwrite
  rw [hattempts, hsub']
  rcases failureEffects_subscription heffects with hnone | ⟨id, old, sub, hid, hfailed, hsub⟩
  · rw [hnone]
    exact ⟨.inr (.inl rfl), .inl rfl⟩
  · obtain ⟨hnext, hcanceled⟩ := attempts_failPayment hfailed
    rw [if_pos rfl, attempts_of_subscriptionById hid] at hnext
    rw [hsub]
    exact ⟨.inr (.inr ⟨trivial, hnext⟩), .inr fun hstate => hcanceled (Option.some.inj hstate)⟩

end Attempts

/-! ## The run -/

/-- The attempts are the failed payments that were counted, each once. -/
structure DunningDesk.Sound (w : DunningDesk) : Prop where
  nodup : w.counted.Nodup
  length : w.register.books.attempts = w.counted.length
  fits : w.register.books.attempts ≤ 2 ^ 32 - 1

variable {w : DunningDesk}

/-- A transaction that counts at most one payment that was not counted before. -/
theorem DunningDesk.Sound.move (hw : w.Sound) {payment : String} {register : Register} {advance : Prop}
    (hadvance : advance → payment ∉ w.counted)
    (hcounts : Counts w.register.books.attempts advance register.books.attempts) :
    (w.move payment register).Sound := by
  obtain ⟨hnodup, hlength, hfits⟩ := hw
  rcases hcounts with hzero | hsame | ⟨hadv, hnext⟩
  · have hcounted : (w.move payment register).counted = [] := if_pos hzero
    refine ⟨by rw [hcounted]; exact List.nodup_nil, ?_, ?_⟩
    · rw [hcounted]
      exact hzero
    · show register.books.attempts ≤ _
      omega
  · have hcounted : (w.move payment register).counted = w.counted := by
      show DunningDesk.recount _ _ _ _ = _
      unfold DunningDesk.recount
      split_ifs with hzero hlt
      · rw [hsame, hlength] at hzero
        exact (List.length_eq_zero_iff.mp hzero).symm
      · omega
      · rfl
    refine ⟨by rw [hcounted]; exact hnodup, ?_, ?_⟩
    · rw [hcounted]
      exact hsame.trans hlength
    · show register.books.attempts ≤ _
      omega
  · rw [nextAttempt] at hnext
    by_cases hfull : w.register.books.attempts = 2 ^ 32 - 1
    · -- a saturated counter is not increased
      have hcounted : (w.move payment register).counted = w.counted := by
        show DunningDesk.recount _ _ _ _ = _
        unfold DunningDesk.recount
        rw [if_neg (by omega), if_neg (by omega)]
      refine ⟨by rw [hcounted]; exact hnodup, ?_, ?_⟩
      · rw [hcounted]
        show register.books.attempts = _
        omega
      · show register.books.attempts ≤ _
        omega
    · have hcounted : (w.move payment register).counted = payment :: w.counted := by
        show DunningDesk.recount _ _ _ _ = _
        unfold DunningDesk.recount
        rw [if_neg (by omega), if_pos (by omega)]
      refine ⟨by rw [hcounted]; exact List.nodup_cons.mpr ⟨hadvance hadv, hnodup⟩, ?_, ?_⟩
      · rw [hcounted, List.length_cons]
        show register.books.attempts = _
        omega
      · show register.books.attempts ≤ _
        omega

variable {r r' : Register} {d : Delivery}

/-- What a webhook does to the register. -/
theorem handleWebhook_cases {dunning : Dunning} (h : r.handleWebhook dunning d = some r') :
    r'.books = r.books ∨ ∃ effects, r.books.webhookEffects dunning d = some effects ∧
      r.books.write effects = some r'.books := by
  unfold Register.handleWebhook at h
  split_ifs at h
  · obtain rfl := Option.some.inj h
    exact .inl rfl
  · obtain rfl := Option.some.inj h
    exact .inl rfl
  · obtain ⟨books, hbooks, rfl⟩ := Option.map_eq_some_iff.mp h
    obtain ⟨effects, heffects, hwrite⟩ := Option.bind_eq_some_iff.mp hbooks
    exact .inr ⟨effects, heffects, hwrite⟩

theorem attempts_handleWebhook {dunning : Dunning} (h : r.handleWebhook dunning d = some r') :
    Counts r.books.attempts (Advances r.books d.event) r'.books.attempts ∧
      (r'.books.subscription = r.books.subscription ∨
        ((r.books.failureOf d.event).isSome = true →
          r'.books.subscription.map (·.state) = some .canceled →
            dunning.maxAttempts ≤ r'.books.attempts)) := by
  rcases handleWebhook_cases h with hsame | ⟨effects, heffects, hwrite⟩
  · rw [hsame]
    exact ⟨.inr (.inl rfl), .inl rfl⟩
  · obtain ⟨hattempts, hsub⟩ := attempts_write hwrite
    rw [hattempts, hsub]
    cases heffect : effects.subscription with
    | none => exact ⟨.inr (.inl rfl), .inl rfl⟩
    | some sub =>
      obtain ⟨hcounts, hcanceled⟩ := attempts_webhookEffects heffects sub heffect
      exact ⟨hcounts, .inr fun hfails hstate => hcanceled hfails (Option.some.inj hstate)⟩

/-- The event reports a failed payment. -/
def DunningEvent.Fails (b : Books) : DunningEvent → Prop
  | .charge _ => False
  | .webhook d _ => (b.failureOf d.event).isSome = true
  | .decline _ _ _ => True

/-- The subscription is canceled. -/
def Books.Canceled (b : Books) : Prop := b.subscription.map (·.state) = some .canceled

theorem Books.Canceled.congr {b b' : Books} (h : b'.Canceled)
    (hsame : b'.subscription = b.subscription) : b.Canceled := by
  rw [Books.Canceled, ← hsame]
  exact h

/-- Each transaction that reports a payment once keeps the count, and cancels the subscription over a
failure only when the attempts are exhausted. -/
theorem dunning_step_sound {w' : DunningDesk} {dunning : Dunning} (hw : w.Sound) {event : DunningEvent}
    (honce : ReportsOnce w event) (h : w.step dunning event = some w') :
    w'.Sound ∧ (event.Fails w.register.books → ¬ w.register.books.Canceled →
      w'.register.books.Canceled → dunning.maxAttempts ≤ w'.register.books.attempts) := by
  cases event with
  | charge c =>
    obtain ⟨books, hbooks, rfl⟩ := Option.map_eq_some_iff.mp h
    refine ⟨hw.move (fun hfalse : False => hfalse.elim) ?_, fun hfails => hfails.elim⟩
    exact (attempts_recordCharge hbooks).imp id .inl
  | webhook d payment =>
    obtain ⟨register, hregister, rfl⟩ := Option.map_eq_some_iff.mp h
    obtain ⟨hcounts, hcanceled⟩ := attempts_handleWebhook hregister
    refine ⟨hw.move ?_ hcounts, fun hfails hbefore hafter => ?_⟩
    · rintro ⟨fi, hfi, hne⟩ hmem
      exact hne (honce hmem fi hfi)
    · rcases hcanceled with hsame | hmax
      · exact absurd (hafter.congr hsame) hbefore
      · exact hmax hfails hafter
  | decline invoiceId payment now =>
    obtain ⟨books, hbooks, rfl⟩ := Option.map_eq_some_iff.mp h
    obtain ⟨hcounts, hcanceled⟩ := attempts_recordPaymentFailure hbooks
    refine ⟨hw.move (fun _ => honce) hcounts, fun _ hbefore hafter => ?_⟩
    rcases hcanceled with hsame | hmax
    · exact absurd (hafter.congr hsame) hbefore
    · exact hmax hafter

/-- **A failed payment is counted once.**  In every run of charges, webhooks and declines in which a
payment that was counted is reported again only under the identity that its invoice remembers: the
attempts are the distinct failed payments that were counted since the last success, and a failure
cancels the subscription only after `max_attempts` of them. -/
theorem counted_once {w₀ w : DunningDesk} {dunning : Dunning} {events : List DunningEvent}
    (hcounted : w₀.counted = []) (hattempts : w₀.register.books.attempts = 0)
    (hrun : Trace.run (DunningDesk.step dunning) w₀ events = some w)
    (honce : Trace.Along (DunningDesk.step dunning) ReportsOnce w₀ events) :
    w.counted.Nodup ∧ w.register.books.attempts = w.counted.length ∧
      ∀ event w', ReportsOnce w event → w.step dunning event = some w' →
        event.Fails w.register.books → ¬ w.register.books.Canceled → w'.register.books.Canceled →
          w'.counted.Nodup ∧ dunning.maxAttempts ≤ w'.counted.length := by
  have hstart : w₀.Sound := ⟨by simp [hcounted], by simp [hcounted, hattempts], by omega⟩
  have hw : w.Sound :=
    Trace.run_invariant_along (fun _ _ _ h hc hstep => (dunning_step_sound h hc hstep).1) hstart
      honce hrun
  refine ⟨hw.nodup, hw.length, fun event w' hreport hstep hfails hbefore hafter => ?_⟩
  obtain ⟨hw', hmax⟩ := dunning_step_sound hw hreport hstep
  refine ⟨hw'.nodup, ?_⟩
  rw [← hw'.length]
  exact hmax hfails hbefore hafter

/-! ## A payment that is reported again -/

def dunnedSubscription : Subscription where
  id := "sub_1"
  providerSubscriptionId := "ps_1"
  planId := "team"
  interval := .monthly
  quantity := 1
  state := .active
  currentPeriodStartMs := 0
  currentPeriodEndMs := 1000
  trialEndMs := none
  cancelAtPeriodEnd := false
  canceledMs := none
  dunningAttempts := 0
  graceEndMs := none
  updatedMs := 0

def dunnedInvoice : Invoice where
  id := "in_1"
  subscriptionId := some "sub_1"
  providerInvoiceId := some "si_1"
  reconciliation := .unreconciled
  currency := "EUR"
  status := .opened
  lastDunningPaymentId := none
  totalMinor := 100
  amountPaidMinor := 0
  amountRefundedMinor := 0
  paidMs := none

def dunnedDesk : DunningDesk where
  register :=
    { books :=
        { subscription := some dunnedSubscription
          invoices := ⟨[dunnedInvoice], by simp⟩
          payments := .empty
          refunds := .empty
          creditNotes := .empty
          fences := ⟨[], false, []⟩ }
      webhooks := []
      watermark := none }
  counted := []

/-- Three attempts, and then the subscription is canceled. -/
def threeAttempts : Dunning := ⟨3, 0⟩

/-- An `invoice.payment_failed` event about a payment. -/
def invoiceFailedEvent (id payment : String) (createdMs : ℤ) : DunningEvent :=
  .webhook
    { event :=
        { id := id, createdMs := createdMs, type := .invoiceFailed true
          object := { Object.empty with id := some "si_1", paymentId := some payment } }
      now := createdMs
      uuid := id } payment

/-- A payment that fails twice over two events, and a second one. -/
def twoFailures : List DunningEvent :=
  [invoiceFailedEvent "evt_1" "pi_1" 1, invoiceFailedEvent "evt_2" "pi_1" 2,
    invoiceFailedEvent "evt_3" "pi_2" 3]

/-- The second event about the first payment is not counted. -/
theorem twoFailures_counted : ∃ w,
    Trace.run (DunningDesk.step threeAttempts) dunnedDesk twoFailures = some w ∧
      w.counted = ["pi_2", "pi_1"] ∧ w.counted.Nodup ∧
      w.register.books.attempts = w.counted.length := by
  have honce : Trace.Along (DunningDesk.step threeAttempts) ReportsOnce dunnedDesk twoFailures := by
    decide +kernel
  have hstart : dunnedDesk.counted = [] := rfl
  have hcounted := counted_once hstart rfl rfl honce
  exact ⟨_, rfl, by decide +kernel, hcounted.1, hcounted.2.1⟩

/-- The first payment is reported again after the second one. -/
def reportedAgain : List DunningEvent :=
  [invoiceFailedEvent "evt_1" "pi_1" 1, invoiceFailedEvent "evt_2" "pi_2" 2,
    invoiceFailedEvent "evt_3" "pi_1" 3]

/-- **The invoice remembers only the last identity**: two failed payments make three attempts, and the
subscription is canceled. -/
theorem reportedAgain_counted_twice : ∃ w,
    Trace.run (DunningDesk.step threeAttempts) dunnedDesk reportedAgain = some w ∧
      w.counted = ["pi_1", "pi_2", "pi_1"] ∧ w.register.books.attempts = 3 ∧
      w.counted.toFinset.card = 2 ∧ w.register.books.Canceled := by
  refine ⟨_, rfl, ?_, ?_, ?_, ?_⟩
  · decide +kernel
  · decide +kernel
  · decide +kernel
  · show _ = _
    decide +kernel

end Billing
