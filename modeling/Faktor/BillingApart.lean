/-
# Books that differ in other things

An event reads only rows of the things it concerns.  So when rows of other things have been written
since, the event is planned as it would have been before.

* `Apart` : the books differ at most in rows of the given things;
* `Apart.write` : writing rows of further things adds these things;
* `Apart.webhookEffects` : an event that concerns none of them has the same effects.
-/
import Faktor.BillingScope

namespace Billing

/-! ## Apart -/

/-- **The books differ only in rows of these things.**  The ids of an invoice and of the subscription
are no rows of theirs: no event changes them. -/
structure Apart (things : List Thing) (b₀ b : Books) : Prop where
  payment : ∀ pid, .payment pid ∉ things → b.paymentByProviderId pid = b₀.paymentByProviderId pid
  paymentRow : ∀ id p, b₀.payments.get? id = some p → .payment p.providerPaymentId ∉ things →
    b.payments.get? id = some p
  noPayment : ∀ id, b₀.payments.get? id = none →
    (∀ uuid, id = "pay_" ++ uuid → .minted uuid ∉ things) → b.payments.get? id = none
  invoice : ∀ id, (∀ i, b₀.invoices.get? id = some i → .invoice id ∉ things) →
    b.invoices.get? id = b₀.invoices.get? id
  invoiceId : ∀ pid, (b.invoiceByProviderId pid).map (·.id) = (b₀.invoiceByProviderId pid).map (·.id)
  refund : ∀ pid, .refund pid ∉ things → b.refundByProviderId pid = b₀.refundByProviderId pid
  refundRow : ∀ id, (∀ r, b₀.refunds.get? id = some r → .refund r.providerRefundId ∉ things) →
    b.refunds.get? id = b₀.refunds.get? id
  subscription : ∀ s, b₀.subscription = some s → .subscription s.id ∉ things →
    b.subscription = some s
  subscriptionId : b.subscription.map (fun s => (s.id, s.providerSubscriptionId))
    = b₀.subscription.map fun s => (s.id, s.providerSubscriptionId)

/-- The random ids among the things are of no row yet. -/
def FreshIds (b : Books) (things : List Thing) : Prop :=
  ∀ uuid, .minted uuid ∈ things →
    b.payments.get? ("pay_" ++ uuid) = none ∧ ∀ r ∈ b.refunds.rows, r.paymentId ≠ "pay_" ++ uuid

namespace Apart

variable {things : List Thing} {b₀ b : Books}

theorem refl (b : Books) : Apart [] b b where
  payment _ _ := rfl
  paymentRow _ _ h _ := h
  noPayment _ h _ := h
  invoice _ _ := rfl
  invoiceId _ := rfl
  refund _ _ := rfl
  refundRow _ _ := rfl
  subscription _ h _ := h
  subscriptionId := rfl

end Apart

/-- The books that an effect leaves, apart from the credit notes. -/
theorem write_eq {b b' : Books} {effects : Effects} (h : b.write effects = some b') :
    b'.subscription = effects.subscription.or b.subscription ∧
      b'.invoices = effects.invoice.elim b.invoices b.invoices.replace ∧
      b'.payments = effects.payment.elim b.payments b.payments.put ∧
      b'.refunds = effects.refund.elim b.refunds b.refunds.put ∧ b'.fences = b.fences := by
  unfold Books.write at h
  split at h
  · obtain ⟨notes, -, rfl⟩ := Option.map_eq_some_iff.mp h
    exact ⟨rfl, rfl, rfl, rfl, rfl⟩
  · obtain rfl := Option.some.inj h
    exact ⟨rfl, rfl, rfl, rfl, rfl⟩

namespace Apart

variable {things more : List Thing} {b₀ b b' : Books} {effects : Effects}

section

variable (h : Apart things b₀ b) (hwithin : Within b₀ more effects)
include h hwithin

/-- The row that an effect on a payment replaces is of the same provider payment. -/
theorem replaced_payment (hfresh : FreshIds b₀ more) (hmore : ∀ t ∈ more, t ∉ things) {p q : Payment}
    (hp : effects.payment = some p) (hq : b.payments.get? p.id = some q) :
    q.providerPaymentId = p.providerPaymentId := by
  obtain ⟨hthing, ⟨old, hold, hsame⟩ | ⟨uuid, huuid, hminted⟩⟩ := hwithin.payment p hp
  · rw [h.paymentRow _ _ hold (hsame ▸ hmore _ hthing)] at hq
    obtain rfl := Option.some.inj hq
    exact hsame
  · have hnone := h.noPayment _ (hfresh uuid hminted).1 fun u hu => by
      obtain rfl := (String.append_right_inj "pay_").mp hu
      exact hmore _ hminted
    rw [huuid, hnone] at hq
    cases hq

/-- The row that an effect on a refund replaces is of the same provider refund. -/
theorem replaced_refund (hmore : ∀ t ∈ more, t ∉ things) {r q : Refund} (hr : effects.refund = some r)
    (hq : b.refunds.get? r.id = some q) : q.providerRefundId = r.providerRefundId := by
  obtain ⟨hthing, old, hold, hsame⟩ := hwithin.refund r hr
  rw [h.refundRow r.id fun r' hr' => by
    rw [hold] at hr'
    obtain rfl := Option.some.inj hr'
    exact hsame ▸ hmore _ hthing, hold] at hq
  obtain rfl := Option.some.inj hq
  exact hsame

/-- **Writing rows of further things** adds these things. -/
theorem write (hfresh : FreshIds b₀ more) (hmore : ∀ t ∈ more, t ∉ things)
    (hwrite : b.write effects = some b') : Apart (more ++ things) b₀ b' := by
  obtain ⟨hsub, hinvoices, hpayments, hrefunds, -⟩ := write_eq hwrite
  constructor
  case payment =>
    intro pid hpid
    rw [List.mem_append, not_or] at hpid
    rw [← h.payment pid hpid.2, Books.paymentByProviderId, Books.paymentByProviderId, hpayments]
    cases hp : effects.payment with
    | none => rfl
    | some p =>
      have hne : p.providerPaymentId ≠ pid := fun heq => hpid.1 (heq ▸ (hwithin.payment p hp).1)
      refine KeyTable.find?_put (by simpa using hne) fun q hq hkey => ?_
      have hsame := h.replaced_payment hwithin hfresh hmore hp (hkey ▸ KeyTable.get?_of_mem hq)
      simpa [hsame] using hne
  case paymentRow =>
    intro id p hget hp
    rw [List.mem_append, not_or] at hp
    have hget' := h.paymentRow id p hget hp.2
    rw [hpayments]
    cases hq : effects.payment with
    | none => exact hget'
    | some q =>
      rw [Option.elim_some, KeyTable.get?_put]
      split
      · next hid =>
        -- the written row would be of the same provider payment
        have hsame := h.replaced_payment hwithin hfresh hmore hq (hid ▸ hget')
        exact absurd (hsame ▸ (hwithin.payment q hq).1) hp.1
      · exact hget'
  case noPayment =>
    intro id hnone huuid
    have hnone' := h.noPayment id hnone fun u hu hmem => huuid u hu (List.mem_append_right _ hmem)
    rw [hpayments]
    cases hq : effects.payment with
    | none => exact hnone'
    | some q =>
      rw [Option.elim_some, KeyTable.get?_put]
      split
      · next hid =>
        obtain ⟨-, ⟨old, hold, -⟩ | ⟨u, hu, hminted⟩⟩ := hwithin.payment q hq
        · rw [hid, hnone] at hold
          cases hold
        · exact absurd (List.mem_append_left _ hminted) (huuid u (hid ▸ hu))
      · exact hnone'
  case invoice =>
    intro id hid
    have hget := h.invoice id fun i hi hmem => hid i hi (List.mem_append_right _ hmem)
    rw [hinvoices]
    cases hi : effects.invoice with
    | none => exact hget
    | some i =>
      rw [Option.elim_some, KeyTable.get?_replace]
      split
      · next heq =>
        obtain ⟨old, hold, -, hthing⟩ := hwithin.invoice i hi
        exact absurd (List.mem_append_left _ (heq ▸ hthing)) (hid old (heq ▸ hold))
      · exact hget
  case invoiceId =>
    intro pid
    rw [← h.invoiceId pid, Books.invoiceByProviderId, Books.invoiceByProviderId, hinvoices]
    cases hi : effects.invoice with
    | none => rfl
    | some i =>
      refine KeyTable.find?_replace fun j hj hkey => ?_
      obtain ⟨old, hold, hsame, hthing⟩ := hwithin.invoice i hi
      have hget := h.invoice i.id fun _ _ => hmore _ hthing
      rw [← hkey, KeyTable.get?_of_mem hj, hkey, hold] at hget
      obtain rfl := Option.some.inj hget
      rw [hsame]
  case refund =>
    intro pid hpid
    rw [List.mem_append, not_or] at hpid
    rw [← h.refund pid hpid.2, Books.refundByProviderId, Books.refundByProviderId, hrefunds]
    cases hr : effects.refund with
    | none => rfl
    | some r =>
      have hne : r.providerRefundId ≠ pid := fun heq => hpid.1 (heq ▸ (hwithin.refund r hr).1)
      refine KeyTable.find?_put (by simpa using hne) fun q hq hkey => ?_
      have hsame := h.replaced_refund hwithin hmore hr (hkey ▸ KeyTable.get?_of_mem hq)
      simpa [hsame] using hne
  case refundRow =>
    intro id hid
    have hget := h.refundRow id fun r hr hmem => hid r hr (List.mem_append_right _ hmem)
    rw [hrefunds]
    cases hr : effects.refund with
    | none => exact hget
    | some r =>
      rw [Option.elim_some, KeyTable.get?_put]
      split
      · next heq =>
        obtain ⟨hthing, old, hold, hsame⟩ := hwithin.refund r hr
        exact absurd (List.mem_append_left _ (hsame ▸ hthing)) (hid old (heq ▸ hold))
      · exact hget
  case subscription =>
    intro s hs hmem
    rw [List.mem_append, not_or] at hmem
    rw [hsub]
    cases hs' : effects.subscription with
    | none => exact h.subscription s hs hmem.2
    | some s' =>
      obtain ⟨old, hold, hid, -, hthing⟩ := hwithin.subscription s' hs'
      rw [hs] at hold
      obtain rfl := Option.some.inj hold
      exact absurd (hid ▸ hthing) hmem.1
  case subscriptionId =>
    rw [hsub, ← h.subscriptionId]
    cases hs' : effects.subscription with
    | none => rfl
    | some s' =>
      obtain ⟨old, hold, hid, hprovider, -⟩ := hwithin.subscription s' hs'
      rw [h.subscriptionId, hold, Option.some_or, Option.map_some, Option.map_some, hid, hprovider]

end

/-! ## Reads -/

section Reads

variable {dunning : Dunning} {now : ℤ}

theorem subscriptionById (h : Apart things b₀ b) {id : String} (hid : .subscription id ∉ things) :
    b.subscriptionById id = b₀.subscriptionById id := by
  have hids := h.subscriptionId
  unfold Books.subscriptionById
  cases hs : b₀.subscription with
  | none =>
    rw [hs, Option.map_none, Option.map_eq_none_iff] at hids
    rw [hids]
  | some s =>
    by_cases heq : s.id = id
    · rw [h.subscription s hs (heq ▸ hid)]
    · rw [hs, Option.map_some] at hids
      obtain ⟨s', hs', hpair⟩ := Option.map_eq_some_iff.mp hids
      rw [hs', Option.filter_some, Option.filter_some, if_neg, if_neg]
      · simpa using heq
      · rw [(Prod.mk.inj hpair).1]
        simpa using heq

variable {pid : String}

theorem subscriptionByProviderId (h : Apart things b₀ b)
    (hpid : ∀ s ∈ b₀.subscriptionByProviderId pid, .subscription s.id ∉ things) :
    b.subscriptionByProviderId pid = b₀.subscriptionByProviderId pid := by
  have hids := h.subscriptionId
  unfold Books.subscriptionByProviderId at hpid ⊢
  cases hs : b₀.subscription with
  | none =>
    rw [hs, Option.map_none, Option.map_eq_none_iff] at hids
    rw [hids]
  | some s =>
    by_cases heq : s.providerSubscriptionId = pid
    · rw [h.subscription s hs (hpid s (by simp [hs, heq]))]
    · rw [hs, Option.map_some] at hids
      obtain ⟨s', hs', hpair⟩ := Option.map_eq_some_iff.mp hids
      rw [hs', Option.filter_some, Option.filter_some, if_neg, if_neg]
      · simpa using heq
      · rw [(Prod.mk.inj hpair).2]
        simpa using heq

variable {object : Object}

theorem eventInvoice (h : Apart things b₀ b)
    (hinvoice : ∀ i ∈ b₀.eventInvoice object, .invoice i.id ∉ things) :
    b.eventInvoice object = b₀.eventInvoice object := by
  unfold Books.eventInvoice at hinvoice ⊢
  cases hlocal : object.localInvoiceId with
  | some localId =>
    simp only [hlocal] at hinvoice ⊢
    refine h.invoice localId fun i hi => ?_
    exact (KeyTable.get?_eq_some.mp hi).2 ▸ hinvoice i hi
  | none =>
    simp only [hlocal] at hinvoice ⊢
    cases hpid : object.id with
    | none => rfl
    | some pid =>
      rw [hpid, Option.bind_some] at hinvoice
      rw [Option.bind_some, Option.bind_some]
      have hids := h.invoiceId pid
      cases hi : b₀.invoiceByProviderId pid with
      | none =>
        rw [hi, Option.map_none, Option.map_eq_none_iff] at hids
        exact hids
      | some i =>
        rw [hi, Option.map_some] at hids
        obtain ⟨j, hj, hid⟩ := Option.map_eq_some_iff.mp hids
        have hget := h.invoice i.id fun _ _ => hinvoice i hi
        rw [(mem_of_invoiceByProviderId hi).1, ← hid, (mem_of_invoiceByProviderId hj).1] at hget
        rw [hj, hget]

theorem eventRefund (h : Apart things b₀ b) (hid : ∀ id ∈ object.id, .refund id ∉ things)
    (hrefund : ∀ r ∈ b₀.eventRefund object, .refund r.providerRefundId ∉ things) :
    b.eventRefund object = b₀.eventRefund object := by
  unfold Books.eventRefund at hrefund ⊢
  cases hlocal : object.localRefundId with
  | some localId =>
    simp only [hlocal] at hrefund ⊢
    exact h.refundRow localId hrefund
  | none =>
    cases hpid : object.id with
    | none => rfl
    | some pid => exact h.refund pid (hid pid hpid)

theorem webhookPaymentProcessing (h : Apart things b₀ b) {next : Payments.Progress}
    (hpayments : ∀ id ∈ object.id, .payment id ∉ things) :
    b.webhookPaymentProcessing next object = b₀.webhookPaymentProcessing next object := by
  unfold Books.webhookPaymentProcessing
  cases hid : object.id with
  | none => rfl
  | some id => rw [Option.bind_some, Option.bind_some, h.payment id (hpayments id hid)]

variable {eventId uuid : String} {invoice : Invoice}

theorem paidRow (h : Apart things b₀ b) {paymentId : Option String} {paid : ℤ}
    (hpayment : .payment (paymentId.getD (eventId ++ ":payment")) ∉ things) :
    b.paidRow eventId paymentId invoice paid uuid = b₀.paidRow eventId paymentId invoice paid uuid := by
  unfold Books.paidRow
  cases paymentId with
  | none => rfl
  | some pid => simp only [h.payment pid hpayment]

theorem byProviderId (h : Apart things b₀ b)
    (hsubs : ∀ sub ∈ object.id.bind b₀.subscriptionByProviderId, .subscription sub.id ∉ things) :
    object.id.bind b.subscriptionByProviderId = object.id.bind b₀.subscriptionByProviderId := by
  cases hid : object.id with
  | none => rfl
  | some id =>
    rw [hid, Option.bind_some] at hsubs
    exact h.subscriptionByProviderId hsubs

variable (h : Apart things b₀ b) (hfences : b.fences = b₀.fences)

include hfences

theorem mutationFenced (id : String) : b.mutationFenced id = b₀.mutationFenced id := by
  rw [Books.mutationFenced, hfences, Books.mutationFenced]

theorem settlementFenced (invoice : Invoice) :
    b.settlementFenced invoice = b₀.settlementFenced invoice := by
  rw [Books.settlementFenced, Books.settlementFenced, funext (mutationFenced hfences)]

theorem subscriptionFenced (sub : Subscription) :
    b.subscriptionFenced sub = b₀.subscriptionFenced sub := by
  rw [Books.subscriptionFenced, Books.subscriptionFenced, mutationFenced hfences, hfences]

include h

theorem activated (hsub : ∀ sid, invoice.subscriptionId = some sid → .subscription sid ∉ things) :
    b.activated invoice now = b₀.activated invoice now := by
  unfold Books.activated
  cases hsid : invoice.subscriptionId with
  | none => rfl
  | some sid =>
    rw [Option.bind_some, Option.bind_some, mutationFenced hfences, h.subscriptionById (hsub sid hsid)]

variable {payment : Option Payment}

section

variable (hsub : ∀ sid, invoice.subscriptionId = some sid → .subscription sid ∉ things)
include hsub

theorem failInvoice {identity : String} :
    b.failInvoice dunning invoice identity payment now
      = b₀.failInvoice dunning invoice identity payment now := by
  have hbyId : invoice.subscriptionId.bind b.subscriptionById
      = invoice.subscriptionId.bind b₀.subscriptionById := by
    cases hsid : invoice.subscriptionId with
    | none => rfl
    | some sid => exact h.subscriptionById (hsub sid hsid)
  unfold Books.failInvoice
  rw [settlementFenced hfences, hbyId]

theorem paymentSucceeded :
    b.paymentSucceeded payment invoice pid object now uuid
      = b₀.paymentSucceeded payment invoice pid object now uuid := by
  unfold Books.paymentSucceeded
  rw [h.activated hfences hsub]

end

theorem webhookPaymentSucceeded (hpayments : ∀ id ∈ object.id, .payment id ∉ things)
    (hinvoices : ∀ thing ∈ b₀.invoiceThings (object.id.bind fun id =>
      ((b₀.paymentByProviderId id).map (·.invoiceId)).or object.localInvoiceId), thing ∉ things) :
    b.webhookPaymentSucceeded object now uuid = b₀.webhookPaymentSucceeded object now uuid := by
  unfold Books.webhookPaymentSucceeded
  cases hid : object.id with
  | none => rfl
  | some id =>
    simp only [h.payment id (hpayments id hid)]
    rw [hid, Option.bind_some] at hinvoices
    cases hiid : ((b₀.paymentByProviderId id).map (·.invoiceId)).or object.localInvoiceId with
    | none => rfl
    | some iid =>
      rw [hiid] at hinvoices
      rw [Option.bind_some, Option.bind_some,
        h.invoice iid fun _ _ => hinvoices _ List.mem_cons_self]
      cases hinvoice : b₀.invoices.get? iid with
      | none => rfl
      | some invoice =>
        simp only [settlementFenced hfences]
        rw [h.paymentSucceeded hfences fun sid hsid =>
          hinvoices _ ((mem_invoiceThings hinvoice).2 sid hsid)]

theorem webhookPaymentFailed (hpayments : ∀ id ∈ object.id, .payment id ∉ things)
    (hinvoices : ∀ thing ∈ b₀.invoiceThings
      ((object.id.bind b₀.paymentByProviderId).map (·.invoiceId)), thing ∉ things) :
    b.webhookPaymentFailed dunning object now = b₀.webhookPaymentFailed dunning object now := by
  unfold Books.webhookPaymentFailed
  cases hid : object.id with
  | none => rfl
  | some id =>
    simp only [h.payment id (hpayments id hid)]
    rw [hid, Option.bind_some] at hinvoices
    cases hpayment : b₀.paymentByProviderId id with
    | none => rfl
    | some payment =>
      rw [hpayment, Option.map_some] at hinvoices
      simp only [h.invoice payment.invoiceId fun _ _ => hinvoices _ List.mem_cons_self]
      cases hinvoice : b₀.invoices.get? payment.invoiceId with
      | none => rfl
      | some invoice =>
        simp only [h.failInvoice hfences fun sid hsid =>
          hinvoices _ ((mem_invoiceThings hinvoice).2 sid hsid)]

theorem webhookRefundObject (hfresh : FreshIds b₀ things) (hid : ∀ id ∈ object.id, .refund id ∉ things)
    (hrefunds : ∀ thing ∈ b₀.refundThings (b₀.eventRefund object), thing ∉ things) :
    b.webhookRefundObject object uuid = b₀.webhookRefundObject object uuid := by
  have hevent : b.eventRefund object = b₀.eventRefund object := by
    refine h.eventRefund hid fun r hr => ?_
    rw [Option.mem_def.mp hr] at hrefunds
    exact hrefunds _ List.mem_cons_self
  unfold Books.webhookRefundObject
  rw [hevent, hfences]
  cases hrefund : b₀.eventRefund object with
  | none => rfl
  | some refund =>
    simp only [hrefund, Books.refundThings] at hrefunds
    show b.webhookRefund refund object uuid = b₀.webhookRefund refund object uuid
    unfold Books.webhookRefund
    cases hpayment : b₀.payments.get? refund.paymentId with
    | none =>
      have hrow := (KeyTable.get?_eq_some.mp (get?_of_eventRefund hrefund)).1
      -- no row was inserted under the id that the refund names
      rw [h.noPayment _ hpayment fun uuid huuid hmem => (hfresh uuid hmem).2 refund hrow huuid]
    | some payment =>
      simp only [hpayment] at hrefunds
      rw [h.paymentRow _ payment hpayment
        (hrefunds _ (List.mem_cons_of_mem _ List.mem_cons_self))]
      simp only [h.invoice payment.invoiceId fun _ _ => hrefunds _
        (List.mem_cons_of_mem _ (List.mem_cons_of_mem _ List.mem_cons_self))]

theorem webhookInvoicePaid (hpayment : .payment (object.paymentId.getD (eventId ++ ":payment")) ∉ things)
    (hinvoices : ∀ thing ∈ b₀.invoiceThings ((b₀.eventInvoice object).map (·.id)), thing ∉ things) :
    b.webhookInvoicePaid eventId object now uuid = b₀.webhookInvoicePaid eventId object now uuid := by
  have hevent : b.eventInvoice object = b₀.eventInvoice object := by
    refine h.eventInvoice fun i hi => ?_
    rw [Option.mem_def.mp hi] at hinvoices
    exact hinvoices _ List.mem_cons_self
  unfold Books.webhookInvoicePaid
  rw [hevent]
  cases hinvoice : b₀.eventInvoice object with
  | none => rfl
  | some invoice =>
    rw [hinvoice, Option.map_some] at hinvoices
    have hsub : ∀ sid, invoice.subscriptionId = some sid → .subscription sid ∉ things :=
      fun sid hsid => hinvoices _ ((mem_invoiceThings (get?_of_eventInvoice hinvoice)).2 sid hsid)
    have hactivated : ∀ reconciliation,
        b.activated { invoice with reconciliation := reconciliation } now
          = b₀.activated { invoice with reconciliation := reconciliation } now :=
      fun _ => h.activated hfences hsub
    simp only [settlementFenced hfences, hactivated, h.paidRow hpayment]

theorem webhookInvoiceFailed {paymentFailed : Bool} (hpayments : ∀ id ∈ object.id, .payment id ∉ things)
    (hinvoices : ∀ thing ∈ b₀.invoiceThings ((b₀.eventInvoice object).map (·.id)), thing ∉ things) :
    b.webhookInvoiceFailed dunning eventId paymentFailed object now
      = b₀.webhookInvoiceFailed dunning eventId paymentFailed object now := by
  have hevent : b.eventInvoice object = b₀.eventInvoice object := by
    refine h.eventInvoice fun i hi => ?_
    rw [Option.mem_def.mp hi] at hinvoices
    exact hinvoices _ List.mem_cons_self
  have hfailing : b.failingPayment paymentFailed object = b₀.failingPayment paymentFailed object := by
    unfold Books.failingPayment
    cases hid : object.id with
    | none => rfl
    | some id => rw [Option.bind_some, Option.bind_some, h.payment id (hpayments id hid)]
  unfold Books.webhookInvoiceFailed Books.failureIdentity
  rw [hevent, hfailing]
  cases hinvoice : b₀.eventInvoice object with
  | none => rfl
  | some invoice =>
    rw [hinvoice, Option.map_some] at hinvoices
    simp only [h.failInvoice hfences fun sid hsid =>
      hinvoices _ ((mem_invoiceThings (get?_of_eventInvoice hinvoice)).2 sid hsid)]

section

variable (hsubs : ∀ sub ∈ object.id.bind b₀.subscriptionByProviderId, .subscription sub.id ∉ things)
include hsubs

theorem webhookSubscriptionUpdated :
    b.webhookSubscriptionUpdated object now = b₀.webhookSubscriptionUpdated object now := by
  unfold Books.webhookSubscriptionUpdated
  rw [h.byProviderId hsubs]
  simp only [subscriptionFenced hfences]

theorem webhookSubscriptionDeleted :
    b.webhookSubscriptionDeleted object now = b₀.webhookSubscriptionDeleted object now := by
  unfold Books.webhookSubscriptionDeleted
  rw [h.byProviderId hsubs]
  simp only [subscriptionFenced hfences]

end

/-- **An event that concerns none of the things has the same effects.** -/
theorem webhookEffects {d : Delivery} (hfresh : FreshIds b₀ things)
    (hconcerns : ∀ thing ∈ b₀.concerns d, thing ∉ things) :
    b.webhookEffects dunning d = b₀.webhookEffects dunning d := by
  unfold Books.webhookEffects
  cases htype : d.event.type <;> simp only [Books.concerns, htype] at hconcerns ⊢
  case paymentSucceeded =>
    refine h.webhookPaymentSucceeded hfences (fun id hid => hconcerns _ ?_)
      fun thing hthing => hconcerns _ (List.mem_cons_of_mem _ (List.mem_append_right _ hthing))
    simp [Option.mem_def.mp hid]
  case paymentProcessing next =>
    refine h.webhookPaymentProcessing fun id hid => hconcerns _ ?_
    simp [Option.mem_def.mp hid]
  case paymentFailed =>
    refine h.webhookPaymentFailed hfences (fun id hid => hconcerns _ ?_)
      fun thing hthing => hconcerns _ (List.mem_cons_of_mem _ (List.mem_append_right _ hthing))
    simp [Option.mem_def.mp hid]
  case refund =>
    refine h.webhookRefundObject hfences hfresh (fun id hid => hconcerns _ ?_)
      fun thing hthing => hconcerns _ (List.mem_cons_of_mem _ (List.mem_append_right _ hthing))
    simp [Option.mem_def.mp hid]
  case invoicePaid =>
    exact h.webhookInvoicePaid hfences (hconcerns _ (List.mem_cons_of_mem _ List.mem_cons_self))
      fun thing hthing => hconcerns _ (List.mem_cons_of_mem _ (List.mem_cons_of_mem _ hthing))
  case invoiceFailed paymentFailed =>
    refine h.webhookInvoiceFailed hfences (fun id hid => hconcerns _ ?_)
      fun thing hthing => hconcerns _ (List.mem_cons_of_mem _ (List.mem_append_right _ hthing))
    simp [Option.mem_def.mp hid]
  case subscriptionUpdated =>
    refine h.webhookSubscriptionUpdated hfences fun sub hsub => hconcerns _ ?_
    simp [Option.mem_def.mp hsub]
  case subscriptionDeleted =>
    refine h.webhookSubscriptionDeleted hfences fun sub hsub => hconcerns _ ?_
    simp [Option.mem_def.mp hsub]

end Reads

end Apart

end Billing
