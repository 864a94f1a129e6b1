/-
# The writers of the subscription row

A plan, seat or cancel operation reads the subscription, takes the fence of its mutations, asks the
provider, and writes its copy of the row back; a reconciliation of such an operation, or of a payment,
reads the row before the transaction that writes it.  Everything else reads the row inside the
transaction that writes it.

* `SubscriptionChange.apply` : what an operation makes of its copy, and `SubscriptionChange.sets` : the
  fields that it sets;
* `CopyWrite` : a row to be written back, with the copy it comes from;
* `MutationDesk.exec` : one transaction of a call, or one answer of the provider to it;
* `MutationDesk.step` : what can happen next.
-/
import Faktor.BillingRecords
import Faktor.FieldLog
import Faktor.Trace

namespace Billing

open Payments (InvoiceStatus OperationClaimState PaymentStatus)

/-! ## The row and its fields -/

/-- The identities that the provider gave the item, the product and the price. -/
structure ProviderIds where
  itemId : Option String
  productId : Option String
  priceId : Option String
  deriving DecidableEq, Repr

structure SubscriptionRow where
  sub : Subscription
  ids : ProviderIds
  deriving DecidableEq, Repr

inductive SubscriptionField
  | id
  | providerSubscriptionId
  | providerItemId
  | providerProductId
  | providerPriceId
  | planId
  | interval
  | quantity
  | state
  | currentPeriodStartMs
  | currentPeriodEndMs
  | trialEndMs
  | cancelAtPeriodEnd
  | canceledMs
  | dunningAttempts
  | graceEndMs
  | updatedMs
  deriving DecidableEq, Repr

namespace SubscriptionField

def Value : SubscriptionField → Type
  | id | providerSubscriptionId | planId => String
  | providerItemId | providerProductId | providerPriceId => Option String
  | interval => BillingInterval
  | quantity | dunningAttempts => ℕ
  | state => SubscriptionState
  | currentPeriodStartMs | currentPeriodEndMs | updatedMs => ℤ
  | trialEndMs | canceledMs | graceEndMs => Option ℤ
  | cancelAtPeriodEnd => Bool

def get : (f : SubscriptionField) → SubscriptionRow → f.Value
  | id, row => row.sub.id
  | providerSubscriptionId, row => row.sub.providerSubscriptionId
  | providerItemId, row => row.ids.itemId
  | providerProductId, row => row.ids.productId
  | providerPriceId, row => row.ids.priceId
  | planId, row => row.sub.planId
  | interval, row => row.sub.interval
  | quantity, row => row.sub.quantity
  | state, row => row.sub.state
  | currentPeriodStartMs, row => row.sub.currentPeriodStartMs
  | currentPeriodEndMs, row => row.sub.currentPeriodEndMs
  | trialEndMs, row => row.sub.trialEndMs
  | cancelAtPeriodEnd, row => row.sub.cancelAtPeriodEnd
  | canceledMs, row => row.sub.canceledMs
  | dunningAttempts, row => row.sub.dunningAttempts
  | graceEndMs, row => row.sub.graceEndMs
  | updatedMs, row => row.sub.updatedMs

instance : (f : SubscriptionField) → DecidableEq f.Value
  | id | providerSubscriptionId | planId => inferInstanceAs (DecidableEq String)
  | providerItemId | providerProductId | providerPriceId =>
    inferInstanceAs (DecidableEq (Option String))
  | interval => inferInstanceAs (DecidableEq BillingInterval)
  | quantity | dunningAttempts => inferInstanceAs (DecidableEq ℕ)
  | state => inferInstanceAs (DecidableEq SubscriptionState)
  | currentPeriodStartMs | currentPeriodEndMs | updatedMs => inferInstanceAs (DecidableEq ℤ)
  | trialEndMs | canceledMs | graceEndMs => inferInstanceAs (DecidableEq (Option ℤ))
  | cancelAtPeriodEnd => inferInstanceAs (DecidableEq Bool)

def all : List SubscriptionField :=
  [id, providerSubscriptionId, providerItemId, providerProductId, providerPriceId, planId, interval,
    quantity, state, currentPeriodStartMs, currentPeriodEndMs, trialEndMs, cancelAtPeriodEnd,
    canceledMs, dunningAttempts, graceEndMs, updatedMs]

theorem mem_all (f : SubscriptionField) : f ∈ all := by cases f <;> decide

/-- The fields in which a written row differs from the one before it. -/
def changed (before : Option SubscriptionRow) (row : SubscriptionRow) : List SubscriptionField :=
  all.filter fun f => before.all fun old => get f old ≠ get f row

end SubscriptionField

/-! ## What the operations write -/

inductive SubscriptionChange
  | plan (planId : String) (interval : Option BillingInterval)
  | seats (quantity : ℕ)
  | cancel (atPeriodEnd : Bool)
  deriving DecidableEq, Repr

/-- What the provider says of a subscription that it changed. -/
structure ProviderSubscription where
  id : String
  quantity : ℕ
  ids : ProviderIds
  deriving DecidableEq, Repr

/-- `provider_quantity_exact`: a provider that reports no quantity has the expected one. -/
def providerQuantityExact (remote expected : ℕ) : Option ℕ :=
  if remote = 0 then some expected
  else if maxSeats < remote then none
  else if remote = expected then some remote
  else none

namespace SubscriptionChange

/-- A plan or seat change needs a live subscription, and a cancel one that is not canceled. -/
def admits : SubscriptionChange → Subscription → Bool
  | cancel _, sub => sub.state != .canceled
  | _, sub => sub.state != .canceled && sub.canceledMs.isNone

/-- The row that an operation makes of its copy; a reconciled one keeps the provider's subscription.
`none` when the provider reports another quantity. -/
def apply (change : SubscriptionChange) (live : Bool) (remote : ProviderSubscription) (now : ℤ)
    (copy : SubscriptionRow) : Option SubscriptionRow :=
  let providerId := if live then remote.id else copy.sub.providerSubscriptionId
  match change with
  | plan planId interval =>
    (providerQuantityExact remote.quantity copy.sub.quantity).map fun quantity =>
      { sub := { copy.sub with
          providerSubscriptionId := providerId
          planId := planId
          interval := interval.getD copy.sub.interval
          quantity := quantity
          updatedMs := now }
        ids := remote.ids }
  | seats quantity =>
    (providerQuantityExact remote.quantity quantity).map fun quantity =>
      { sub := { copy.sub with
          providerSubscriptionId := providerId
          quantity := quantity
          updatedMs := now }
        ids := remote.ids }
  | cancel true =>
    some { copy with sub := { copy.sub with cancelAtPeriodEnd := true, updatedMs := now } }
  | cancel false => some { copy with sub := { copy.sub.cancelNow now with updatedMs := now } }

open SubscriptionField in
/-- The fields that the operation sets; it keeps the interval unless the request names one. -/
def sets (change : SubscriptionChange) (live : Bool) : List SubscriptionField :=
  let answered := [providerItemId, providerProductId, providerPriceId, quantity, updatedMs]
  let bound := if live then [providerSubscriptionId] else []
  match change with
  | plan _ (some _) => planId :: .interval :: bound ++ answered
  | plan _ none => planId :: bound ++ answered
  | seats _ => bound ++ answered
  | cancel true => [cancelAtPeriodEnd, updatedMs]
  | cancel false => [state, canceledMs, cancelAtPeriodEnd, updatedMs]

/-- An operation leaves the other fields of its copy alone. -/
theorem apply_frame {change : SubscriptionChange} {live : Bool} {remote : ProviderSubscription}
    {now : ℤ} {copy row : SubscriptionRow} (h : change.apply live remote now copy = some row) :
    FieldLog.AgreeOutside SubscriptionField.get (change.sets live) row copy := by
  intro f hf
  cases change with
  | plan planId interval =>
    obtain ⟨quantity, -, rfl⟩ := Option.map_eq_some_iff.mp h
    cases live <;> cases interval <;> cases f <;> first | rfl | simp [sets] at hf
  | seats quantity =>
    obtain ⟨quantity, -, rfl⟩ := Option.map_eq_some_iff.mp h
    cases live <;> cases f <;> first | rfl | simp [sets] at hf
  | cancel atPeriodEnd =>
    cases atPeriodEnd
    · obtain rfl := Option.some.inj h
      cases f <;> first | rfl | simp [sets] at hf
    · obtain rfl := Option.some.inj h
      cases f <;> first | rfl | simp [sets] at hf

end SubscriptionChange

/-- What a reconciled charge makes of its copy of the subscription. -/
def chargedRow (c : ChargeRecord) (copy : SubscriptionRow) : SubscriptionRow :=
  if c.status = .succeeded then
    { copy with sub := { copy.sub with
        state := if copy.sub.state.canTransitionTo .active then .active else copy.sub.state
        dunningAttempts := 0
        graceEndMs := none
        updatedMs := c.now } }
  else copy

open SubscriptionField in
def chargeSets (c : ChargeRecord) (copy : SubscriptionRow) : List SubscriptionField :=
  if c.status = .succeeded then
    (if copy.sub.state.canTransitionTo .active then [state] else [])
      ++ [dunningAttempts, graceEndMs, updatedMs]
  else []

theorem chargedRow_frame (c : ChargeRecord) (copy : SubscriptionRow) :
    FieldLog.AgreeOutside SubscriptionField.get (chargeSets c copy) (chargedRow c copy) copy := by
  intro f hf
  unfold chargedRow
  unfold chargeSets at hf
  by_cases hstatus : c.status = .succeeded
  · rw [if_pos hstatus] at hf ⊢
    by_cases hactive : copy.sub.state.canTransitionTo .active = true
    · rw [if_pos hactive] at hf
      cases f <;> first | rfl | exact absurd (by decide) hf
    · rw [if_neg hactive] at hf
      cases f with
      | state => exact if_neg hactive
      | _ => first | rfl | exact absurd (by decide) hf
  · rw [if_neg hstatus]

/-- A row to be written back whole: the copy it was made of, and the fields that were set in it. -/
structure CopyWrite where
  sets : List SubscriptionField
  copy : SubscriptionRow
  row : SubscriptionRow
  frame : FieldLog.AgreeOutside SubscriptionField.get sets row copy

/-- The write of an operation. -/
def SubscriptionChange.write (change : SubscriptionChange) (live : Bool)
    (remote : ProviderSubscription) (now : ℤ) (copy : SubscriptionRow) : Option CopyWrite :=
  match h : change.apply live remote now copy with
  | some row => some ⟨change.sets live, copy, row, apply_frame h⟩
  | none => none

/-- The write of a reconciled charge. -/
def chargeWrite (c : ChargeRecord) (copy : SubscriptionRow) : CopyWrite :=
  ⟨chargeSets c copy, copy, chargedRow c copy, chargedRow_frame c copy⟩

/-! ## The calls -/

/-- A request to `change_plan`, `change_seats` or `cancel`. -/
structure ChangeRequest where
  key : String
  subscriptionId : String
  change : SubscriptionChange
  deriving DecidableEq, Repr

/-- A payment that is about to be charged. -/
structure ChargeRequest where
  key : String
  paymentId : String
  invoiceId : String
  amountMinor : ℤ
  currency : String
  deriving DecidableEq, Repr

/-- The record of a charge that the provider answered. -/
def ChargeRequest.record (q : ChargeRequest) (providerPaymentId : String) (status : PaymentStatus)
    (now : ℤ) : ChargeRecord where
  paymentId := q.paymentId
  invoiceId := q.invoiceId
  providerPaymentId := providerPaymentId
  amountMinor := q.amountMinor
  currency := q.currency
  status := status
  now := now

inductive MutationOperation
  | change (r : ChangeRequest)
  | pay (q : ChargeRequest)
  deriving DecidableEq, Repr

structure MutationClaim where
  key : String
  operation : MutationOperation
  state : OperationClaimState
  deriving DecidableEq, Repr

/-- A held `SubscriptionMutation` lease. -/
structure MutationLease where
  subscriptionId : String
  request : ChangeRequest
  deriving DecidableEq, Repr

/-- What a call reads beside the rows. -/
inductive MutationInput
  | go
  /-- The customer or a price is missing. -/
  | refuse
  | applied (remote : ProviderSubscription) (now : ℤ)
  | charged (providerPaymentId : String) (status : PaymentStatus) (now : ℤ)
  /-- A definitive refusal. -/
  | refused
  | ambiguous
  deriving DecidableEq, Repr

/-- The next transaction of a call. -/
inductive MutationCall
  -- `change_plan`, `change_seats` and `cancel`
  | replay (r : ChangeRequest)
  | read (r : ChangeRequest)
  | acquireClaim (r : ChangeRequest) (copy : SubscriptionRow)
  | acquireFence (r : ChangeRequest) (copy : SubscriptionRow)
  | abandon (r : ChangeRequest)
  | recheck (r : ChangeRequest) (copy : SubscriptionRow)
  | fail (r : ChangeRequest)
  | dispatch (r : ChangeRequest) (copy : SubscriptionRow)
  | await (r : ChangeRequest) (copy : SubscriptionRow)
  | markUnknown (r : ChangeRequest) (settles : Bool)
  | record (r : ChangeRequest) (write : CopyWrite)
  | settle (r : ChangeRequest)
  -- `pay_invoice`, from the charge on
  | awaitCharge (q : ChargeRequest)
  | failCharge (q : ChargeRequest)
  | unknownCharge (q : ChargeRequest)
  | recordCharge (q : ChargeRequest) (c : ChargeRecord)
  -- `apply_reconciled_claim`
  | readForChange (r : ChangeRequest) (remote : ProviderSubscription) (now : ℤ)
  | applyChange (r : ChangeRequest) (write : CopyWrite)
  | findCharge (q : ChargeRequest) (c : ChargeRecord)
  | readForCharge (q : ChargeRequest) (c : ChargeRecord) (invoice : Invoice)
  | applyCharge (q : ChargeRequest) (c : ChargeRecord) (invoice : Invoice) (write : Option CopyWrite)
  | applyNothing (key : String)

/-- The rows of one organization that its subscription depends on, and the calls in flight.  `origin`
and `log` say what has been written to the subscription. -/
structure MutationDesk where
  register : Register
  ids : ProviderIds
  claims : KeyTable MutationClaim.key
  recorded : List String
  leases : KeyTable MutationLease.subscriptionId
  calls : List (Option MutationCall)
  origin : SubscriptionRow
  log : List (FieldLog.Write SubscriptionRow SubscriptionField)

namespace MutationDesk

variable (d : MutationDesk)

/-- The subscription row. -/
def row : Option SubscriptionRow := d.register.books.subscription.map fun sub => ⟨sub, d.ids⟩

/-- `require_subscription`. -/
def subscriptionById (id : String) : Option SubscriptionRow := d.row.filter (·.sub.id = id)

/-- A transaction that reads the rows it writes. -/
def commit (register : Register) : MutationDesk :=
  let after : Option SubscriptionRow := register.books.subscription.map fun sub => ⟨sub, d.ids⟩
  { d with
    register := register
    log :=
      match after with
      | some row => if d.row = some row then d.log else ⟨SubscriptionField.changed d.row row, row⟩ :: d.log
      | none => d.log }

/-- `put_subscription_tx` of a copy. -/
def put (write : CopyWrite) : MutationDesk :=
  { d with
    register := { d.register with
      books := { d.register.books with subscription := some write.row.sub } }
    ids := write.row.ids
    log := ⟨write.sets, write.row⟩ :: d.log }

/-- `UPDATE payment_operation_claim SET state = …`. -/
def setClaim (key : String) (allowed : List OperationClaimState) (state : OperationClaimState) :
    MutationDesk :=
  { d with
    claims := d.claims.updateWhere (fun c => c.key = key ∧ c.state ∈ allowed)
      (fun c => { c with state := state }) fun _ => rfl }

/-- Write the leases; the other writers ask which subscriptions are held. -/
def setLeases (leases : KeyTable MutationLease.subscriptionId) : MutationDesk :=
  let books := d.register.books
  { d with
    leases := leases
    register := { d.register with
      books := { books with
        fences := { books.fences with mutations := leases.rows.map (·.subscriptionId) } } } }

/-- `try_acquire`. -/
def acquireFence (r : ChangeRequest) : Option MutationDesk :=
  match d.leases.get? r.subscriptionId with
  | some lease => if lease.request = r then some d else none
  | none =>
    if d.leases.rows.any (·.request.key = r.key) then none
    else (d.leases.insert? ⟨r.subscriptionId, r⟩).map d.setLeases

/-- The claim of the lease has a terminal state, or is gone. -/
def resolved (lease : MutationLease) : Bool :=
  match d.claims.get? lease.request.key with
  | some claim => claim.state.isTerminal && claim.operation = .change lease.request
  | none => true

/-- `settle`. -/
def settle (key : String) : MutationDesk :=
  d.setLeases <| d.leases.deleteWhere fun lease =>
    lease.request.key = key ∧ (d.claims.get? key).isSome ∧ d.resolved lease

/-- `release_resolved`. -/
def releaseResolved : MutationDesk := d.setLeases (d.leases.deleteWhere d.resolved)

/-- The key is recorded, or its claim is terminal. -/
def closed (key : String) : Bool :=
  d.recorded.contains key || (d.claims.get? key).any (·.state.isTerminal)

/-- The outcome of `record_atomic`. -/
inductive Recording
  | conflict
  | failed
  | recorded (d : MutationDesk)

/-- `record_atomic`. -/
def record (key : String) (effect : MutationDesk → Option MutationDesk) : Recording :=
  if d.closed key then .conflict
  else
    match effect d with
    | none => .failed
    | some d' =>
      .recorded
        ({ d' with recorded := key :: d'.recorded }.setClaim key [.claimed, .dispatched, .unknown]
          .succeeded)

/-- The rows of a reconciled charge beside the subscription. -/
def chargeEffects (c : ChargeRecord) (invoice : Invoice) : Option Effects :=
  let row : Payment :=
    { id := c.paymentId, invoiceId := invoice.id, providerPaymentId := c.providerPaymentId
      amountMinor := c.amountMinor, refundedMinor := 0, currency := c.currency, status := c.status }
  (if c.status = .succeeded then invoice.settle c.amountMinor c.now else some invoice).map
    fun invoice => { Effects.none with invoice := some invoice, payment := some row }

/-- The transaction of a reconciled charge. -/
def applyCharge (c : ChargeRecord) (invoice : Invoice) (write : Option CopyWrite) :
    Option MutationDesk :=
  ((chargeEffects c invoice).bind d.register.books.write).map fun books =>
    let d := { d with register := { d.register with books := books } }
    write.elim d d.put

/-- One transaction of a call, or one answer to it: the rows after it and where the call stands then,
`none` when it has returned. -/
def exec (input : MutationInput) : MutationCall → Option (MutationDesk × Option MutationCall)
  | .replay r => some (d, if d.recorded.contains r.key then none else some (.read r))
  | .read r =>
    match d.subscriptionById r.subscriptionId, input with
    | some copy, .go =>
      some (d, if r.change.admits copy.sub then some (.acquireClaim r copy) else none)
    | some _, .refuse => some (d, none)
    | none, .go => some (d, none)
    | _, _ => none
  | .acquireClaim r copy =>
    -- a key with a claim replays its outcome or is refused, and nothing is written
    match d.claims.insert? ⟨r.key, .change r, .claimed⟩ with
    | some claims => some ({ d with claims := claims }, some (.acquireFence r copy))
    | none => some (d, none)
  | .acquireFence r copy =>
    match d.acquireFence r with
    | some d' => some (d', some (.recheck r copy))
    | none => some (d, some (.abandon r))
  | .abandon r =>
    some ({ d with claims := d.claims.deleteWhere fun c => c.key = r.key ∧ c.state = .claimed }, none)
  | .recheck r copy =>
    if d.subscriptionById r.subscriptionId = some copy then some (d, some (.dispatch r copy))
    else some (d, some (.fail r))
  | .fail r => some (d.setClaim r.key [.claimed, .dispatched] .failed, some (.settle r))
  | .dispatch r copy =>
    if (d.claims.get? r.key).any (·.state = .claimed) then
      some (d.setClaim r.key [.claimed] .dispatched, some (.await r copy))
    else some (d, none)
  | .await r copy =>
    match input with
    | .applied remote now =>
      match r.change.write true remote now copy with
      | some write => some (d, some (.record r write))
      | none => some (d, some (.markUnknown r false))
    | .refused => some (d, some (.fail r))
    | .ambiguous => some (d, some (.markUnknown r true))
    | _ => none
  | .markUnknown r settles =>
    some (d.setClaim r.key [.dispatched] .unknown, if settles then some (.settle r) else none)
  | .record r write =>
    match d.record r.key fun d => some (d.put write) with
    | .recorded d' => some (d', some (.settle r))
    | .conflict => some (d, some (.settle r))
    | .failed => some (d, some (.markUnknown r false))
  | .settle r => some (d.settle r.key, none)
  | .awaitCharge q =>
    match input with
    | .charged providerPaymentId status now =>
      some (d, some (.recordCharge q (q.record providerPaymentId status now)))
    | .refused => some (d, some (.failCharge q))
    | .ambiguous => some (d, some (.unknownCharge q))
    | _ => none
  | .failCharge q => some (d.setClaim q.key [.claimed, .dispatched] .failed, none)
  | .unknownCharge q => some (d.setClaim q.key [.dispatched] .unknown, none)
  | .recordCharge q c =>
    let effect := fun d : MutationDesk => (d.register.books.recordCharge c).map fun books =>
      d.commit { d.register with books := books }
    match d.record q.key effect with
    | .recorded d' => some (d', none)
    | .conflict => some (d, none)
    | .failed => some (d, some (.unknownCharge q))
  | .readForChange r remote now =>
    match d.subscriptionById r.subscriptionId with
    | some copy => some (d, (r.change.write false remote now copy).map (.applyChange r))
    | none => some (d, none)
  | .applyChange r write =>
    match d.record r.key fun d => some (d.put write) with
    | .recorded d' => some (d', some (.settle r))
    | _ => some (d, none)
  | .findCharge q c =>
    match (d.register.books.payments.get? c.paymentId).or
        (d.register.books.paymentByProviderId c.providerPaymentId) with
    | some _ => some (d, some (.applyNothing q.key))
    | none =>
      match d.register.books.invoices.get? c.invoiceId with
      | some invoice => some (d, some (.readForCharge q c invoice))
      | none => some (d, none)
  | .readForCharge q c invoice =>
    let copy := d.row.filter fun row => invoice.subscriptionId = some row.sub.id
    some (d, some (.applyCharge q c invoice (copy.map (chargeWrite c))))
  | .applyCharge q c invoice write =>
    match d.record q.key (·.applyCharge c invoice write) with
    | .recorded d' => some (d', none)
    | _ => some (d, none)
  | .applyNothing key =>
    match d.record key some with
    | .recorded d' => some (d', none)
    | _ => some (d, none)

/-- `recover_dispatch_claims`. -/
def recover : MutationDesk :=
  let d : MutationDesk := { d with
    claims := (d.claims.updateWhere (fun c => c.state = .dispatched)
      (fun c => { c with state := .unknown }) fun _ => rfl).deleteWhere fun c => c.state = .claimed
    calls := [] }
  d.releaseResolved

end MutationDesk

/-- The answer of the provider's `reconcile`, with the clock. -/
inductive MutationLookup
  | notApplied
  | subscription (remote : ProviderSubscription) (now : ℤ)
  | charge (providerPaymentId : String) (status : PaymentStatus) (now : ℤ)
  deriving DecidableEq, Repr

/-- What can happen next. -/
inductive MutationEvent
  | change (r : ChangeRequest)
  /-- A payment hands its charge to the provider. -/
  | pay (q : ChargeRequest)
  | step (i : ℕ) (input : MutationInput)
  /-- The future of a call is dropped. -/
  | drop (i : ℕ)
  | releaseResolved
  | restart
  | tick (now : ℤ)
  | failure (invoiceId : String) (now : ℤ)
  | webhook (delivery : Delivery)
  /-- A pass looks an unknown claim up. -/
  | reconcile (key : String) (lookup : MutationLookup)
  deriving DecidableEq, Repr

namespace MutationDesk

/-- How a pass goes on with an unknown claim; `none` where the answer does not fit the operation. -/
def reconcile (d : MutationDesk) (claim : MutationClaim) : MutationLookup → Option MutationDesk
  | .notApplied => some (d.setClaim claim.key [.dispatched, .unknown] .failed)
  | .subscription remote now =>
    match claim.operation with
    | .change r => some { d with calls := d.calls ++ [some (.readForChange r remote now)] }
    | .pay _ => none
  | .charge providerPaymentId status now =>
    match claim.operation with
    | .pay q =>
      some { d with
        calls := d.calls ++ [some (.findCharge q (q.record providerPaymentId status now))] }
    | .change _ => none

/-- One event. -/
def step (dunning : Dunning) (d : MutationDesk) : MutationEvent → Option MutationDesk
  | .change r => some { d with calls := d.calls ++ [some (.replay r)] }
  | .pay q =>
    (d.claims.insert? ⟨q.key, .pay q, .dispatched⟩).map fun claims =>
      { d with claims := claims, calls := d.calls ++ [some (.awaitCharge q)] }
  | .step i input =>
    match d.calls[i]? with
    | some (some call) =>
      (d.exec input call).map fun (d', call') => { d' with calls := d'.calls.set i call' }
    | _ => none
  | .drop i => some { d with calls := d.calls.set i none }
  | .releaseResolved => some d.releaseResolved
  | .restart => some d.recover
  | .tick now =>
    (d.register.books.tick dunning now).map fun books =>
      d.commit { d.register with books := books }
  | .failure invoiceId now =>
    (d.register.books.recordPaymentFailure dunning invoiceId now).map fun books =>
      d.commit { d.register with books := books }
  | .webhook delivery => (d.register.handleWebhook dunning delivery).map d.commit
  | .reconcile key lookup =>
    ((d.claims.get? key).filter (·.state = .unknown)).bind fun claim => d.reconcile claim lookup

end MutationDesk

end Billing
