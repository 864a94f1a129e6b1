/-
# Period invoices

`issue_invoice` reads the subscription and its pending prorations, prices an invoice over them, and
then takes its claim and the fence of the period, asks the provider, and records the invoice together
with the prorations that it consumes.  Each of these is a transaction of its own; plan and seat changes,
ticks, reconciliations, other issues and restarts can come between any two of them.

* `draftInvoice` : the invoice over a subscription and its pending prorations;
* `IssueDesk.record` : the transaction that inserts an invoice and consumes its prorations;
* `IssueCall.exec` : one transaction of a call, or one answer of the provider to it;
* `IssueDesk.step` : what can happen next.
-/
import Faktor.BillingRecords
import Faktor.PaymentModel
import Faktor.Trace

namespace Billing

open Payments (OperationClaimState checkedAdd validAmount validKey)

/-! ## Requests and rows -/

structure UsageCharge where
  description : String
  quantity : ℤ
  unitAmountMinor : ℤ
  deriving DecidableEq, Repr

/-- `IssueInvoiceRequest` with its key cleared. -/
structure IssueContent where
  subscriptionId : String
  usage : List UsageCharge
  creditsMinor : ℤ
  discountMinor : ℤ
  taxJurisdiction : Option String
  dueInDays : Option ℤ
  deriving DecidableEq, Repr

structure IssueRequest where
  key : String
  content : IssueContent
  deriving DecidableEq, Repr

def maxUsageLines : ℕ := 128

def maxTextBytes : ℕ := 512

def maxDueDays : ℤ := 365

/-- What `issue_invoice` checks before it reads anything. -/
def IssueRequest.valid (r : IssueRequest) : Bool :=
  validKey r.key && r.content.usage.length ≤ maxUsageLines && 0 ≤ r.content.creditsMinor
    && 0 ≤ r.content.discountMinor
    && r.content.usage.all fun c =>
      c.description ≠ "" && c.description.utf8ByteSize ≤ maxTextBytes && 0 ≤ c.quantity
        && 0 ≤ c.unitAmountMinor

/-- The subscription and the period that an invoice is for. -/
structure IssuePeriod where
  subscriptionId : String
  startMs : ℤ
  endMs : ℤ
  deriving DecidableEq, Repr

/-- `period_key`. -/
def Subscription.period (sub : Subscription) : IssuePeriod :=
  ⟨sub.id, sub.currentPeriodStartMs, sub.currentPeriodEndMs⟩

/-- The id of an invoice: what its digest covers. -/
structure IssueId where
  content : IssueContent
  period : IssuePeriod
  planId : String
  interval : BillingInterval
  quantity : ℕ
  pendingIds : List String
  deriving DecidableEq, Repr

inductive InvoiceLineKind
  | plan
  | seat
  | proration
  | usage
  | credits
  | tax
  | discount
  deriving DecidableEq, Repr

structure InvoiceLine where
  kind : InvoiceLineKind
  description : String
  quantity : ℤ
  unitAmountMinor : ℤ
  amountMinor : ℤ
  deriving DecidableEq, Repr

structure PendingProration where
  id : String
  subscriptionId : String
  description : String
  amountMinor : ℤ
  consumedBy : Option IssueId
  deriving DecidableEq, Repr

/-- The row of an issued invoice, with its lines. -/
structure IssuedInvoice where
  id : IssueId
  number : ℕ
  providerInvoiceId : Option String
  lines : List InvoiceLine
  subtotalMinor : ℤ
  discountMinor : ℤ
  creditsMinor : ℤ
  taxMinor : ℤ
  taxJurisdiction : Option String
  taxInclusive : Bool
  totalMinor : ℤ
  issuedMs : ℤ
  dueMs : ℤ
  deriving DecidableEq, Repr

/-! ## Pricing -/

structure TaxRate where
  rateBps : ℤ
  inclusive : Bool
  deriving DecidableEq, Repr

/-- What the configuration says: the prices of a plan and of its seat in the currency of the
subscription, and the table of taxes. -/
structure Pricing where
  planAmount : String → BillingInterval → Option ℤ
  seatAmount : String → BillingInterval → Option ℤ
  defaultJurisdiction : Option String
  rates : String → Option TaxRate

/-- `rate_for`; the outer `none` is a jurisdiction without a rate. -/
def Pricing.rateFor (pricing : Pricing) (jurisdiction : Option String) : Option (Option TaxRate) :=
  match jurisdiction.or pricing.defaultJurisdiction with
  | none => some none
  | some jurisdiction => (pricing.rates jurisdiction).map some

/-- `checked_mul`. -/
def checkedMul (quantity unitAmount : ℤ) : Option ℤ :=
  if validAmount (quantity * unitAmount) then some (quantity * unitAmount) else none

/-- `round_div`: half away from zero; the denominator is positive. -/
def roundDiv (numerator denominator : ℤ) : ℤ :=
  (if numerator < 0 then -1 else 1) * ((|numerator| + denominator / 2) / denominator)

def exclusiveTax (base rateBps : ℤ) : ℤ := roundDiv (base * rateBps) 10000

def inclusiveTax (base rateBps : ℤ) : ℤ := roundDiv (base * rateBps) (10000 + rateBps)

/-- A line over one unit. -/
def InvoiceLine.single (kind : InvoiceLineKind) (description : String) (amount : ℤ) : InvoiceLine :=
  ⟨kind, description, 1, amount, amount⟩

def PendingProration.line (p : PendingProration) : InvoiceLine :=
  .single .proration p.description p.amountMinor

def BillingInterval.asStr : BillingInterval → String
  | monthly => "monthly"
  | annual => "annual"

/-- The lines of the plan and of the seats, where they cost something. -/
def planLines (sub : Subscription) (planAmount seatUnit seatAmount : ℤ) : List InvoiceLine :=
  (if planAmount ≠ 0 then
    [.single .plan (sub.planId ++ " plan (" ++ sub.interval.asStr ++ ")") planAmount]
  else []) ++
  (if seatAmount ≠ 0 then
    [⟨.seat, toString sub.quantity ++ " seats", sub.quantity, seatUnit, seatAmount⟩]
  else [])

def usageLines : List UsageCharge → Option (List InvoiceLine)
  | [] => some []
  | charge :: charges => do
    let amount ← checkedMul charge.quantity charge.unitAmountMinor
    let lines ← usageLines charges
    if amount ≠ 0 then
      some (⟨.usage, charge.description, charge.quantity, charge.unitAmountMinor, amount⟩ :: lines)
    else some lines

/-- The lines that reduce the subtotal. -/
def reductionLines (content : IssueContent) : List InvoiceLine :=
  (if 0 < content.discountMinor then [.single .discount "discount" (-content.discountMinor)]
  else []) ++
  (if 0 < content.creditsMinor then [.single .credits "account credits" (-content.creditsMinor)]
  else [])

/-- The tax, the total, and whether the tax is part of the base. -/
def taxed (taxable : ℤ) : Option TaxRate → Option (ℤ × ℤ × Bool)
  | some rate =>
    if rate.inclusive then some (inclusiveTax taxable rate.rateBps, taxable, true)
    else
      (checkedAdd taxable (exclusiveTax taxable rate.rateBps)).map fun total =>
        (exclusiveTax taxable rate.rateBps, total, false)
  | none => some (0, taxable, false)

def taxLines (content : IssueContent) (tax : ℤ) : List InvoiceLine :=
  if tax ≠ 0 then [.single .tax ("tax " ++ content.taxJurisdiction.getD "default") tax] else []

/-- The id of the invoice over a subscription and its pending prorations. -/
def issueId (sub : Subscription) (pending : List PendingProration) (content : IssueContent) :
    IssueId where
  content := content
  period := sub.period
  planId := sub.planId
  interval := sub.interval
  quantity := sub.quantity
  pendingIds := pending.map (·.id)

/-- The invoice over a subscription and its pending prorations; a trial costs nothing. -/
def draftInvoice (pricing : Pricing) (sub : Subscription) (pending : List PendingProration)
    (content : IssueContent) (now : ℤ) : Option IssuedInvoice := do
  let free : Bool := sub.state = .trialing
  let planAmount ← (if free then some 0 else pricing.planAmount sub.planId sub.interval)
  let seatUnit ← (if free then some 0 else pricing.seatAmount sub.planId sub.interval)
  let seatAmount ← checkedMul sub.quantity seatUnit
  let usage ← usageLines content.usage
  let lines := planLines sub planAmount seatUnit seatAmount ++ pending.map (·.line) ++ usage
  let subtotal ← lines.foldlM (fun sum line => checkedAdd sum line.amountMinor) 0
  let reductions ← checkedAdd content.creditsMinor content.discountMinor
  let rate ← pricing.rateFor content.taxJurisdiction
  let (tax, total, inclusive) ← taxed (subtotal - reductions) rate
  if subtotal < 0 ∨ subtotal < reductions ∨ total < 0 then none
  else
    some
      { id := issueId sub pending content
        number := 0
        providerInvoiceId := none
        lines := lines ++ reductionLines content ++ taxLines content tax
        subtotalMinor := subtotal
        discountMinor := content.discountMinor
        creditsMinor := content.creditsMinor
        taxMinor := tax
        taxJurisdiction := content.taxJurisdiction.or pricing.defaultJurisdiction
        taxInclusive := inclusive
        totalMinor := total
        issuedMs := now
        dueMs := now + max 1 (min maxDueDays (content.dueInDays.getD 7)) * 86400000 }

/-! ## The store -/

/-- The claim of an issue; its context is the draft. -/
structure IssueClaim where
  key : String
  content : IssueContent
  draft : IssuedInvoice
  state : OperationClaimState
  deriving DecidableEq, Repr

/-- A held `InvoiceIssue` lease. -/
structure IssueLease where
  period : IssuePeriod
  key : String
  content : IssueContent
  deriving DecidableEq, Repr

/-- An idempotency record of `issue_invoice`. -/
structure IssueRecord where
  key : String
  content : IssueContent
  invoiceId : IssueId
  deriving DecidableEq, Repr

/-- What a call of `issue_invoice` reads beside the rows. -/
inductive IssueInput
  | at (now : ℤ)
  /-- The provider has created the invoice. -/
  | issued (providerInvoiceId : String)
  /-- A definitive refusal. -/
  | refused
  | ambiguous
  deriving DecidableEq, Repr

/-- The next transaction of a call of `issue_invoice`. -/
inductive IssueCall
  | replay (r : IssueRequest)
  | readSubscription (r : IssueRequest)
  | readPending (r : IssueRequest) (sub : Subscription)
  | acquireClaim (r : IssueRequest) (sub : Subscription) (draft : IssuedInvoice)
  | acquireFence (r : IssueRequest) (sub : Subscription) (draft : IssuedInvoice)
  | abandon (r : IssueRequest)
  | recheck (r : IssueRequest) (sub : Subscription) (draft : IssuedInvoice)
  | fail (r : IssueRequest) (period : IssuePeriod)
  | findExisting (r : IssueRequest) (draft : IssuedInvoice)
  | recordExisting (r : IssueRequest) (draft : IssuedInvoice)
  | dispatch (r : IssueRequest) (draft : IssuedInvoice)
  | await (r : IssueRequest) (draft : IssuedInvoice)
  | markUnknown (r : IssueRequest) (period : Option IssuePeriod)
  | record (r : IssueRequest) (draft : IssuedInvoice)
  | settle (r : IssueRequest) (period : IssuePeriod)
  deriving DecidableEq, Repr

/-- The rows of one organization that its period invoices read and write, and the calls in flight. -/
structure IssueDesk where
  subscription : Option Subscription
  hasCustomer : Bool
  prorations : KeyTable PendingProration.id
  invoices : KeyTable IssuedInvoice.id
  sequence : ℕ
  claims : KeyTable IssueClaim.key
  leases : KeyTable IssueLease.period
  idempotency : KeyTable IssueRecord.key
  calls : List (Option IssueCall)

namespace IssueDesk

variable (d : IssueDesk)

/-- `subscription_by_id`. -/
def subscriptionById (id : String) : Option Subscription := d.subscription.filter (·.id = id)

/-- `pending_prorations`. -/
def pendingProrations (subscriptionId : String) : List PendingProration :=
  (d.prorations.select fun p => p.subscriptionId = subscriptionId ∧ p.consumedBy = none).insertionSort
    fun p q => p.id ≤ q.id

/-- `UPDATE payment_operation_claim SET state = …` on the row of a key whose state is one of
`allowed`. -/
def setClaim (key : String) (allowed : List OperationClaimState) (state : OperationClaimState) :
    IssueDesk :=
  { d with
    claims := d.claims.updateWhere (fun c => c.key = key ∧ c.state ∈ allowed)
      (fun c => { c with state := state }) fun _ => rfl }

/-- `try_acquire`: `none` when the period is held under another request, or the key holds another
period. -/
def acquireFence (period : IssuePeriod) (r : IssueRequest) : Option IssueDesk :=
  match d.leases.get? period with
  | some lease => if lease.key = r.key ∧ lease.content = r.content then some d else none
  | none =>
    if d.leases.rows.any (·.key = r.key) then none
    else
      (d.leases.insert? ⟨period, r.key, r.content⟩).map fun leases => { d with leases := leases }

/-- The claim of the lease has a terminal state, or is gone. -/
def resolved (lease : IssueLease) : Bool :=
  match d.claims.get? lease.key with
  | some claim => claim.state.isTerminal && claim.content = lease.content
  | none => true

/-- `settle`: release the fence of a period that the key holds, when its claim is terminal. -/
def settle (key : String) (period : IssuePeriod) : IssueDesk :=
  { d with
    leases := d.leases.deleteWhere fun lease =>
      lease.period = period ∧ lease.key = key ∧ (d.claims.get? key).isSome ∧ d.resolved lease }

/-- `release_resolved`, for the lease of one period. -/
def releaseResolved (period : IssuePeriod) : IssueDesk :=
  { d with leases := d.leases.deleteWhere fun lease => lease.period = period ∧ d.resolved lease }

/-- The effect of an issue: the invoice is inserted under the next number, and each proration that it
lists is consumed by it, whatever it says. -/
def issue (draft : IssuedInvoice) : Option IssueDesk :=
  (d.invoices.insert? { draft with number := d.sequence + 1 }).map fun invoices =>
    { d with
      sequence := d.sequence + 1
      invoices := invoices
      prorations := d.prorations.updateWhere (fun p => draft.id.pendingIds.contains p.id)
        (fun p => { p with consumedBy := some draft.id }) fun _ => rfl }

/-- The outcome of `record_atomic`. -/
inductive Recording
  | conflict
  | failed
  | recorded (d : IssueDesk)

/-- The key is recorded, or its claim is terminal. -/
def closed (key : String) : Bool :=
  (d.idempotency.get? key).isSome || (d.claims.get? key).any (·.state.isTerminal)

/-- `record_atomic`: the effect, the record of the key and the completed claim are one transaction. -/
def record (r : IssueRequest) (invoiceId : IssueId) (effect : IssueDesk → Option IssueDesk) :
    Recording :=
  if d.closed r.key then .conflict
  else
    match effect d, d.idempotency.insert? ⟨r.key, r.content, invoiceId⟩ with
    | some d', some idempotency =>
      .recorded
        ({ d' with idempotency := idempotency }.setClaim r.key [.claimed, .dispatched, .unknown]
          .succeeded)
    | _, _ => .failed

/-- One transaction of a call, or one answer to it: the rows after it and where the call stands then,
`none` when it has returned. -/
def exec (pricing : Pricing) (input : IssueInput) : IssueCall → Option (IssueDesk × Option IssueCall)
  | .replay r =>
    match d.idempotency.get? r.key with
    | some _ => some (d, none)
    | none => some (d, some (.readSubscription r))
  | .readSubscription r =>
    match d.subscriptionById r.content.subscriptionId with
    | some sub => some (d, if sub.state = .canceled then none else some (.readPending r sub))
    | none => some (d, none)
  | .readPending r sub =>
    match input with
    | .at now =>
      match draftInvoice pricing sub (d.pendingProrations sub.id) r.content now with
      | some draft => some (d, if d.hasCustomer then some (.acquireClaim r sub draft) else none)
      | none => some (d, none)
    | _ => none
  | .acquireClaim r sub draft =>
    -- a key with a claim replays its outcome or is refused, and nothing is written
    match d.claims.insert? ⟨r.key, r.content, draft, .claimed⟩ with
    | some claims => some ({ d with claims := claims }, some (.acquireFence r sub draft))
    | none => some (d, none)
  | .acquireFence r sub draft =>
    match d.acquireFence draft.id.period r with
    | some d' => some (d', some (.recheck r sub draft))
    | none => some (d, some (.abandon r))
  | .abandon r =>
    some ({ d with claims := d.claims.deleteWhere fun c => c.key = r.key ∧ c.state = .claimed }, none)
  | .recheck r sub draft =>
    if d.subscriptionById r.content.subscriptionId = some sub then
      some (d, some (.findExisting r draft))
    else some (d, some (.fail r draft.id.period))
  | .fail r period =>
    some (d.setClaim r.key [.claimed, .dispatched] .failed, some (.settle r period))
  | .findExisting r draft =>
    match d.invoices.get? draft.id with
    | some _ => some (d, some (.recordExisting r draft))
    | none => some (d, some (.dispatch r draft))
  | .recordExisting r draft =>
    match d.record r draft.id some with
    | .recorded d' => some (d', some (.settle r draft.id.period))
    | _ => some (d, none)
  | .dispatch r draft =>
    match d.claims.get? r.key with
    | some claim =>
      if claim.state = .claimed then
        some (d.setClaim r.key [.claimed] .dispatched, some (.await r draft))
      else some (d, none)
    | none => some (d, none)
  | .await r draft =>
    match input with
    | .issued id => some (d, some (.record r { draft with providerInvoiceId := some id }))
    | .refused => some (d, some (.fail r draft.id.period))
    | .ambiguous => some (d, some (.markUnknown r (some draft.id.period)))
    | .at _ => none
  | .markUnknown r period =>
    some (d.setClaim r.key [.dispatched] .unknown, period.map (.settle r))
  | .record r draft =>
    match d.record r draft.id (·.issue draft) with
    | .recorded d' => some (d', some (.settle r draft.id.period))
    | .conflict => some (d, some (.settle r draft.id.period))
    | .failed => some (d, some (.markUnknown r none))
  | .settle r period => some (d.settle r.key period, none)

/-- `recover_dispatch_claims`: what crossed the provider boundary is unknown, what never did is
deleted, and the fences that this resolves are released. -/
def recover : IssueDesk :=
  let d : IssueDesk := { d with
    claims := (d.claims.updateWhere (fun c => c.state = .dispatched)
      (fun c => { c with state := .unknown }) fun _ => rfl).deleteWhere fun c => c.state = .claimed
    calls := [] }
  { d with leases := d.leases.deleteWhere d.resolved }

end IssueDesk

/-! ## Plan and seat changes -/

/-- What the preview of a plan or seat change says of its prorations, with the ids that are drawn for
them. -/
structure ProrationPreview where
  fromPlan : String
  toPlan : String
  creditMinor : ℤ
  chargeMinor : ℤ
  creditId : String
  chargeId : String
  deriving DecidableEq, Repr

/-- `pending_from_preview`. -/
def pendingFromPreview (subscriptionId : String) (preview : ProrationPreview) :
    List PendingProration :=
  (if preview.creditMinor ≠ 0 then
    [⟨preview.creditId, subscriptionId, "unused " ++ preview.fromPlan ++ " time", preview.creditMinor,
      none⟩]
  else []) ++
  (if preview.chargeMinor ≠ 0 then
    [⟨preview.chargeId, subscriptionId, "prorated " ++ preview.toPlan ++ " time", preview.chargeMinor,
      none⟩]
  else [])

/-- `insert_pending_proration_tx`, for each line. -/
def insertProrations (prorations : KeyTable PendingProration.id) :
    List PendingProration → Option (KeyTable PendingProration.id)
  | [] => some prorations
  | p :: ps => (prorations.insert? p).bind fun prorations => insertProrations prorations ps

/-- What can happen next. -/
inductive IssueEvent
  | issue (r : IssueRequest)
  | step (i : ℕ) (input : IssueInput)
  /-- The future of a call is dropped. -/
  | drop (i : ℕ)
  | releaseResolved (period : IssuePeriod)
  | restart
  /-- A plan or seat change records the row it ends with and its prorations, live or reconciled. -/
  | change (sub : Subscription) (preview : ProrationPreview)
  | tick (now : ℤ)
  /-- A reconciliation finds that the provider holds the invoice of an unknown claim, or that it does
  not. -/
  | reconcile (key : String) (providerInvoiceId : Option String)
  deriving DecidableEq, Repr

namespace IssueDesk

/-- The claim of a key, when its outcome is unknown. -/
def unknownClaim (d : IssueDesk) (key : String) : Option IssueClaim :=
  (d.claims.get? key).filter (·.state = .unknown)

/-- One event. -/
def step (pricing : Pricing) (dunning : Dunning) (d : IssueDesk) : IssueEvent → Option IssueDesk
  | .issue r => if r.valid then some { d with calls := d.calls ++ [some (.replay r)] } else none
  | .step i input =>
    match d.calls[i]? with
    | some (some call) =>
      (d.exec pricing input call).map fun (d', call') => { d' with calls := d'.calls.set i call' }
    | _ => none
  | .drop i => some { d with calls := d.calls.set i none }
  | .releaseResolved period => some (d.releaseResolved period)
  | .restart => some d.recover
  | .change sub preview =>
    (insertProrations d.prorations (pendingFromPreview sub.id preview)).map fun prorations =>
      { d with subscription := some sub, prorations := prorations }
  | .tick now =>
    some { d with
      subscription := d.subscription.map fun sub =>
        ((sub.tickTrial now).tickPeriod now).tickDunning dunning now }
  | .reconcile key none =>
    (d.unknownClaim key).map fun _ => d.setClaim key [.dispatched, .unknown] .failed
  | .reconcile key (some id) =>
    (d.unknownClaim key).map fun claim =>
      match d.record ⟨key, claim.content⟩ claim.draft.id
          (·.issue { claim.draft with providerInvoiceId := some id }) with
      | .recorded d' => d'
      | _ => d

end IssueDesk

end Billing
