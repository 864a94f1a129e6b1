/-
# Materials planning: the plan

The demand of every part is exploded into the requirements of its components, part by part in the order
of the bill of materials; then every part is planned on its own.

* `explodeRequirements` : the gross requirements of every part, bucket by bucket;
* `netPeriod`, `net` : the loop that orders what a bucket lacks;
* `bridge`, `planTerminal` : the one order of a part that is last bought;
* `planPart`, `plan` : the result.

The classification of the parts by spend and variability is left out; it is no part of their plans.
-/
import Faktor.SupplyModel

namespace Supply

/-! ## Requirements -/

/-- Add to a bucket; the bucket is inside the horizon. -/
def addAt : List Units → ℕ → Units → Planning (List Units)
  | [], _, _ => .ok []
  | u :: us, 0, quantity => (u.checkedAdd quantity).map (· :: us)
  | u :: us, i + 1, quantity => (addAt us i quantity).map (u :: ·)

/-- The requirement of a component for some of its parent. -/
def bomRequirement (line : BomLine) (parentUnits : Units) : Planning Units := do
  let usable := 1000000 - line.scrapRatePpm
  let required ← mulDivRoundUp parentUnits.get line.quantityPerMicros usable
  refuseWhen (required < 0) (.negative "BOM requirement")
  refuseWhen (2 ^ 64 ≤ required) (.exact .overflow)
  refuseWhen ((maxUnits : ℤ) < required) (.invalid "BOM requirement exceeds the unit bound")
  Units.new required.toNat

/-- Add the requirement of a bucket. -/
def addRequirement (line : BomLine) (parent child : Units) : Planning Units :=
  if parent.get = 0 then .ok child else (bomRequirement line parent).bind child.checkedAdd

/-- Add the requirements of a line to those of its component. -/
def explodeLine (line : BomLine) : List Units → List Units → Planning (List Units)
  | parent :: parents, child :: children => do
    let child ← addRequirement line parent child
    let children ← explodeLine line parents children
    return child :: children
  | _, children => .ok children

/-- The requirements of every part. -/
abbrev Requirements := PartId → Option (List Units)

/-- The requirements of a part with a planning record. -/
def Requirements.find (gross : Requirements) (part : PartId) : Planning (List Units) :=
  (gross part).elim (.error (.unknownPart part)) .ok

namespace PlanningInput

variable (input : PlanningInput)

/-- The independent demand. -/
def independentDemand : Planning Requirements :=
  input.demand.foldlM (fun gross line => do
      let vector ← gross.find line.part
      let vector ← addAt vector line.period line.quantity
      return Function.update gross line.part (some vector))
    fun part => if input.hasPart part then some (List.replicate input.periods .zero) else none

/-- The components of a part. -/
def explodePart (gross : Requirements) (part : PartId) : Planning Requirements := do
  let parentGross ← gross.find part
  (input.children part).foldlM (fun gross line => do
      refuseWhen (1000000 - line.scrapRatePpm ≤ 0) (.invalid "BOM yield is zero")
      let childGross ← gross.find line.child
      let childGross ← explodeLine line parentGross childGross
      return Function.update gross line.child (some childGross))
    gross

/-- `explode_requirements`. -/
def explodeRequirements : Planning Requirements := do
  let _ ← input.bomDepths
  let order ← input.topologicalOrder
  let gross ← input.independentDemand
  order.foldlM input.explodePart gross

end PlanningInput

/-! ## Results -/

inductive UnavailableReason
  | missingEvidence | expired | arithmetic
  deriving DecidableEq, Repr

/-- A value that is known, or not. -/
inductive Availability (α : Type)
  | known (value : α)
  | unavailable (reason : UnavailableReason) (detail : String)
  deriving DecidableEq

def Availability.asKnown {α : Type} : Availability α → Option α
  | known value => some value
  | unavailable _ _ => none

inductive OrderReason
  | netRequirement | lastTimeBuy
  deriving DecidableEq, Repr

structure PlannedOrder where
  part : PartId
  releasePeriod : ℕ
  receiptPeriod : ℕ
  quantity : Units
  shortageUnits : Units
  excessUnits : Units
  expedite : Bool
  reason : OrderReason
  suppliers : List (ℕ × Units)
  deriving DecidableEq

structure LastTimeBuy where
  lastOrderDay : Option ℤ
  units : Availability Units
  note : String
  deriving DecidableEq

structure PlanningFlag where
  code : String
  detail : String
  deriving DecidableEq, Repr

inductive PlanningStatus
  | planned
  | incomplete (reasons : List String)
  | noDemand
  deriving DecidableEq, Repr

structure PartPlanResult where
  part : PartId
  gross : List Units
  confirmed : List Units
  onHand : Units
  leadTimePeriods : Availability ℕ
  safetyStock : Availability Units
  reorderPoint : Availability Units
  projectedEnd : Availability Units
  plannedOrders : List PlannedOrder
  lastTimeBuy : Option LastTimeBuy
  status : PlanningStatus
  flags : List PlanningFlag
  deriving DecidableEq

/-- What the planning of a part has found out so far. -/
structure Findings where
  reasons : List String
  flags : List PlanningFlag

namespace Findings

def reason (f : Findings) (text : String) : Findings := { f with reasons := f.reasons ++ [text] }

def flag (f : Findings) (code detail : String) : Findings :=
  { f with flags := f.flags ++ [⟨code, detail⟩] }

end Findings

/-- `dedup_flags`. -/
def dedupFlags (flags : List PlanningFlag) : List PlanningFlag :=
  (flags.insertionSort fun left right =>
    left.code < right.code ∨ left.code = right.code ∧ left.detail ≤ right.detail).destutter (· ≠ ·)

/-! ## Planning a part -/

section Part

variable (input : PlanningInput) (plan : PartPlan)

/-- The confirmed supply, bucket by bucket. -/
def confirmedBuckets : Planning (List Units) :=
  plan.confirmed.foldlM (fun confirmed line => addAt confirmed line.period line.quantity)
    (List.replicate input.periods .zero)

def leadPeriods (f : Findings) : Planning (Availability ℕ × Findings) :=
  match plan.leadTimeDays with
  | some distribution =>
    let days := (distribution.quantile input.leadTimeQuantile).toNat
    let periods := (days + (input.daysPerPeriod - 1)) / input.daysPerPeriod
    if maxPeriods < periods then .error (.invalid "lead time exceeds the planning horizon")
    else .ok (.known periods, f)
  | none =>
    .ok (.unavailable .missingEvidence "lead-time distribution unavailable",
      (f.reason "lead-time distribution unavailable").flag "lead_time_unavailable"
        "no lead-time distribution; orders cannot be time-phased")

def safetyStock (lead : Option ℕ) (f : Findings) : Availability Units × Findings :=
  match plan.demandStats, lead with
  | some stats, some lead =>
    match safetyStockUnits input.serviceLevelPpm stats lead with
    | .ok value => (.known value, f)
    | .error e => (.unavailable .arithmetic e.text, f.reason ("safety stock unavailable: " ++ e.text))
  | none, _ =>
    (.unavailable .missingEvidence "demand statistics unavailable",
      (f.reason "demand statistics unavailable").flag "demand_stats_unavailable"
        "no demand mean/sigma; safety stock and reorder point cannot be computed")
  | some _, none => (.unavailable .missingEvidence "lead time unavailable", f)

def reorderPoint (lead : Option ℕ) (safety : Option Units) : Planning (Availability Units) :=
  match plan.demandStats, lead, safety with
  | some stats, some lead, some safety => do
    let demand ← checkedI128 (stats.meanMicros * lead)
    let demandDuringLeadTime ← requireUnits demand
    match demandDuringLeadTime.checkedAdd safety with
    | .ok total => return .known total
    | .error e => return .unavailable .arithmetic e.text
  | _, _, _ =>
    .ok (.unavailable .missingEvidence
      "reorder point needs lead time, demand statistics and safety stock")

/-- `make_order`. -/
def makeOrder (releasePeriod receiptPeriod : ℕ) (quantity shortage : Units) (reason : OrderReason)
    (expedite : Bool) : Planning PlannedOrder := do
  let suppliers ← allocate quantity plan.suppliers
  return {
    part := plan.part
    releasePeriod := releasePeriod
    receiptPeriod := receiptPeriod
    quantity := quantity
    shortageUnits := shortage
    excessUnits := match quantity.checkedSub shortage with
      | .ok excess => excess
      | .error _ => .zero
    expedite := expedite
    reason := reason
    suppliers := suppliers }

/-! ### The loop over the buckets -/

structure Netting where
  available : ℤ
  orders : List PlannedOrder
  findings : Findings

/-- One bucket: order what it lacks of the safety stock. -/
def netPeriod (lead : ℕ) (safety : Units) (period : ℕ) (confirmed gross : Units) (n : Netting) :
    Planning Netting :=
  let available := n.available + confirmed.get - gross.get
  if available < safety.get then do
    let shortage ← Units.new (safety.get - available).toNat
    match plan.lot.round shortage with
    | .error e =>
      return { n with
        available := available
        findings := n.findings.reason ("lot rounding failed: " ++ e.text) }
    | .ok quantity =>
      let expedite := decide (period < lead)
      let findings :=
        if expedite then
          n.findings.flag "expedite" s!"receipt in bucket {period} needs a {lead}-bucket lead time"
        else n.findings
      let order ← makeOrder plan (period - lead) period quantity shortage .netRequirement expedite
      let orders := n.orders ++ [order]
      refuseWhen (maxOrdersPerPart < orders.length) (.bound "planned orders" maxOrdersPerPart)
      return ⟨available + quantity.get, orders, findings⟩
  else .ok { n with available := available }

/-- The buckets from a period on. -/
def net (lead : ℕ) (safety : Units) (period : ℕ) : List (Units × Units) → Netting → Planning Netting
  | [], n => .ok n
  | (confirmed, gross) :: buckets, n => do
    let n ← netPeriod plan lead safety period confirmed gross n
    net lead safety (period + 1) buckets n

/-! ### The last order -/

/-- A 64-bit sum wraps. -/
def wrapI64 (v : ℤ) : ℤ := v.bmod (2 ^ 64)

def lastTimeBuyRequired : Bool :=
  plan.lifecycle.isTerminal || plan.lifecycle == .lastTimeBuy ||
    plan.lastOrderDay.any fun day =>
      decide (day ≤ wrapI64 (input.horizonStart + input.periods * input.daysPerPeriod))

/-- The parts that are not netted bucket by bucket. -/
def terminal : Bool :=
  plan.lifecycle.isTerminal || plan.lifecycle == .lastTimeBuy || plan.lastOrderDay.isSome

/-- What the bridge has to cover. -/
def bridgeNet (grossTotal safety confirmedTotal : Units) : Planning Units := do
  let need ← grossTotal.checkedAdd safety
  let net ← need.checkedSub plan.onHand
  net.checkedSub confirmedTotal

/-- The quantity of the last order. -/
def bridge (confirmed : List Units) (grossTotal : Units) (safety : Option Units) (f : Findings) :
    Planning (Availability Units × Findings) :=
  match lastTimeBuyRequired input plan, safety with
  | true, some safety => do
    let confirmedTotal ← sumUnits confirmed
    let net ← bridgeNet plan grossTotal safety confirmedTotal
    match plan.lastOrderDay with
    | none =>
      return (.unavailable .missingEvidence "terminal lifecycle without a last order day",
        f.reason "terminal lifecycle without a last order day")
    | some day =>
      if day < input.horizonStart then
        return (.unavailable .expired "last order day has passed", f.reason "last order day has passed")
      else
        match plan.lot.round net with
        | .ok quantity => return (.known quantity, f)
        | .error e =>
          return (.unavailable .arithmetic e.text, f.reason ("LTB quantity failed: " ++ e.text))
  | true, none =>
    .ok (.unavailable .missingEvidence "LTB needs safety stock",
      f.reason "last-time-buy needs safety stock")
  | false, _ => .ok (.known .zero, f)

/-- How a part is supplied. -/
structure Supply where
  orders : List PlannedOrder
  projectedEnd : Availability Units
  lastTimeBuy : Option LastTimeBuy
  findings : Findings

def planningIncomplete : Availability Units := .unavailable .missingEvidence "planning incomplete"

/-- A part that is last bought: one order, at once. -/
def planTerminal (confirmed : List Units) (grossTotal : Units) (lead : Option ℕ)
    (safety : Option Units) (f : Findings) : Planning Supply := do
  let (units, f) ← bridge input plan confirmed grossTotal safety f
  let lastTimeBuy := some
    ⟨plan.lastOrderDay, units, "last-time-buy bridge covers the full horizon plus safety stock"⟩
  match units.asKnown with
  | none => return ⟨[], planningIncomplete, lastTimeBuy, f⟩
  | some quantity =>
    if quantity.get = 0 then return ⟨[], .known plan.onHand, lastTimeBuy, f⟩
    else
      match lead with
      | none =>
        return ⟨[], planningIncomplete, lastTimeBuy, f.reason "LTB order cannot be time-phased"⟩
      | some lead =>
        let receiptPeriod := min lead (input.periods - 1)
        let order ← makeOrder plan 0 receiptPeriod quantity quantity .lastTimeBuy
          (decide (receiptPeriod < lead))
        let confirmedTotal ← sumUnits confirmed
        let stock ← plan.onHand.checkedAdd confirmedTotal
        let stock ← stock.checkedAdd quantity
        let final ← stock.checkedSub grossTotal
        return ⟨[order], .known final, lastTimeBuy, f⟩

/-- A part that is netted bucket by bucket. -/
def planNetting (confirmed gross : List Units) (lead : ℕ) (safety : Units) (f : Findings) :
    Planning Supply := do
  let n ← net plan lead safety 0 (confirmed.zip gross) ⟨plan.onHand.get, [], f⟩
  if n.available < 0 then
    return ⟨n.orders, .unavailable .arithmetic "projected inventory is negative", none,
      n.findings.reason "projected inventory remains negative"⟩
  else
    let final ← Units.new n.available.toNat
    return ⟨n.orders, .known final, none, n.findings⟩

/-- The flags of the shelf life. -/
def shelfLife (lead : Option ℕ) (orders : List PlannedOrder) (f : Findings) : Planning Findings :=
  match plan.shelfLifeDays with
  | none => .ok f
  | some days =>
    let buckets := (days + input.daysPerPeriod - 1) / input.daysPerPeriod
    match plan.demandStats, lead with
    | some stats, some lead => do
      let f :=
        if buckets < lead then f.flag "shelf_life_risk" "shelf life is shorter than the lead time"
        else f
      let demand ← checkedI128 (stats.meanMicros * buckets)
      let demandOverShelf ← requireUnits demand
      if orders.any fun order => decide (demandOverShelf.get < order.quantity.get) then
        return f.flag "shelf_life_risk" "an order exceeds demand over one shelf life"
      else return f
    | _, _ =>
      .ok (f.flag "shelf_life_unknown"
        "shelf-life risk cannot be assessed without lead time and demand stats")

/-- How a part with these requirements is supplied. -/
def supply (confirmed gross : List Units) (grossTotal : Units) (lead : Option ℕ)
    (safety : Option Units) (f : Findings) : Planning Supply :=
  if grossTotal.get = 0 ∧ terminal plan = false then .ok ⟨[], .known plan.onHand, none, f⟩
  else if terminal plan then planTerminal input plan confirmed grossTotal lead safety f
  else
    match lead, safety with
    | some lead, some safety => planNetting plan confirmed gross lead safety f
    | _, _ =>
      .ok ⟨[], planningIncomplete, none,
        f.reason "planning netting requires lead time and safety stock"⟩

/-- `plan_part`. -/
def planPart (gross : List Units) : Planning PartPlanResult := do
  let confirmed ← confirmedBuckets input plan
  let grossTotal ← sumUnits gross
  let (lead, f) ← leadPeriods input plan ⟨[], []⟩
  let (safety, f) := safetyStock input plan lead.asKnown f
  let reorder ← reorderPoint plan lead.asKnown safety.asKnown
  let s ← supply input plan confirmed gross grossTotal lead.asKnown safety.asKnown f
  let status :=
    if grossTotal.get = 0 ∧ terminal plan = false then .noDemand
    else if s.findings.reasons = [] then .planned else .incomplete s.findings.reasons
  let f ← shelfLife input plan lead.asKnown s.orders s.findings
  return {
    part := plan.part
    gross := gross
    confirmed := confirmed
    onHand := plan.onHand
    leadTimePeriods := lead
    safetyStock := safety
    reorderPoint := reorder
    projectedEnd := s.projectedEnd
    plannedOrders := s.orders
    lastTimeBuy := s.lastTimeBuy
    status := status
    flags := dedupFlags f.flags }

end Part

/-- `plan`. -/
def plan (input : PlanningInput) : Planning (List PartPlanResult) := do
  input.validate
  let gross ← input.explodeRequirements
  let results ← input.parts.mapM fun partPlan => do
    let vector ← gross.find partPlan.part
    planPart input partPlan vector
  return results.insertionSort fun left right => left.part ≤ right.part

end Supply
