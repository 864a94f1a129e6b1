/-
# Materials planning: values and inputs

A planning run is over a horizon of buckets.  Quantities are whole units up to a bound, and every
operation on them is checked.

* `Units`, `LotPolicy.round`, `safetyStockUnits` : the arithmetic;
* `PlanningInput.validate` : what an accepted input has passed;
* `allocate` : the split of an order among the suppliers.
-/
import Mathlib

namespace Supply

/-! ## Errors -/

/-- `ExactError`. -/
inductive ExactError
  | outOfBounds (what detail : String)
  | overflow
  | divisionByZero
  | negative (what : String)
  deriving DecidableEq, Repr

def ExactError.text : ExactError → String
  | outOfBounds what detail => what ++ " is outside its bound: " ++ detail
  | overflow => "exact arithmetic overflowed"
  | divisionByZero => "division by zero"
  | negative what => what ++ " must not be negative"

abbrev PartId := ℕ

/-- `PlanningError`. -/
inductive PlanningError
  | exact (e : ExactError)
  | noPeriods
  | noDaysPerPeriod
  | periodBound (max actual : ℕ)
  | duplicatePart (part : PartId)
  | unknownPart (part : PartId)
  | bomCycle
  | bomDepth (max : ℕ)
  | periodOutOfRange (period periods : ℕ)
  | invalid (message : String)
  | supplierShares (actual : ℤ)
  | currencyMismatch (left right : String)
  | unsupportedServiceLevel (ppm : ℤ)
  | bound (what : String) (max : ℕ)
  | negative (what : String)
  deriving DecidableEq, Repr

/-- The texts of the errors that end up in the reasons of a plan. -/
def PlanningError.text : PlanningError → String
  | exact e => e.text
  | noPeriods => "periods must be at least 1"
  | noDaysPerPeriod => "days per period must be positive"
  | periodBound max actual => s!"periods {actual} exceed {max}"
  | duplicatePart part => s!"duplicate part plan {part}"
  | unknownPart part => s!"part {part} has no planning record"
  | bomCycle => "BOM cycle detected"
  | bomDepth max => s!"BOM depth exceeds {max}"
  | periodOutOfRange period periods => s!"period {period} is outside 0..{periods}"
  | invalid message => message
  | supplierShares actual => s!"supplier shares sum to {actual} ppm, expected 1,000,000"
  | currencyMismatch left right => s!"currency mismatch: {left} vs {right}"
  | unsupportedServiceLevel ppm => s!"service level {ppm} ppm is not in the exact table"
  | bound what max => s!"{what} exceeds {max} entries"
  | negative what => what ++ " must not be negative"

abbrev Planning (α : Type) := Except PlanningError α

/-- A refusal, when its condition holds. -/
def refuseWhen (p : Prop) [Decidable p] (e : PlanningError) : Planning Unit :=
  if p then .error e else .ok ()

/-! ## Quantities -/

def maxUnits : ℕ := 1000000000000

/-- A whole-unit quantity. -/
structure Units where
  get : ℕ
  le : get ≤ maxUnits
  deriving DecidableEq

namespace Units

def zero : Units := ⟨0, Nat.zero_le _⟩

def new (units : ℕ) : Planning Units :=
  if h : units ≤ maxUnits then .ok ⟨units, h⟩
  else .error (.exact (.outOfBounds "units" s!"{units} units"))

/-- The sum of two quantities is far below `u64::MAX`. -/
def checkedAdd (a b : Units) : Planning Units := new (a.get + b.get)

def checkedSub (a b : Units) : Planning Units :=
  if b.get ≤ a.get then new (a.get - b.get) else .error (.exact .overflow)

def roundUpToMultiple (a multiple : Units) : Planning Units :=
  if multiple.get = 0 then .error (.exact .divisionByZero)
  else if a.get % multiple.get = 0 then .ok a
  else new (a.get + (multiple.get - a.get % multiple.get))

def max (a b : Units) : Units := if b.get ≤ a.get then a else b

end Units

/-- The sum of a list of quantities, from the left. -/
def sumUnits (l : List Units) : Planning Units := l.foldlM Units.checkedAdd .zero

/-! ## 128-bit arithmetic -/

/-- `i128`, checked. -/
def checkedI128 (v : ℤ) : Planning ℤ :=
  if -2 ^ 127 ≤ v ∧ v < 2 ^ 127 then .ok v else .error (.exact .overflow)

/-- `div_round_up`; the quotients of the language are towards zero. -/
def divRoundUp (n d : ℤ) : ℤ :=
  if 0 ≤ n then if 0 < d then (n + d - 1).tdiv d else n.tdiv d
  else if 0 < d then n.tdiv d else (n + d + 1).tdiv d

/-- `mul_div_round_up`, where no divisor is zero. -/
def mulDivRoundUp (a b d : ℤ) : Planning ℤ := (checkedI128 (a * b)).map (divRoundUp · d)

/-- Micro-units as whole units, rounded up. -/
def requireUnits (micros : ℤ) : Planning Units :=
  if micros < 0 then .error (.negative "quantity")
  else
    let units := ((micros + 999999) / 1000000).toNat
    if 2 ^ 64 ≤ units then .error (.exact .overflow) else Units.new units

/-! ## Policies -/

/-- The minimum of an order, and what it is a multiple of. -/
structure LotPolicy where
  moq : Units
  multiple : Units
  deriving DecidableEq

namespace LotPolicy

def validate (lot : LotPolicy) : Planning Unit :=
  refuseWhen (lot.multiple.get = 0) (.invalid "order multiple is zero")

/-- Round a positive requirement to the policy. -/
def round (lot : LotPolicy) (requirement : Units) : Planning Units :=
  (requirement.max lot.moq).roundUpToMultiple lot.multiple

end LotPolicy

/-- The mean and the deviation of the demand of a bucket, in micro-units. -/
structure DemandStats where
  meanMicros : ℤ
  sigmaMicros : ℤ
  deriving DecidableEq, Repr

def DemandStats.validate (stats : DemandStats) : Planning Unit := do
  refuseWhen (stats.meanMicros < 0) (.negative "demand mean")
  refuseWhen (stats.sigmaMicros < 0) (.negative "demand sigma")

/-- `SERVICE_LEVEL_TABLE`: parts per million, and the z value. -/
def serviceLevelTable : List (ℤ × ℤ) :=
  [(500000, 0), (750000, 674490), (800000, 841621), (850000, 1036433), (900000, 1281552),
    (910000, 1340755), (920000, 1405071), (930000, 1475791), (940000, 1554774), (950000, 1644854),
    (960000, 1750686), (970000, 1880794), (975000, 1959964), (980000, 2053749), (990000, 2326348),
    (995000, 2575829), (999000, 3090232)]

def serviceLevelZ (serviceLevelPpm : ℤ) : Option ℤ :=
  (serviceLevelTable.find? (·.1 = serviceLevelPpm)).map (·.2)

/-- The loop of `isqrt_u128`; it halves the interval, so 128 rounds are enough. -/
def isqrtFrom (value : ℕ) : ℕ → ℕ → ℕ → ℕ
  | 0, low, _ => low
  | rounds + 1, low, high =>
    if low < high then
      let mid := low + (high - low + 1) / 2
      if mid ≤ value / mid then isqrtFrom value rounds mid high
      else isqrtFrom value rounds low (mid - 1)
    else low

/-- `isqrt_u128`. -/
def isqrtU128 (value : ℕ) : ℕ :=
  if value < 2 then value else isqrtFrom value 128 1 (value / 2 + 1)

/-- The square root of a quantity, scaled by a million and rounded down. -/
def isqrtScaledPpm (value : Units) : ℕ := isqrtU128 (value.get * 1000000000000)

/-- `safety_stock`. -/
def safetyStockUnits (serviceLevelPpm : ℤ) (stats : DemandStats) (leadPeriods : ℕ) :
    Planning Units := do
  let z ← (serviceLevelZ serviceLevelPpm).elim (.error (.unsupportedServiceLevel serviceLevelPpm)) .ok
  let lead ← Units.new leadPeriods
  let scaled ← checkedI128 (z * stats.sigmaMicros)
  let numerator ← checkedI128 (scaled * isqrtScaledPpm lead)
  let micros ← mulDivRoundUp numerator 1 1000000000000
  requireUnits micros

/-- The quantiles of a lead time, in days. -/
structure Distribution where
  p10 : ℤ
  p50 : ℤ
  p90 : ℤ
  p99 : ℤ
  sampleSize : ℕ
  deriving DecidableEq, Repr

inductive Quantile
  | p10 | p50 | p90 | p99
  deriving DecidableEq, Repr

namespace Distribution

def maxSampleSize : ℕ := 100000000

def validate (d : Distribution) : Planning Unit := do
  refuseWhen (d.sampleSize = 0) (.exact (.outOfBounds "sample size" "zero observations"))
  refuseWhen (maxSampleSize < d.sampleSize)
    (.exact (.outOfBounds "sample size" s!"{d.sampleSize} exceeds {maxSampleSize}"))
  refuseWhen (d.p10 < 0) (.exact (.negative "quantile"))
  refuseWhen (¬ (d.p10 ≤ d.p50 ∧ d.p50 ≤ d.p90 ∧ d.p90 ≤ d.p99))
    (.exact (.outOfBounds "quantiles" s!"not monotonic: {d.p10} {d.p50} {d.p90} {d.p99}"))

def quantile (d : Distribution) : Quantile → ℤ
  | .p10 => d.p10
  | .p50 => d.p50
  | .p90 => d.p90
  | .p99 => d.p99

end Distribution

/-- `LifecycleStatus`. -/
inductive LifecycleStatus
  | active | lastTimeBuy | notRecommendedForNewDesign | endOfLife | obsolete
  deriving DecidableEq, Repr

def LifecycleStatus.isTerminal : LifecycleStatus → Bool
  | endOfLife | obsolete => true
  | _ => false

/-! ## Inputs -/

/-- A component of a part: how many go into one, and the scrap of the step, in parts per million. -/
structure BomLine where
  parent : PartId
  child : PartId
  quantityPerMicros : ℤ
  scrapRatePpm : ℤ
  deriving DecidableEq, Repr

structure DemandLine where
  part : PartId
  period : ℕ
  quantity : Units
  deriving DecidableEq

structure ConfirmedSupply where
  period : ℕ
  quantity : Units
  deriving DecidableEq

structure SupplyShare where
  supplier : ℕ
  sharePpm : ℤ
  deriving DecidableEq, Repr

structure Money where
  currency : String
  micros : ℤ
  deriving DecidableEq, Repr

/-- The planning record of a part; a term that is not known is `none`. -/
structure PartPlan where
  part : PartId
  onHand : Units
  confirmed : List ConfirmedSupply
  leadTimeDays : Option Distribution
  lot : LotPolicy
  shelfLifeDays : Option ℕ
  lifecycle : LifecycleStatus
  lastOrderDay : Option ℤ
  unitCost : Option Money
  demandStats : Option DemandStats
  suppliers : List SupplyShare
  deriving DecidableEq

structure PlanningInput where
  currency : String
  periods : ℕ
  daysPerPeriod : ℕ
  periodsPerYear : ℕ
  horizonStart : ℤ
  serviceLevelPpm : ℤ
  leadTimeQuantile : Quantile
  parts : List PartPlan
  bom : List BomLine
  demand : List DemandLine

def maxPeriods : ℕ := 520
def maxParts : ℕ := 20000
def maxBomLines : ℕ := 500000
def maxDemandLines : ℕ := 500000
def maxConfirmedLines : ℕ := 500000
def maxBomDepth : ℕ := 64
def maxSuppliersPerPart : ℕ := 16
def maxOrdersPerPart : ℕ := 4 * maxPeriods

/-- `checked_share_total`; sixteen shares of at most a million do not overflow. -/
def checkedShareTotal (shares : List SupplyShare) : Planning ℤ :=
  shares.foldlM (fun total share => do
    refuseWhen (¬ (0 ≤ share.sharePpm ∧ share.sharePpm ≤ 1000000))
      (.invalid "supplier share outside 0..=1,000,000 ppm")
    return total + share.sharePpm) 0

def PartPlan.validate (plan : PartPlan) : Planning Unit := do
  plan.leadTimeDays.elim (.ok ()) Distribution.validate
  plan.lot.validate
  refuseWhen (plan.shelfLifeDays = some 0) (.invalid "shelf life of zero days is not a usable policy")
  plan.demandStats.elim (.ok ()) DemandStats.validate
  refuseWhen (maxSuppliersPerPart < plan.suppliers.length)
    (.bound "suppliers per part" maxSuppliersPerPart)
  refuseWhen (plan.suppliers = []) (.invalid s!"part {plan.part} has no supplier allocation")
  let total ← checkedShareTotal plan.suppliers
  refuseWhen (total ≠ 1000000) (.supplierShares total)

/-- `allocate`: the floors of the shares, and one unit more for those with the largest remainders. -/
def allocate (quantity : Units) (shares : List SupplyShare) : Planning (List (ℕ × Units)) := do
  let total ← checkedShareTotal shares
  refuseWhen (total ≠ 1000000) (.supplierShares total)
  refuseWhen (shares = []) (.invalid "no supplier shares")
  let floors := shares.map fun share =>
    (share.supplier, (quantity.get * share.sharePpm.toNat) / 1000000,
      (quantity.get * share.sharePpm.toNat) % 1000000)
  let leftover := quantity.get - (floors.map (·.2.1)).sum
  let sorted := floors.insertionSort fun left right =>
    right.2.2 < left.2.2 ∨ left.2.2 = right.2.2 ∧ left.1 ≤ right.1
  let result ← sorted.zipIdx.mapM fun (floor, i) => do
    let units ← Units.new (if i < leftover then floor.2.1 + 1 else floor.2.1)
    return (floor.1, units)
  return result.insertionSort fun left right => left.1 ≤ right.1

/-! ## Validation -/

namespace PlanningInput

variable (input : PlanningInput)

/-- The parts that have a planning record. -/
def hasPart (part : PartId) : Bool := input.parts.any (·.part == part)

/-- The checks of one record, after the records before it. -/
def validatePart (seen : List PartId) (plan : PartPlan) : Planning Unit := do
  plan.validate
  refuseWhen (plan.part ∈ seen) (.duplicatePart plan.part)
  refuseWhen (maxConfirmedLines < plan.confirmed.length) (.bound "confirmed lines" maxConfirmedLines)
  plan.confirmed.forM fun confirmed =>
    refuseWhen (input.periods ≤ confirmed.period)
      (.periodOutOfRange confirmed.period input.periods)
  plan.unitCost.elim (.ok ()) fun cost => do
    refuseWhen (cost.currency ≠ input.currency) (.currencyMismatch input.currency cost.currency)
    refuseWhen (cost.micros < 0) (.negative "unit cost")

def validateParts (seen : List PartId) : List PartPlan → Planning Unit
  | [] => .ok ()
  | plan :: plans => do
    input.validatePart seen plan
    validateParts (plan.part :: seen) plans

def validateBomLine (line : BomLine) : Planning Unit := do
  refuseWhen (input.hasPart line.parent = false) (.unknownPart line.parent)
  refuseWhen (input.hasPart line.child = false) (.unknownPart line.child)
  refuseWhen (line.quantityPerMicros ≤ 0) (.invalid "BOM quantity must be positive")
  refuseWhen (1000000 ≤ line.scrapRatePpm) (.invalid "BOM scrap rate must be below 100%")

def validateDemandLine (line : DemandLine) : Planning Unit := do
  refuseWhen (input.hasPart line.part = false) (.unknownPart line.part)
  refuseWhen (input.periods ≤ line.period) (.periodOutOfRange line.period input.periods)

/-! ### The order of the parts -/

/-- The lines of a part. -/
def children (part : PartId) : List BomLine := input.bom.filter (·.parent == part)

/-- A line of a part that is ordered: its child waits for one line less. -/
def release (line : BomLine) (s : (PartId → ℕ) × List PartId) : (PartId → ℕ) × List PartId :=
  let indegree := Function.update s.1 line.child (s.1 line.child - 1)
  (indegree, if indegree line.child = 0 then line.child :: s.2 else s.2)

/-- The loop over the parts that are ready, the least id first.  A part becomes ready once, so as many
rounds as there are parts are enough. -/
def orderFrom (fuel : ℕ) (indegree : PartId → ℕ) (ready : List PartId) : List PartId :=
  match fuel, ready.min? with
  | 0, _ | _, none => []
  | fuel + 1, some part =>
    let (indegree, ready) :=
      (input.children part).foldl (fun s line => release line s) (indegree, ready.erase part)
    part :: orderFrom fuel indegree ready

/-- `topological_order`. -/
def topologicalOrder : Planning (List PartId) :=
  let nodes := input.parts.map (·.part)
  let indegree := fun part => input.bom.countP (·.child == part)
  let order := input.orderFrom nodes.length indegree (nodes.filter (indegree · = 0))
  if order.length ≠ nodes.length then .error .bomCycle else .ok order

/-- `bom_depths`. -/
def bomDepths : Planning (PartId → ℕ) := do
  let order ← input.topologicalOrder
  order.foldlM (fun depth part => do
    refuseWhen (maxBomDepth ≤ depth part) (.bomDepth maxBomDepth)
    return (input.children part).foldl
      (fun d line => Function.update d line.child (Nat.max (d line.child) (depth part + 1))) depth)
    fun _ => 0

def validate : Planning Unit := do
  refuseWhen (input.periods = 0) .noPeriods
  refuseWhen (maxPeriods < input.periods) (.periodBound maxPeriods input.periods)
  refuseWhen (input.daysPerPeriod = 0) .noDaysPerPeriod
  refuseWhen (input.periodsPerYear = 0) (.invalid "periods per year must be positive")
  refuseWhen (serviceLevelZ input.serviceLevelPpm = none)
    (.unsupportedServiceLevel input.serviceLevelPpm)
  refuseWhen (maxParts < input.parts.length) (.bound "parts" maxParts)
  refuseWhen (maxBomLines < input.bom.length) (.bound "BOM lines" maxBomLines)
  refuseWhen (maxDemandLines < input.demand.length) (.bound "demand lines" maxDemandLines)
  input.validateParts [] input.parts
  input.bom.forM input.validateBomLine
  input.demand.forM input.validateDemandLine
  let _ ← input.topologicalOrder

end PlanningInput

end Supply
