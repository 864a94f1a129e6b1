/-
# The explosion of the requirements

The gross requirement of a part is its independent demand and what its parents need of it, rounded up
line by line.  The parts are exploded in the order of the bill of materials, each adding to the
requirements of its components; the sums are checked, and so is the depth of the bill.

* `GrossRequirements` : the equation of every part and bucket;
* `Deep` : a chain of lines that ends at a part;
* `explosion_guarantee` : what is returned is the solution of the equation, and when there is one.
-/
import Faktor.SupplyCovered
import Faktor.SupplyOrder

namespace Supply

open Sqlite (bind_eq_ok)

/-! ## Depth -/

namespace PlanningInput

variable (input : PlanningInput)

/-- A chain of so many lines ends at a part. -/
def Deep : ℕ → PartId → Prop
  | 0, _ => True
  | n + 1, part => ∃ line ∈ input.bom, line.child = part ∧ Deep n line.parent

/-- The depths, as values that are pushed along the lines. -/
def depthGraph : GraphPush PartId BomLine ℕ where
  edges := input.bom
  src := BomLine.parent
  dst := BomLine.child
  base := fun _ => 0
  op := Nat.max
  amount := fun _ depth => depth + 1

variable {input}

theorem foldl_max_le_iff {l : List ℕ} {a n : ℕ} : l.foldl Nat.max a ≤ n ↔ a ≤ n ∧ ∀ b ∈ l, b ≤ n := by
  induction l generalizing a with
  | nil => simp
  | cons b l ih =>
    rw [List.foldl_cons, ih, List.forall_mem_cons, ← and_assoc]
    exact and_congr_left fun _ => max_le_iff

/-- **A solution of the depths is the longest chain of each part.** -/
theorem depth_le_iff {depth : PartId → ℕ} (h : input.depthGraph.Solves depth) (n : ℕ) (part : PartId) :
    n ≤ depth part ↔ input.Deep n part := by
  induction n generalizing part with
  | zero => exact ⟨fun _ => trivial, fun _ => Nat.zero_le _⟩
  | succ n ih =>
    rw [← not_iff_not, not_le, Nat.lt_succ_iff, h part]
    unfold GraphPush.inflow
    rw [show input.depthGraph.op = Nat.max from rfl, foldl_max_le_iff]
    constructor
    · rintro ⟨-, hall⟩ ⟨line, hline, hchild, hdeep⟩
      have hle := hall (depth line.parent + 1) (List.mem_map.mpr
        ⟨line, List.mem_filter.mpr ⟨hline, by show (decide (line.child = part) && true) = true; simpa using hchild⟩, rfl⟩)
      have := (ih line.parent).mpr hdeep
      omega
    · intro hnone
      refine ⟨Nat.zero_le _, fun b hb => ?_⟩
      obtain ⟨line, hline, rfl⟩ := List.mem_map.mp hb
      obtain ⟨hline, hchild⟩ := List.mem_filter.mp hline
      by_contra hlt
      have hchild : (decide (line.child = part) && true) = true := hchild
      refine hnone ⟨line, hline, by simpa using hchild, (ih line.parent).mp ?_⟩
      have : n < depth line.parent + 1 := not_le.mp hlt
      omega

/-- One part of the loop of `bom_depths`. -/
def depthStep (input : PlanningInput) (depth : PartId → ℕ) (part : PartId) : Planning (PartId → ℕ) := do
  refuseWhen (maxBomDepth ≤ depth part) (.bomDepth maxBomDepth)
  return input.depthGraph.pushNode depth part

theorem bomDepths_eq {order : List PartId} (horder : input.topologicalOrder = .ok order) :
    input.bomDepths = order.foldlM input.depthStep fun _ => 0 := by
  unfold bomDepths
  rw [horder]
  rfl

/-- **The depths are refused exactly when a chain is too long.** -/
theorem bomDepths_ok_iff (href : input.Referenced) {order : List PartId}
    (horder : input.topologicalOrder = .ok order) :
    (∃ depth, input.bomDepths = .ok depth) ↔ ∀ part, ¬input.Deep maxBomDepth part := by
  obtain ⟨hperm, htop⟩ := topologicalOrder_spec href horder
  have htop' : input.depthGraph.Topological order := ⟨htop.nodup, htop.complete, htop.earlier⟩
  have : RightCommutative input.depthGraph.op := ⟨fun a b c => by
    show max (max a b) c = max (max a c) b
    omega⟩
  have hsolves := GraphPush.solves_foldl htop'
  -- the depth that is checked, in the turn of a part, is the final one
  have hloop : ∀ post done depth, order = done ++ post →
      ((∃ depth', post.foldlM input.depthStep depth = .ok depth') ↔
        ∀ part ∈ post, post.foldl input.depthGraph.pushNode depth part < maxBomDepth) := by
    intro post
    induction post with
    | nil =>
      intro done depth _
      constructor
      · intro _ part hpart
        cases hpart
      · intro _
        exact ⟨depth, rfl⟩
    | cons part post ih =>
      intro done depth hsplit
      have hnext : order = (done ++ [part]) ++ post := by rw [hsplit, List.append_assoc]; rfl
      have hfinal : post.foldl input.depthGraph.pushNode (input.depthGraph.pushNode depth part) part =
          depth part := by
        rw [htop'.foldl_kept _ post hnext (by simp)]
        exact htop'.pushNode_kept hsplit depth part (by simp)
      rw [List.foldlM_cons, List.forall_mem_cons, List.foldl_cons, hfinal, ← ih _ _ hnext]
      constructor
      · rintro ⟨depth', h⟩
        obtain ⟨depth'', hstep, hrest⟩ := bind_eq_ok.mp h
        obtain ⟨_, hrefuse, hstep⟩ := bind_eq_ok.mp hstep
        obtain rfl := Except.ok.inj hstep
        exact ⟨not_le.mp (refuseWhen_ok hrefuse), depth', hrest⟩
      · rintro ⟨hlt, depth', hrest⟩
        refine ⟨depth', bind_eq_ok.mpr ⟨_, bind_eq_ok.mpr ⟨(), ?_, rfl⟩, hrest⟩⟩
        exact if_neg (not_le.mpr hlt)
  rw [bomDepths_eq horder, hloop order [] _ rfl]
  constructor
  · intro hlt part hdeep
    have hle := (depth_le_iff hsolves maxBomDepth part).mpr hdeep
    obtain ⟨line, hline, hchild, -⟩ : ∃ line ∈ input.bom, line.child = part ∧ _ := hdeep
    have hmem : part ∈ order := hperm.mem_iff.mpr (hasPart_iff.mp (hchild ▸ href.child line hline))
    exact absurd hle (not_le.mpr (hlt part hmem))
  · intro hshallow part _
    by_contra hge
    exact hshallow part ((depth_le_iff hsolves maxBomDepth part).mp (not_lt.mp hge))

end PlanningInput

/-! ## Checked sums -/

section Checked

variable {a b q : Units}

/-- A sum is refused exactly when it is out of bounds. -/
theorem Units.exists_checkedAdd (h : a.get + b.get ≤ maxUnits) : ∃ q, a.checkedAdd b = .ok q :=
  ⟨_, dif_pos h⟩

/-- What an addition to a bucket does to each bucket. -/
theorem addAt_get {l l' : List Units} {i : ℕ} (h : addAt l i q = .ok l') :
    l'.length = l.length ∧ ∀ t, (l'[t]?).map Units.get =
      (l[t]?).map fun u => u.get + if t = i then q.get else 0 := by
  induction l generalizing l' i with
  | nil =>
    obtain rfl := Except.ok.inj h
    exact ⟨rfl, fun t => rfl⟩
  | cons u us ih =>
    cases i with
    | zero =>
      obtain ⟨v, hv, rfl⟩ := Sqlite.map_eq_ok.mp h
      refine ⟨rfl, fun t => ?_⟩
      cases t with
      | zero => simpa using Units.checkedAdd_ok hv
      | succ t => simp
    | succ i =>
      obtain ⟨vs, hvs, rfl⟩ := Sqlite.map_eq_ok.mp h
      obtain ⟨hlength, hget⟩ := ih hvs
      refine ⟨by simp [hlength], fun t => ?_⟩
      cases t with
      | zero => simp
      | succ t => simpa using hget t

theorem exists_addAt {l : List Units} {i : ℕ} (h : ∀ u, l[i]? = some u → u.get + q.get ≤ maxUnits) :
    ∃ l', addAt l i q = .ok l' := by
  induction l generalizing i with
  | nil => exact ⟨[], rfl⟩
  | cons u us ih =>
    cases i with
    | zero =>
      obtain ⟨v, hv⟩ := Units.exists_checkedAdd (h u rfl)
      exact ⟨_, Sqlite.map_eq_ok.mpr ⟨v, hv, rfl⟩⟩
    | succ i =>
      obtain ⟨vs, hvs⟩ := ih fun v hv => h v (by simpa using hv)
      exact ⟨_, Sqlite.map_eq_ok.mpr ⟨vs, hvs, rfl⟩⟩

end Checked

/-! ## Lines -/

/-- What a line needs of its component for so many of its parent, rounded up. -/
def requirement (line : BomLine) (parent : ℕ) : ℕ :=
  (parent * line.quantityPerMicros.toNat) ⌈/⌉ (1000000 - line.scrapRatePpm).toNat

section Line

variable {line : BomLine} {parent child q : Units}

@[simp] theorem requirement_zero (line : BomLine) : requirement line 0 = 0 := by
  unfold requirement
  rw [zero_mul, zero_ceilDiv]

/-- The quantity of a line is positive and its rate leaves a yield; both are in their ranges. -/
structure Usable (line : BomLine) : Prop where
  quantity : 0 < line.quantityPerMicros ∧ line.quantityPerMicros < 2 ^ 63
  scrap : 0 ≤ line.scrapRatePpm ∧ line.scrapRatePpm < 1000000

theorem divRoundUp_natCast (n : ℕ) {d : ℕ} (hd : 0 < d) :
    divRoundUp n d = ((n ⌈/⌉ d : ℕ) : ℤ) := by
  unfold divRoundUp
  rw [if_pos (Int.natCast_nonneg n), if_pos (Int.natCast_pos.mpr hd), Nat.ceilDiv_eq_add_pred_div,
    Int.tdiv_eq_ediv_of_nonneg (by omega)]
  have hcast : (n : ℤ) + d - 1 = ((n + d - 1 : ℕ) : ℤ) := by omega
  rw [hcast, Int.natCast_ediv]

section

variable (h : Usable line)
include h

/-- The product of a line does not overflow, and the quotient is rounded up. -/
theorem mulDivRoundUp_line (u : Units) :
    mulDivRoundUp u.get line.quantityPerMicros (1000000 - line.scrapRatePpm) =
      .ok (requirement line u.get : ℤ) := by
  have hproduct : (u.get : ℤ) * line.quantityPerMicros =
      ((u.get * line.quantityPerMicros.toNat : ℕ) : ℤ) := by
    rw [Int.natCast_mul, Int.toNat_of_nonneg h.quantity.1.le]
  have husable : 1000000 - line.scrapRatePpm = ((1000000 - line.scrapRatePpm).toNat : ℤ) := by
    have := h.scrap.2
    omega
  have hfits : u.get * line.quantityPerMicros.toNat < 2 ^ 127 := by
    have hq : line.quantityPerMicros.toNat ≤ 2 ^ 63 := by
      have := h.quantity.2
      omega
    calc u.get * line.quantityPerMicros.toNat ≤ maxUnits * 2 ^ 63 := Nat.mul_le_mul u.le hq
      _ < 2 ^ 127 := by decide
  have hpositive : 0 < (1000000 - line.scrapRatePpm).toNat := by
    have := h.scrap.2
    omega
  unfold mulDivRoundUp checkedI128 requirement
  rw [hproduct, husable, if_pos (by omega)]
  show Except.ok (divRoundUp _ _) = _
  rw [divRoundUp_natCast _ hpositive, ← husable]

/-- The requirement of a line, where it is within the bound. -/
theorem bomRequirement_get (hq : bomRequirement line parent = .ok q) :
    q.get = requirement line parent.get := by
  obtain ⟨required, hrequired, hq⟩ := bind_eq_ok.mp hq
  rw [mulDivRoundUp_line h] at hrequired
  obtain rfl := Except.ok.inj hrequired
  obtain ⟨_, -, hq⟩ := bind_eq_ok.mp hq
  obtain ⟨_, -, hq⟩ := bind_eq_ok.mp hq
  obtain ⟨_, -, hq⟩ := bind_eq_ok.mp hq
  rw [Units.new_ok hq, Int.toNat_natCast]

theorem exists_bomRequirement (hle : requirement line parent.get ≤ maxUnits) :
    ∃ q, bomRequirement line parent = .ok q := by
  refine ⟨⟨_, hle⟩, bind_eq_ok.mpr ⟨_, mulDivRoundUp_line h parent, bind_eq_ok.mpr ⟨(), ?_,
    bind_eq_ok.mpr ⟨(), ?_, bind_eq_ok.mpr ⟨(), ?_, ?_⟩⟩⟩⟩⟩
  · exact if_neg (by omega)
  · refine if_neg ?_
    have : maxUnits < 2 ^ 64 := by decide
    omega
  · exact if_neg (by omega)
  · rw [Int.toNat_natCast]
    exact dif_pos hle

/-- What a line adds to a bucket of its component. -/
theorem addRequirement_get (hq : addRequirement line parent child = .ok q) :
    q.get = child.get + requirement line parent.get := by
  unfold addRequirement at hq
  split at hq
  · next hzero =>
    obtain rfl := Except.ok.inj hq
    rw [hzero, requirement_zero, add_zero]
  · obtain ⟨required, hrequired, hq⟩ := bind_eq_ok.mp hq
    rw [Units.checkedAdd_ok hq, bomRequirement_get h hrequired]

theorem exists_addRequirement (hle : child.get + requirement line parent.get ≤ maxUnits) :
    ∃ q, addRequirement line parent child = .ok q := by
  unfold addRequirement
  split
  · exact ⟨child, rfl⟩
  · obtain ⟨required, hrequired⟩ : ∃ q, bomRequirement line parent = .ok q :=
      exists_bomRequirement h (by omega)
    obtain ⟨q, hq⟩ := Units.exists_checkedAdd (a := child) (b := required)
      (by rw [bomRequirement_get h hrequired]; exact hle)
    exact ⟨q, bind_eq_ok.mpr ⟨required, hrequired, hq⟩⟩

/-- What a line adds to the buckets of its component. -/
theorem explodeLine_get {parents children children' : List Units}
    (hlength : parents.length = children.length) (hok : explodeLine line parents children = .ok children') :
    children'.length = children.length ∧ ∀ (t : ℕ) (p c : Units), parents[t]? = some p → children[t]? = some c →
      (children'[t]?).map Units.get = some (c.get + requirement line p.get) := by
  induction parents generalizing children children' with
  | nil =>
    obtain rfl := List.length_eq_zero_iff.mp hlength.symm
    obtain rfl := Except.ok.inj hok
    refine ⟨rfl, fun t p c hp => ?_⟩
    cases hp
  | cons p ps ih =>
    cases children with
    | nil => cases hlength
    | cons c cs =>
      obtain ⟨c', hc', hok⟩ := bind_eq_ok.mp hok
      obtain ⟨cs', hcs', hok⟩ := bind_eq_ok.mp hok
      obtain rfl := Except.ok.inj hok
      obtain ⟨hlength', hget⟩ := ih (Nat.succ_injective hlength) hcs'
      refine ⟨by simp [hlength'], fun t p' c'' hp hc => ?_⟩
      cases t with
      | zero =>
        obtain rfl := Option.some.inj hp
        obtain rfl := Option.some.inj hc
        exact congrArg some (addRequirement_get h hc')
      | succ t => exact hget t p' c'' (by simpa using hp) (by simpa using hc)

theorem exists_explodeLine {parents children : List Units}
    (hle : ∀ (t : ℕ) (p c : Units), parents[t]? = some p → children[t]? = some c →
      c.get + requirement line p.get ≤ maxUnits) :
    ∃ children', explodeLine line parents children = .ok children' := by
  induction parents generalizing children with
  | nil => exact ⟨children, by cases children <;> rfl⟩
  | cons p ps ih =>
    cases children with
    | nil => exact ⟨[], rfl⟩
    | cons c cs =>
      obtain ⟨c', hc'⟩ : ∃ q, addRequirement line p c = .ok q :=
        exists_addRequirement h (hle 0 p c rfl rfl)
      obtain ⟨cs', hcs'⟩ := ih fun t p' c'' hp hc =>
        hle (t + 1) p' c'' (by simpa using hp) (by simpa using hc)
      exact ⟨_, bind_eq_ok.mpr ⟨c', hc', bind_eq_ok.mpr ⟨cs', hcs', rfl⟩⟩⟩

end

end Line

/-! ## The equation -/

namespace PlanningInput

variable (input : PlanningInput)

/-- The independent demand for a part in a bucket. -/
def demandOf (part : PartId) (t : ℕ) : ℕ :=
  ((input.demand.filter fun line => line.part = part && line.period = t).map
    fun line => line.quantity.get).sum

/-- **The gross requirements**: the requirement of a part in a bucket is its independent demand, and for
each line to it the requirement of the line for that of the parent. -/
def GrossRequirements (g : PartId → ℕ → ℕ) : Prop :=
  ∀ part t, g part t = input.demandOf part t +
    ((input.bom.filter fun line => line.child = part).map
      fun line => requirement line (g line.parent t)).sum

/-- The requirements, as values that are pushed along the lines. -/
def grossGraph : GraphPush PartId BomLine (ℕ → ℕ) where
  edges := input.bom
  src := BomLine.parent
  dst := BomLine.child
  base := input.demandOf
  op := fun f g => f + g
  amount := fun line f t => requirement line (f t)

variable {input}

instance grossGraph_rightCommutative : RightCommutative input.grossGraph.op :=
  ⟨fun a b c => add_right_comm a b c⟩

theorem foldl_add_apply (l : List (ℕ → ℕ)) (f : ℕ → ℕ) (t : ℕ) :
    l.foldl (fun f g => f + g) f t = f t + (l.map fun g => g t).sum := by
  induction l generalizing f with
  | nil => rfl
  | cons g l ih =>
    rw [List.foldl_cons, ih, List.map_cons, List.sum_cons, Pi.add_apply, add_assoc]

theorem solves_iff {g : PartId → ℕ → ℕ} : input.grossGraph.Solves g ↔ input.GrossRequirements g := by
  have hflow : ∀ part t, input.grossGraph.inflow (fun _ => true) g part t = input.demandOf part t +
      ((input.bom.filter fun line => line.child = part).map
        fun line => requirement line (g line.parent t)).sum := by
    intro part t
    have hfilter : (input.bom.filter fun line => decide (line.child = part) && true) =
        input.bom.filter fun line => decide (line.child = part) := by simp
    show ((input.bom.filter fun line => decide (line.child = part) && true).map
      fun line t => requirement line (g line.parent t)).foldl (fun f g => f + g)
        (input.demandOf part) t = _
    rw [hfilter, foldl_add_apply, List.map_map]
    rfl
  constructor
  · intro h part t
    rw [← hflow, ← h part]
  · intro h part
    funext t
    rw [hflow]
    exact h part t

/-! ## The checked explosion -/

/-- A list of quantities stands for the values of the buckets of the horizon. -/
def RowOf (input : PlanningInput) (vector : List Units) (f : ℕ → ℕ) : Prop :=
  vector.length = input.periods ∧ ∀ t < input.periods, (vector[t]?).map Units.get = some (f t)

/-- **Checked requirements stand for values** of all the parts that have a record. -/
structure Stands (input : PlanningInput) (gross : Requirements) (g : PartId → ℕ → ℕ) : Prop where
  known : ∀ part, input.hasPart part = true → ∃ vector, gross part = some vector ∧
    input.RowOf vector (g part)
  unknown : ∀ part, input.hasPart part = false → gross part = none

/-- The values are within the bound of a quantity. -/
def Fits (input : PlanningInput) (g : PartId → ℕ → ℕ) : Prop :=
  ∀ part, input.hasPart part = true → ∀ t < input.periods, g part t ≤ maxUnits

variable {gross gross' : Requirements} {g h : PartId → ℕ → ℕ} {vector : List Units} {f : ℕ → ℕ}

theorem Fits.mono (hle : g ≤ h) (hfits : input.Fits h) : input.Fits g :=
  fun part hpart t ht => (hle part t).trans (hfits part hpart t ht)

theorem RowOf.get (hrow : input.RowOf vector f) {t : ℕ} (ht : t < input.periods) :
    ∃ u, vector[t]? = some u ∧ u.get = f t :=
  Option.map_eq_some_iff.mp (hrow.2 t ht)

theorem RowOf.lt (hrow : input.RowOf vector f) {t : ℕ} {u : Units} (hu : vector[t]? = some u) :
    t < input.periods := by
  rw [← hrow.1]
  exact (List.getElem?_eq_some_iff.mp hu).1

section

variable (hstands : input.Stands gross g)
include hstands

/-- What is checked is within the bound. -/
theorem Stands.fits : input.Fits g := by
  intro part hpart t ht
  obtain ⟨vector, -, hrow⟩ := hstands.known part hpart
  obtain ⟨u, -, hu⟩ := hrow.get ht
  rw [← hu]
  exact u.le

theorem Stands.update {part : PartId} (hpart : input.hasPart part = true) (hrow : input.RowOf vector f) :
    input.Stands (Function.update gross part (some vector)) (Function.update g part f) := by
  constructor
  · intro other hother
    by_cases hsame : other = part
    · subst hsame
      exact ⟨vector, Function.update_self .., by rw [Function.update_self]; exact hrow⟩
    · rw [Function.update_of_ne hsame, Function.update_of_ne hsame]
      exact hstands.known other hother
  · intro other hother
    have hne : other ≠ part := fun hsame => by
      rw [hsame, hpart] at hother
      cases hother
    rw [Function.update_of_ne hne]
    exact hstands.unknown other hother

theorem Stands.find {part : PartId} (hpart : input.hasPart part = true) :
    ∃ vector, gross.find part = .ok vector ∧ input.RowOf vector (g part) := by
  obtain ⟨vector, hvector, hrow⟩ := hstands.known part hpart
  exact ⟨vector, by rw [Requirements.find, hvector]; rfl, hrow⟩

/-- Requirements that stand for the same values are the same. -/
theorem Stands.unique (hstands' : input.Stands gross' g) :
    gross = gross' := by
  funext part
  cases hpart : input.hasPart part with
  | false => rw [hstands.unknown part hpart, hstands'.unknown part hpart]
  | true =>
    obtain ⟨vector, hvector, hrow⟩ := hstands.known part hpart
    obtain ⟨vector', hvector', hrow'⟩ := hstands'.known part hpart
    rw [hvector, hvector']
    congr 1
    refine List.ext_getElem? fun t => ?_
    by_cases ht : t < input.periods
    · obtain ⟨u, hu, hget⟩ := hrow.get ht
      obtain ⟨u', hu', hget'⟩ := hrow'.get ht
      rw [hu, hu']
      congr 1
      cases u
      cases u'
      simp only at hget hget'
      subst hget hget'
      rfl
    · rw [List.getElem?_eq_none (by rw [hrow.1]; omega), List.getElem?_eq_none (by rw [hrow'.1]; omega)]

end

/-! ### The independent demand -/

/-- One line of demand, without the checks. -/
def addDemand (g : PartId → ℕ → ℕ) (line : DemandLine) : PartId → ℕ → ℕ :=
  Function.update g line.part fun t => g line.part t + if t = line.period then line.quantity.get else 0

theorem foldl_addDemand (lines : List DemandLine) (g : PartId → ℕ → ℕ) (part : PartId) (t : ℕ) :
    lines.foldl addDemand g part t = g part t +
      ((lines.filter fun line => line.part = part && line.period = t).map
        fun line => line.quantity.get).sum := by
  induction lines generalizing g with
  | nil => rfl
  | cons line lines ih =>
    rw [List.foldl_cons, ih, List.filter_cons]
    unfold addDemand
    by_cases hpart : part = line.part
    · subst hpart
      rw [Function.update_self]
      by_cases ht : t = line.period
      · subst ht
        simp [add_assoc]
      · simp [ht, Ne.symm ht]
    · rw [Function.update_of_ne hpart]
      simp [Ne.symm hpart]

/-- One line of demand. -/
def demandStep (gross : Requirements) (line : DemandLine) : Planning Requirements := do
  let vector ← gross.find line.part
  let vector ← addAt vector line.period line.quantity
  return Function.update gross line.part (some vector)

theorem demandStep_spec {line : DemandLine} (hpart : input.hasPart line.part = true)
    (hperiod : line.period < input.periods) (hstands : input.Stands gross g) :
    (∀ gross', demandStep gross line = .ok gross' → input.Stands gross' (addDemand g line)) ∧
      (input.Fits (addDemand g line) → ∃ gross', demandStep gross line = .ok gross') := by
  obtain ⟨vector, hfind, hrow⟩ := hstands.find hpart
  constructor
  · intro gross' hok
    obtain ⟨vector₁, hfind', hok⟩ := bind_eq_ok.mp hok
    rw [hfind] at hfind'
    obtain rfl := Except.ok.inj hfind'
    obtain ⟨vector', hadd, hok⟩ := bind_eq_ok.mp hok
    obtain rfl := Except.ok.inj hok
    obtain ⟨hlength, hget⟩ := addAt_get hadd
    refine hstands.update hpart ⟨hlength.trans hrow.1, fun t ht => ?_⟩
    obtain ⟨u, hu, hvalue⟩ := hrow.get ht
    rw [hget, hu, Option.map_some, hvalue]
  · intro hfits
    have hbound : ∀ u, vector[line.period]? = some u → u.get + line.quantity.get ≤ maxUnits := by
      intro u hu
      obtain ⟨u', hu', hvalue⟩ := hrow.get hperiod
      rw [hu] at hu'
      obtain rfl := Option.some.inj hu'
      have hle := hfits line.part hpart line.period hperiod
      rw [addDemand, Function.update_self, if_pos rfl] at hle
      rwa [hvalue]
    obtain ⟨vector', hadd⟩ := exists_addAt hbound
    exact ⟨_, bind_eq_ok.mpr ⟨vector, hfind, bind_eq_ok.mpr ⟨vector', hadd, rfl⟩⟩⟩

theorem le_addDemand (g : PartId → ℕ → ℕ) (line : DemandLine) : g ≤ addDemand g line := by
  intro part t
  unfold addDemand
  by_cases hpart : part = line.part
  · subst hpart
    rw [Function.update_self]
    exact Nat.le_add_right _ _
  · rw [Function.update_of_ne hpart]

/-- **The independent demand**, where its sums are within the bound. -/
theorem independentDemand_spec (href : input.Referenced) :
    (∀ gross, input.independentDemand = .ok gross → input.Stands gross input.demandOf) ∧
      (input.Fits input.demandOf → ∃ gross, input.independentDemand = .ok gross) := by
  have hdemand : input.demand.foldl addDemand (fun _ _ => 0) = input.demandOf := by
    funext part t
    rw [foldl_addDemand, zero_add]
    rfl
  have hstart : input.Stands
      (fun part => if input.hasPart part then some (List.replicate input.periods .zero) else none)
      fun _ _ => 0 := by
    constructor
    · intro part hpart
      refine ⟨List.replicate input.periods .zero, if_pos hpart, List.length_replicate, fun t ht => ?_⟩
      rw [List.getElem?_replicate, if_pos ht]
      rfl
    · intro part hpart
      exact if_neg (by simp [hpart])
  rw [← hdemand]
  show (∀ gross, input.demand.foldlM demandStep _ = .ok gross → _) ∧
    (_ → ∃ gross, input.demand.foldlM demandStep _ = .ok gross)
  refine checked_foldlM (fun line hline gross g => ?_) (fun line _ g => ?_) hstart
  · obtain ⟨hpart, hperiod⟩ := href.demand line hline
    exact demandStep_spec hpart hperiod
  · exact Fits.mono (le_addDemand g line)

/-! ### The lines -/

/-- One line of a part whose requirements are known. -/
def lineStep (parentGross : List Units) (gross : Requirements) (line : BomLine) :
    Planning Requirements := do
  refuseWhen (1000000 - line.scrapRatePpm ≤ 0) (.invalid "BOM yield is zero")
  let childGross ← gross.find line.child
  let childGross ← explodeLine line parentGross childGross
  return Function.update gross line.child (some childGross)

theorem lineStep_spec {line : BomLine} {parentGross : List Units} (husable : Usable line)
    (hchild : input.hasPart line.child = true) (hparent : input.RowOf parentGross f)
    (hstands : input.Stands gross g) :
    (∀ gross', lineStep parentGross gross line = .ok gross' →
        input.Stands gross' (input.grossGraph.pushEdge f g line)) ∧
      (input.Fits (input.grossGraph.pushEdge f g line) →
        ∃ gross', lineStep parentGross gross line = .ok gross') := by
  obtain ⟨vector, hfind, hrow⟩ := hstands.find hchild
  have hyield : refuseWhen (1000000 - line.scrapRatePpm ≤ 0) (.invalid "BOM yield is zero") = .ok () := by
    refine if_neg ?_
    have := husable.scrap.2
    omega
  constructor
  · intro gross' hok
    obtain ⟨_, -, hok⟩ := bind_eq_ok.mp hok
    obtain ⟨vector₁, hfind', hok⟩ := bind_eq_ok.mp hok
    rw [hfind] at hfind'
    obtain rfl := Except.ok.inj hfind'
    obtain ⟨vector', hexplode, hok⟩ := bind_eq_ok.mp hok
    obtain rfl := Except.ok.inj hok
    obtain ⟨hlength, hget⟩ := explodeLine_get husable (hparent.1.trans hrow.1.symm) hexplode
    refine hstands.update hchild ⟨hlength.trans hrow.1, fun t ht => ?_⟩
    obtain ⟨p, hp, hpvalue⟩ := hparent.get ht
    obtain ⟨c, hc, hcvalue⟩ := hrow.get ht
    rw [hget t p c hp hc, hpvalue, hcvalue]
    rfl
  · intro hfits
    have hbound : ∀ (t : ℕ) (p c : Units), parentGross[t]? = some p → vector[t]? = some c →
        c.get + requirement line p.get ≤ maxUnits := by
      intro t p c hp hc
      have ht := hrow.lt hc
      obtain ⟨p', hp', hpvalue⟩ := hparent.get ht
      obtain ⟨c', hc', hcvalue⟩ := hrow.get ht
      rw [hp] at hp'
      obtain rfl := Option.some.inj hp'
      rw [hc] at hc'
      obtain rfl := Option.some.inj hc'
      have hle := hfits line.child hchild t ht
      have hself : input.grossGraph.pushEdge f g line line.child t =
          g line.child t + requirement line (f t) := by
        show Function.update g line.child _ line.child t = _
        rw [Function.update_self]
        rfl
      rw [hpvalue, hcvalue, ← hself]
      exact hle
    obtain ⟨vector', hexplode⟩ := exists_explodeLine husable hbound
    exact ⟨_, bind_eq_ok.mpr ⟨(), hyield, bind_eq_ok.mpr ⟨vector, hfind,
      bind_eq_ok.mpr ⟨vector', hexplode, rfl⟩⟩⟩⟩

theorem le_grossOp (f g : ℕ → ℕ) : f ≤ input.grossGraph.op f g := fun _ => Nat.le_add_right _ _

/-- **One part is exploded.** -/
theorem explodePart_spec (href : input.Referenced) {part : PartId} (hpart : input.hasPart part = true)
    (hstands : input.Stands gross g) :
    (∀ gross', input.explodePart gross part = .ok gross' →
        input.Stands gross' (input.grossGraph.pushNode g part)) ∧
      (input.Fits (input.grossGraph.pushNode g part) →
        ∃ gross', input.explodePart gross part = .ok gross') := by
  obtain ⟨vector, hfind, hrow⟩ := hstands.find hpart
  have hlines : (∀ gross', (input.children part).foldlM (lineStep vector) gross = .ok gross' →
        input.Stands gross' ((input.children part).foldl (input.grossGraph.pushEdge (g part)) g)) ∧
      (input.Fits ((input.children part).foldl (input.grossGraph.pushEdge (g part)) g) →
        ∃ gross', (input.children part).foldlM (lineStep vector) gross = .ok gross') := by
    refine checked_foldlM (fun line hline gross g => ?_) (fun line _ g => ?_) hstands
    · have hmem := (List.mem_filter.mp hline).1
      exact lineStep_spec ⟨href.quantity line hmem, href.scrap line hmem⟩ (href.child line hmem) hrow
    · exact Fits.mono (GraphPush.le_pushEdge le_grossOp _ g line)
  constructor
  · intro gross' hok
    obtain ⟨vector₁, hfind', hok⟩ := bind_eq_ok.mp hok
    rw [hfind] at hfind'
    obtain rfl := Except.ok.inj hfind'
    exact hlines.1 gross' hok
  · intro hfits
    obtain ⟨gross', hgross'⟩ := hlines.2 hfits
    exact ⟨gross', bind_eq_ok.mpr ⟨vector, hfind, hgross'⟩⟩

/-- **The explosion**: it stands for the solution that pushing the parts computes, and it succeeds
exactly when no chain is too long and the solution is within the bound. -/
theorem explodeRequirements_spec (href : input.Referenced) {order : List PartId}
    (horder : input.topologicalOrder = .ok order) :
    (∀ gross, input.explodeRequirements = .ok gross →
        input.Stands gross (order.foldl input.grossGraph.pushNode input.demandOf)) ∧
      ((∃ gross, input.explodeRequirements = .ok gross) ↔
        (∀ part, ¬input.Deep maxBomDepth part) ∧
          input.Fits (order.foldl input.grossGraph.pushNode input.demandOf)) := by
  obtain ⟨hperm, -⟩ := topologicalOrder_spec href horder
  obtain ⟨hdemand, hdemandFits⟩ := independentDemand_spec href
  have hparts : ∀ gross, input.Stands gross input.demandOf →
      (∀ gross', order.foldlM input.explodePart gross = .ok gross' →
          input.Stands gross' (order.foldl input.grossGraph.pushNode input.demandOf)) ∧
        (input.Fits (order.foldl input.grossGraph.pushNode input.demandOf) →
          ∃ gross', order.foldlM input.explodePart gross = .ok gross') := by
    intro gross hstands
    refine checked_foldlM (fun part hpart gross g => ?_) (fun part _ g => ?_) hstands
    · exact explodePart_spec href (hasPart_iff.mpr (hperm.mem_iff.mp hpart))
    · exact Fits.mono (GraphPush.le_pushNode le_grossOp g part)
  have hstands : ∀ gross, input.explodeRequirements = .ok gross →
      input.Stands gross (order.foldl input.grossGraph.pushNode input.demandOf) := by
    intro gross hok
    obtain ⟨_, -, hok⟩ := bind_eq_ok.mp hok
    obtain ⟨order', horder', hok⟩ := bind_eq_ok.mp hok
    rw [horder] at horder'
    obtain rfl := Except.ok.inj horder'
    obtain ⟨start, hstart, hok⟩ := bind_eq_ok.mp hok
    exact (hparts start (hdemand start hstart)).1 gross hok
  refine ⟨hstands, ?_, ?_⟩
  · rintro ⟨gross, hok⟩
    obtain ⟨depth, hdepth, -⟩ := bind_eq_ok.mp hok
    exact ⟨(bomDepths_ok_iff href horder).mp ⟨depth, hdepth⟩, (hstands gross hok).fits⟩
  · rintro ⟨hshallow, hfits⟩
    obtain ⟨depth, hdepth⟩ := (bomDepths_ok_iff href horder).mpr hshallow
    obtain ⟨start, hstart⟩ :=
      hdemandFits (hfits.mono (GraphPush.le_foldl_pushNode le_grossOp order input.demandOf))
    obtain ⟨gross, hgross⟩ := (hparts start (hdemand start hstart)).2 hfits
    exact ⟨gross, bind_eq_ok.mpr ⟨depth, hdepth, bind_eq_ok.mpr ⟨order, horder,
      bind_eq_ok.mpr ⟨start, hstart, hgross⟩⟩⟩⟩

/-- **The solution** of an acyclic bill of materials: there is one, no other one, and it is what the
explosion returns, as long as the bill is not too deep and the solution is within the bound. -/
theorem exists_gross (href : input.Referenced)
    (hacyclic : ¬∃ part, Relation.TransGen input.Uses part part) :
    ∃ g, input.GrossRequirements g ∧ (∀ g', input.GrossRequirements g' → g' = g) ∧
      (∀ gross, input.explodeRequirements = .ok gross → input.Stands gross g) ∧
      ((∃ gross, input.explodeRequirements = .ok gross) ↔
        (∀ part, ¬input.Deep maxBomDepth part) ∧ input.Fits g) := by
  rw [← topologicalOrder_error_iff href] at hacyclic
  cases horder : input.topologicalOrder with
  | error e => exact absurd ⟨e, horder⟩ hacyclic
  | ok order =>
    obtain ⟨-, htop⟩ := topologicalOrder_spec href horder
    have htop' : input.grossGraph.Topological order := ⟨htop.nodup, htop.complete, htop.earlier⟩
    have hsolves := GraphPush.solves_foldl htop'
    obtain ⟨hstands, hiff⟩ := explodeRequirements_spec href horder
    refine ⟨order.foldl input.grossGraph.pushNode input.demandOf, solves_iff.mp hsolves,
      fun g' hg' => ?_, hstands, hiff⟩
    exact GraphPush.Solves.unique htop' (solves_iff.mpr hg') hsolves

/-! ## Listings -/

/-- The same parts, lines and demands over the same horizon, listed in another order. -/
structure Relisted (input other : PlanningInput) : Prop where
  periods : other.periods = input.periods
  parts : other.parts.Perm input.parts
  bom : other.bom.Perm input.bom
  demand : other.demand.Perm input.demand

section Relisted

variable {other : PlanningInput}

section

variable (hlist : Relisted input other)
include hlist

theorem Relisted.hasPart (part : PartId) :
    other.hasPart part = input.hasPart part := by
  rw [Bool.eq_iff_iff, hasPart_iff, hasPart_iff]
  exact (hlist.parts.map _).mem_iff

theorem Relisted.referenced (href : input.Referenced) :
    other.Referenced := by
  constructor
  case nodup => exact (hlist.parts.map _).nodup_iff.mpr href.nodup
  case parent =>
    intro line hline
    rw [hlist.hasPart]
    exact href.parent line (hlist.bom.mem_iff.mp hline)
  case child =>
    intro line hline
    rw [hlist.hasPart]
    exact href.child line (hlist.bom.mem_iff.mp hline)
  case quantity => exact fun line hline => href.quantity line (hlist.bom.mem_iff.mp hline)
  case scrap => exact fun line hline => href.scrap line (hlist.bom.mem_iff.mp hline)
  case demand =>
    intro line hline
    rw [hlist.hasPart, hlist.periods]
    exact href.demand line (hlist.demand.mem_iff.mp hline)

theorem Relisted.uses : other.Uses = input.Uses := by
  funext parent child
  exact propext (exists_congr fun line => and_congr_left fun _ => hlist.bom.mem_iff)

theorem Relisted.deep (n : ℕ) (part : PartId) :
    other.Deep n part ↔ input.Deep n part := by
  induction n generalizing part with
  | zero => exact Iff.rfl
  | succ n ih =>
    exact exists_congr fun line => and_congr hlist.bom.mem_iff (and_congr_right fun _ => ih line.parent)

/-- The equation does not depend on the order of the lines. -/
theorem Relisted.grossRequirements (g : PartId → ℕ → ℕ) :
    other.GrossRequirements g ↔ input.GrossRequirements g := by
  refine forall₂_congr fun part t => ?_
  have hdemand : other.demandOf part t = input.demandOf part t :=
    ((hlist.demand.filter _).map _).sum_eq
  rw [hdemand, ((hlist.bom.filter _).map _).sum_eq]

theorem Relisted.fits (g : PartId → ℕ → ℕ) :
    other.Fits g ↔ input.Fits g := by
  unfold Fits
  simp only [hlist.hasPart, hlist.periods]

theorem Relisted.stands {gross : Requirements} {g : PartId → ℕ → ℕ} (h : other.Stands gross g) :
    input.Stands gross g := by
  constructor
  · intro part hpart
    obtain ⟨vector, hvector, hlength, hrow⟩ := h.known part ((hlist.hasPart part).trans hpart)
    rw [hlist.periods] at hlength hrow
    exact ⟨vector, hvector, hlength, hrow⟩
  · intro part hpart
    exact h.unknown part ((hlist.hasPart part).trans hpart)

/-- **The explosion does not depend on the order in which lines and parts are listed.** -/
theorem Relisted.explode (href : input.Referenced)
    (hacyclic : ¬∃ part, Relation.TransGen input.Uses part part) (gross : Requirements) :
    other.explodeRequirements = .ok gross ↔ input.explodeRequirements = .ok gross := by
  obtain ⟨g, hg, hunique, hstands, hiff⟩ := exists_gross href hacyclic
  obtain ⟨g', hg', -, hstands', hiff'⟩ := exists_gross (hlist.referenced href)
    (by rw [hlist.uses]; exact hacyclic)
  obtain rfl := hunique g' ((hlist.grossRequirements g').mp hg')
  have hboth : (∃ gross, other.explodeRequirements = .ok gross) ↔
      ∃ gross, input.explodeRequirements = .ok gross := by
    rw [hiff, hiff', hlist.fits]
    simp only [hlist.deep]
  constructor
  · intro h
    obtain ⟨gross', h'⟩ := hboth.mp ⟨gross, h⟩
    rw [h', (hlist.stands (hstands' gross h)).unique (hstands gross' h')]
  · intro h
    obtain ⟨gross', h'⟩ := hboth.mpr ⟨gross, h⟩
    rw [h', (hlist.stands (hstands' gross' h')).unique (hstands gross h)]

end

end Relisted

/-- **The explosion of the requirements.**  There is no order exactly when the relation from a parent to
its components has a cycle.  Without a cycle the equation of the gross requirements has one solution;
the explosion returns it, whatever the order in which lines and parts are listed, if no chain of lines is
as long as the bound on the depth and every requirement is within the bound on a quantity, and otherwise
it returns an error. -/
theorem explosion_guarantee (input : PlanningInput) (href : input.Referenced) :
    ((∃ e, input.topologicalOrder = .error e) ↔
      ∃ part, Relation.TransGen input.Uses part part) ∧
    ((¬∃ part, Relation.TransGen input.Uses part part) →
      (∃ g, input.GrossRequirements g ∧ (∀ g', input.GrossRequirements g' → g' = g) ∧
        (∀ gross, input.explodeRequirements = .ok gross → input.Stands gross g) ∧
        ((∃ gross, input.explodeRequirements = .ok gross) ↔
          (∀ part, ¬input.Deep maxBomDepth part) ∧ input.Fits g)) ∧
      ∀ other, Relisted input other → ∀ gross,
        other.explodeRequirements = .ok gross ↔ input.explodeRequirements = .ok gross) := by
  refine ⟨topologicalOrder_error_iff href, fun hacyclic => ⟨exists_gross href hacyclic, ?_⟩⟩
  intro other hlist gross
  exact hlist.explode href hacyclic gross

end PlanningInput

/-! ## A bill of two parts -/

/-- Two of the second part go into one of the first. -/
def pair (demand : Units) : PlanningInput :=
  { twoWeeks bracket [⟨1, 0, demand⟩] with
    parts := [bracket, { bracket with part := 2 }]
    bom := [⟨1, 2, 2000000, 0⟩] }

theorem pair_referenced (demand : Units) : (pair demand).Referenced := by
  constructor
  case nodup =>
    show [1, 2].Nodup
    decide
  case parent => simp [pair, PlanningInput.hasPart, bracket]
  case child => simp [pair, PlanningInput.hasPart, bracket]
  case quantity => simp [pair]
  case scrap => simp [pair]
  case demand => simp [pair, twoWeeks, PlanningInput.hasPart, bracket]

theorem pair_acyclic (demand : Units) :
    ¬∃ part, Relation.TransGen (pair demand).Uses part part := by
  rw [← PlanningInput.topologicalOrder_error_iff (pair_referenced demand)]
  rintro ⟨e, h⟩
  have horder : (pair demand).topologicalOrder = .ok [1, 2] := rfl
  rw [h] at horder
  cases horder

/-- Three of the first part need six of the second one. -/
theorem pair_exploded : ∃ g, (pair (someUnits 3)).GrossRequirements g ∧ g 2 0 = 6 ∧
    ∃ gross, (pair (someUnits 3)).explodeRequirements = .ok gross ∧
      (pair (someUnits 3)).Stands gross g := by
  obtain ⟨⟨g, hg, -, hstands, -⟩, -⟩ :=
    ((pair (someUnits 3)).explosion_guarantee (pair_referenced _)).2 (pair_acyclic _)
  have hfirst : (pair (someUnits 3)).demandOf 1 0 = 3 := by decide +kernel
  have hsecond : (pair (someUnits 3)).demandOf 2 0 = 0 := by decide +kernel
  have hnone : (pair (someUnits 3)).bom.filter (fun line => line.child = 1) = [] := rfl
  have hline : (pair (someUnits 3)).bom.filter (fun line => line.child = 2) =
      [⟨1, 2, 2000000, 0⟩] := rfl
  have hparent : g 1 0 = 3 := by
    rw [hg 1 0, hfirst, hnone, List.map_nil, List.sum_nil, Nat.add_zero]
  have hchild : g 2 0 = 6 := by
    rw [hg 2 0, hsecond, hline, List.map_cons, List.map_nil, List.sum_cons, List.sum_nil, hparent]
    decide +kernel
  obtain ⟨gross, hgross⟩ : ∃ gross, (pair (someUnits 3)).explodeRequirements = .ok gross :=
    exists_ok (by decide +kernel)
  exact ⟨g, hg, hchild, gross, hgross, hstands gross hgross⟩

/-- **A requirement out of bounds**: the bill is acyclic with a usable yield, and the explosion of a
demand for as many parts as a quantity can be is refused. -/
theorem pair_refused : (pair (someUnits maxUnits)).Referenced ∧
    (¬∃ part, Relation.TransGen (pair (someUnits maxUnits)).Uses part part) ∧
    ¬∃ gross, (pair (someUnits maxUnits)).explodeRequirements = .ok gross := by
  refine ⟨pair_referenced _, pair_acyclic _, ?_⟩
  rintro ⟨gross, h⟩
  have hrefused : (pair (someUnits maxUnits)).explodeRequirements.toOption.isSome = false := by
    decide +kernel
  rw [h] at hrefused
  cases hrefused

end Supply
