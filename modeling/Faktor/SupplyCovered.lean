/-
# Parts that are covered already

A part that is last bought has its bridge: the requirement of the horizon and the safety stock, less what
is on hand and what is confirmed.  The subtraction is of unsigned quantities, so that a surplus is an
error, and the error is that of the whole plan; and a bridge of nothing is still rounded up to the
minimum of an order.

* `OtherwiseValid` : everything that a plan does apart from the last order of one part succeeds;
* `coveredPart_iff` : when a part that is covered gets a last order of nothing.
-/
import Faktor.SupplyNetting

namespace Supply

open Sqlite (bind_eq_ok)

section Part

variable {input : PlanningInput} {plan : PartPlan} {confirmed gross : List Units}
  {grossTotal safety : Units} {r : PartPlanResult}

/-- Quantities that stay within the bound can be added up. -/
theorem exists_sumUnits {l : List Units} (h : total l ≤ maxUnits) : ∃ q, sumUnits l = .ok q := by
  have hfold : ∀ (l : List Units) (start : Units), start.get + total l ≤ maxUnits →
      ∃ q, l.foldlM Units.checkedAdd start = .ok q := by
    intro l
    induction l with
    | nil => exact fun start _ => ⟨start, rfl⟩
    | cons a l ih =>
      intro start hle
      rw [total_cons] at hle
      have hadd : start.checkedAdd a = .ok ⟨start.get + a.get, by omega⟩ := dif_pos (by omega)
      obtain ⟨q, hq⟩ := ih ⟨start.get + a.get, by omega⟩ (by show start.get + a.get + _ ≤ _; omega)
      refine ⟨q, ?_⟩
      rw [List.foldlM_cons, hadd]
      exact hq
  exact hfold l .zero (by show 0 + total l ≤ _; omega)

/-- What a part needs for the last order of nothing: no last order is required; or the part has just
what it needs, an order may be of nothing, and its last order day is stated and has not passed. -/
def JustCovered (input : PlanningInput) (plan : PartPlan) (gross : List Units) (safety : Units) : Prop :=
  lastTimeBuyRequired input plan = true →
    total gross + safety.get = plan.onHand.get + plan.confirmedTotal ∧
    total gross + safety.get ≤ maxUnits ∧ plan.lot.moq.get = 0 ∧
    ∃ day, plan.lastOrderDay = some day ∧ input.horizonStart ≤ day

variable {f : Findings}

/-- **The bridge of a part is of nothing** exactly when the part has just what it needs. -/
theorem bridge_zero_of_covered (hgross : grossTotal.get = total gross)
    (hconfirmed : total confirmed = plan.confirmedTotal) (hmultiple : plan.lot.multiple.get ≠ 0)
    (hcovered : total gross + safety.get ≤ plan.onHand.get + plan.confirmedTotal) :
    (∃ f', bridge input plan confirmed grossTotal (some safety) f = .ok (.known .zero, f')) ↔
      JustCovered input plan gross safety := by
  unfold JustCovered bridge
  cases hrequired : lastTimeBuyRequired input plan with
  | false =>
    constructor
    · intro _ h
      cases h
    · intro _
      exact ⟨f, rfl⟩
  | true =>
    simp only [forall_const]
    constructor
    · rintro ⟨f', h⟩
      obtain ⟨confirmedTotal, hct, h⟩ := bind_eq_ok.mp h
      obtain ⟨net, hnet, h⟩ := bind_eq_ok.mp h
      obtain ⟨need, hneed, hnet⟩ := bind_eq_ok.mp hnet
      obtain ⟨rest, hrest, hnet⟩ := bind_eq_ok.mp hnet
      have hneed := Units.checkedAdd_ok hneed
      have hrest := Units.checkedSub_ok hrest
      have hnet := Units.checkedSub_ok hnet
      have hct := sumUnits_ok hct
      have hle := need.le
      cases hday : plan.lastOrderDay with
      | none =>
        rw [hday] at h
        cases h
      | some day =>
        rw [hday] at h
        simp only at h
        by_cases hpast : day < input.horizonStart
        · rw [if_pos hpast] at h
          cases h
        · rw [if_neg hpast] at h
          cases hround : plan.lot.round net with
          | error e =>
            rw [hround] at h
            cases h
          | ok q =>
            rw [hround] at h
            obtain ⟨hq, -⟩ := Prod.mk.inj (Except.ok.inj h)
            obtain rfl := Availability.known.inj hq
            obtain ⟨-, hmoq⟩ := (LotPolicy.round_eq_zero hround).mp rfl
            exact ⟨by omega, by omega, hmoq, day, rfl, not_lt.mp hpast⟩
    · rintro ⟨hexact, hle, hmoq, day, hday, hpast⟩
      obtain ⟨confirmedTotal, hct⟩ := exists_sumUnits (l := confirmed) (by omega)
      have hctotal := sumUnits_ok hct
      have hnet : bridgeNet plan grossTotal safety confirmedTotal = .ok .zero := by
        have hneed : grossTotal.checkedAdd safety = .ok ⟨grossTotal.get + safety.get, by omega⟩ :=
          dif_pos (by omega)
        have hrest : Units.checkedSub ⟨grossTotal.get + safety.get, by omega⟩ plan.onHand =
            .ok confirmedTotal := by
          rw [Units.checkedSub, if_pos (by show plan.onHand.get ≤ grossTotal.get + safety.get; omega)]
          have hget : grossTotal.get + safety.get - plan.onHand.get = confirmedTotal.get := by omega
          show Units.new (grossTotal.get + safety.get - plan.onHand.get) = _
          rw [hget]
          exact dif_pos confirmedTotal.le
        have hnone : confirmedTotal.checkedSub confirmedTotal = .ok .zero := by
          rw [Units.checkedSub, if_pos le_rfl, Nat.sub_self]
          rfl
        exact bind_eq_ok.mpr ⟨_, hneed, bind_eq_ok.mpr ⟨_, hrest, hnone⟩⟩
      have hround : plan.lot.round .zero = .ok .zero := by
        have hmax : Units.max .zero plan.lot.moq = .zero := by
          rw [Units.max, if_pos (by rw [hmoq]; exact Nat.zero_le _)]
        rw [LotPolicy.round, hmax, Units.roundUpToMultiple, if_neg hmultiple]
        exact if_pos (Nat.zero_mod _)
      refine ⟨f, bind_eq_ok.mpr ⟨_, hct, bind_eq_ok.mpr ⟨_, hnet, ?_⟩⟩⟩
      rw [hday]
      simp only
      rw [if_neg (not_lt.mpr hpast), hround]
      rfl

variable {lead : Option ℕ}

/-- Whether the shelf life can be assessed depends neither on the orders nor on the findings. -/
theorem shelfLife_ok {orders : List PlannedOrder} {f' : Findings}
    (h : shelfLife input plan lead [] f = .ok f') (g : Findings) :
    ∃ g', shelfLife input plan lead orders g = .ok g' := by
  unfold shelfLife at h ⊢
  cases hdays : plan.shelfLifeDays with
  | none => exact ⟨g, rfl⟩
  | some days =>
    rw [hdays] at h
    cases hstats : plan.demandStats with
    | none => exact ⟨_, rfl⟩
    | some stats =>
      cases lead with
      | none => exact ⟨_, rfl⟩
      | some lead =>
        rw [hstats] at h
        obtain ⟨demand, hdemand, h⟩ := bind_eq_ok.mp h
        obtain ⟨units, hunits, -⟩ := bind_eq_ok.mp h
        by_cases hlong : orders.any (fun order => decide (units.get < order.quantity.get)) = true
        · exact ⟨_, bind_eq_ok.mpr ⟨_, hdemand, bind_eq_ok.mpr ⟨_, hunits, if_pos hlong⟩⟩⟩
        · exact ⟨_, bind_eq_ok.mpr ⟨_, hdemand, bind_eq_ok.mpr ⟨_, hunits, if_neg hlong⟩⟩⟩

/-! ## The plan of a part -/

/-- The last order of a part is of nothing. -/
def BuysNothing (r : PartPlanResult) : Prop :=
  ∃ buy, r.lastTimeBuy = some buy ∧ buy.units = .known .zero

/-- **Every step of a part that is not about its last order succeeds.** -/
structure StepsSucceed (input : PlanningInput) (plan : PartPlan) (gross : List Units) : Prop where
  confirmed : ∃ confirmed, confirmedBuckets input plan = .ok confirmed
  total : ∃ grossTotal, sumUnits gross = .ok grossTotal
  lead : ∃ lead, leadPeriods input plan ⟨[], []⟩ = .ok lead
  reorder : ∃ point, reorderPoint plan (partLead input plan) (partSafety input plan) = .ok point
  shelf : ∃ f, shelfLife input plan (partLead input plan) [] ⟨[], []⟩ = .ok f

/-- The supply of a part decides its last order. -/
theorem planPart_buys (h : planPart input plan gross = .ok r) :
    ∃ grossTotal lead f s, grossTotal.get = total gross ∧
      confirmedBuckets input plan = .ok r.confirmed ∧
      leadPeriods input plan ⟨[], []⟩ = .ok (lead, f) ∧
      supply input plan r.confirmed gross grossTotal lead.asKnown
        (safetyStock input plan lead.asKnown f).1.asKnown (safetyStock input plan lead.asKnown f).2 =
          .ok s ∧
      r.lastTimeBuy = s.lastTimeBuy := by
  obtain ⟨confirmed, hconfirmed, h⟩ := bind_eq_ok.mp h
  obtain ⟨grossTotal, hgross, h⟩ := bind_eq_ok.mp h
  obtain ⟨⟨lead, f⟩, hlead, h⟩ := bind_eq_ok.mp h
  obtain ⟨reorder, -, h⟩ := bind_eq_ok.mp h
  obtain ⟨s, hs, h⟩ := bind_eq_ok.mp h
  obtain ⟨flags, -, h⟩ := bind_eq_ok.mp h
  obtain rfl := Except.ok.inj h
  exact ⟨grossTotal, lead, f, s, sumUnits_ok hgross, hconfirmed, hlead, hs, rfl⟩

variable {safe : Option Units}

/-- A part that is terminal is supplied by its last order. -/
theorem supply_terminal
    (hterminal : terminal plan = true) :
    supply input plan confirmed gross grossTotal lead safe f =
      planTerminal input plan confirmed grossTotal lead safe f := by
  unfold supply
  rw [if_neg (by rw [hterminal]; simp), if_pos hterminal]

/-- What the last order of a terminal part is of. -/
theorem planTerminal_buys {s : Supply}
    (h : planTerminal input plan confirmed grossTotal lead safe f = .ok s) :
    ∃ units f' buy, bridge input plan confirmed grossTotal safe f = .ok (units, f') ∧
      s.lastTimeBuy = some buy ∧ buy.units = units := by
  obtain ⟨⟨units, f'⟩, hbridge, h⟩ := bind_eq_ok.mp h
  simp only at h
  refine ⟨units, f', ⟨plan.lastOrderDay, units,
    "last-time-buy bridge covers the full horizon plus safety stock"⟩, hbridge, ?_, rfl⟩
  split at h
  · obtain rfl := Except.ok.inj h
    rfl
  · split at h
    · obtain rfl := Except.ok.inj h
      rfl
    · split at h
      · obtain rfl := Except.ok.inj h
        rfl
      · obtain ⟨order, -, h⟩ := bind_eq_ok.mp h
        obtain ⟨confirmedTotal, -, h⟩ := bind_eq_ok.mp h
        obtain ⟨stock, -, h⟩ := bind_eq_ok.mp h
        obtain ⟨stock', -, h⟩ := bind_eq_ok.mp h
        obtain ⟨final, -, h⟩ := bind_eq_ok.mp h
        obtain rfl := Except.ok.inj h
        rfl

/-- **A part that is covered is planned to buy nothing** exactly when it has just what it needs. -/
theorem planPart_covered (hsteps : StepsSucceed input plan gross) (hterminal : terminal plan = true)
    (haccepted : Accepted input plan) (hsafety : partSafety input plan = some safety)
    (hcovered : total gross + safety.get ≤ plan.onHand.get + plan.confirmedTotal) :
    (∃ r, planPart input plan gross = .ok r ∧ BuysNothing r) ↔
      JustCovered input plan gross safety := by
  constructor
  · rintro ⟨r, hr, buy, hbuy, hunits⟩
    obtain ⟨grossTotal, lead, f, s, hgross, hconfirmed, hlead, hs, hlast⟩ := planPart_buys hr
    rw [partSafety_eq hlead, hsafety, supply_terminal hterminal] at hs
    obtain ⟨units, f', buy', hbridge, hbuy', hunits'⟩ := planTerminal_buys hs
    rw [hlast, hbuy'] at hbuy
    obtain rfl := Option.some.inj hbuy
    rw [hunits] at hunits'
    subst hunits'
    exact (bridge_zero_of_covered hgross ((confirmedBuckets_ok hconfirmed).2 haccepted.inside)
      haccepted.multiple hcovered).mp ⟨f', hbridge⟩
  · intro hjust
    obtain ⟨confirmed, hconfirmed⟩ := hsteps.confirmed
    obtain ⟨grossTotal, hgross⟩ := hsteps.total
    obtain ⟨⟨lead, f⟩, hlead⟩ := hsteps.lead
    obtain ⟨point, hpoint⟩ := hsteps.reorder
    obtain ⟨g, hshelf⟩ := hsteps.shelf
    have hknown : partLead input plan = lead.asKnown := by rw [partLead, hlead]
    have hsafe := partSafety_eq hlead f
    rw [hsafety] at hsafe
    rw [hknown, hsafety] at hpoint
    rw [hknown] at hshelf
    obtain ⟨f', hbridge⟩ := (bridge_zero_of_covered (f := (safetyStock input plan lead.asKnown f).2)
      (sumUnits_ok hgross) ((confirmedBuckets_ok hconfirmed).2 haccepted.inside) haccepted.multiple
      hcovered).mpr hjust
    have hsupply : supply input plan confirmed gross grossTotal lead.asKnown
        (safetyStock input plan lead.asKnown f).1.asKnown (safetyStock input plan lead.asKnown f).2 =
        .ok ⟨[], .known plan.onHand, some ⟨plan.lastOrderDay, .known .zero,
          "last-time-buy bridge covers the full horizon plus safety stock"⟩, f'⟩ := by
      rw [supply_terminal hterminal, hsafe]
      exact bind_eq_ok.mpr ⟨_, hbridge, rfl⟩
    obtain ⟨g', hg'⟩ : ∃ g', shelfLife input plan lead.asKnown [] f' = .ok g' := shelfLife_ok hshelf f'
    refine ⟨_, bind_eq_ok.mpr ⟨_, hconfirmed, bind_eq_ok.mpr ⟨_, hgross, bind_eq_ok.mpr ⟨_, hlead,
      bind_eq_ok.mpr ⟨point, ?_, bind_eq_ok.mpr ⟨_, hsupply, bind_eq_ok.mpr ⟨g', hg', rfl⟩⟩⟩⟩⟩⟩, ?_⟩
    · show reorderPoint plan lead.asKnown (safetyStock input plan lead.asKnown f).1.asKnown = _
      rw [hsafe]
      exact hpoint
    · exact ⟨_, rfl, rfl⟩

end Part

/-! ## The whole plan -/

/-- A list is planned when each of its elements is. -/
theorem exists_mapM {α β : Type} {f : α → Planning β} {l : List α} (h : ∀ a ∈ l, ∃ b, f a = .ok b) :
    ∃ l', l.mapM f = .ok l' ∧ ∀ a ∈ l, ∀ b, f a = .ok b → b ∈ l' := by
  induction l with
  | nil =>
    refine ⟨[], rfl, fun a ha => ?_⟩
    cases ha
  | cons a l ih =>
    obtain ⟨b, hb⟩ := h a List.mem_cons_self
    obtain ⟨bs, hbs, hmem⟩ := ih fun c hc => h c (List.mem_cons_of_mem a hc)
    refine ⟨b :: bs, ?_, ?_⟩
    · rw [List.mapM_cons]
      exact bind_eq_ok.mpr ⟨b, hb, bind_eq_ok.mpr ⟨bs, hbs, rfl⟩⟩
    · intro c hc d hd
      obtain rfl | hc := List.mem_cons.mp hc
      · rw [hb] at hd
        obtain rfl := Except.ok.inj hd
        exact List.mem_cons_self
      · exact List.mem_cons_of_mem b (hmem c hc d hd)

section Plans

variable {input : PlanningInput} {part : PartPlan} {gross : List Units} {safety : Units}

/-- **An input that is otherwise valid**: it passes the validation, its requirements can be exploded,
every other part can be planned, and so can this one, up to its last order. -/
structure OtherwiseValid (input : PlanningInput) (part : PartPlan) (gross : List Units) : Prop where
  mem : part ∈ input.parts
  valid : input.validate = .ok ()
  others : ∃ requirements, input.explodeRequirements = .ok requirements ∧
    requirements.find part.part = .ok gross ∧
    ∀ other ∈ input.parts, other ≠ part →
      ∃ vector r, requirements.find other.part = .ok vector ∧ planPart input other vector = .ok r
  steps : StepsSucceed input part gross

/-- The plan of a part is that of the whole plan: a plan fails when the part does. -/
theorem plan_iff_planPart (h : OtherwiseValid input part gross) (P : PartPlanResult → Prop) :
    (∃ results, plan input = .ok results ∧ ∃ r ∈ results, r.part = part.part ∧ P r) ↔
      ∃ r, planPart input part gross = .ok r ∧ P r := by
  obtain ⟨requirements, hexploded, hvector, hothers⟩ := h.others
  obtain ⟨-, -, hnodup⟩ := validate_ok h.valid
  constructor
  · rintro ⟨results, hplan, r, hr, hpart, hP⟩
    obtain ⟨_, -, hplan⟩ := bind_eq_ok.mp hplan
    obtain ⟨requirements', hexploded', hplan⟩ := bind_eq_ok.mp hplan
    rw [hexploded] at hexploded'
    obtain rfl := Except.ok.inj hexploded'
    obtain ⟨unsorted, hunsorted, hplan⟩ := bind_eq_ok.mp hplan
    obtain rfl := Except.ok.inj hplan
    rw [List.mem_insertionSort] at hr
    obtain ⟨p, hp, hresult⟩ := mapM_ok hunsorted r hr
    obtain ⟨vector, hfind, hresult⟩ := bind_eq_ok.mp hresult
    have hsame : p = part := by
      obtain ⟨_, _, _, _, _, _, -, -, -, -, -, hpart', -⟩ := planPart_ok hresult
      exact List.inj_on_of_nodup_map hnodup hp h.mem (hpart'.symm.trans hpart)
    subst hsame
    rw [hvector] at hfind
    obtain rfl := Except.ok.inj hfind
    exact ⟨r, hresult, hP⟩
  · rintro ⟨r, hr, hP⟩
    obtain ⟨unsorted, hunsorted, hmem⟩ := exists_mapM (l := input.parts)
      (f := fun p => (requirements.find p.part).bind (planPart input p)) fun p hp => by
        by_cases hsame : p = part
        · subst hsame
          exact ⟨r, bind_eq_ok.mpr ⟨gross, hvector, hr⟩⟩
        · obtain ⟨vector, r', hfind, hr'⟩ := hothers p hp hsame
          exact ⟨r', bind_eq_ok.mpr ⟨vector, hfind, hr'⟩⟩
    refine ⟨_, bind_eq_ok.mpr ⟨(), h.valid, bind_eq_ok.mpr ⟨requirements, hexploded,
      bind_eq_ok.mpr ⟨unsorted, hunsorted, rfl⟩⟩⟩, r, ?_, ?_, hP⟩
    · rw [List.mem_insertionSort]
      exact hmem part h.mem r (bind_eq_ok.mpr ⟨gross, hvector, hr⟩)
    · obtain ⟨_, _, _, _, _, _, -, -, -, -, -, hpart, -⟩ := planPart_ok hr
      exact hpart

/-- **When a part that is covered gets a last order of nothing**: in an input that is otherwise valid, a
terminal part whose stock and confirmed receipts cover its requirement and its safety stock is planned,
with a last order of nothing, exactly when it has just what it needs. -/
theorem coveredPart_iff (h : OtherwiseValid input part gross) (hterminal : terminal part = true)
    (hsafety : partSafety input part = some safety)
    (hcovered : total gross + safety.get ≤ part.onHand.get + part.confirmedTotal) :
    (∃ results, plan input = .ok results ∧ ∃ r ∈ results, r.part = part.part ∧ BuysNothing r) ↔
      JustCovered input part gross safety := by
  rw [plan_iff_planPart h]
  exact planPart_covered h.steps hterminal ((validate_ok h.valid).2.1 part h.mem) hsafety hcovered

end Plans

/-! ## A surplus -/

/-- The bracket is obsolete, and can be ordered once more. -/
def obsoleteBracket (onHand : ℕ) : PartPlan :=
  { bracket with
    onHand := someUnits onHand
    lot := ⟨.zero, someUnits 10⟩
    lifecycle := .endOfLife
    lastOrderDay := some 20010 }

/-- Forty brackets are needed; a nut is planned along with them. -/
def brackets (onHand : ℕ) : PlanningInput :=
  { twoWeeks (obsoleteBracket onHand) [⟨1, 1, someUnits 40⟩] with
    parts := [obsoleteBracket onHand, { bracket with part := 2 }] }

/-- A computation that succeeds. -/
theorem exists_ok {α : Type} {x : Planning α} (h : x.toOption.isSome = true) : ∃ a, x = .ok a := by
  cases x with
  | error e => cases h
  | ok a => exact ⟨a, rfl⟩

/-- With forty or fifty on hand, everything but the last order can be planned. -/
theorem brackets_valid {onHand : ℕ} (h : onHand = 40 ∨ onHand = 50) :
    OtherwiseValid (brackets onHand) (obsoleteBracket onHand) [.zero, someUnits 40] := by
  have hrequirements : ∃ requirements, (brackets onHand).explodeRequirements = .ok requirements ∧
      requirements.find 1 = .ok [.zero, someUnits 40] ∧ requirements.find 2 = .ok [.zero, .zero] := by
    have hfinds : (brackets onHand).explodeRequirements.toOption.any (fun requirements =>
        decide (requirements.find 1 = .ok [.zero, someUnits 40]) &&
          decide (requirements.find 2 = .ok [.zero, .zero])) = true := by
      obtain rfl | rfl := h <;> decide +kernel
    obtain ⟨requirements, hsome, hfinds⟩ := (Option.any_eq_true _ _).mp hfinds
    simp only [Bool.and_eq_true, decide_eq_true_eq] at hfinds
    cases hexploded : (brackets onHand).explodeRequirements with
    | error e =>
      rw [hexploded] at hsome
      cases hsome
    | ok requirements' =>
      rw [hexploded] at hsome
      obtain rfl := Option.some.inj hsome
      exact ⟨_, rfl, hfinds⟩
  obtain ⟨requirements, hexploded, hbracket, hnut⟩ := hrequirements
  constructor
  case mem => exact List.mem_cons_self
  case valid => obtain rfl | rfl := h <;> decide +kernel
  case others =>
    refine ⟨requirements, hexploded, hbracket, fun other hother hne => ?_⟩
    obtain rfl | hother := List.mem_cons.mp hother
    · exact absurd rfl hne
    · obtain rfl := List.mem_singleton.mp hother
      have hplanned : ∃ r, planPart (brackets onHand) { bracket with part := 2 } [.zero, .zero] = .ok r :=
        exists_ok (by obtain rfl | rfl := h <;> decide +kernel)
      obtain ⟨r, hr⟩ := hplanned
      exact ⟨_, r, hnut, hr⟩
  case steps =>
    constructor
    case confirmed => exact exists_ok (by obtain rfl | rfl := h <;> decide +kernel)
    case total => exact exists_ok (by decide +kernel)
    case lead => exact exists_ok (by obtain rfl | rfl := h <;> decide +kernel)
    case reorder => exact exists_ok (by obtain rfl | rfl := h <;> decide +kernel)
    case shelf => exact exists_ok (by obtain rfl | rfl := h <;> decide +kernel)

/-- Forty brackets are just what is needed. -/
theorem fortyBrackets_buy_nothing :
    ∃ results, plan (brackets 40) = .ok results ∧ ∃ r ∈ results, r.part = 1 ∧ BuysNothing r := by
  have hsafety : partSafety (brackets 40) (obsoleteBracket 40) = some .zero := by decide +kernel
  refine (coveredPart_iff (brackets_valid (.inl rfl)) (by decide +kernel) hsafety
    (by decide +kernel)).mpr fun _ => ?_
  exact ⟨by decide +kernel, by decide +kernel, rfl, 20010, rfl, by decide⟩

/-- **A surplus of a terminal part takes down the whole plan**: ten brackets more than what is needed,
and neither the brackets nor the nuts are planned. -/
theorem fiftyBrackets_fail :
    (OtherwiseValid (brackets 50) (obsoleteBracket 50) [.zero, someUnits 40] ∧
        terminal (obsoleteBracket 50) = true ∧
        partSafety (brackets 50) (obsoleteBracket 50) = some .zero ∧
        total [.zero, someUnits 40] + Units.zero.get ≤
          (obsoleteBracket 50).onHand.get + (obsoleteBracket 50).confirmedTotal) ∧
      plan (brackets 50) = .error (.exact .overflow) := by
  exact ⟨⟨brackets_valid (.inr rfl), by decide +kernel, by decide +kernel, by decide +kernel⟩,
    by decide +kernel⟩

end Supply
