/-
# What a plan keeps

The loop over the buckets carries the stock on hand: what was there, what came in, what was ordered and
what went out.  The other ways out of the planning of a part do not go through it.

* `LotPolicy.round_isLeast` : a rounded requirement is the least order that the policy allows;
* `Netted` : what the loop keeps, with `net_netted` for a whole horizon;
* `conserved_iff` : the projected end is the balance of the part, unless the part was not netted at all;
* `planned_keeps_safetyStock` : a planned part keeps its safety stock in every bucket, and a part that
  is last bought at the end of the horizon.
-/
import Faktor.Sqlite
import Faktor.SupplyPlan

namespace Supply

open Sqlite (bind_eq_ok map_eq_ok)

/-! ## Quantities -/

section Units

variable {a b q : Units} {n : ℕ}

theorem Units.new_ok (h : Units.new n = .ok q) : q.get = n := by
  unfold Units.new at h
  split_ifs at h
  obtain rfl := Except.ok.inj h
  rfl

theorem Units.checkedAdd_ok (h : a.checkedAdd b = .ok q) : q.get = a.get + b.get :=
  Units.new_ok h

theorem Units.checkedSub_ok (h : a.checkedSub b = .ok q) : q.get + b.get = a.get := by
  unfold Units.checkedSub at h
  split_ifs at h with hle
  have := Units.new_ok h
  omega

theorem refuseWhen_ok {p : Prop} [Decidable p] {e : PlanningError} {u : Unit}
    (h : refuseWhen p e = .ok u) : ¬ p := by
  unfold refuseWhen at h
  split_ifs at h with hp
  exact hp

/-- The whole of a list of quantities. -/
def total (l : List Units) : ℕ := (l.map (·.get)).sum

@[simp] theorem total_cons (a : Units) (l : List Units) : total (a :: l) = a.get + total l := by
  rw [total, List.map_cons, List.sum_cons]
  rfl

theorem total_replicate_zero (n : ℕ) : total (List.replicate n .zero) = 0 := by
  induction n with
  | zero => rfl
  | succ n ih =>
    rw [List.replicate_succ, total_cons, ih]
    rfl

variable {l : List Units}

theorem foldlM_checkedAdd_ok {start q : Units} (h : l.foldlM Units.checkedAdd start = .ok q) :
    q.get = start.get + total l := by
  induction l generalizing start with
  | nil =>
    obtain rfl := Except.ok.inj h
    rfl
  | cons a l ih =>
    rw [List.foldlM_cons] at h
    obtain ⟨b, hb, hrest⟩ := bind_eq_ok.mp h
    rw [ih hrest, Units.checkedAdd_ok hb, total_cons]
    omega

theorem sumUnits_ok (h : sumUnits l = .ok q) : q.get = total l := by
  rw [foldlM_checkedAdd_ok h]
  exact Nat.zero_add _

end Units

/-! ## Lots -/

/-- What the policy lets one order. -/
def LotPolicy.Allows (lot : LotPolicy) (q : ℕ) : Prop := lot.moq.get ≤ q ∧ lot.multiple.get ∣ q

theorem Units.roundUpToMultiple_isLeast {a multiple q : Units}
    (h : a.roundUpToMultiple multiple = .ok q) :
    IsLeast {n | a.get ≤ n ∧ multiple.get ∣ n} q.get := by
  unfold Units.roundUpToMultiple at h
  split_ifs at h with hzero hrest
  · obtain rfl := Except.ok.inj h
    exact ⟨⟨le_rfl, Nat.dvd_of_mod_eq_zero hrest⟩, fun n hn => hn.1⟩
  · have hq := Units.new_ok h
    set m := multiple.get with hm
    have hdiv := Nat.div_add_mod a.get m
    have hlt : a.get % m < m := Nat.mod_lt _ (Nat.pos_of_ne_zero hzero)
    have hround : q.get = m * (a.get / m + 1) := by
      rw [Nat.mul_add, Nat.mul_one]
      omega
    refine ⟨⟨by omega, hround ▸ Nat.dvd_mul_right m _⟩, ?_⟩
    rintro n ⟨hle, k, rfl⟩
    -- a smaller multiple would be at most the requirement
    rw [hround]
    refine Nat.mul_le_mul_left m ?_
    by_contra hk
    have hle' : m * k ≤ m * (a.get / m) := Nat.mul_le_mul_left m (by omega)
    have hpos : 0 < a.get % m := Nat.pos_of_ne_zero hrest
    omega

variable {lot : LotPolicy}

/-- **A rounded requirement** is the least order that the policy allows and that covers it. -/
theorem LotPolicy.round_isLeast {requirement q : Units} (h : lot.round requirement = .ok q) :
    IsLeast {n | lot.Allows n ∧ requirement.get ≤ n} q.get := by
  obtain ⟨⟨hle, hdvd⟩, hleast⟩ := Units.roundUpToMultiple_isLeast h
  have hmax : ∀ n, (requirement.max lot.moq).get ≤ n ↔ requirement.get ≤ n ∧ lot.moq.get ≤ n := by
    intro n
    unfold Units.max
    split_ifs with hcase <;> omega
  refine ⟨⟨⟨((hmax _).mp hle).2, hdvd⟩, ((hmax _).mp hle).1⟩, ?_⟩
  rintro n ⟨⟨hmoq, hdvd⟩, hreq⟩
  exact hleast ⟨(hmax n).mpr ⟨hreq, hmoq⟩, hdvd⟩

/-- Nothing is ordered exactly where nothing is required and the policy has no minimum. -/
theorem LotPolicy.round_eq_zero {requirement q : Units} (h : lot.round requirement = .ok q) :
    q.get = 0 ↔ requirement.get = 0 ∧ lot.moq.get = 0 := by
  obtain ⟨⟨⟨hmoq, -⟩, hreq⟩, hleast⟩ := LotPolicy.round_isLeast h
  constructor
  · intro hq
    omega
  · rintro ⟨hreq, hmoq⟩
    exact Nat.le_zero.mp (hleast ⟨⟨by omega, dvd_zero _⟩, by omega⟩)

/-! ## Buckets -/

variable {l l' : List Units}

theorem addAt_ok {i : ℕ} {q : Units} (h : addAt l i q = .ok l') :
    l'.length = l.length ∧ (i < l.length → total l' = total l + q.get) := by
  induction l generalizing l' i with
  | nil =>
    obtain rfl := Except.ok.inj h
    exact ⟨rfl, fun hi => absurd hi (Nat.not_lt_zero i)⟩
  | cons a l ih =>
    cases i with
    | zero =>
      obtain ⟨b, hb, rfl⟩ := map_eq_ok.mp h
      refine ⟨rfl, fun _ => ?_⟩
      rw [total_cons, total_cons, Units.checkedAdd_ok hb]
      omega
    | succ i =>
      obtain ⟨m, hm, rfl⟩ := map_eq_ok.mp h
      obtain ⟨hlength, htotal⟩ := ih hm
      refine ⟨by rw [List.length_cons, List.length_cons, hlength], fun hi => ?_⟩
      rw [total_cons, total_cons, htotal (Nat.lt_of_succ_lt_succ hi)]
      omega

/-- The whole of the confirmed supply of a part. -/
def PartPlan.confirmedTotal (plan : PartPlan) : ℕ := total (plan.confirmed.map (·.quantity))

theorem foldlM_addAt_ok {lines : List ConfirmedSupply}
    (h : lines.foldlM (fun confirmed line => addAt confirmed line.period line.quantity) l = .ok l') :
    l'.length = l.length ∧ ((∀ line ∈ lines, line.period < l.length) →
      total l' = total l + total (lines.map (·.quantity))) := by
  induction lines generalizing l with
  | nil =>
    obtain rfl := Except.ok.inj h
    exact ⟨rfl, fun _ => rfl⟩
  | cons line lines ih =>
    rw [List.foldlM_cons] at h
    obtain ⟨m, hm, hrest⟩ := bind_eq_ok.mp h
    obtain ⟨hlength, htotal⟩ := addAt_ok hm
    obtain ⟨hlength', htotal'⟩ := ih hrest
    refine ⟨hlength'.trans hlength, fun hin => ?_⟩
    have hhere := htotal (hin line List.mem_cons_self)
    have hthere := htotal' fun line' hline' => by
      rw [hlength]
      exact hin line' (List.mem_cons_of_mem _ hline')
    rw [hthere, hhere, List.map_cons, total_cons]
    omega

/-- **The buckets hold the confirmed supply.** -/
theorem confirmedBuckets_ok {input : PlanningInput} {plan : PartPlan} {confirmed : List Units}
    (h : confirmedBuckets input plan = .ok confirmed) : confirmed.length = input.periods ∧
      ((∀ line ∈ plan.confirmed, line.period < input.periods) →
        total confirmed = plan.confirmedTotal) := by
  obtain ⟨hlength, htotal⟩ := foldlM_addAt_ok h
  rw [List.length_replicate] at hlength htotal
  refine ⟨hlength, fun hin => ?_⟩
  rw [htotal hin, total_replicate_zero, Nat.zero_add]
  rfl

/-! ### The length of the requirements -/

/-- Every part has a requirement in every bucket. -/
def Requirements.Span (gross : Requirements) (periods : ℕ) : Prop :=
  ∀ part vector, gross part = some vector → vector.length = periods

variable {vector : List Units}

theorem Requirements.find_ok {gross : Requirements} {part : PartId} (h : gross.find part = .ok vector) :
    gross part = some vector := by
  unfold Requirements.find at h
  cases hpart : gross part with
  | none =>
    rw [hpart] at h
    cases h
  | some v =>
    rw [hpart] at h
    exact congrArg some (Except.ok.inj h)

variable {periods : ℕ}

theorem Requirements.Span.update {gross : Requirements} {part : PartId} (h : gross.Span periods)
    (hvector : vector.length = periods) :
    Requirements.Span (Function.update gross part (some vector)) periods := by
  intro other v hv
  by_cases hother : other = part
  · subst hother
    rw [Function.update_self] at hv
    obtain rfl := Option.some.inj hv
    exact hvector
  · rw [Function.update_of_ne hother] at hv
    exact h other v hv

/-- A fold over lines that each keep the length of the requirements. -/
theorem span_foldlM {α : Type} {f : Requirements → α → Planning Requirements}
    (hf : ∀ gross a gross', gross.Span periods → f gross a = .ok gross' → gross'.Span periods) {l : List α}
    {gross gross' : Requirements} (h : gross.Span periods) (hfold : l.foldlM f gross = .ok gross') :
    gross'.Span periods := by
  induction l generalizing gross with
  | nil =>
    obtain rfl := Except.ok.inj hfold
    exact h
  | cons a l ih =>
    rw [List.foldlM_cons] at hfold
    obtain ⟨middle, hmiddle, hrest⟩ := bind_eq_ok.mp hfold
    exact ih (hf gross a middle h hmiddle) hrest

theorem explodeLine_length {line : BomLine} {parents children children' : List Units}
    (h : explodeLine line parents children = .ok children') :
    children'.length = children.length := by
  induction parents generalizing children children' with
  | nil =>
    obtain rfl := Except.ok.inj h
    rfl
  | cons parent parents ih =>
    cases children with
    | nil =>
      obtain rfl := Except.ok.inj h
      rfl
    | cons child children =>
      rw [explodeLine] at h
      obtain ⟨c, -, h⟩ := bind_eq_ok.mp h
      obtain ⟨cs, hcs, h⟩ := bind_eq_ok.mp h
      obtain rfl := Except.ok.inj h
      rw [List.length_cons, List.length_cons, ih hcs]

theorem explodeRequirements_span {input : PlanningInput} {gross : Requirements}
    (h : input.explodeRequirements = .ok gross) : gross.Span input.periods := by
  obtain ⟨-, -, h⟩ := bind_eq_ok.mp h
  obtain ⟨order, -, h⟩ := bind_eq_ok.mp h
  obtain ⟨independent, hindependent, h⟩ := bind_eq_ok.mp h
  have hstart : independent.Span input.periods := by
    refine span_foldlM ?_ ?_ hindependent
    · intro gross line gross' hspan hline
      obtain ⟨vector, hvector, hline⟩ := bind_eq_ok.mp hline
      obtain ⟨vector', hadd, hline⟩ := bind_eq_ok.mp hline
      obtain rfl := Except.ok.inj hline
      apply hspan.update
      rw [(addAt_ok hadd).1]
      exact hspan _ _ (Requirements.find_ok hvector)
    · intro part vector hvector
      simp only at hvector
      split_ifs at hvector
      obtain rfl := Option.some.inj hvector
      exact List.length_replicate
  refine span_foldlM ?_ hstart h
  intro gross part gross' hspan hpart
  obtain ⟨parents, -, hpart⟩ := bind_eq_ok.mp hpart
  refine span_foldlM ?_ hspan hpart
  intro gross line gross' hspan hline
  obtain ⟨-, -, hline⟩ := bind_eq_ok.mp hline
  obtain ⟨children, hchildren, hline⟩ := bind_eq_ok.mp hline
  obtain ⟨children', hexplode, hline⟩ := bind_eq_ok.mp hline
  obtain rfl := Except.ok.inj hline
  apply hspan.update
  rw [explodeLine_length hexplode]
  exact hspan _ _ (Requirements.find_ok hchildren)

/-! ## The loop -/

section Loop

variable {plan : PartPlan} {lead period : ℕ} {safety : Units} {n n' : Netting}

theorem makeOrder_ok {release receipt : ℕ} {quantity shortage : Units} {reason : OrderReason}
    {expedite : Bool} {order : PlannedOrder}
    (h : makeOrder plan release receipt quantity shortage reason expedite = .ok order) :
    order.releasePeriod = release ∧ order.receiptPeriod = receipt ∧ order.quantity = quantity := by
  obtain ⟨suppliers, -, h⟩ := bind_eq_ok.mp h
  obtain rfl := Except.ok.inj h
  exact ⟨rfl, rfl, rfl⟩

/-- **What a bucket does**: nothing, or it fails to round what it lacks, or it orders the least lot that
covers it. -/
theorem netPeriod_cases {confirmed gross : Units}
    (h : netPeriod plan lead safety period confirmed gross n = .ok n') :
    (safety.get ≤ n.available + confirmed.get - gross.get ∧
        n' = { n with available := n.available + confirmed.get - gross.get }) ∨
      (∃ text, n' = { n with
          available := n.available + confirmed.get - gross.get
          findings := n.findings.reason text }) ∨
      ∃ order, n'.available = n.available + confirmed.get - gross.get + order.quantity.get ∧
        n'.orders = n.orders ++ [order] ∧ n'.findings.reasons = n.findings.reasons ∧
        order.receiptPeriod = period ∧ order.releasePeriod = period - lead ∧
        IsLeast {q : ℕ | plan.lot.Allows q ∧
          (safety.get : ℤ) ≤ n.available + confirmed.get - gross.get + q} order.quantity.get := by
  unfold netPeriod at h
  simp only at h
  by_cases hlacks : n.available + confirmed.get - gross.get < safety.get
  · rw [if_pos hlacks] at h
    obtain ⟨shortage, hshortage, h⟩ := bind_eq_ok.mp h
    have hshort := Units.new_ok hshortage
    cases hround : plan.lot.round shortage with
    | error e =>
      rw [hround] at h
      obtain rfl := Except.ok.inj h
      exact .inr (.inl ⟨_, rfl⟩)
    | ok quantity =>
      rw [hround] at h
      obtain ⟨order, horder, h⟩ := bind_eq_ok.mp h
      obtain ⟨-, -, h⟩ := bind_eq_ok.mp h
      obtain rfl := Except.ok.inj h
      obtain ⟨hrelease, hreceipt, rfl⟩ := makeOrder_ok horder
      refine .inr (.inr ⟨order, rfl, rfl, ?_, hreceipt, hrelease, ?_⟩)
      · simp only
        split_ifs <;> rfl
      · have hset : {q : ℕ | plan.lot.Allows q ∧
            (safety.get : ℤ) ≤ n.available + confirmed.get - gross.get + q} =
            {q | plan.lot.Allows q ∧ shortage.get ≤ q} := by
          ext q
          simp only [Set.mem_ofPred_eq]
          refine and_congr_right fun _ => ?_
          omega
        rw [hset]
        exact LotPolicy.round_isLeast hround
  · rw [if_neg hlacks] at h
    obtain rfl := Except.ok.inj h
    exact .inl ⟨by omega, rfl⟩

/-- What the buckets up to `t` bring and take. -/
def flow (buckets : List (Units × Units)) : ℤ :=
  (buckets.map fun b => (b.1.get : ℤ) - b.2.get).sum

/-- What is received up to `t`. -/
def received (orders : List PlannedOrder) (t : ℕ) : ℤ :=
  ((orders.filter (·.receiptPeriod ≤ t)).map fun o => (o.quantity.get : ℤ)).sum

/-- What is ordered. -/
def ordered (orders : List PlannedOrder) : ℤ := (orders.map fun o => (o.quantity.get : ℤ)).sum

/-- The stock at the end of a bucket. -/
def stock (onHand : ℤ) (buckets : List (Units × Units)) (orders : List PlannedOrder) (t : ℕ) : ℤ :=
  onHand + flow (buckets.take (t + 1)) + received orders t

theorem flow_append (l m : List (Units × Units)) : flow (l ++ m) = flow l + flow m := by
  rw [flow, List.map_append, List.sum_append]
  rfl

theorem received_append (l m : List PlannedOrder) (t : ℕ) :
    received (l ++ m) t = received l t + received m t := by
  rw [received, List.filter_append, List.map_append, List.sum_append]
  rfl

variable {orders : List PlannedOrder}

theorem received_eq_ordered {t : ℕ} (h : ∀ o ∈ orders, o.receiptPeriod ≤ t) :
    received orders t = ordered orders := by
  have hall : orders.filter (·.receiptPeriod ≤ t) = orders :=
    List.filter_eq_self.mpr fun o ho => by simpa using h o ho
  rw [received, hall, ordered]

/-- **What the loop keeps** after some buckets: the balance, and the safety stock in each of them unless
a lot could not be rounded; every order is the least that restores it. -/
structure Netted (plan : PartPlan) (lead : ℕ) (safety : Units) (done : List (Units × Units))
    (n : Netting) : Prop where
  balance : n.available = plan.onHand.get + flow done + ordered n.orders
  receipts : ∀ o ∈ n.orders, o.receiptPeriod < done.length
  safe : n.findings.reasons = [] →
    ∀ t < done.length, (safety.get : ℤ) ≤ stock plan.onHand.get done n.orders t
  least : ∀ o ∈ n.orders, o.releasePeriod = o.receiptPeriod - lead ∧
    IsLeast {q : ℕ | plan.lot.Allows q ∧ (safety.get : ℤ) ≤
      stock plan.onHand.get done n.orders o.receiptPeriod - o.quantity.get + q} o.quantity.get

/-- An earlier bucket does not see what comes later. -/
theorem stock_append {onHand : ℤ} {done : List (Units × Units)} {b : Units × Units}
    {orders later : List PlannedOrder} {t : ℕ} (ht : t < done.length)
    (hlater : ∀ o ∈ later, o.receiptPeriod = done.length) :
    stock onHand (done ++ [b]) (orders ++ later) t = stock onHand done orders t := by
  have hzero : received later t = 0 := by
    have hnone : later.filter (·.receiptPeriod ≤ t) = [] := by
      rw [List.filter_eq_nil_iff]
      intro o ho
      have := hlater o ho
      simp only [decide_eq_true_eq]
      omega
    rw [received, hnone]
    rfl
  rw [stock, stock, List.take_append_of_le_length (by omega), received_append, hzero]
  omega

variable {done : List (Units × Units)}

/-- The last bucket sees everything. -/
theorem stock_last {onHand : ℤ} {b : Units × Units} (h : ∀ o ∈ orders, o.receiptPeriod ≤ done.length) :
    stock onHand (done ++ [b]) orders done.length =
      onHand + flow done + (b.1.get - b.2.get) + ordered orders := by
  have htake : (done ++ [b]).take (done.length + 1) = done ++ [b] := by
    apply List.take_of_length_le
    rw [List.length_append, List.length_singleton]
  rw [stock, htake, flow_append, received_eq_ordered h, flow, flow, List.map_singleton,
    List.sum_singleton]
  omega

/-- **One bucket.** -/
theorem Netted.step {b : Units × Units} (h : Netted plan lead safety done n)
    (hstep : netPeriod plan lead safety done.length b.1 b.2 n = .ok n') :
    Netted plan lead safety (done ++ [b]) n' := by
  have hlength : (done ++ [b]).length = done.length + 1 := by
    rw [List.length_append, List.length_singleton]
  -- a bucket that orders nothing
  have hquiet : ∀ f : Findings, (f.reasons = [] → n.findings.reasons = [] ∧
      (safety.get : ℤ) ≤ n.available + b.1.get - b.2.get) →
      Netted plan lead safety (done ++ [b]) ⟨n.available + b.1.get - b.2.get, n.orders, f⟩ := by
    intro f hf
    have hstock : ∀ t, t < done.length →
        stock plan.onHand.get (done ++ [b]) n.orders t = stock plan.onHand.get done n.orders t := by
      intro t ht
      have := @stock_append plan.onHand.get done b n.orders [] t ht (fun o ho => by cases ho)
      rwa [List.append_nil] at this
    constructor
    · show n.available + b.1.get - b.2.get =
        plan.onHand.get + flow (done ++ [b]) + ordered n.orders
      rw [h.balance, flow_append, flow, flow, List.map_singleton, List.sum_singleton]
      omega
    · intro o ho
      have := h.receipts o ho
      omega
    · intro hreasons t ht
      obtain ⟨hbefore, hhere⟩ := hf hreasons
      rcases Nat.lt_or_ge t done.length with hlt | hge
      · show (safety.get : ℤ) ≤ stock _ _ n.orders t
        rw [hstock t hlt]
        exact h.safe hbefore t hlt
      · obtain rfl : t = done.length := by omega
        show (safety.get : ℤ) ≤ stock _ _ n.orders _
        rw [stock_last fun o ho => (h.receipts o ho).le]
        have := h.balance
        omega
    · intro o ho
      obtain ⟨hrelease, hleast⟩ := h.least o ho
      refine ⟨hrelease, ?_⟩
      show IsLeast {q : ℕ | _ ∧ _ ≤ stock _ _ n.orders _ - _ + (q : ℤ)} _
      rw [hstock _ (h.receipts o ho)]
      exact hleast
  rcases netPeriod_cases hstep with ⟨hsafe, rfl⟩ | ⟨text, rfl⟩ | ⟨order, havailable, horders,
    hreasons, hreceipt, hrelease, hleast⟩
  · exact hquiet _ fun hnone => ⟨hnone, hsafe⟩
  · refine hquiet _ fun hnone => ?_
    exact absurd hnone (List.append_ne_nil_of_right_ne_nil _ (List.cons_ne_nil _ _))
  · have hbefore : ∀ t < done.length,
        stock plan.onHand.get (done ++ [b]) n'.orders t = stock plan.onHand.get done n.orders t := by
      intro t ht
      rw [horders]
      refine stock_append ht fun o ho => ?_
      rw [List.mem_singleton.mp ho]
      exact hreceipt
    have hreceipts : ∀ o ∈ n'.orders, o.receiptPeriod ≤ done.length := by
      intro o ho
      rw [horders, List.mem_append] at ho
      rcases ho with ho | ho
      · exact (h.receipts o ho).le
      · rw [List.mem_singleton.mp ho]
        exact hreceipt.le
    have hordered : ordered n'.orders = ordered n.orders + order.quantity.get := by
      rw [horders, ordered, List.map_append, List.sum_append, List.map_singleton,
        List.sum_singleton]
      rfl
    have hlast : stock plan.onHand.get (done ++ [b]) n'.orders done.length = n'.available := by
      rw [stock_last hreceipts, hordered, havailable, h.balance]
      omega
    constructor
    · rw [havailable, h.balance, hordered, flow_append]
      simp only [flow, List.map_singleton, List.sum_singleton]
      omega
    · intro o ho
      have := hreceipts o ho
      omega
    · intro hnone t ht
      rcases Nat.lt_or_ge t done.length with hlt | hge
      · rw [hbefore t hlt]
        exact h.safe (hreasons ▸ hnone) t hlt
      · obtain rfl : t = done.length := by omega
        rw [hlast, havailable]
        exact hleast.1.2
    · intro o ho
      rw [horders, List.mem_append] at ho
      rcases ho with ho | ho
      · obtain ⟨hrel, hold⟩ := h.least o ho
        refine ⟨hrel, ?_⟩
        rw [hbefore _ (h.receipts o ho)]
        exact hold
      · obtain rfl := List.mem_singleton.mp ho
        rw [hreceipt, hlast, havailable]
        refine ⟨hrelease, ?_⟩
        rw [Int.add_sub_cancel]
        exact hleast

/-- **A whole horizon.** -/
theorem net_netted {done buckets : List (Units × Units)} (h : Netted plan lead safety done n)
    (hnet : net plan lead safety done.length buckets n = .ok n') :
    Netted plan lead safety (done ++ buckets) n' := by
  induction buckets generalizing done n with
  | nil =>
    obtain rfl := Except.ok.inj hnet
    rw [List.append_nil]
    exact h
  | cons b buckets ih =>
    rw [net] at hnet
    obtain ⟨middle, hmiddle, hrest⟩ := bind_eq_ok.mp hnet
    have hdone : (done ++ [b]).length = done.length + 1 := by
      rw [List.length_append, List.length_singleton]
    have := ih (h.step hmiddle) (hdone ▸ hrest)
    rwa [List.append_assoc] at this

theorem netted_nil (f : Findings) : Netted plan lead safety [] ⟨plan.onHand.get, [], f⟩ := by
  constructor
  · show (plan.onHand.get : ℤ) = plan.onHand.get + flow [] + ordered []
    simp [flow, ordered]
  · intro o ho
    cases ho
  · intro _ t ht
    cases ht
  · intro o ho
    cases ho

end Loop

/-! ## The result of a part -/

/-- The balance of a part at the end of the horizon. -/
def PartPlanResult.balance (r : PartPlanResult) (confirmed : ℕ) : ℤ :=
  r.onHand.get + confirmed + ordered r.plannedOrders - total r.gross

/-- **The projected end is the balance.** -/
def PartPlanResult.Conserved (r : PartPlanResult) (confirmed : ℕ) : Prop :=
  ∀ units, r.projectedEnd = .known units → (units.get : ℤ) = r.balance confirmed

/-- The projected inventory at the end of a bucket. -/
def PartPlanResult.inventory (r : PartPlanResult) (t : ℕ) : ℤ :=
  stock r.onHand.get (r.confirmed.zip r.gross) r.plannedOrders t

section Part

variable {input : PlanningInput} {plan : PartPlan} {confirmed gross : List Units}
  {r : PartPlanResult}

/-- The lead time of a part, as it is planned with. -/
def partLead (input : PlanningInput) (plan : PartPlan) : Option ℕ :=
  match leadPeriods input plan ⟨[], []⟩ with
  | .ok (lead, _) => lead.asKnown
  | .error _ => none

/-- The safety stock of a part, as it is planned with. -/
def partSafety (input : PlanningInput) (plan : PartPlan) : Option Units :=
  (safetyStock input plan (partLead input plan) ⟨[], []⟩).1.asKnown

/-- **A part that is not netted**: it is not required, or it is not ordered again because its last order
day is behind the horizon, or because a last order would be of nothing. -/
def Unnetted (input : PlanningInput) (plan : PartPlan) (gross : List Units) : Prop :=
  if terminal plan then
    lastTimeBuyRequired input plan = true → ∃ safety day, partSafety input plan = some safety ∧
      plan.lastOrderDay = some day ∧ input.horizonStart ≤ day ∧ plan.lot.moq.get = 0 ∧
      total gross + safety.get = plan.onHand.get + plan.confirmedTotal
  else total gross = 0

theorem flow_zip {confirmed gross : List Units} (h : confirmed.length = gross.length) :
    flow (confirmed.zip gross) = total confirmed - total gross := by
  induction confirmed generalizing gross with
  | nil =>
    obtain rfl := List.length_eq_zero_iff.mp h.symm
    rfl
  | cons a confirmed ih =>
    cases gross with
    | nil => cases h
    | cons b gross =>
      have := ih (Nat.succ_injective h)
      rw [List.zip_cons_cons, total_cons, total_cons]
      simp only [flow, List.map_cons, List.sum_cons] at this ⊢
      omega

variable {grossTotal : Units} {f f' : Findings} {units : Availability Units}

/-- What the bridge is, where it is known. -/
theorem bridge_known {safety : Option Units} {quantity : Units}
    (h : bridge input plan confirmed grossTotal safety f = .ok (units, f'))
    (hunits : units.asKnown = some quantity) :
    f' = f ∧ (lastTimeBuyRequired input plan = false ∧ quantity.get = 0 ∨
      lastTimeBuyRequired input plan = true ∧ ∃ s day net, safety = some s ∧
        plan.lastOrderDay = some day ∧ input.horizonStart ≤ day ∧
        net + plan.onHand.get + total confirmed = grossTotal.get + s.get ∧
        IsLeast {q | plan.lot.Allows q ∧ net ≤ q} quantity.get ∧
        (quantity.get = 0 ↔ net = 0 ∧ plan.lot.moq.get = 0)) := by
  unfold bridge at h
  cases hrequired : lastTimeBuyRequired input plan with
  | false =>
    rw [hrequired] at h
    obtain ⟨rfl, rfl⟩ := Prod.mk.inj (Except.ok.inj h)
    obtain rfl := Option.some.inj hunits
    exact ⟨rfl, .inl ⟨rfl, rfl⟩⟩
  | true =>
    rw [hrequired] at h
    cases safety with
    | none =>
      obtain ⟨rfl, rfl⟩ := Prod.mk.inj (Except.ok.inj h)
      cases hunits
    | some s =>
      obtain ⟨confirmedTotal, hconfirmed, h⟩ := bind_eq_ok.mp h
      obtain ⟨net, hnet, h⟩ := bind_eq_ok.mp h
      obtain ⟨need, hneed, hnet⟩ := bind_eq_ok.mp hnet
      obtain ⟨rest, hrest, hnet⟩ := bind_eq_ok.mp hnet
      have hneed := Units.checkedAdd_ok hneed
      have hrest := Units.checkedSub_ok hrest
      have hnet := Units.checkedSub_ok hnet
      have hconfirmed := sumUnits_ok hconfirmed
      cases hday : plan.lastOrderDay with
      | none =>
        rw [hday] at h
        obtain ⟨rfl, rfl⟩ := Prod.mk.inj (Except.ok.inj h)
        cases hunits
      | some day =>
        rw [hday] at h
        simp only at h
        by_cases hpast : day < input.horizonStart
        · rw [if_pos hpast] at h
          obtain ⟨rfl, rfl⟩ := Prod.mk.inj (Except.ok.inj h)
          cases hunits
        · rw [if_neg hpast] at h
          cases hround : plan.lot.round net with
          | error e =>
            rw [hround] at h
            obtain ⟨rfl, rfl⟩ := Prod.mk.inj (Except.ok.inj h)
            cases hunits
          | ok q =>
            rw [hround] at h
            obtain ⟨rfl, rfl⟩ := Prod.mk.inj (Except.ok.inj h)
            obtain rfl := Option.some.inj hunits
            refine ⟨rfl, .inr ⟨rfl, s, day, net.get, rfl, rfl, by omega, by omega, ?_, ?_⟩⟩
            · exact LotPolicy.round_isLeast hround
            · exact LotPolicy.round_eq_zero hround

/-- The bridge is of nothing exactly for a part that is not netted. -/
theorem bridge_zero_iff (hgross : grossTotal.get = total gross)
    (hconfirmed : total confirmed = plan.confirmedTotal) (hmultiple : plan.lot.multiple.get ≠ 0)
    (hterminal : terminal plan = true)
    (h : bridge input plan confirmed grossTotal (partSafety input plan) f = .ok (units, f')) :
    (∃ quantity, units.asKnown = some quantity ∧ quantity.get = 0) ↔ Unnetted input plan gross := by
  rw [Unnetted, if_pos hterminal]
  constructor
  · rintro ⟨quantity, hunits, hzero⟩ hrequired
    obtain ⟨-, ⟨hnot, -⟩ | ⟨-, s, day, net, hs, hday, hpast, hnet, -, hiff⟩⟩ :=
      bridge_known h hunits
    · rw [hnot] at hrequired
      cases hrequired
    · obtain ⟨hnet0, hmoq⟩ := hiff.mp hzero
      exact ⟨s, day, hs, hday, hpast, hmoq, by omega⟩
  · intro hunnetted
    unfold bridge at h
    cases hrequired : lastTimeBuyRequired input plan with
    | false =>
      rw [hrequired] at h
      obtain ⟨rfl, -⟩ := Prod.mk.inj (Except.ok.inj h)
      exact ⟨.zero, rfl, rfl⟩
    | true =>
      obtain ⟨s, day, hs, hday, hpast, hmoq, hbalance⟩ := hunnetted hrequired
      rw [hrequired, hs] at h
      obtain ⟨confirmedTotal, hct, h⟩ := bind_eq_ok.mp h
      obtain ⟨net, hnet, h⟩ := bind_eq_ok.mp h
      obtain ⟨need, hneed, hnet⟩ := bind_eq_ok.mp hnet
      obtain ⟨rest, hrest, hnet⟩ := bind_eq_ok.mp hnet
      have hneed := Units.checkedAdd_ok hneed
      have hrest := Units.checkedSub_ok hrest
      have hnet := Units.checkedSub_ok hnet
      have hct := sumUnits_ok hct
      have hzero : (net.max plan.lot.moq).get = 0 := by
        unfold Units.max
        split_ifs <;> omega
      have hround : plan.lot.round net = .ok (net.max plan.lot.moq) := by
        rw [LotPolicy.round, Units.roundUpToMultiple, if_neg hmultiple, hzero, if_pos (Nat.zero_mod _)]
      rw [hday] at h
      simp only [hround] at h
      rw [if_neg (by omega)] at h
      obtain ⟨rfl, -⟩ := Prod.mk.inj (Except.ok.inj h)
      exact ⟨_, rfl, hzero⟩

/-- A bridge that is not known is a finding. -/
theorem bridge_unknown {safety : Option Units}
    (h : bridge input plan confirmed grossTotal safety f = .ok (units, f')) (hunits : units.asKnown = none) :
    f'.reasons ≠ [] := by
  have hreason : ∀ (g : Findings) (text : String), (g.reason text).reasons ≠ [] := fun g text =>
    List.append_ne_nil_of_right_ne_nil _ (List.cons_ne_nil _ _)
  unfold bridge at h
  split at h
  · obtain ⟨confirmedTotal, -, h⟩ := bind_eq_ok.mp h
    obtain ⟨net, -, h⟩ := bind_eq_ok.mp h
    split at h
    · obtain ⟨-, rfl⟩ := Prod.mk.inj (Except.ok.inj h)
      exact hreason _ _
    · split_ifs at h
      · obtain ⟨-, rfl⟩ := Prod.mk.inj (Except.ok.inj h)
        exact hreason _ _
      · split at h
        · obtain ⟨rfl, -⟩ := Prod.mk.inj (Except.ok.inj h)
          cases hunits
        · obtain ⟨-, rfl⟩ := Prod.mk.inj (Except.ok.inj h)
          exact hreason _ _
  · obtain ⟨-, rfl⟩ := Prod.mk.inj (Except.ok.inj h)
    exact hreason _ _
  · obtain ⟨rfl, -⟩ := Prod.mk.inj (Except.ok.inj h)
    cases hunits

variable {s : Supply}

/-- **How a part is last bought**: not at all, for a reason; not at all, because the bridge is of nothing;
or by one order. -/
theorem planTerminal_cases {lead : Option ℕ} {safety : Option Units}
    (h : planTerminal input plan confirmed grossTotal lead safety f = .ok s) :
    ∃ units f', bridge input plan confirmed grossTotal safety f = .ok (units, f') ∧
      (s.orders = [] ∧ s.projectedEnd = planningIncomplete ∧ s.findings.reasons ≠ [] ∧
          (∀ quantity, units.asKnown = some quantity → quantity.get ≠ 0) ∨
        ∃ quantity, units.asKnown = some quantity ∧ s.findings = f' ∧
          (quantity.get = 0 ∧ s.orders = [] ∧ s.projectedEnd = .known plan.onHand ∨
            quantity.get ≠ 0 ∧ ∃ l order final, lead = some l ∧ s.orders = [order] ∧
              order.releasePeriod = 0 ∧ order.receiptPeriod = min l (input.periods - 1) ∧
              order.quantity = quantity ∧ s.projectedEnd = .known final ∧
              final.get + grossTotal.get = plan.onHand.get + total confirmed + quantity.get)) := by
  obtain ⟨⟨units, f'⟩, hbridge, h⟩ := bind_eq_ok.mp h
  refine ⟨units, f', hbridge, ?_⟩
  simp only at h
  cases hunits : units.asKnown with
  | none =>
    rw [hunits] at h
    obtain rfl := Except.ok.inj h
    exact .inl ⟨rfl, rfl, bridge_unknown hbridge hunits, fun q hq => by cases hq⟩
  | some quantity =>
    rw [hunits] at h
    simp only at h
    by_cases hzero : quantity.get = 0
    · rw [if_pos hzero] at h
      obtain rfl := Except.ok.inj h
      exact .inr ⟨quantity, rfl, rfl, .inl ⟨hzero, rfl, rfl⟩⟩
    · rw [if_neg hzero] at h
      cases lead with
      | none =>
        obtain rfl := Except.ok.inj h
        refine .inl ⟨rfl, rfl, ?_, ?_⟩
        · exact List.append_ne_nil_of_right_ne_nil _ (List.cons_ne_nil _ _)
        · rintro q ⟨⟩
          exact hzero
      | some l =>
        obtain ⟨order, horder, h⟩ := bind_eq_ok.mp h
        obtain ⟨confirmedTotal, hct, h⟩ := bind_eq_ok.mp h
        obtain ⟨stock, hstock, h⟩ := bind_eq_ok.mp h
        obtain ⟨stock', hstock', h⟩ := bind_eq_ok.mp h
        obtain ⟨final, hfinal, h⟩ := bind_eq_ok.mp h
        obtain rfl := Except.ok.inj h
        obtain ⟨hrelease, hreceipt, hquantity⟩ := makeOrder_ok horder
        have hct := sumUnits_ok hct
        have hstock := Units.checkedAdd_ok hstock
        have hstock' := Units.checkedAdd_ok hstock'
        have hfinal := Units.checkedSub_ok hfinal
        refine .inr ⟨quantity, rfl, rfl, .inr ⟨hzero, l, order, final, rfl, rfl, hrelease, hreceipt,
          hquantity, rfl, ?_⟩⟩
        omega

/-- What the loop leaves for a part. -/
theorem planNetting_netted {lead : ℕ} {safety : Units}
    (h : planNetting plan confirmed gross lead safety f = .ok s) :
    ∃ n, Netted plan lead safety (confirmed.zip gross) n ∧ s.orders = n.orders ∧
      (∀ units, s.projectedEnd = .known units → (units.get : ℤ) = n.available) ∧
      (s.findings.reasons = [] → n.findings.reasons = []) := by
  obtain ⟨n, hnet, h⟩ := bind_eq_ok.mp h
  have hnetted := @net_netted plan lead safety _ n [] (confirmed.zip gross) (netted_nil f) hnet
  refine ⟨n, hnetted, ?_⟩
  by_cases hneg : n.available < 0
  · rw [if_pos hneg] at h
    obtain rfl := Except.ok.inj h
    refine ⟨rfl, ?_, fun hnone => ?_⟩
    · rintro units ⟨⟩
    · exact absurd hnone (List.append_ne_nil_of_right_ne_nil _ (List.cons_ne_nil _ _))
  · rw [if_neg hneg] at h
    obtain ⟨final, hfinal, h⟩ := bind_eq_ok.mp h
    obtain rfl := Except.ok.inj h
    refine ⟨rfl, ?_, id⟩
    rintro units ⟨⟩
    have := Units.new_ok hfinal
    omega

theorem ordered_singleton (o : PlannedOrder) : ordered [o] = o.quantity.get := by
  rw [ordered, List.map_singleton, List.sum_singleton]

/-- **The balance of a part**, however it is supplied. -/
theorem supply_conserved_iff {lead : Option ℕ} (hlength : confirmed.length = gross.length)
    (hgross : grossTotal.get = total gross) (hconfirmed : total confirmed = plan.confirmedTotal)
    (hmultiple : plan.lot.multiple.get ≠ 0)
    (h : supply input plan confirmed gross grossTotal lead (partSafety input plan) f = .ok s) :
    (∀ units, s.projectedEnd = .known units →
        (units.get : ℤ) = plan.onHand.get + plan.confirmedTotal + ordered s.orders - total gross) ↔
      (Unnetted input plan gross → plan.confirmedTotal = total gross) := by
  unfold supply at h
  by_cases hidle : grossTotal.get = 0 ∧ terminal plan = false
  · -- no demand
    rw [if_pos hidle] at h
    obtain rfl := Except.ok.inj h
    have hun : Unnetted input plan gross := by
      rw [Unnetted, hidle.2, if_neg Bool.false_ne_true]
      omega
    constructor
    · intro hbalance _
      have := hbalance plan.onHand rfl
      simp only [ordered, List.map_nil, List.sum_nil] at this
      omega
    · rintro hsame units ⟨⟩
      have := hsame hun
      simp only [ordered, List.map_nil, List.sum_nil]
      omega
  · rw [if_neg hidle] at h
    by_cases hterminal : terminal plan = true
    · rw [if_pos hterminal] at h
      obtain ⟨units, f', hbridge, hcases⟩ := planTerminal_cases h
      have hiff := bridge_zero_iff hgross hconfirmed hmultiple hterminal hbridge
      rcases hcases with ⟨horders, hend, -, hnonzero⟩ | ⟨quantity, hunits, -, hcases⟩
      · refine iff_of_true ?_ fun hun => ?_
        · intro final hfinal
          rw [hend] at hfinal
          cases hfinal
        · obtain ⟨quantity, hquantity, hzero⟩ := hiff.mpr hun
          exact absurd hzero (hnonzero quantity hquantity)
      · rcases hcases with ⟨hzero, horders, hend⟩ |
          ⟨hzero, l, order, final, -, horders, -, -, hquantity, hend, hfinal⟩
        · -- a bridge of nothing
          have hun := hiff.mp ⟨quantity, hunits, hzero⟩
          rw [horders, hend]
          constructor
          · intro hbalance _
            have := hbalance plan.onHand rfl
            simp only [ordered, List.map_nil, List.sum_nil] at this
            omega
          · rintro hsame units ⟨⟩
            have := hsame hun
            simp only [ordered, List.map_nil, List.sum_nil]
            omega
        · refine iff_of_true ?_ fun hun => ?_
          · rw [hend, horders]
            rintro units ⟨⟩
            rw [ordered_singleton, hquantity]
            omega
          · obtain ⟨quantity', hquantity', hzero'⟩ := hiff.mpr hun
            rw [hunits] at hquantity'
            obtain rfl := Option.some.inj hquantity'
            exact absurd hzero' hzero
    · rw [if_neg hterminal] at h
      have hfalse : terminal plan = false := by simpa using hterminal
      have hun : ¬ Unnetted input plan gross := by
        rw [Unnetted, if_neg hterminal]
        intro hzero
        exact hidle ⟨by omega, hfalse⟩
      refine iff_of_true ?_ fun h => absurd h hun
      split at h
      · obtain ⟨n, hnetted, horders, hend, -⟩ := planNetting_netted h
        intro units hunits
        rw [hend units hunits, hnetted.balance, flow_zip hlength, horders, hconfirmed]
        omega
      · obtain rfl := Except.ok.inj h
        rintro units ⟨⟩

/-- **The safety stock of a part**, when nothing stood in the way of its plan. -/
theorem supply_safe {lead : ℕ} {safety : Units} (hlength : confirmed.length = gross.length)
    (hgross : grossTotal.get = total gross) (hspan : gross.length = input.periods)
    (hpositive : 0 < input.periods) (hidle : ¬ (grossTotal.get = 0 ∧ terminal plan = false))
    (h : supply input plan confirmed gross grossTotal (some lead) (some safety) f = .ok s)
    (hnone : s.findings.reasons = []) :
    (terminal plan = false →
      (∀ t < input.periods, (safety.get : ℤ) ≤
          stock plan.onHand.get (confirmed.zip gross) s.orders t) ∧
        ∀ o ∈ s.orders, o.releasePeriod = o.receiptPeriod - lead ∧
          IsLeast {q : ℕ | plan.lot.Allows q ∧ (safety.get : ℤ) ≤
            stock plan.onHand.get (confirmed.zip gross) s.orders o.receiptPeriod
              - o.quantity.get + q} o.quantity.get) ∧
    (lastTimeBuyRequired input plan = true →
      (safety.get : ℤ) ≤
          stock plan.onHand.get (confirmed.zip gross) s.orders (input.periods - 1) ∧
        s.orders.length ≤ 1 ∧
        ∀ o ∈ s.orders, o.releasePeriod = 0 ∧ o.receiptPeriod = min lead (input.periods - 1) ∧
          IsLeast {q : ℕ | plan.lot.Allows q ∧ (safety.get : ℤ) ≤
            stock plan.onHand.get (confirmed.zip gross) s.orders (input.periods - 1)
              - o.quantity.get + q} o.quantity.get) := by
  have hzip : (confirmed.zip gross).length = input.periods := by
    rw [List.length_zip, hlength, hspan, Nat.min_self]
  unfold supply at h
  rw [if_neg hidle] at h
  by_cases hterminal : terminal plan = true
  · rw [if_pos hterminal] at h
    refine ⟨fun hfalse => absurd hterminal (by simp [hfalse]), fun hrequired => ?_⟩
    obtain ⟨units, f', hbridge, hcases⟩ := planTerminal_cases h
    have hall : ∀ orders : List PlannedOrder, (∀ o ∈ orders, o.receiptPeriod ≤ input.periods - 1) →
        stock plan.onHand.get (confirmed.zip gross) orders (input.periods - 1) =
          plan.onHand.get + total confirmed - total gross + ordered orders := by
      intro orders hreceipts
      have htake : (confirmed.zip gross).take (input.periods - 1 + 1) = confirmed.zip gross := by
        apply List.take_of_length_le
        omega
      rw [stock, htake, flow_zip hlength, received_eq_ordered hreceipts]
      omega
    rcases hcases with ⟨-, -, hreasons, -⟩ | ⟨quantity, hunits, -, hcases⟩
    · exact absurd hnone hreasons
    · obtain ⟨-, ⟨hnot, -⟩ | ⟨-, s', day, net, hs', -, -, hnet, hleast, -⟩⟩ :=
        bridge_known hbridge hunits
      · rw [hnot] at hrequired
        cases hrequired
      · obtain rfl := Option.some.inj hs'
        rcases hcases with ⟨hzero, horders, -⟩ |
          ⟨hzero, l, order, final, hl, horders, hrelease, hreceipt, hquantity, -, hfinal⟩
        · rw [horders]
          refine ⟨?_, Nat.zero_le 1, fun o ho => by cases ho⟩
          rw [hall [] fun o ho => by cases ho]
          have := hleast.1.2
          simp only [ordered, List.map_nil, List.sum_nil]
          omega
        · obtain rfl := Option.some.inj hl
          have hstock := hall [order] fun o ho => by
            rw [List.mem_singleton.mp ho, hreceipt]
            exact Nat.min_le_right _ _
          rw [ordered_singleton, hquantity] at hstock
          rw [horders]
          refine ⟨?_, le_rfl, ?_⟩
          · rw [hstock]
            have := hleast.1.2
            omega
          · intro o ho
            obtain rfl := List.mem_singleton.mp ho
            refine ⟨hrelease, hreceipt, ?_⟩
            rw [hstock, hquantity]
            have hset : {q : ℕ | plan.lot.Allows q ∧ (safety.get : ℤ) ≤
                plan.onHand.get + total confirmed - total gross + quantity.get - quantity.get + q} =
                {q | plan.lot.Allows q ∧ net ≤ q} := by
              ext q
              simp only [Set.mem_ofPred_eq]
              refine and_congr_right fun _ => ?_
              omega
            rw [hset]
            exact hleast
  · rw [if_neg hterminal] at h
    obtain ⟨n, hnetted, horders, -, hreasons⟩ := planNetting_netted h
    refine ⟨fun _ => ?_, fun hrequired => ?_⟩
    · rw [horders]
      refine ⟨fun t ht => hnetted.safe (hreasons hnone) t (hzip ▸ ht), hnetted.least⟩
    · -- a part that is last bought is terminal
      exfalso
      apply hterminal
      unfold lastTimeBuyRequired at hrequired
      rw [terminal]
      cases hday : plan.lastOrderDay with
      | none =>
        rw [hday] at hrequired
        simpa using hrequired
      | some day => simp

/-- The findings do not decide the safety stock. -/
theorem safetyStock_fst (lead : Option ℕ) (f g : Findings) :
    (safetyStock input plan lead f).1 = (safetyStock input plan lead g).1 := by
  unfold safetyStock
  cases plan.demandStats with
  | none => cases lead <;> rfl
  | some stats =>
    cases lead with
    | none => rfl
    | some l =>
      simp only
      cases safetyStockUnits input.serviceLevelPpm stats l <;> rfl

theorem partSafety_eq {lead : Availability ℕ} (h : leadPeriods input plan ⟨[], []⟩ = .ok (lead, f))
    (g : Findings) :
    (safetyStock input plan lead.asKnown g).1.asKnown = partSafety input plan := by
  rw [partSafety, partLead, h, safetyStock_fst]

/-- A safety stock needs a lead time. -/
theorem lead_of_safety {lead : Option ℕ} {safety : Units}
    (h : (safetyStock input plan lead f).1.asKnown = some safety) : ∃ l, lead = some l := by
  cases lead with
  | some l => exact ⟨l, rfl⟩
  | none =>
    unfold safetyStock at h
    cases hstats : plan.demandStats with
    | none =>
      rw [hstats] at h
      cases h
    | some stats =>
      rw [hstats] at h
      cases h

/-- A part that is netted, or last bought, without a finding has a lead time and a safety stock. -/
theorem known_of_supply {lead : Option ℕ} {safety : Option Units}
    (h : supply input plan confirmed gross grossTotal lead safety f = .ok s)
    (hsafety : ∀ safe, safety = some safe → ∃ l, lead = some l)
    (hidle : ¬ (grossTotal.get = 0 ∧ terminal plan = false)) (hnone : s.findings.reasons = [])
    (hplanned : terminal plan = false ∨ lastTimeBuyRequired input plan = true) :
    ∃ l safe, lead = some l ∧ safety = some safe := by
  have hsome : (∃ safe, safety = some safe) → ∃ l safe, lead = some l ∧ safety = some safe := by
    rintro ⟨safe, hsafe⟩
    obtain ⟨l, hl⟩ := hsafety safe hsafe
    exact ⟨l, safe, hl, hsafe⟩
  unfold supply at h
  rw [if_neg hidle] at h
  by_cases hterminal : terminal plan = true
  · rw [if_pos hterminal] at h
    obtain ⟨units, f', hbridge, ⟨-, -, hreasons, -⟩ | ⟨quantity, hunits, -, -⟩⟩ :=
      planTerminal_cases h
    · exact absurd hnone hreasons
    · obtain ⟨-, ⟨hnot, -⟩ | ⟨-, safe, -, -, hsafe, -⟩⟩ := bridge_known hbridge hunits
      · rcases hplanned with hfalse | hrequired
        · rw [hfalse] at hterminal
          cases hterminal
        · rw [hnot] at hrequired
          cases hrequired
      · exact hsome ⟨safe, hsafe⟩
  · rw [if_neg hterminal] at h
    split at h
    · exact ⟨_, _, rfl, rfl⟩
    · obtain rfl := Except.ok.inj h
      exact absurd hnone (List.append_ne_nil_of_right_ne_nil _ (List.cons_ne_nil _ _))

/-- The parts of a planned part. -/
theorem planPart_ok (h : planPart input plan gross = .ok r) :
    ∃ grossTotal lead safety f f' s, confirmedBuckets input plan = .ok r.confirmed ∧
      grossTotal.get = total gross ∧ leadPeriods input plan ⟨[], []⟩ = .ok (lead, f) ∧
      safetyStock input plan lead.asKnown f = (safety, f') ∧
      supply input plan r.confirmed gross grossTotal lead.asKnown safety.asKnown f' = .ok s ∧
      r.part = plan.part ∧ r.gross = gross ∧ r.onHand = plan.onHand ∧
      r.leadTimePeriods = lead ∧ r.safetyStock = safety ∧ r.projectedEnd = s.projectedEnd ∧
      r.plannedOrders = s.orders ∧
      r.status = if grossTotal.get = 0 ∧ terminal plan = false then .noDemand
        else if s.findings.reasons = [] then .planned else .incomplete s.findings.reasons := by
  obtain ⟨confirmed, hconfirmed, h⟩ := bind_eq_ok.mp h
  obtain ⟨grossTotal, hgross, h⟩ := bind_eq_ok.mp h
  obtain ⟨⟨lead, f⟩, hlead, h⟩ := bind_eq_ok.mp h
  obtain ⟨reorder, -, h⟩ := bind_eq_ok.mp h
  obtain ⟨s, hs, h⟩ := bind_eq_ok.mp h
  obtain ⟨flags, -, h⟩ := bind_eq_ok.mp h
  obtain rfl := Except.ok.inj h
  exact ⟨grossTotal, lead, _, f, _, s, hconfirmed, sumUnits_ok hgross, hlead, rfl, hs, rfl, rfl, rfl,
    rfl, rfl, rfl, rfl, rfl⟩

end Part

/-! ## Whole plans -/

section Plans

variable {input : PlanningInput} {results : List PartPlanResult}

/-- What a validated record has passed. -/
structure Accepted (input : PlanningInput) (plan : PartPlan) : Prop where
  multiple : plan.lot.multiple.get ≠ 0
  inside : ∀ line ∈ plan.confirmed, line.period < input.periods

theorem forM_ok {α : Type} {f : α → Planning Unit} {l : List α} {u : PUnit}
    (h : l.forM f = .ok u) : ∀ a ∈ l, f a = .ok () := by
  induction l with
  | nil =>
    intro a ha
    cases ha
  | cons b l ih =>
    obtain ⟨_, hb, hrest⟩ := bind_eq_ok.mp h
    intro a ha
    rcases List.mem_cons.mp ha with rfl | ha
    · exact hb
    · exact ih hrest a ha

variable {seen : List PartId}

theorem validatePart_ok {plan : PartPlan} (h : input.validatePart seen plan = .ok ()) :
    plan.part ∉ seen ∧ Accepted input plan := by
  obtain ⟨_, hplan, h⟩ := bind_eq_ok.mp h
  obtain ⟨_, hseen, h⟩ := bind_eq_ok.mp h
  obtain ⟨_, -, h⟩ := bind_eq_ok.mp h
  obtain ⟨_, hinside, -⟩ := bind_eq_ok.mp h
  obtain ⟨_, -, hplan⟩ := bind_eq_ok.mp hplan
  obtain ⟨_, hlot, -⟩ := bind_eq_ok.mp hplan
  refine ⟨refuseWhen_ok hseen, refuseWhen_ok hlot, fun line hline => ?_⟩
  exact Nat.not_le.mp (refuseWhen_ok (forM_ok hinside line hline))

theorem validateParts_ok {plans : List PartPlan} (h : input.validateParts seen plans = .ok ()) :
    (∀ plan ∈ plans, plan.part ∉ seen ∧ Accepted input plan) ∧ (plans.map (·.part)).Nodup := by
  induction plans generalizing seen with
  | nil =>
    refine ⟨fun plan hplan => ?_, List.nodup_nil⟩
    cases hplan
  | cons plan plans ih =>
    obtain ⟨_, hplan, hrest⟩ := bind_eq_ok.mp h
    obtain ⟨hseen, haccepted⟩ := validatePart_ok hplan
    obtain ⟨hall, hnodup⟩ := ih hrest
    constructor
    · intro other hother
      rcases List.mem_cons.mp hother with rfl | hother
      · exact ⟨hseen, haccepted⟩
      · obtain ⟨hnot, hacc⟩ := hall other hother
        exact ⟨fun hmem => hnot (List.mem_cons_of_mem _ hmem), hacc⟩
    · rw [List.map_cons, List.nodup_cons]
      refine ⟨fun hmem => ?_, hnodup⟩
      obtain ⟨other, hother, heq⟩ := List.mem_map.mp hmem
      exact (hall other hother).1 (heq ▸ List.mem_cons_self)

theorem validate_ok (h : input.validate = .ok ()) : 0 < input.periods ∧
    (∀ plan ∈ input.parts, Accepted input plan) ∧ (input.parts.map (·.part)).Nodup := by
  obtain ⟨_, hperiods, h⟩ := bind_eq_ok.mp h
  obtain ⟨_, -, h⟩ := bind_eq_ok.mp h
  obtain ⟨_, -, h⟩ := bind_eq_ok.mp h
  obtain ⟨_, -, h⟩ := bind_eq_ok.mp h
  obtain ⟨_, -, h⟩ := bind_eq_ok.mp h
  obtain ⟨_, -, h⟩ := bind_eq_ok.mp h
  obtain ⟨_, -, h⟩ := bind_eq_ok.mp h
  obtain ⟨_, -, h⟩ := bind_eq_ok.mp h
  obtain ⟨_, hparts, -⟩ := bind_eq_ok.mp h
  obtain ⟨hall, hnodup⟩ := validateParts_ok hparts
  exact ⟨Nat.pos_of_ne_zero (refuseWhen_ok hperiods), fun plan hplan => (hall plan hplan).2, hnodup⟩

theorem mapM_ok {α β : Type} {f : α → Planning β} {l : List α} {l' : List β}
    (h : l.mapM f = .ok l') : ∀ b ∈ l', ∃ a ∈ l, f a = .ok b := by
  induction l generalizing l' with
  | nil =>
    obtain rfl := Except.ok.inj h
    intro b hb
    cases hb
  | cons a l ih =>
    rw [List.mapM_cons] at h
    obtain ⟨b, hb, h⟩ := bind_eq_ok.mp h
    obtain ⟨bs, hbs, h⟩ := bind_eq_ok.mp h
    obtain rfl := Except.ok.inj h
    intro c hc
    rcases List.mem_cons.mp hc with rfl | hc
    · exact ⟨a, List.mem_cons_self, hb⟩
    · obtain ⟨a', ha', hc⟩ := ih hbs c hc
      exact ⟨a', List.mem_cons_of_mem _ ha', hc⟩

/-- **A result of a plan** is that of the record of its part, with a requirement in every bucket. -/
theorem plan_ok (h : plan input = .ok results) : 0 < input.periods ∧
    ∀ r ∈ results, ∀ p ∈ input.parts, p.part = r.part →
      Accepted input p ∧ ∃ gross, gross.length = input.periods ∧ planPart input p gross = .ok r := by
  obtain ⟨_, hvalid, h⟩ := bind_eq_ok.mp h
  obtain ⟨gross, hgross, h⟩ := bind_eq_ok.mp h
  obtain ⟨unsorted, hunsorted, h⟩ := bind_eq_ok.mp h
  obtain rfl := Except.ok.inj h
  obtain ⟨hperiods, haccepted, hnodup⟩ := validate_ok hvalid
  refine ⟨hperiods, fun r hr p hp hpart => ⟨haccepted p hp, ?_⟩⟩
  rw [List.mem_insertionSort] at hr
  obtain ⟨p', hp', hresult⟩ := mapM_ok hunsorted r hr
  obtain ⟨vector, hvector, hresult⟩ := bind_eq_ok.mp hresult
  have hsame : p' = p := by
    obtain ⟨_, _, _, _, _, _, -, -, -, -, -, hpart', -⟩ := planPart_ok hresult
    exact List.inj_on_of_nodup_map hnodup hp' hp (hpart'.symm.trans hpart.symm)
  subst hsame
  exact ⟨vector, explodeRequirements_span hgross _ _ (Requirements.find_ok hvector), hresult⟩

/-- **The projected end of a part is its balance** exactly when the part is netted, or brings in what it
takes. -/
theorem conserved_iff (h : plan input = .ok results) :
    ∀ r ∈ results, ∀ p ∈ input.parts, p.part = r.part →
      (r.Conserved p.confirmedTotal ↔
        (Unnetted input p r.gross → p.confirmedTotal = total r.gross)) := by
  intro r hr p hp hpart
  obtain ⟨haccepted, gross, hspan, hplan⟩ := (plan_ok h).2 r hr p hp hpart
  obtain ⟨grossTotal, lead, safety, f, f', s, hconfirmed, hgross, hlead, hsafety, hsupply, -, hg,
    honHand, -, -, hend, horders, -⟩ := planPart_ok hplan
  obtain ⟨hlength, hinside⟩ := confirmedBuckets_ok hconfirmed
  have hknown : safety.asKnown = partSafety input p := by
    rw [← partSafety_eq hlead f, hsafety]
  rw [hknown] at hsupply
  rw [PartPlanResult.Conserved, hend, hg, PartPlanResult.balance, horders, hg, honHand]
  exact supply_conserved_iff (hlength.trans hspan.symm) hgross (hinside haccepted.inside)
    haccepted.multiple hsupply

/-- **A planned part keeps its safety stock**: bucket by bucket when it is netted, by the least orders
that restore it, each released a lead time earlier; and at the end of the horizon when it is last
bought, by one order, the least one that covers the horizon. -/
theorem planned_keeps_safetyStock (h : plan input = .ok results) :
    ∀ r ∈ results, r.status = .planned → ∀ p ∈ input.parts, p.part = r.part →
      (terminal p = false → ∃ lead safety, r.leadTimePeriods = .known lead ∧
        r.safetyStock = .known safety ∧
        (∀ t < input.periods, (safety.get : ℤ) ≤ r.inventory t) ∧
        ∀ o ∈ r.plannedOrders, o.releasePeriod = o.receiptPeriod - lead ∧
          IsLeast {q : ℕ | p.lot.Allows q ∧
            (safety.get : ℤ) ≤ r.inventory o.receiptPeriod - o.quantity.get + q}
            o.quantity.get) ∧
      (lastTimeBuyRequired input p = true → ∃ lead safety, r.leadTimePeriods = .known lead ∧
        r.safetyStock = .known safety ∧
        (safety.get : ℤ) ≤ r.inventory (input.periods - 1) ∧ r.plannedOrders.length ≤ 1 ∧
        ∀ o ∈ r.plannedOrders, o.releasePeriod = 0 ∧
          o.receiptPeriod = min lead (input.periods - 1) ∧
          IsLeast {q : ℕ | p.lot.Allows q ∧
            (safety.get : ℤ) ≤ r.inventory (input.periods - 1) - o.quantity.get + q}
            o.quantity.get) := by
  intro r hr hstatus p hp hpart
  obtain ⟨hpositive, hresults⟩ := plan_ok h
  obtain ⟨-, gross, hspan, hplan⟩ := hresults r hr p hp hpart
  obtain ⟨grossTotal, lead, safety, f, f', s, hconfirmed, hgross, -, hsafety, hsupply, -, hg,
    honHand, hleadTime, hsafetyStock, -, horders, hsame⟩ := planPart_ok hplan
  obtain ⟨hlength, -⟩ := confirmedBuckets_ok hconfirmed
  rw [hstatus] at hsame
  by_cases hidle : grossTotal.get = 0 ∧ terminal p = false
  · rw [if_pos hidle] at hsame
    cases hsame
  · rw [if_neg hidle] at hsame
    by_cases hnone : s.findings.reasons = []
    · -- nothing stood in the way
      have hfst : (safetyStock input p lead.asKnown f).1 = safety := congrArg Prod.fst hsafety
      have hleads : ∀ safe, safety.asKnown = some safe → ∃ l, lead.asKnown = some l := by
        intro safe hsafe
        rw [← hfst] at hsafe
        exact lead_of_safety hsafe
      have hknown : ∀ {α : Type} {x : Availability α} {a : α}, x.asKnown = some a → x = .known a := by
        intro α x a hx
        cases x with
        | known value => exact congrArg _ (Option.some.inj hx)
        | unavailable reason detail => cases hx
      have hinventory : ∀ t, r.inventory t =
          stock p.onHand.get (r.confirmed.zip gross) s.orders t := by
        intro t
        rw [PartPlanResult.inventory, honHand, hg, horders]
      simp only [hinventory, horders]
      constructor
      · intro hterminal
        obtain ⟨l, safe, hl, hs⟩ := known_of_supply hsupply hleads hidle hnone (.inl hterminal)
        rw [hl, hs] at hsupply
        refine ⟨l, safe, hleadTime.trans (hknown hl), hsafetyStock.trans (hknown hs), ?_⟩
        exact (supply_safe (hlength.trans hspan.symm) hgross hspan hpositive hidle hsupply hnone).1
          hterminal
      · intro hrequired
        obtain ⟨l, safe, hl, hs⟩ := known_of_supply hsupply hleads hidle hnone (.inr hrequired)
        rw [hl, hs] at hsupply
        refine ⟨l, safe, hleadTime.trans (hknown hl), hsafetyStock.trans (hknown hs), ?_⟩
        exact (supply_safe (hlength.trans hspan.symm) hgross hspan hpositive hidle hsupply hnone).2
          hrequired
    · rw [if_neg hnone] at hsame
      cases hsame

end Plans

/-! ## Three parts -/

def someUnits (n : ℕ) : Units := ⟨min n maxUnits, Nat.min_le_right _ _⟩

/-- A part with five on hand and a lead time of a bucket. -/
def bracket : PartPlan where
  part := 1
  onHand := someUnits 5
  confirmed := []
  leadTimeDays := some ⟨0, 7, 7, 8, 30⟩
  lot := ⟨someUnits 1, someUnits 10⟩
  shelfLifeDays := none
  lifecycle := .active
  lastOrderDay := none
  unitCost := none
  demandStats := some ⟨100000000, 20000000⟩
  suppliers := [⟨1, 1000000⟩]

/-- Two weeks of planning for it, at the service level that needs no safety stock. -/
def twoWeeks (part : PartPlan) (demand : List DemandLine) : PlanningInput where
  currency := "USD"
  periods := 2
  daysPerPeriod := 7
  periodsPerYear := 52
  horizonStart := 20000
  serviceLevelPpm := 500000
  leadTimeQuantile := .p90
  parts := [part]
  bom := []
  demand := demand

/-- What a plan for it says. -/
def bracketResult (gross confirmed : List Units) (units : Units) (orders : List PlannedOrder)
    (buy : Option LastTimeBuy) (status : PlanningStatus) : PartPlanResult where
  part := 1
  gross := gross
  confirmed := confirmed
  onHand := someUnits 5
  leadTimePeriods := .known 1
  safetyStock := .known .zero
  reorderPoint := .known (someUnits 100)
  projectedEnd := .known units
  plannedOrders := orders
  lastTimeBuy := buy
  status := status
  flags := []

/-- An order of forty. -/
def fortyOrdered (shortage excess : Units) (reason : OrderReason) : PlannedOrder where
  part := 1
  releasePeriod := 0
  receiptPeriod := 1
  quantity := someUnits 40
  shortageUnits := shortage
  excessUnits := excess
  expedite := false
  reason := reason
  suppliers := [(1, someUnits 40)]

/-- The part is netted: forty are ordered for the demand of the second week. -/
def bracketNetted : PartPlanResult :=
  bracketResult [.zero, someUnits 40] [.zero, .zero] (someUnits 5)
    [fortyOrdered (someUnits 35) (someUnits 5) .netRequirement] none .planned

theorem bracketNetted_conserved :
    plan (twoWeeks bracket [⟨1, 1, someUnits 40⟩]) = .ok [bracketNetted] ∧
      bracketNetted.projectedEnd = .known (someUnits 5) ∧
      bracketNetted.Conserved bracket.confirmedTotal := by
  have hplan : plan (twoWeeks bracket [⟨1, 1, someUnits 40⟩]) = .ok [bracketNetted] := by
    decide +kernel
  refine ⟨hplan, rfl, ?_⟩
  refine (conserved_iff hplan bracketNetted (List.mem_singleton_self _) bracket
    (List.mem_singleton_self _) rfl).mpr fun hun => ?_
  rw [Unnetted, if_neg (by decide)] at hun
  exact absurd hun (by decide)

theorem bracketNetted_keeps_safetyStock :
    plan (twoWeeks bracket [⟨1, 1, someUnits 40⟩]) = .ok [bracketNetted] ∧
      bracketNetted.status = .planned ∧ ∀ t < 2, 0 ≤ bracketNetted.inventory t := by
  have hplan : plan (twoWeeks bracket [⟨1, 1, someUnits 40⟩]) = .ok [bracketNetted] := by
    decide +kernel
  obtain ⟨lead, safety, -, hsafety, hsafe, -⟩ := (planned_keeps_safetyStock hplan bracketNetted
    (List.mem_singleton_self _) rfl bracket (List.mem_singleton_self _) rfl).1 rfl
  obtain rfl : Units.zero = safety := Availability.known.inj hsafety
  exact ⟨hplan, rfl, hsafe⟩

/-- The part is not required, and four of it are on their way. -/
def bracketIdle : PartPlanResult :=
  bracketResult [.zero, .zero] [.zero, someUnits 4] (someUnits 5) [] none .noDemand

/-- The part is not ordered again: its last order day lies behind the horizon. -/
def bracketStranded : PartPlanResult :=
  bracketResult [someUnits 40, .zero] [.zero, .zero] (someUnits 5) []
    (some ⟨some 30000, .known .zero, "last-time-buy bridge covers the full horizon plus safety stock"⟩)
    .planned

/-- **The projected end is the stock on hand**, whatever the part brings in and takes. -/
theorem bracketIdle_not_conserved :
    (plan (twoWeeks { bracket with confirmed := [⟨1, someUnits 4⟩] } []) = .ok [bracketIdle] ∧
        bracketIdle.balance 4 = 9 ∧ ¬ bracketIdle.Conserved 4) ∧
      plan (twoWeeks { bracket with lastOrderDay := some 30000 } [⟨1, 0, someUnits 40⟩]) =
          .ok [bracketStranded] ∧
        bracketStranded.balance 0 = -35 ∧ ¬ bracketStranded.Conserved 0 := by
  refine ⟨⟨by decide +kernel, by decide, fun h => ?_⟩, by decide +kernel, by decide, fun h => ?_⟩
  · exact absurd (h (someUnits 5) rfl) (by decide)
  · exact absurd (h (someUnits 5) rfl) (by decide)

/-- The part is last bought, for a demand that comes before it can be received. -/
def bracketLastBought : PartPlanResult :=
  bracketResult [someUnits 40, .zero] [.zero, .zero] (someUnits 5)
    [fortyOrdered (someUnits 40) .zero .lastTimeBuy]
    (some ⟨some 20010, .known (someUnits 40),
      "last-time-buy bridge covers the full horizon plus safety stock"⟩) .planned

/-- **A planned part without its safety stock**, in the bucket before its last order is received. -/
theorem bracketLastBought_short :
    plan (twoWeeks { bracket with lifecycle := .endOfLife, lastOrderDay := some 20010 }
        [⟨1, 0, someUnits 40⟩]) = .ok [bracketLastBought] ∧
      bracketLastBought.status = .planned ∧ bracketLastBought.safetyStock = .known .zero ∧
      bracketLastBought.inventory 0 = -35 ∧ bracketLastBought.inventory 1 = 5 := by
  exact ⟨by decide +kernel, rfl, rfl, by decide, by decide⟩

end Supply
