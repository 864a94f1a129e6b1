/-
# Rounding of payments

Proration, conversion and taxes round one quotient half away from zero.  What they return is nearest to
the exact value, and the roundings agree where amounts are split or taken apart again.

* `roundDiv_nearest` : the rounding returns the nearest integer;
* `prorate`, `convert`, `exclusiveTax`, `inclusiveTax` : the functions of the source;
* `money_rounding` : what they return, and how the parts of an amount add up.
-/
import Faktor.BillingIssue
import Faktor.ExactRounding

namespace PaymentMoney

open Billing (roundDiv)
open Payments (maxMoneyMinor validAmount)
open ExactRounding (NearestAway i128 i128_eq nearestAway_of_divMod)

/-! ## The rounding -/

/-- `round_div` of a positive denominator, each of its operations checked. -/
def roundDivSteps (numerator denominator : ℤ) : Option ℤ := do
  let absolute ← i128 |numerator|
  let shifted ← i128 (absolute + denominator / 2)
  i128 ((if numerator < 0 then -1 else 1) * (shifted / denominator))

/-- The half that is added carries exactly where the remainder is a half or more. -/
theorem add_half_div (n : ℤ) {d : ℤ} (hd : 0 < d) :
    (n + d / 2) / d = if d ≤ n % d * 2 then n / d + 1 else n / d := by
  have hdiv := Int.mul_ediv_add_emod n d
  have hr := Int.emod_nonneg n hd.ne'
  have hlt := Int.emod_lt_of_pos n hd
  have hsplit : n + d / 2 = n % d + d / 2 + d * (n / d) := by omega
  rw [hsplit, Int.add_mul_ediv_left _ _ hd.ne']
  split_ifs with hhalf
  · have hone : (n % d + d / 2) / d = 1 := by
      rw [Int.ediv_eq_iff_of_pos hd]
      omega
    omega
  · rw [Int.ediv_eq_zero_of_lt (by omega) (by omega), zero_add]

theorem roundDiv_neg (n : ℤ) {d : ℤ} (hd : 0 < d) : roundDiv (-n) d = -roundDiv n d := by
  unfold roundDiv
  rw [abs_neg]
  obtain hn | rfl | hn := lt_trichotomy n 0
  · rw [if_neg (by omega), if_pos hn]
    ring
  · have hzero : d / 2 / d = 0 := Int.ediv_eq_zero_of_lt (by omega) (by omega)
    simp [hzero]
  · rw [if_pos (by omega), if_neg (by omega)]
    ring

/-- **The rounding returns the nearest integer, ties away from zero**, over even and odd denominators. -/
theorem roundDiv_nearest (n : ℤ) {d : ℤ} (hd : 0 < d) : NearestAway n d (roundDiv n d) := by
  have hnonneg : ∀ a : ℤ, 0 ≤ a → NearestAway a d (roundDiv a d) := by
    intro a ha
    rw [roundDiv, if_neg (by omega), one_mul, abs_of_nonneg ha, add_half_div a hd]
    exact nearestAway_of_divMod (Int.mul_ediv_add_emod a d).symm (Int.emod_nonneg a hd.ne')
      (Int.emod_lt_of_pos a hd) (Int.ediv_nonneg ha hd.le)
  obtain hn | hn := le_total 0 n
  · exact hnonneg n hn
  · have h := (hnonneg (-n) (by omega)).neg_left
    rwa [roundDiv_neg n hd, neg_neg, neg_neg] at h

theorem roundDiv_mono {n n' d : ℤ} (hn : 0 ≤ n) (hle : n ≤ n') (hd : 0 < d) :
    roundDiv n d ≤ roundDiv n' d := by
  unfold roundDiv
  rw [if_neg (by omega), if_neg (by omega), one_mul, one_mul, abs_of_nonneg hn,
    abs_of_nonneg (hn.trans hle)]
  exact Int.ediv_le_ediv hd (by omega)

/-- A multiple of the denominator is divided exactly. -/
theorem roundDiv_mul (a : ℤ) {d : ℤ} (hd : 0 < d) : roundDiv (a * d) d = a := by
  refine (roundDiv_nearest (a * d) hd).eq_of_lt ?_
  rw [mul_comm a d, sub_self, abs_zero, mul_zero]
  exact abs_pos.mpr hd.ne'

theorem roundDivSteps_eq {n d : ℤ} (hn : |n| ≤ 2 ^ 126) (hd : 0 < d) (hd' : d ≤ 2 ^ 63) :
    roundDivSteps n d = some (roundDiv n d) := by
  have habs := abs_nonneg n
  have hshift : |(|n| + d / 2)| < 2 ^ 127 := by
    rw [abs_of_nonneg (by omega)]
    omega
  have hquotient : (|n| + d / 2) / d ≤ |n| + d / 2 := Int.ediv_le_self _ (by omega)
  have hpos : 0 ≤ (|n| + d / 2) / d := Int.ediv_nonneg (by omega) hd.le
  unfold roundDivSteps
  rw [i128_eq (by rw [abs_abs]; omega)]
  show (i128 (|n| + d / 2)).bind _ = _
  rw [i128_eq hshift]
  show i128 _ = _
  rw [abs_of_nonneg (by omega)] at hshift
  refine i128_eq ?_
  split_ifs
  · rw [neg_one_mul, abs_neg, abs_of_nonneg hpos]
    omega
  · rw [one_mul, abs_of_nonneg hpos]
    omega

/-! ## The functions of the source -/

inductive PaymentError
  | config (text : String)
  | malformed (text : String)
  deriving DecidableEq, Repr

/-- `i64::try_from`. -/
def i64 (text : String) (v : ℤ) : Except PaymentError ℤ :=
  if -2 ^ 63 ≤ v ∧ v < 2 ^ 63 then .ok v else .error (.config text)

def bounded (text : String) (v : ℤ) : Except PaymentError ℤ :=
  if validAmount v then .ok v else .error (.config text)

def prorate (amount remaining period : ℤ) : Except PaymentError ℤ :=
  if remaining < 0 ∨ period ≤ 0 then
    .error (.malformed "proration requires remaining_ms >= 0 and period_ms > 0")
  else do
    let value ← i64 "proration result leaves the i64 money domain"
      (roundDiv (amount * min remaining period) period)
    bounded "proration result exceeds the bounded amount domain" value

def convert (amount rateBps : ℤ) : Except PaymentError ℤ :=
  if rateBps ≤ 0 then .error (.config "FX rate must be a positive basis-point value")
  else do
    let value ← i64 "FX conversion leaves the i64 domain" (roundDiv (amount * rateBps) 10000)
    bounded "FX conversion exceeds the bounded amount domain" value

def taxRange (rateBps : ℤ) : Except PaymentError Unit :=
  if 0 ≤ rateBps ∧ rateBps ≤ 10000 then .ok () else .error (.config "tax rate must be 0..=10000 basis points")

def exclusiveTax (base rateBps : ℤ) : Except PaymentError ℤ := do
  taxRange rateBps
  i64 "tax amount leaves the i64 domain" (Billing.exclusiveTax base rateBps)

def inclusiveTax (base rateBps : ℤ) : Except PaymentError ℤ := do
  taxRange rateBps
  i64 "tax amount leaves the i64 domain" (Billing.inclusiveTax base rateBps)

theorem bind_i64_bounded {text text' : String} {v : ℤ} (h : |v| ≤ maxMoneyMinor) :
    (i64 text v).bind (bounded text') = .ok v := by
  rw [abs_le, maxMoneyMinor] at h
  rw [i64, if_pos (by omega)]
  show bounded text' v = .ok v
  rw [bounded, if_pos]
  rw [validAmount, Bool.and_eq_true, maxMoneyMinor]
  exact ⟨decide_eq_true h.1, decide_eq_true h.2⟩

theorem i64_ok {text : String} {v v' : ℤ} (h : i64 text v = .ok v') : v' = v := by
  unfold i64 at h
  split_ifs at h
  exact (Except.ok.inj h).symm

theorem bind_i64_ok {text : String} {f : ℤ → Except PaymentError ℤ} {v v' : ℤ}
    (hf : ∀ a b, f a = .ok b → b = a) (h : (i64 text v).bind f = .ok v') : v' = v := by
  cases hv : i64 text v with
  | error e =>
    rw [hv] at h
    cases h
  | ok w =>
    rw [hv] at h
    rw [hf w v' h, i64_ok hv]

theorem bounded_ok {text : String} {v v' : ℤ} (h : bounded text v = .ok v') : v' = v := by
  unfold bounded at h
  split_ifs at h
  exact (Except.ok.inj h).symm

theorem taxRange_bind_ok {rateBps v : ℤ} {x : Except PaymentError ℤ}
    (h : (taxRange rateBps).bind (fun _ => x) = .ok v) : (0 ≤ rateBps ∧ rateBps ≤ 10000) ∧ x = .ok v := by
  unfold taxRange at h
  split_ifs at h with hrange
  · exact ⟨hrange, h⟩
  · cases h

/-! ## Parts of an amount -/

/-- The part of an amount is not larger than the amount. -/
theorem abs_roundDiv_le {a x p : ℤ} (hx : 0 ≤ x) (hxp : x ≤ p) (hp : 0 < p) :
    |roundDiv (a * x) p| ≤ |a| := by
  have hpart : ∀ b : ℤ, 0 ≤ b → |roundDiv (b * x) p| ≤ b := by
    intro b hb
    have hlow := roundDiv_mono (n := 0) le_rfl (mul_nonneg hb hx) hp
    have hhigh := roundDiv_mono (mul_nonneg hb hx) (mul_le_mul_of_nonneg_left hxp hb) hp
    rw [roundDiv_mul b hp] at hhigh
    rw [← zero_mul p, roundDiv_mul 0 hp] at hlow
    rwa [abs_of_nonneg hlow]
  obtain ha | ha := le_total 0 a
  · rw [abs_of_nonneg ha]
    exact hpart a ha
  · have h := hpart (-a) (by omega)
    rwa [neg_mul, roundDiv_neg _ hp, abs_neg, ← abs_of_nonpos ha] at h

theorem prorate_ok {a x p : ℤ} (ha : |a| ≤ maxMoneyMinor) (hx : 0 ≤ x) (hp : 0 < p) :
    prorate a x p = .ok (roundDiv (a * min x p) p) := by
  rw [prorate, if_neg (by omega)]
  exact bind_i64_bounded ((abs_roundDiv_le (le_min hx hp.le) (min_le_right x p) hp).trans ha)

/-- **The parts of a split differ from the whole by at most one.** -/
theorem roundDiv_split (a x y : ℤ) {p : ℤ} (hp : 0 < p) :
    |roundDiv (a * x) p + roundDiv (a * y) p - roundDiv (a * (x + y)) p| ≤ 1 := by
  have hx := (roundDiv_nearest (a * x) hp).near
  have hy := (roundDiv_nearest (a * y) hp).near
  have hxy := (roundDiv_nearest (a * (x + y)) hp).near
  rw [abs_of_pos hp] at hx hy hxy
  set r := roundDiv (a * x) p + roundDiv (a * y) p - roundDiv (a * (x + y)) p with hr
  have heq : p * r = (a * (x + y) - p * roundDiv (a * (x + y)) p) - (a * x - p * roundDiv (a * x) p) -
      (a * y - p * roundDiv (a * y) p) := by
    rw [hr]
    ring
  have hthree : 2 * |p * r| ≤ 3 * p := by
    have h₁ := abs_sub (a * (x + y) - p * roundDiv (a * (x + y)) p - (a * x - p * roundDiv (a * x) p))
      (a * y - p * roundDiv (a * y) p)
    have h₂ := abs_sub (a * (x + y) - p * roundDiv (a * (x + y)) p) (a * x - p * roundDiv (a * x) p)
    rw [heq]
    omega
  rw [abs_mul, abs_of_pos hp] at hthree
  by_contra hlarge
  have htwo : p * 2 ≤ p * |r| := mul_le_mul_of_nonneg_left (by omega) hp.le
  omega

/-- **The tax taken out again is the tax that was added**: what the sum adds to the error is less than a
half. -/
theorem inclusive_of_exclusive (base : ℤ) {rate : ℤ} (hrate : 0 ≤ rate) :
    Billing.inclusiveTax (base + Billing.exclusiveTax base rate) rate =
      Billing.exclusiveTax base rate := by
  obtain rfl | hpos := hrate.eq_or_lt
  · simp [Billing.inclusiveTax, Billing.exclusiveTax, roundDiv]
  · have hnear := (roundDiv_nearest (base * rate) (d := 10000) (by decide)).near
    rw [abs_of_pos (show (0 : ℤ) < 10000 by decide)] at hnear
    refine (roundDiv_nearest _ (by omega)).eq_of_lt ?_
    unfold Billing.exclusiveTax
    set t := roundDiv (base * rate) 10000
    have heq : (base + t) * rate - (10000 + rate) * t = base * rate - 10000 * t := by ring
    rw [heq, abs_of_pos (a := 10000 + rate) (by omega)]
    omega

/-- **The rounding of payments.**  For 64-bit operands and a positive denominator the quotient is
rounded to the nearest integer, ties away from zero, without an overflow, and this is what proration,
conversion and the taxes return.  Within the bound on money proration is odd in the amount, exact at
nothing and at the full period, monotone in what remains, and the parts of a split period differ from the
whole by at most one; and the tax extracted from a base with its tax is that tax. -/
theorem money_rounding :
    (∀ amount factor denominator : ℤ, |amount| ≤ 2 ^ 63 → |factor| ≤ 2 ^ 63 → 0 < denominator →
      denominator ≤ 2 ^ 63 →
      i128 (amount * factor) = some (amount * factor) ∧
        roundDivSteps (amount * factor) denominator = some (roundDiv (amount * factor) denominator) ∧
        NearestAway (amount * factor) denominator (roundDiv (amount * factor) denominator)) ∧
    (∀ amount remaining period v, prorate amount remaining period = .ok v →
      NearestAway (amount * min remaining period) period v) ∧
    (∀ amount rate v, convert amount rate = .ok v → NearestAway (amount * rate) 10000 v) ∧
    (∀ base rate v, exclusiveTax base rate = .ok v → NearestAway (base * rate) 10000 v) ∧
    (∀ base rate v, inclusiveTax base rate = .ok v → NearestAway (base * rate) (10000 + rate) v) ∧
    (∀ amount period : ℤ, |amount| ≤ maxMoneyMinor → 0 < period → ∃ part : ℤ → ℤ,
      (∀ remaining, 0 ≤ remaining → prorate amount remaining period = .ok (part remaining) ∧
        prorate (-amount) remaining period = .ok (-part remaining)) ∧
      part 0 = 0 ∧ part period = amount ∧
      (0 ≤ amount → ∀ x y, 0 ≤ x → x ≤ y → part x ≤ part y) ∧
      ∀ x y, 0 ≤ x → 0 ≤ y → x + y ≤ period → |part x + part y - part (x + y)| ≤ 1) ∧
    ∀ base rate tax : ℤ, exclusiveTax base rate = .ok tax →
      inclusiveTax (base + tax) rate = .ok tax := by
  refine ⟨fun amount factor denominator ha hf hd hd' => ?_, fun amount remaining period v h => ?_,
    fun amount rate v h => ?_, fun base rate v h => ?_, fun base rate v h => ?_,
    fun amount period ha hp => ?_, fun base rate tax h => ?_⟩
  · have hproduct : |amount * factor| ≤ 2 ^ 126 := by
      rw [abs_mul]
      calc |amount| * |factor| ≤ 2 ^ 63 * 2 ^ 63 := mul_le_mul ha hf (abs_nonneg _) (by norm_num)
        _ = 2 ^ 126 := by norm_num
    exact ⟨i128_eq (by omega), roundDivSteps_eq hproduct hd hd', roundDiv_nearest _ hd⟩
  · unfold prorate at h
    split_ifs at h with hrange
    rw [bind_i64_ok (fun _ _ => bounded_ok) h]
    exact roundDiv_nearest _ (by omega)
  · unfold convert at h
    split_ifs at h
    rw [bind_i64_ok (fun _ _ => bounded_ok) h]
    exact roundDiv_nearest _ (by decide)
  · obtain ⟨-, h⟩ := taxRange_bind_ok h
    rw [i64_ok h]
    exact roundDiv_nearest _ (by decide)
  · obtain ⟨hrange, h⟩ := taxRange_bind_ok h
    rw [i64_ok h]
    exact roundDiv_nearest _ (by omega)
  · refine ⟨fun x => roundDiv (amount * min x period) period, fun x hx => ⟨prorate_ok ha hx hp, ?_⟩,
      ?_, ?_, fun hamount x y hx hxy => ?_, fun x y hx hy hxy => ?_⟩
    · rw [prorate_ok (by rwa [abs_neg]) hx hp, neg_mul, roundDiv_neg _ hp]
    · simp only
      rw [min_eq_left hp.le, mul_zero]
      have hzero := roundDiv_mul 0 hp
      rwa [zero_mul] at hzero
    · simp only
      rw [min_self, roundDiv_mul amount hp]
    · exact roundDiv_mono (mul_nonneg hamount (le_min hx hp.le))
        (mul_le_mul_of_nonneg_left (min_le_min_right period hxy) hamount) hp
    · simp only
      rw [min_eq_left (by omega : x ≤ period), min_eq_left (by omega : y ≤ period), min_eq_left hxy]
      exact roundDiv_split amount x y hp
  · obtain ⟨hrange, h⟩ := taxRange_bind_ok h
    have hsame := inclusive_of_exclusive base hrange.1
    rw [← i64_ok h] at hsame h
    rw [inclusiveTax, taxRange, if_pos hrange, hsame]
    exact h

end PaymentMoney
