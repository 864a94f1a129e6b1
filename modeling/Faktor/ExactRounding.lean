/-
# Exact rounding

Quotients of integers that are rounded to the nearest one or upwards, and integer square roots, in the
128-bit arithmetic of the planners.

* `NearestAway` : an integer nearest to a quotient, and the outer one of two that are equally near;
* `divRoundHalfAway`, `divRoundUpSteps` : the roundings of the source, each of its operations checked;
* `isqrtFrom_eq` : the search of the square roots;
* `exact_rounding` : what all of them return.
-/
import Faktor.SupplyModel

namespace ExactRounding

/-! ## The nearest integer -/

/-- **The integer nearest to a quotient**; of two that are equally near, the one away from zero. -/
structure NearestAway (n d q : ℤ) : Prop where
  near : 2 * |n - d * q| ≤ |d|
  away : 2 * |n - d * q| = |d| → |n| < |d * q|

variable {n d q : ℤ}

theorem NearestAway.neg_left (h : NearestAway n d q) : NearestAway (-n) d (-q) := by
  have heq : -n - d * -q = -(n - d * q) := by ring
  constructor
  · rw [heq, abs_neg]
    exact h.near
  · rw [heq, abs_neg, abs_neg, mul_neg, abs_neg]
    exact h.away

theorem NearestAway.neg_right (h : NearestAway n d q) : NearestAway n (-d) (-q) := by
  have heq : -d * -q = d * q := by ring
  constructor
  · rw [heq, abs_neg]
    exact h.near
  · rw [heq, abs_neg]
    exact h.away

/-- A quotient and its remainder, rounded half up, where there are no signs. -/
theorem nearestAway_of_divMod {r : ℤ} (hdiv : n = d * q + r) (hr : 0 ≤ r) (hrd : r < d) (hq : 0 ≤ q) :
    NearestAway n d (if d ≤ r * 2 then q + 1 else q) := by
  have hd : 0 < d := hr.trans_lt hrd
  have hdq : 0 ≤ d * q := mul_nonneg hd.le hq
  split_ifs with hhalf
  · have heq : n - d * (q + 1) = -(d - r) := by rw [hdiv]; ring
    have hgap : 0 ≤ d - r := by omega
    constructor
    · rw [heq, abs_neg, abs_of_nonneg hgap, abs_of_pos hd]
      omega
    · intro _
      rw [mul_add, mul_one, abs_of_nonneg (by omega), abs_of_nonneg (by omega)]
      omega
  · have heq : n - d * q = r := by rw [hdiv]; ring
    constructor
    · rw [heq, abs_of_nonneg hr, abs_of_pos hd]
      omega
    · rw [heq, abs_of_nonneg hr, abs_of_pos hd]
      omega

/-- An integer that is nearer than half is the nearest one. -/
theorem NearestAway.eq_of_lt {q' : ℤ} (h : NearestAway n d q) (hlt : 2 * |n - d * q'| < |d|) :
    q = q' := by
  by_contra hne
  have hone : 1 ≤ |q - q'| := Int.one_le_abs (sub_ne_zero.mpr hne)
  have hle : |d| ≤ |d| * |q - q'| := le_mul_of_one_le_right (abs_nonneg d) hone
  have hsum : |d * (q - q')| ≤ |n - d * q'| + |n - d * q| := by
    have heq : d * (q - q') = (n - d * q') - (n - d * q) := by ring
    rw [heq]
    exact abs_sub _ _
  rw [abs_mul] at hsum
  have := h.near
  omega

/-! ## The roundings of the source -/

/-- A value of an `i128`, or none when it overflows. -/
def i128 (v : ℤ) : Option ℤ := if -2 ^ 127 ≤ v ∧ v < 2 ^ 127 then some v else none

theorem i128_eq {v : ℤ} (h : |v| < 2 ^ 127) : i128 v = some v := by
  rw [abs_lt] at h
  exact if_pos ⟨h.1.le, h.2⟩

/-- `div_round_half_away`; the doubling saturates. -/
def divRoundHalfAway (n d : ℤ) : Option ℤ := do
  let nAbs ← (if n < 0 then i128 (-n) else some n)
  let dAbs ← (if d < 0 then i128 (-d) else some d)
  let quotient := nAbs / dAbs
  let rounded ←
    (if dAbs ≤ min (nAbs % dAbs * 2) (2 ^ 127 - 1) then i128 (quotient + 1) else some quotient)
  i128 ((if n < 0 then -1 else 1) * (if d < 0 then -1 else 1) * rounded)

/-- `div_round_up`, the quotients towards zero. -/
def divRoundUpSteps (n d : ℤ) : Option ℤ :=
  if 0 ≤ n then
    if 0 < d then do
      let sum ← i128 (n + d)
      let less ← i128 (sum - 1)
      return less.tdiv d
    else i128 (n.tdiv d)
  else if 0 < d then i128 (n.tdiv d)
  else do
    let sum ← i128 (n + d)
    let more ← i128 (sum + 1)
    return more.tdiv d

/-- **The operands that are admitted**: a divisor that is not zero, and room for the sum of the two. -/
structure Admitted (n d : ℤ) : Prop where
  divisor : d ≠ 0
  room : |n| + |d| < 2 ^ 127

variable {a b : ℤ}

/-- The product of two 64-bit values over a third one is admitted. -/
theorem admitted_of_i64 (ha : |a| ≤ 2 ^ 63) (hb : |b| ≤ 2 ^ 63) (hd : |d| ≤ 2 ^ 63) (hne : d ≠ 0) :
    Admitted (a * b) d := by
  refine ⟨hne, ?_⟩
  have hmul : |a| * |b| ≤ 2 ^ 63 * 2 ^ 63 := mul_le_mul ha hb (abs_nonneg b) (by norm_num)
  rw [abs_mul]
  omega

/-- **`div_round_half_away` returns the nearest integer, ties away from zero.** -/
theorem divRoundHalfAway_eq (h : Admitted n d) :
    ∃ q, divRoundHalfAway n d = some q ∧ NearestAway n d q := by
  have hd : 0 < |d| := abs_pos.mpr h.divisor
  have hroom := h.room
  have hn := abs_nonneg n
  set q := |n| / |d| with hq
  set r := |n| % |d| with hr
  have hdiv : |n| = |d| * q + r := (Int.mul_ediv_add_emod |n| |d|).symm
  have hr0 : 0 ≤ r := Int.emod_nonneg _ hd.ne'
  have hrd : r < |d| := Int.emod_lt_of_pos _ hd
  have hq0 : 0 ≤ q := Int.ediv_nonneg hn hd.le
  have hqn : q ≤ |n| := Int.ediv_le_self _ hn
  set rounded := if |d| ≤ r * 2 then q + 1 else q with hrounded
  have hbound : |rounded| < 2 ^ 127 := by
    rw [hrounded]
    split_ifs <;> rw [abs_of_nonneg (by omega)] <;> omega
  have hnearest : NearestAway |n| |d| rounded := nearestAway_of_divMod hdiv hr0 hrd hq0
  have hnAbs : (if n < 0 then i128 (-n) else some n) = some |n| := by
    split_ifs with hneg
    · rw [i128_eq (by rw [abs_neg]; omega), abs_of_neg hneg]
    · rw [abs_of_nonneg (not_lt.mp hneg)]
  have hdAbs : (if d < 0 then i128 (-d) else some d) = some |d| := by
    split_ifs with hneg
    · rw [i128_eq (by rw [abs_neg]; omega), abs_of_neg hneg]
    · rw [abs_of_nonneg (not_lt.mp hneg)]
  have hsaturated : (|d| ≤ min (r * 2) (2 ^ 127 - 1)) = (|d| ≤ r * 2) := by
    rw [le_min_iff, and_iff_left (by omega)]
  have hstep : (if |d| ≤ min (r * 2) (2 ^ 127 - 1) then i128 (q + 1) else some q) = some rounded := by
    rw [hrounded]
    simp only [hsaturated]
    split_ifs with hhalf
    · rw [i128_eq]
      rwa [hrounded, if_pos hhalf] at hbound
    · rfl
  have hsteps : divRoundHalfAway n d =
      i128 ((if n < 0 then -1 else 1) * (if d < 0 then -1 else 1) * rounded) := by
    unfold divRoundHalfAway
    rw [hnAbs, hdAbs]
    show (if |d| ≤ min (r * 2) (2 ^ 127 - 1) then i128 (q + 1) else some q).bind _ = _
    rw [hstep]
    rfl
  have hsigned : ∀ s t : ℤ, |s| = 1 → |t| = 1 → |s * t * rounded| < 2 ^ 127 := by
    intro s t hs ht
    rwa [abs_mul, abs_mul, hs, ht, one_mul, one_mul]
  refine ⟨_, by rw [hsteps, i128_eq]; exact hsigned _ _ (by split_ifs <;> rfl) (by split_ifs <;> rfl), ?_⟩
  -- the signs of the operands are those of the result
  split_ifs with hn' hd' hd'
  · rw [abs_of_neg hn', abs_of_neg hd'] at hnearest
    simpa using hnearest.neg_left.neg_right
  · rw [abs_of_neg hn', abs_of_nonneg (not_lt.mp hd')] at hnearest
    simpa using hnearest.neg_left
  · rw [abs_of_nonneg (not_lt.mp hn'), abs_of_neg hd'] at hnearest
    simpa using hnearest.neg_right
  · rw [abs_of_nonneg (not_lt.mp hn'), abs_of_nonneg (not_lt.mp hd')] at hnearest
    simpa using hnearest

/-- The ceiling of a quotient by a positive divisor. -/
theorem ceil_div_eq {c : ℤ} (hb : 0 < b) (hlow : b * (c - 1) < a) (hhigh : a ≤ b * c) :
    ⌈(a / b : ℚ)⌉ = c := by
  have hb' : (0 : ℚ) < b := Int.cast_pos.mpr hb
  rw [Int.ceil_eq_iff, lt_div_iff₀ hb', div_le_iff₀ hb', mul_comm _ (b : ℚ), mul_comm _ (b : ℚ)]
  exact ⟨by exact_mod_cast hlow, by exact_mod_cast hhigh⟩

theorem ceil_div_of_nonneg (ha : 0 ≤ a) (hb : 0 < b) :
    ⌈(a / b : ℚ)⌉ = (a + b - 1).tdiv b := by
  rw [Int.tdiv_eq_ediv_of_nonneg (by omega)]
  have hle := Int.mul_ediv_self_le (x := a + b - 1) hb.ne'
  have hlt := Int.lt_mul_ediv_self_add (x := a + b - 1) hb
  apply ceil_div_eq hb
  · rw [mul_sub, mul_one]
    omega
  · omega

theorem ceil_div_of_nonpos (ha : a ≤ 0) (hb : 0 < b) : ⌈(a / b : ℚ)⌉ = a.tdiv b := by
  have hquotient : a.tdiv b = -(-a / b) := by
    rw [← Int.tdiv_eq_ediv_of_nonneg (by omega), Int.neg_tdiv, neg_neg]
  have hle := Int.mul_ediv_self_le (x := -a) hb.ne'
  have hlt := Int.lt_mul_ediv_self_add (x := -a) hb
  rw [hquotient]
  apply ceil_div_eq hb
  · rw [mul_sub, mul_one, mul_neg]
    omega
  · rw [mul_neg]
    omega

/-- **`div_round_up` returns the ceiling.** -/
theorem divRoundUpSteps_eq (h : Admitted n d) :
    divRoundUpSteps n d = some (Supply.divRoundUp n d) ∧ Supply.divRoundUp n d = ⌈(n / d : ℚ)⌉ := by
  have hroom := h.room
  have hneg : (n / d : ℚ) = ((-n : ℤ) / (-d : ℤ) : ℚ) := by
    push_cast
    rw [neg_div_neg_eq]
  have hquotient : i128 (n.tdiv d) = some (n.tdiv d) := by
    have hle : |n.tdiv d| ≤ |n| := by
      rw [Int.abs_eq_natAbs, Int.abs_eq_natAbs]
      exact_mod_cast Int.natAbs_tdiv_le_natAbs n d
    have hd := abs_nonneg d
    exact i128_eq (by omega)
  unfold divRoundUpSteps Supply.divRoundUp
  by_cases hn : 0 ≤ n
  · rw [if_pos hn, if_pos hn]
    rw [abs_of_nonneg hn] at hroom
    by_cases hd : 0 < d
    · rw [if_pos hd, if_pos hd]
      rw [abs_of_pos hd] at hroom
      rw [i128_eq (v := n + d) (by rw [abs_of_nonneg (by omega)]; omega)]
      show (i128 (n + d - 1)).bind _ = _ ∧ _
      rw [i128_eq (v := n + d - 1) (by rw [abs_of_nonneg (by omega)]; omega)]
      exact ⟨rfl, (ceil_div_of_nonneg hn hd).symm⟩
    · have hd' : 0 < -d := by
        have := h.divisor
        omega
      rw [if_neg hd, if_neg hd, hneg, ceil_div_of_nonpos (by omega) hd', Int.neg_tdiv_neg]
      exact ⟨hquotient, rfl⟩
  · rw [if_neg hn, if_neg hn]
    rw [abs_of_neg (not_le.mp hn)] at hroom
    by_cases hd : 0 < d
    · rw [if_pos hd, if_pos hd]
      exact ⟨hquotient, (ceil_div_of_nonpos (by omega) hd).symm⟩
    · have hd' : 0 < -d := by
        have := h.divisor
        omega
      rw [if_neg hd, if_neg hd, hneg, ceil_div_of_nonneg (by omega) hd']
      rw [abs_of_neg (by omega)] at hroom
      rw [i128_eq (v := n + d) (by rw [abs_of_neg (by omega)]; omega)]
      show (i128 (n + d + 1)).bind _ = _ ∧ _
      rw [i128_eq (v := n + d + 1) (by rw [abs_of_nonpos (by omega)]; omega)]
      refine ⟨rfl, ?_⟩
      rw [← Int.neg_tdiv_neg]
      congr 1
      omega

/-! ## Square roots -/

/-- `isqrt`; the interval is halved, so 64 rounds are enough. -/
def isqrt (value : ℕ) : ℕ :=
  if value < 2 then value else Supply.isqrtFrom value 64 1 (min value (2 ^ 32 - 1))

/-- The middles that the search computes. -/
def middles (value : ℕ) : ℕ → ℕ → ℕ → List ℕ
  | 0, _, _ => []
  | rounds + 1, low, high =>
    if low < high then
      let mid := low + (high - low + 1) / 2
      mid :: if mid ≤ value / mid then middles value rounds mid high else middles value rounds low (mid - 1)
    else []

variable {value rounds low high : ℕ}

/-- **The search ends at the root.** -/
theorem isqrtFrom_eq (hpos : 0 < low) (hle : low ≤ high) (hlow : low * low ≤ value)
    (hhigh : value < (high + 1) * (high + 1)) (hrounds : high - low < 2 ^ rounds) :
    Supply.isqrtFrom value rounds low high = value.sqrt := by
  induction rounds generalizing low high with
  | zero =>
    have heq : low = high := by
      rw [pow_zero] at hrounds
      omega
    exact Nat.eq_sqrt.mpr ⟨hlow, heq ▸ hhigh⟩
  | succ rounds ih =>
    rw [pow_succ] at hrounds
    unfold Supply.isqrtFrom
    split_ifs with hlt
    · simp only
      split_ifs with hmid
      · rw [Nat.le_div_iff_mul_le (by omega)] at hmid
        exact ih (by omega) (by omega) hmid hhigh (by omega)
      · rw [Nat.le_div_iff_mul_le (by omega), not_le] at hmid
        refine ih hpos (by omega) hlow ?_ (by omega)
        rwa [Nat.sub_add_cancel (by omega)]
    · exact Nat.eq_sqrt.mpr ⟨hlow, (show low = high by omega) ▸ hhigh⟩

/-- Every middle lies in the interval, so no sum overflows and no difference is negative. -/
theorem middles_bounds :
    ∀ mid ∈ middles value rounds low high, low < mid ∧ mid ≤ high := by
  induction rounds generalizing low high with
  | zero =>
    intro mid hmid
    cases hmid
  | succ rounds ih =>
    intro mid hmid
    unfold middles at hmid
    split_ifs at hmid with hlt
    · obtain rfl | hmid := List.mem_cons.mp hmid
      · omega
      · split_ifs at hmid
        · have := ih mid hmid
          omega
        · have := ih mid hmid
          omega
    · cases hmid

theorem isqrt_eq (h : value < 2 ^ 64) : isqrt value = value.sqrt := by
  unfold isqrt
  split_ifs with hsmall
  · exact Nat.eq_sqrt.mpr (by interval_cases value <;> decide)
  · refine isqrtFrom_eq Nat.one_pos (by omega) (by omega) ?_ (by omega)
    obtain hmin | hmin := min_choice value (2 ^ 32 - 1)
    · rw [hmin]
      nlinarith
    · rw [hmin]
      omega

theorem isqrtU128_eq (h : value < 2 ^ 128) : Supply.isqrtU128 value = value.sqrt := by
  unfold Supply.isqrtU128
  split_ifs with hsmall
  · exact Nat.eq_sqrt.mpr (by interval_cases value <;> decide)
  · refine isqrtFrom_eq Nat.one_pos (by omega) (by omega) ?_ (by omega)
    have hhalf : value ≤ 2 * (value / 2) + 1 := by omega
    nlinarith

/-- **What the roundings and the roots return**, for all admitted operands of either sign: the nearest
integer with ties away from zero, the ceiling, and the floors of the square roots; nothing overflows on
the way. -/
theorem exact_rounding :
    (∀ n d, Admitted n d → (∃ q, divRoundHalfAway n d = some q ∧ NearestAway n d q) ∧
      divRoundUpSteps n d = some ⌈(n / d : ℚ)⌉) ∧
    (∀ a b d : ℤ, |a| ≤ 2 ^ 63 → |b| ≤ 2 ^ 63 → |d| ≤ 2 ^ 63 → d ≠ 0 → Admitted (a * b) d) ∧
    (∀ value < 2 ^ 64, isqrt value = ⌊√(value : ℝ)⌋₊ ∧
      ∀ mid ∈ middles value 64 1 (min value (2 ^ 32 - 1)), 1 < mid ∧ mid < 2 ^ 32) ∧
    ∀ value : Supply.Units, Supply.isqrtScaledPpm value = ⌊√((value.get : ℝ) * 10 ^ 12)⌋₊ ∧
      value.get * 10 ^ 12 < 2 ^ 128 ∧ Supply.isqrtScaledPpm value < 2 ^ 64 ∧
      ∀ mid ∈ middles (value.get * 10 ^ 12) 128 1 (value.get * 10 ^ 12 / 2 + 1), 1 < mid ∧ mid < 2 ^ 128 := by
  refine ⟨fun n d h => ⟨divRoundHalfAway_eq h, ?_⟩, fun a b d => admitted_of_i64, fun value h => ?_,
    fun value => ?_⟩
  · obtain ⟨hsteps, hceil⟩ := divRoundUpSteps_eq h
    rw [hsteps, hceil]
  · refine ⟨by rw [isqrt_eq h, Real.nat_floor_real_sqrt_eq_nat_sqrt], fun mid hmid => ?_⟩
    have := middles_bounds mid hmid
    omega
  · have hle := value.le
    have hbound : value.get * 10 ^ 12 ≤ 10 ^ 12 * 10 ^ 12 := Nat.mul_le_mul_right _ hle
    have hroot : Supply.isqrtScaledPpm value = (value.get * 10 ^ 12).sqrt := isqrtU128_eq (by omega)
    refine ⟨?_, by omega, ?_, fun mid hmid => ?_⟩
    · rw [hroot, ← Real.nat_floor_real_sqrt_eq_nat_sqrt]
      norm_num
    · rw [hroot]
      calc (value.get * 10 ^ 12).sqrt ≤ (10 ^ 12 * 10 ^ 12).sqrt := Nat.sqrt_le_sqrt hbound
        _ = 10 ^ 12 := Nat.sqrt_eq _
        _ < 2 ^ 64 := by norm_num
    · have := middles_bounds mid hmid
      omega

end ExactRounding
