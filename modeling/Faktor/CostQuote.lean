/-
# What a quote costs

`PriceQuote::quote_cost_micro` sums four products of 64-bit numbers with saturating 128-bit operations,
divides once, and clamps to 64 bits.  Saturation never shows: a sum that leaves the 128-bit range is far
beyond the clamp (`quoteCostMicro_eq`).  The exact formula makes the cost monotone, and so
`PriceQuote::max_per_line` an upper bound of both its arguments.
-/
import Faktor.CostLedger

namespace CostLedger

/-- `PriceQuote::max_per_line`. -/
def PriceQuote.maxPerLine (q other : PriceQuote) : PriceQuote where
  input := max q.input other.input
  output := max q.output other.output
  cacheRead := max q.cacheRead other.cacheRead
  cacheWrite := max q.cacheWrite other.cacheWrite

/-! ## The exact formula -/

/-- The sum of the four category numerators, without bounds. -/
def PriceQuote.numerator (q : PriceQuote) (usage : TokenUsage) : ℕ :=
  q.input * usage.uncachedInputTokens + q.cacheRead * usage.cacheReadTokens
    + q.cacheWrite * usage.cacheWriteTokens + q.output * usage.outputTokens

/-- A saturated sum is the sum, saturated once. -/
theorem satAdd_min (a b : ℕ) : satAdd (min a u128Max) b = min (a + b) u128Max := by
  unfold satAdd
  omega

theorem satAdd_satMul (a b c : ℕ) : satAdd (min a u128Max) (satMul b c) = min (a + b * c) u128Max := by
  rw [satAdd_min, satMul]
  omega

/-- The ceiling of a quotient by a million. -/
theorem ceil_div_million (n : ℕ) : ⌈(n : ℚ) / 1000000⌉₊ = (n + 999999) / 1000000 := by
  apply Nat.le_antisymm
  · apply Nat.ceil_le.mpr
    rw [div_le_iff₀ (by norm_num)]
    have hdiv := Nat.div_add_mod (n + 999999) 1000000
    have hmod := Nat.mod_lt (n + 999999) (by norm_num : 0 < 1000000)
    have hle : n ≤ (n + 999999) / 1000000 * 1000000 := by omega
    exact_mod_cast hle
  · have hle : (n : ℚ) ≤ ⌈(n : ℚ) / 1000000⌉₊ * 1000000 := by
      rw [← div_le_iff₀ (by norm_num)]
      exact Nat.le_ceil _
    have hcast : n ≤ ⌈(n : ℚ) / 1000000⌉₊ * 1000000 := by exact_mod_cast hle
    omega

/-- **The quote is exact**: the rounded sum, clamped to 64 bits. -/
theorem PriceQuote.quoteCostMicro_eq (q : PriceQuote) (usage : TokenUsage) :
    q.quoteCostMicro usage = min u64Max ⌈(q.numerator usage : ℚ) / 1000000⌉₊ := by
  rw [ceil_div_million]
  unfold PriceQuote.quoteCostMicro
  have hfirst : satMul q.input usage.uncachedInputTokens =
      min (q.input * usage.uncachedInputTokens) u128Max := rfl
  dsimp only
  rw [hfirst, satAdd_satMul, satAdd_satMul, satAdd_satMul, satAdd_min]
  change min (min (q.numerator usage + 999999) u128Max / 1000000) u64Max = _
  rcases Nat.le_total (q.numerator usage + 999999) u128Max with hle | hge
  · rw [Nat.min_eq_left hle, Nat.min_comm]
  · -- both sides are at the clamp
    rw [Nat.min_eq_right hge]
    have hclamp : u64Max ≤ u128Max / 1000000 := by decide
    have hdiv : u128Max / 1000000 ≤ (q.numerator usage + 999999) / 1000000 :=
      Nat.div_le_div_right hge
    rw [Nat.min_eq_right hclamp, Nat.min_eq_left (hclamp.trans hdiv)]

/-! ## Order -/

/-- Every line of one quote is at most that of the other. -/
structure PriceQuote.LineLe (q r : PriceQuote) : Prop where
  input : q.input ≤ r.input
  output : q.output ≤ r.output
  cacheRead : q.cacheRead ≤ r.cacheRead
  cacheWrite : q.cacheWrite ≤ r.cacheWrite

/-- Every count of one usage is at most that of the other. -/
structure TokenUsage.CountLe (u v : TokenUsage) : Prop where
  uncachedInput : u.uncachedInputTokens ≤ v.uncachedInputTokens
  cacheRead : u.cacheReadTokens ≤ v.cacheReadTokens
  cacheWrite : u.cacheWriteTokens ≤ v.cacheWriteTokens
  output : u.outputTokens ≤ v.outputTokens

theorem TokenUsage.CountLe.refl (u : TokenUsage) : u.CountLe u := ⟨le_rfl, le_rfl, le_rfl, le_rfl⟩

theorem PriceQuote.numerator_mono {q r : PriceQuote} (h : q.LineLe r) {u v : TokenUsage}
    (huv : u.CountLe v) : q.numerator u ≤ r.numerator v :=
  Nat.add_le_add (Nat.add_le_add (Nat.add_le_add (Nat.mul_le_mul h.input huv.uncachedInput)
    (Nat.mul_le_mul h.cacheRead huv.cacheRead)) (Nat.mul_le_mul h.cacheWrite huv.cacheWrite))
    (Nat.mul_le_mul h.output huv.output)

theorem PriceQuote.quoteCostMicro_mono {q r : PriceQuote} (h : q.LineLe r) {u v : TokenUsage}
    (huv : u.CountLe v) : q.quoteCostMicro u ≤ r.quoteCostMicro v := by
  rw [q.quoteCostMicro_eq, r.quoteCostMicro_eq]
  apply min_le_min_left
  apply Nat.ceil_mono
  apply div_le_div_of_nonneg_right _ (by norm_num)
  exact_mod_cast numerator_mono h huv

theorem PriceQuote.lineLe_maxPerLine_left (q r : PriceQuote) : q.LineLe (q.maxPerLine r) :=
  ⟨le_max_left _ _, le_max_left _ _, le_max_left _ _, le_max_left _ _⟩

theorem PriceQuote.lineLe_maxPerLine_right (q r : PriceQuote) : r.LineLe (q.maxPerLine r) :=
  ⟨le_max_right _ _, le_max_right _ _, le_max_right _ _, le_max_right _ _⟩

/-- **What a quote guarantees.**  The cost is the rounded sum clamped to 64 bits, it is monotone in
every price and count, and the per-line maximum costs at least as much as either quote. -/
theorem PriceQuote.quote_guarantee (q r : PriceQuote) (u v : TokenUsage) :
    q.quoteCostMicro u = min u64Max ⌈(q.numerator u : ℚ) / 1000000⌉₊ ∧
    (q.LineLe r → u.CountLe v → q.quoteCostMicro u ≤ r.quoteCostMicro v) ∧
    q.quoteCostMicro u ≤ (q.maxPerLine r).quoteCostMicro u ∧
    r.quoteCostMicro u ≤ (q.maxPerLine r).quoteCostMicro u := by
  refine ⟨q.quoteCostMicro_eq u, fun h huv => quoteCostMicro_mono h huv, ?_, ?_⟩
  · exact quoteCostMicro_mono (q.lineLe_maxPerLine_left r) (.refl u)
  · exact quoteCostMicro_mono (q.lineLe_maxPerLine_right r) (.refl u)

/-- Three dollars a million against five, on one token more. -/
theorem PriceQuote.quote_guarantee_dearer :
    PriceQuote.quoteCostMicro ⟨3000000, 0, 0, 0⟩ ⟨1, 0, 0, 0⟩ ≤
      PriceQuote.quoteCostMicro ⟨5000000, 0, 0, 0⟩ ⟨2, 0, 0, 0⟩ :=
  (PriceQuote.quote_guarantee ⟨3000000, 0, 0, 0⟩ ⟨5000000, 0, 0, 0⟩ ⟨1, 0, 0, 0⟩ ⟨2, 0, 0, 0⟩).2.1
    ⟨by decide, by decide, by decide, by decide⟩ ⟨by decide, by decide, by decide, by decide⟩

end CostLedger
