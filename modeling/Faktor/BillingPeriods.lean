/-
# Billing periods tile time

`BillingPeriod::derive` places an instant in a half-open window of the configured length, counted from
the anchor of the subscription.  At and after the anchor the windows meet without gap or overlap, and
the id of a window names it.
-/
import Faktor.CostLedger
import Faktor.TextBytes

open Sqlite

namespace CostLedger

/-! ## Ids -/

theorem toString_of_nonneg {v : ℤ} (h : 0 ≤ v) : toString v = toString v.toNat := by
  obtain ⟨n, rfl⟩ := Int.eq_ofNat_of_zero_le h
  rfl

theorem periodId_toList {start stop : ℤ} (hstart : 0 ≤ start) (hstop : 0 ≤ stop) :
    (s!"bp_{start}_{stop}").toList =
      ['b', 'p', '_'] ++ Nat.toDigits 10 start.toNat ++ '_' :: Nat.toDigits 10 stop.toNat := by
  simp only [toString_of_nonneg hstart, toString_of_nonneg hstop, String.toList_append,
    Nat.toString_eq_repr, Nat.toList_repr]
  simp
  rfl

/-- The first list ends where the separator stands. -/
theorem append_cons_inj {α : Type} {sep : α} {a b c d : List α} (ha : sep ∉ a) (hc : sep ∉ c)
    (h : a ++ sep :: b = c ++ sep :: d) : a = c ∧ b = d := by
  induction a generalizing c with
  | nil =>
    cases c with
    | nil => exact ⟨rfl, (List.cons.inj h).2⟩
    | cons y c => exact absurd (by rw [(List.cons.inj h).1]; exact List.mem_cons_self) hc
  | cons x a ih =>
    cases c with
    | nil => exact absurd (by rw [← (List.cons.inj h).1]; exact List.mem_cons_self) ha
    | cons y c =>
      obtain ⟨rfl, hrest⟩ := List.cons.inj h
      obtain ⟨rfl, hd⟩ := ih (fun hmem => ha (List.mem_cons_of_mem _ hmem))
        (fun hmem => hc (List.mem_cons_of_mem _ hmem)) hrest
      exact ⟨rfl, hd⟩

/-- The digits of a number determine it. -/
theorem toDigits_inj {m n : ℕ} (h : Nat.toDigits 10 m = Nat.toDigits 10 n) : m = n := by
  rw [← Nat.ofDigitChars_toDigits (by norm_num : 1 < 10) (by norm_num) (n := m), h,
    Nat.ofDigitChars_toDigits (by norm_num) (by norm_num)]

/-- **The id names the window.** -/
theorem periodId_inj {start stop first last : ℤ} (hstart : 0 ≤ start) (hstop : 0 ≤ stop)
    (hfirst : 0 ≤ first) (hlast : 0 ≤ last)
    (h : s!"bp_{start}_{stop}" = s!"bp_{first}_{last}") : start = first ∧ stop = last := by
  have hlist := congrArg String.toList h
  rw [periodId_toList hstart hstop, periodId_toList hfirst hlast, List.append_assoc,
    List.append_assoc] at hlist
  obtain ⟨hstarts, hstops⟩ := append_cons_inj (by simp) (by simp)
    (List.append_cancel_left hlist)
  have hn := toDigits_inj hstarts
  have hm := toDigits_inj hstops
  omega

/-- The id of a window of 64-bit instants is within its bound. -/
theorem periodId_size {start stop : ℤ} (hstart : 0 ≤ start) (hstop : 0 ≤ stop)
    (hrange : start ≤ i64Max) (hrange' : stop ≤ i64Max) :
    (s!"bp_{start}_{stop}").utf8ByteSize ≤ maxBillingPeriodIdBytes := by
  have hdigits : ∀ {v : ℤ}, 0 ≤ v → v ≤ i64Max → (Nat.toDigits 10 v.toNat).length ≤ 19 := by
    intro v hv hle
    rw [Nat.length_toDigits_le_iff (by norm_num) (by norm_num)]
    unfold i64Max at hle
    omega
  have hascii : ∀ c ∈ (s!"bp_{start}_{stop}").toList, c.val ≤ 127 := by
    intro c hc
    rw [periodId_toList hstart hstop] at hc
    have hdigit : ∀ {n : ℕ}, c ∈ Nat.toDigits 10 n → c.val ≤ 127 := by
      intro n hn
      have := Nat.isDigit_of_mem_toDigits (by norm_num) (by norm_num) hn
      rw [Char.isDigit, Bool.and_eq_true, decide_eq_true_eq, decide_eq_true_eq] at this
      have hnine : ('9' : Char).val ≤ 127 := by decide
      exact UInt32.le_trans this.2 hnine
    rcases List.mem_append.mp hc with hc | hc
    · rcases List.mem_append.mp hc with hc | hc
      · fin_cases hc <;> decide
      · exact hdigit hc
    · rcases List.mem_cons.mp hc with rfl | hc
      · decide
      · exact hdigit hc
  rw [TextBytes.utf8ByteSize_eq_byteLen, TextBytes.byteLen_eq_length_iff.mpr hascii,
    periodId_toList hstart hstop]
  have hfirst := hdigits hstart hrange
  have hsecond := hdigits hstop hrange'
  simp only [List.length_append, List.length_cons, List.length_nil]
  unfold maxBillingPeriodIdBytes
  omega

/-! ## Windows -/

/-- The first instant after the window of `at`. -/
def windowEnd (anchorMs periodMs atMs : ℤ) : ℤ :=
  anchorMs + (atMs - anchorMs) / periodMs * periodMs + periodMs

/-- What `derive` returns from the anchor on. -/
theorem derive_eq {anchorMs periodMs atMs : ℤ} (hanchor : 0 ≤ anchorMs) (hperiod : 0 < periodMs)
    (hmax : periodMs ≤ maxBillingPeriodMs) (hat : anchorMs ≤ atMs) :
    BillingPeriod.derive anchorMs periodMs atMs =
      if windowEnd anchorMs periodMs atMs ≤ i64Max then
        some ⟨s!"bp_{windowEnd anchorMs periodMs atMs - periodMs}_{windowEnd anchorMs periodMs atMs}",
          windowEnd anchorMs periodMs atMs - periodMs, windowEnd anchorMs periodMs atMs⟩
      else none := by
  have hindex : (if atMs - anchorMs ≤ 0 then 0 else (atMs - anchorMs) / periodMs) =
      (atMs - anchorMs) / periodMs := by
    split
    · have hzero : atMs - anchorMs = 0 := by omega
      rw [hzero, Int.zero_ediv]
    · rfl
  have hquot : 0 ≤ (atMs - anchorMs) / periodMs := Int.ediv_nonneg (by omega) hperiod.le
  have hstart : anchorMs + (atMs - anchorMs) / periodMs * periodMs =
      windowEnd anchorMs periodMs atMs - periodMs := by
    unfold windowEnd
    omega
  have hnonneg : 0 ≤ windowEnd anchorMs periodMs atMs - periodMs := by
    rw [← hstart]
    have := mul_nonneg hquot hperiod.le
    omega
  unfold BillingPeriod.derive
  rw [if_neg (by omega)]
  dsimp only
  rw [hindex, hstart, Int.sub_add_cancel]
  by_cases hfits : windowEnd anchorMs periodMs atMs ≤ i64Max
  · have hsize := periodId_size hnonneg (by omega) (by omega) hfits
    rw [if_pos hfits, if_pos, if_neg (by omega)]
    unfold fitsI64
    rw [Bool.and_eq_true, decide_eq_true_eq, decide_eq_true_eq]
    omega
  · rw [if_neg hfits, if_neg]
    unfold fitsI64
    rw [Bool.and_eq_true, decide_eq_true_eq, decide_eq_true_eq]
    omega

/-- An instant lies in its window. -/
theorem windowEnd_spec (anchorMs : ℤ) {periodMs : ℤ} (hperiod : 0 < periodMs) (atMs : ℤ) :
    windowEnd anchorMs periodMs atMs - periodMs ≤ atMs ∧ atMs < windowEnd anchorMs periodMs atMs := by
  have hdiv := Int.mul_ediv_add_emod (atMs - anchorMs) periodMs
  have hnonneg := Int.emod_nonneg (atMs - anchorMs) hperiod.ne'
  have hlt := Int.emod_lt_of_pos (atMs - anchorMs) hperiod
  rw [Int.mul_comm] at hdiv
  unfold windowEnd
  omega

/-- The instants of a window have one window. -/
theorem windowEnd_eq {anchorMs periodMs atMs other : ℤ} (hperiod : 0 < periodMs)
    (hlo : windowEnd anchorMs periodMs atMs - periodMs ≤ other)
    (hhi : other < windowEnd anchorMs periodMs atMs) :
    windowEnd anchorMs periodMs other = windowEnd anchorMs periodMs atMs := by
  unfold windowEnd at hlo hhi ⊢
  have hquot : (other - anchorMs) / periodMs = (atMs - anchorMs) / periodMs := by
    rw [Int.ediv_eq_iff_of_pos hperiod]
    constructor
    · omega
    · omega
  rw [hquot]

theorem windowEnd_next {anchorMs periodMs atMs : ℤ} (hperiod : 0 < periodMs) :
    windowEnd anchorMs periodMs (windowEnd anchorMs periodMs atMs) =
      windowEnd anchorMs periodMs atMs + periodMs := by
  have hquot : (windowEnd anchorMs periodMs atMs - anchorMs) / periodMs =
      (atMs - anchorMs) / periodMs + 1 := by
    have hsplit : windowEnd anchorMs periodMs atMs - anchorMs =
        ((atMs - anchorMs) / periodMs + 1) * periodMs := by
      unfold windowEnd
      rw [Int.add_mul, Int.one_mul]
      omega
    rw [hsplit, Int.mul_ediv_cancel _ hperiod.ne']
  rw [windowEnd, hquot, Int.add_mul, Int.one_mul]
  unfold windowEnd
  omega

/-- **Billing periods tile time.**  An instant from the anchor on has a window of the configured length
around it, unless the end of that window is no 64-bit instant; two instants have one id exactly when
they lie in one window, and the window after a window starts where it ends. -/
theorem derive_guarantee (anchorMs periodMs atMs : ℤ) (hanchor : 0 ≤ anchorMs)
    (hperiod : 0 < periodMs) (hmax : periodMs ≤ maxBillingPeriodMs) (hat : anchorMs ≤ atMs) :
    (∀ p, BillingPeriod.derive anchorMs periodMs atMs = some p →
      p.startMs ≤ atMs ∧ atMs < p.endMs ∧ p.endMs - p.startMs = periodMs) ∧
    (BillingPeriod.derive anchorMs periodMs atMs = none ↔
      (i64Max : ℤ) < windowEnd anchorMs periodMs atMs) ∧
    (∀ other p q, anchorMs ≤ other → BillingPeriod.derive anchorMs periodMs atMs = some p →
      BillingPeriod.derive anchorMs periodMs other = some q →
      (p.id = q.id ↔ p.startMs ≤ other ∧ other < p.endMs)) ∧
    ∀ p q, BillingPeriod.derive anchorMs periodMs atMs = some p →
      BillingPeriod.derive anchorMs periodMs p.endMs = some q → q.startMs = p.endMs := by
  have hderive : ∀ {instant : ℤ} {p : BillingPeriod}, anchorMs ≤ instant →
      BillingPeriod.derive anchorMs periodMs instant = some p →
      p.startMs = windowEnd anchorMs periodMs instant - periodMs ∧
        p.endMs = windowEnd anchorMs periodMs instant ∧
        p.id = s!"bp_{p.startMs}_{p.endMs}" := by
    intro instant p hinstant hp
    rw [derive_eq hanchor hperiod hmax hinstant] at hp
    split at hp
    · rw [← Option.some.inj hp]
      exact ⟨rfl, rfl, rfl⟩
    · cases hp
  have hafter : ∀ {instant : ℤ}, anchorMs ≤ instant →
      0 ≤ windowEnd anchorMs periodMs instant - periodMs := by
    intro instant hinstant
    have := mul_nonneg (Int.ediv_nonneg (by omega : 0 ≤ instant - anchorMs) hperiod.le) hperiod.le
    unfold windowEnd
    omega
  refine ⟨?_, ?_, ?_, ?_⟩
  · intro p hp
    obtain ⟨hstart, hend, -⟩ := hderive hat hp
    have := windowEnd_spec anchorMs hperiod atMs
    omega
  · rw [derive_eq hanchor hperiod hmax hat]
    split
    · simp only [reduceCtorEq, false_iff]
      omega
    · simp only [true_iff]
      omega
  · intro other p q hother hp hq
    obtain ⟨hstart, hend, hid⟩ := hderive hat hp
    obtain ⟨hfirst, hend', hid'⟩ := hderive hother hq
    constructor
    · intro h
      have hp0 := hafter hat
      have hq0 := hafter hother
      rw [hid, hid'] at h
      obtain ⟨hs, he⟩ := periodId_inj (by omega) (by omega) (by omega) (by omega) h
      have := windowEnd_spec anchorMs hperiod other
      omega
    · intro h
      rw [hstart, hend] at h
      have hsame := windowEnd_eq hperiod h.1 h.2
      rw [hid, hid', hstart, hend, hfirst, hend', hsame]
  · intro p q hp hq
    obtain ⟨hstart, hend, -⟩ := hderive hat hp
    have hlater : anchorMs ≤ p.endMs := by
      have := (windowEnd_spec anchorMs hperiod atMs).2
      omega
    obtain ⟨hfirst, -, -⟩ := hderive hlater hq
    rw [hfirst, hend, windowEnd_next hperiod]
    omega

/-- Two instants of one window of a hundred milliseconds, and the window after it. -/
theorem derive_guarantee_hundred :
    (BillingPeriod.derive 1000 100 1050).map BillingPeriod.id =
      (BillingPeriod.derive 1000 100 1099).map BillingPeriod.id := by
  have hp : BillingPeriod.derive 1000 100 1050 = some ⟨"bp_1000_1100", 1000, 1100⟩ := by decide +kernel
  have hq : BillingPeriod.derive 1000 100 1099 = some ⟨"bp_1000_1100", 1000, 1100⟩ := by decide +kernel
  have := ((derive_guarantee 1000 100 1050 (by decide) (by decide) (by decide) (by decide)).2.2.1 1099
    _ _ (by decide) hp hq).mpr (by decide)
  rw [hp, hq]

end CostLedger
