/-
# Saturating unsigned arithmetic

Sums and products of 64-bit unsigned numbers that stop at the largest one.  A subtraction that stops
at zero is the one of `ℕ`.  A saturated result says nothing about its arguments, so the lemmas that
read a comparison back need a bound below the largest number.
-/
import Mathlib

namespace Saturating

/-- `u64::MAX`. -/
def u64Max : ℕ := 2 ^ 64 - 1

/-- `u64::saturating_add`. -/
def add (a b : ℕ) : ℕ := min (a + b) u64Max

/-- `u64::saturating_mul`. -/
def mul (a b : ℕ) : ℕ := min (a * b) u64Max

theorem add_le_iff {a b c : ℕ} (hc : c < u64Max) : add a b ≤ c ↔ a + b ≤ c := by
  rw [add]
  omega

theorem add_of_le {a b : ℕ} (h : a + b ≤ u64Max) : add a b = a + b := by
  rw [add]
  omega

/-- A sum that did not saturate is exact. -/
theorem add_of_saturated_lt {a b : ℕ} (h : add a b < u64Max) : add a b = a + b := by
  rw [add] at h ⊢
  omega

theorem mul_le (a b : ℕ) : mul a b ≤ u64Max := by
  rw [mul]
  omega

/-- A share in thousandths of a number is at most the number. -/
theorem mul_div_le {a b c : ℕ} (h : b ≤ c) : mul a b / c ≤ a := by
  rcases Nat.eq_zero_or_pos c with rfl | hc
  · simp
  · have hmul : mul a b ≤ a * c := by
      calc mul a b ≤ a * b := Nat.min_le_left _ _
        _ ≤ a * c := Nat.mul_le_mul_left a h
    calc mul a b / c ≤ a * c / c := Nat.div_le_div_right hmul
      _ = a := Nat.mul_div_cancel a hc

end Saturating
