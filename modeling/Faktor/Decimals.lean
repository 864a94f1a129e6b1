/-
# Numbers in decimal digits

The number that a text of digits writes, and the digits of a number behind zeros.

* `number`, `number_lt` : the value of digits and its bound;
* `padded`, `padded_spec` : the digits of a number at a least width, read back.
-/
import Faktor.TextBytes

open TextBytes

namespace Decimals

/-- The number that decimal digits write. -/
def number (digits : Text) : ℕ := Nat.ofDigitChars 10 digits 0

/-- The digits of a number, at least `width` of them: `{:0width}`. -/
def padded (width n : ℕ) : Text :=
  let digits := Nat.toDigits 10 n
  List.replicate (width - digits.length) '0' ++ digits

theorem number_cons (c : Char) (rest : Text) :
    number (c :: rest) = (c.toNat - '0'.toNat) * 10 ^ rest.length + number rest := by
  rw [number, Nat.ofDigitChars_cons, Nat.ofDigitChars_eq_ofDigitChars_zero, number]
  ring

theorem isDigit_ne {c d : Char} (h : c.isDigit) (hd : d.isDigit = false) : c ≠ d := by
  rintro rfl
  simp [h] at hd

theorem byteLen_of_digits {digits : Text} (h : digits.all Char.isDigit) : byteLen digits = digits.length := by
  rw [byteLen_eq_length_iff]
  intro c hc
  have hdigit := List.all_eq_true.mp h c hc
  simp only [Char.isDigit, Bool.and_eq_true, decide_eq_true_eq] at hdigit
  exact UInt32.le_trans hdigit.2 (by decide)

theorem all_isDigit_toDigits (n : ℕ) : (Nat.toDigits 10 n).all Char.isDigit := by
  rw [List.all_eq_true]
  intro c hc
  exact Nat.isDigit_of_mem_toDigits (by decide) (by decide) hc

/-- The digits behind zeros are digits, and they write the number. -/
theorem padded_spec (width n : ℕ) : (padded width n).all Char.isDigit ∧ number (padded width n) = n := by
  constructor
  · rw [padded, List.all_append, all_isDigit_toDigits, Bool.and_true, List.all_eq_true]
    intro c hc
    rw [List.eq_of_mem_replicate hc]
    decide
  · rw [padded, number, Nat.ofDigitChars_append, Nat.ofDigitChars_replicate_zero, mul_zero,
      Nat.ofDigitChars_ten_toDigits]

theorem padded_ne_nil (width n : ℕ) : padded width n ≠ [] := by
  rw [padded]
  exact List.append_ne_nil_of_right_ne_nil _ Nat.toDigits_ne_nil

/-- A number below the power of the width has that many digits. -/
theorem length_padded {width n : ℕ} (hw : 0 < width) (h : n < 10 ^ width) : (padded width n).length = width := by
  have hlength := (Nat.length_toDigits_le_iff (by decide) hw).mpr h
  rw [padded, List.length_append, List.length_replicate]
  omega

theorem padded_injective (width : ℕ) : Function.Injective (padded width) := by
  intro m n h
  rw [← (padded_spec width m).2, h, (padded_spec width n).2]

end Decimals
