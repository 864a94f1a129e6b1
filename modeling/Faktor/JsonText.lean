/-
# JSON texts

The compact form of a JSON value, as its bytes are counted: strings with their escapes, numbers, arrays and
objects, without white space.  A value is never shorter than what it is made of.

* `quote` : a string;
* `array`, `object` : the compound values, of the texts of their parts.
-/
import Faktor.TextBytes

namespace JsonText

open TextBytes

/-- One hexadecimal digit, in lower case. -/
def hexDigit (n : ℕ) : Char := if n < 10 then Char.ofNat (0x30 + n) else Char.ofNat (0x57 + n)

/-- One character inside a string. -/
def escape (c : Char) : Text :=
  let n := c.toNat
  if n = 0x22 then ['\\', c]
  else if n = 0x5c then ['\\', c]
  else if n = 0x08 then ['\\', 'b']
  else if n = 0x09 then ['\\', 't']
  else if n = 0x0a then ['\\', 'n']
  else if n = 0x0c then ['\\', 'f']
  else if n = 0x0d then ['\\', 'r']
  else if n < 0x20 then ['\\', 'u', '0', '0', hexDigit (n / 16), hexDigit (n % 16)]
  else [c]

/-- The double quote. -/
def quotation : Char := Char.ofNat 0x22

/-- A string. -/
def quote (text : String) : Text := quotation :: (text.toList.flatMap escape ++ [quotation])

/-- A number. -/
def number (n : ℕ) : Text := (Nat.toDigits 10 n)

/-- The parts with commas between them. -/
def separated : List Text → Text
  | [] => []
  | [part] => part
  | part :: rest => part ++ ',' :: separated rest

/-- An array. -/
def array (parts : List Text) : Text := '[' :: (separated parts ++ [']'])

/-- An object, of its fields in their order. -/
def object (fields : List (String × Text)) : Text :=
  Char.ofNat 0x7b :: (separated (fields.map fun field => quote field.1 ++ ':' :: field.2) ++ [Char.ofNat 0x7d])

/-! ## Lengths -/

theorem byteLen_cons (c : Char) (text : Text) : byteLen (c :: text) = c.utf8Size + byteLen text := by
  simp [byteLen]

theorem utf8Size_le_escape (c : Char) : c.utf8Size ≤ byteLen (escape c) := by
  have hascii : ∀ n : ℕ, c.toNat = n → n ≤ 127 → c.utf8Size = 1 := by
    intro n hn hle
    rw [Char.utf8Size_eq_one_iff, UInt32.le_iff_toNat_le]
    exact hn.trans_le hle
  have hpos : ∀ (d : Char) (rest : Text), 1 ≤ byteLen (d :: rest) := by
    intro d rest
    have := d.utf8Size_pos
    rw [byteLen_cons]
    omega
  unfold escape
  simp only
  repeat' split
  all_goals first
    | exact (hascii c.toNat rfl (by omega)).trans_le (hpos _ _)
    | exact le_of_eq (by simp [byteLen])

/-- A string is at least as long as its text. -/
theorem le_byteLen_quote (text : String) : text.utf8ByteSize ≤ byteLen (quote text) := by
  rw [utf8ByteSize_eq_byteLen, quote, byteLen_cons, byteLen_append]
  have hbody : byteLen text.toList ≤ byteLen (text.toList.flatMap escape) := by
    induction text.toList with
    | nil => exact le_rfl
    | cons c rest ih =>
      have hc := utf8Size_le_escape c
      rw [List.flatMap_cons, byteLen_append, byteLen_cons]
      omega
  omega

theorem sum_le_separated (parts : List Text) : (parts.map byteLen).sum ≤ byteLen (separated parts) := by
  induction parts using separated.induct with
  | case1 => exact le_rfl
  | case2 part => simp [separated]
  | case3 part rest hne ih =>
    rw [separated.eq_3 part rest hne, byteLen_append, byteLen_cons, List.map_cons, List.sum_cons]
    omega

/-- **An object is at least as long as its values.** -/
theorem sum_le_object (fields : List (String × Text)) :
    (fields.map fun field => byteLen field.2).sum ≤ byteLen (object fields) := by
  have hparts := sum_le_separated (fields.map fun field => quote field.1 ++ ':' :: field.2)
  have hvalues : (fields.map fun field => byteLen field.2).sum
      ≤ ((fields.map fun field => quote field.1 ++ ':' :: field.2).map byteLen).sum := by
    rw [List.map_map]
    apply List.sum_le_sum
    intro field _
    simp only [Function.comp_apply, byteLen_append, byteLen_cons]
    omega
  rw [object, byteLen_cons, byteLen_append]
  omega

end JsonText
