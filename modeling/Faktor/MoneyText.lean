/-
# Money as text

A money value is a bounded number of micro-units of its currency.  It is printed with six fractional digits
and read back from a decimal with at most six of them.

* `Money`, `parse`, `display` : the values, the parser and the printer;
* `Decimal` : what a decimal text is worth;
* `parse_ok_iff` : the parser reads exactly the decimals, each as what it is worth;
* `money_text` : the two directions.
-/
import Faktor.ExactRounding
import Faktor.Decimals

open TextBytes ExactRounding Decimals

namespace MoneyText

/-- `ExactError`, as far as the parser reaches it. -/
inductive ExactError
  | outOfBounds (what : String) (detail : Text)
  | tooManyFractionalDigits
  | overflow
deriving DecidableEq

/-- `Currency`: three upper-case ASCII letters. -/
structure Currency where
  code : Text
  letters : ∀ c ∈ code, c.isUpper
  three : code.length = 3
deriving DecidableEq

/-- `MICROS_PER_UNIT` and `MAX_MONEY_MICROS`. -/
def microsPerUnit : ℤ := 10 ^ 6

def maxMoneyMicros : ℤ := 10 ^ 18

/-- A bounded `Money`. -/
@[ext] structure Money where
  micros : ℤ
  currency : Currency
  bounded : |micros| ≤ maxMoneyMicros
deriving DecidableEq

/-- `Money::from_micros`. -/
def fromMicros (micros : ℤ) (currency : Currency) : Except ExactError Money :=
  if h : |micros| ≤ maxMoneyMicros then .ok ⟨micros, currency, h⟩
  else .error (.outOfBounds "money" ((toString micros).toList ++ " micros".toList))

/-- The end of the parser: a value must fit an `i64` before its own bound is checked. -/
def fromSigned (micros : ℤ) (currency : Currency) : Except ExactError Money :=
  if -2 ^ 63 ≤ micros ∧ micros < 2 ^ 63 then fromMicros micros currency else .error .overflow

/-! ## The parser -/

/-- The digits after the point, the first of them in the place `10 ^ (5 - index)`. -/
def fractionValue (index : ℕ) : Text → ℤ
  | [] => 0
  | c :: rest => (c.toNat - '0'.toNat : ℕ) * 10 ^ (5 - index) + fractionValue (index + 1) rest

/-- `strip_prefix('-')`. -/
def stripSign : Text → Bool × Text
  | '-' :: rest => (true, rest)
  | amount => (false, amount)

/-- The sign, the digits before the first point and the digits after it: `split_once`. -/
def parts (amount : Text) : Bool × Text × Text :=
  let (negative, body) := stripSign amount
  (negative, body.takeWhile (· ≠ '.'), (body.dropWhile (· ≠ '.')).drop 1)

/-- The micro-units of a magnitude, or none where an operation overflows. -/
def magnitude (whole : ℕ) (fraction : ℤ) : Option ℤ := do
  let wholeValue ← i128 whole
  let micros ← i128 (wholeValue * microsPerUnit)
  i128 (micros + fraction)

/-- `Money::parse`, past the splitting of the text. -/
def parseParts (negative : Bool) (whole fraction : Text) (currency : Currency) : Except ExactError Money :=
  if whole = [] ∧ fraction = [] then .error (.outOfBounds "money" "empty amount".toList)
  else if 6 < byteLen fraction ∨ ¬ fraction.all Char.isDigit then .error .tooManyFractionalDigits
  else if whole ≠ [] ∧ ¬ whole.all Char.isDigit then .error (.outOfBounds "money" "invalid digits".toList)
  else
    match magnitude (number whole) (fractionValue 0 fraction) with
    | none => .error .overflow
    | some magnitude => fromSigned (if negative then -magnitude else magnitude) currency

/-- `Money::parse`. -/
def parse (amount : Text) (currency : Currency) : Except ExactError Money :=
  let (negative, whole, fraction) := parts amount
  parseParts negative whole fraction currency

/-! ## The printer -/

/-- `impl Display for Money`. -/
def display (money : Money) : Text :=
  let magnitude := money.micros.natAbs
  (if money.micros < 0 then ['-'] else []) ++ Nat.toDigits 10 (magnitude / 10 ^ 6) ++
    '.' :: padded 6 (magnitude % 10 ^ 6) ++ ' ' :: money.currency.code

/-- The amount of a displayed value: the text before the currency. -/
def displayedAmount (money : Money) : Text := (display money).takeWhile (· ≠ ' ')

/-! ## What a decimal is worth -/

/-- An optional sign. -/
def sign (negative : Bool) : Text := if negative then ['-'] else []

/-- A magnitude under its sign. -/
def signed (negative : Bool) (magnitude : ℚ) : ℚ := if negative then -magnitude else magnitude

/-- **What a decimal text is worth**: a sign, digits, and perhaps a point with at most six digits after it,
where not all digits are missing. -/
inductive Decimal : Text → ℚ → Prop
  | whole {digits : Text} (negative : Bool) (hne : digits ≠ []) (hdigits : digits.all Char.isDigit) :
      Decimal (sign negative ++ digits) (signed negative (number digits))
  | dotted {whole fraction : Text} (negative : Bool) (hne : whole ≠ [] ∨ fraction ≠ [])
      (hwhole : whole.all Char.isDigit) (hfraction : fraction.all Char.isDigit)
      (hlength : fraction.length ≤ 6) :
      Decimal (sign negative ++ whole ++ '.' :: fraction)
        (signed negative (number whole + number fraction / 10 ^ fraction.length))

/-! ## Digits -/

variable {digits : Text}

/-- The places after the point add up to the number of the digits, moved to its place. -/
theorem fractionValue_eq {index : ℕ} (h : digits.length + index ≤ 6) :
    fractionValue index digits = number digits * 10 ^ (6 - index - digits.length) := by
  induction digits generalizing index with
  | nil => simp [fractionValue, number]
  | cons c rest ih =>
    simp only [List.length_cons] at h ⊢
    have hpow : (10 : ℤ) ^ (5 - index) = 10 ^ rest.length * 10 ^ (6 - index - (rest.length + 1)) := by
      rw [← pow_add]
      congr 1
      omega
    have hplace : 6 - (index + 1) - rest.length = 6 - index - (rest.length + 1) := by omega
    rw [fractionValue, ih (by omega), number_cons, hplace, hpow]
    push_cast
    ring

/-! ## The splitting -/

theorem takeWhile_of_digits (h : digits.all Char.isDigit) (rest : Text) :
    (digits ++ '.' :: rest).takeWhile (· ≠ '.') = digits ∧
      (digits ++ '.' :: rest).dropWhile (· ≠ '.') = '.' :: rest := by
  have hall : ∀ c ∈ digits, decide (c ≠ '.') = true := by
    intro c hc
    exact decide_eq_true (isDigit_ne (List.all_eq_true.mp h c hc) (by decide))
  constructor
  · rw [List.takeWhile_append_of_pos hall]
    simp
  · rw [List.dropWhile_append_of_pos hall]
    simp

variable {negative : Bool}

/-- What does not start with a sign keeps all its characters. -/
theorem parts_sign {body : Text} (h : ∀ rest, body ≠ '-' :: rest) :
    parts (sign negative ++ body) =
      (negative, body.takeWhile (· ≠ '.'), (body.dropWhile (· ≠ '.')).drop 1) := by
  cases negative with
  | true => rfl
  | false =>
    have hstrip : stripSign body = (false, body) := by
      unfold stripSign
      split
      · exact absurd rfl (h _)
      · rfl
    show parts body = _
    rw [parts, hstrip]

theorem parts_whole (h : digits.all Char.isDigit) :
    parts (sign negative ++ digits) = (negative, digits, []) := by
  have hall : ∀ c ∈ digits, decide (c ≠ '.') = true := by
    intro c hc
    exact decide_eq_true (isDigit_ne (List.all_eq_true.mp h c hc) (by decide))
  have hbody : ∀ rest, digits ≠ '-' :: rest := by
    rintro rest rfl
    simp at h
  rw [parts_sign hbody, List.takeWhile_eq_self_iff.mpr hall, List.dropWhile_eq_nil_iff.mpr hall]
  rfl

variable {whole fraction : Text}

theorem parts_dotted (h : whole.all Char.isDigit) :
    parts (sign negative ++ whole ++ '.' :: fraction) = (negative, whole, fraction) := by
  obtain ⟨htake, hdrop⟩ := takeWhile_of_digits h fraction
  have hbody : ∀ rest, whole ++ '.' :: fraction ≠ '-' :: rest := by
    intro rest heq
    cases whole with
    | nil => simp at heq
    | cons c tail =>
      rw [List.cons_append, List.cons.injEq] at heq
      rw [heq.1] at h
      simp at h
  rw [List.append_assoc, parts_sign hbody, htake, hdrop]
  rfl

variable {amount : Text}

/-- A text is put together again from its parts. -/
theorem eq_of_parts (h : parts amount = (negative, whole, fraction)) :
    amount = sign negative ++ whole ∧ fraction = [] ∨ amount = sign negative ++ whole ++ '.' :: fraction := by
  have hsplit : ∀ body : Text, body = body.takeWhile (· ≠ '.') ∧ (body.dropWhile (· ≠ '.')).drop 1 = [] ∨
      body = body.takeWhile (· ≠ '.') ++ '.' :: (body.dropWhile (· ≠ '.')).drop 1 := by
    intro body
    have hbody := List.takeWhile_append_dropWhile (p := fun c => decide (c ≠ '.')) (l := body)
    cases hrest : body.dropWhile (· ≠ '.') with
    | nil =>
      left
      rw [hrest, List.append_nil] at hbody
      exact ⟨hbody.symm, rfl⟩
    | cons c rest =>
      right
      have hc : c = '.' := by
        have hhead := List.head?_dropWhile_not (fun c => decide (c ≠ '.')) body
        rw [hrest] at hhead
        simpa using hhead
      rw [hrest, hc] at hbody
      exact hbody.symm
  have hsign : amount = sign (stripSign amount).1 ++ (stripSign amount).2 := by
    unfold stripSign
    split <;> rfl
  simp only [parts, Prod.mk.injEq] at h
  obtain ⟨rfl, rfl, rfl⟩ := h
  obtain ⟨hwhole, hnil⟩ | hdot := hsplit (stripSign amount).2
  · left
    rw [← hwhole]
    exact ⟨hsign, hnil⟩
  · right
    rw [List.append_assoc, ← hdot]
    exact hsign

/-! ## The parser reads the decimals -/

variable {micros : ℤ} {currency : Currency} {money : Money}

theorem fromMicros_ok_iff :
    fromMicros micros currency = .ok money ↔ money.micros = micros ∧ money.currency = currency := by
  unfold fromMicros
  constructor
  · intro h
    split_ifs at h with hbound
    obtain rfl := Except.ok.inj h
    exact ⟨rfl, rfl⟩
  · rintro ⟨rfl, rfl⟩
    rw [dif_pos money.bounded]

theorem fromSigned_ok_iff :
    fromSigned micros currency = .ok money ↔ money.micros = micros ∧ money.currency = currency := by
  unfold fromSigned
  by_cases h : -2 ^ 63 ≤ micros ∧ micros < 2 ^ 63
  · rw [if_pos h, fromMicros_ok_iff]
  · rw [if_neg h]
    refine iff_of_false nofun (fun heq => ?_)
    have hle := abs_le.mp money.bounded
    rw [heq.1, maxMoneyMicros] at hle
    omega

/-- The magnitude of the parts, where it fits. -/
theorem magnitude_eq {whole : ℕ} {fraction : ℤ} (h : 0 ≤ fraction) :
    magnitude whole fraction =
      if whole * 10 ^ 6 + fraction < 2 ^ 127 then some (whole * 10 ^ 6 + fraction) else none := by
  unfold magnitude microsPerUnit
  by_cases hfits : (whole * 10 ^ 6 + fraction : ℤ) < 2 ^ 127
  · rw [if_pos hfits]
    simp only [i128, Option.bind_eq_bind]
    rw [if_pos (by omega), Option.bind_some, if_pos (by omega), Option.bind_some, if_pos (by omega)]
  · rw [if_neg hfits]
    simp only [i128, Option.bind_eq_bind]
    by_cases hmicros : (whole * 10 ^ 6 : ℤ) < 2 ^ 127
    · rw [if_pos (by omega), Option.bind_some, if_pos (by omega), Option.bind_some,
        if_neg (by omega)]
    · by_cases hwhole : (whole : ℤ) < 2 ^ 127
      · rw [if_pos (by omega), Option.bind_some, if_neg (by omega), Option.bind_none]
      · rw [if_neg (by omega), Option.bind_none]

/-- The micro-units of the parts of a decimal. -/
def partsMicros (negative : Bool) (whole fraction : Text) : ℤ :=
  (if negative then -1 else 1) * (number whole * 10 ^ 6 + number fraction * 10 ^ (6 - fraction.length))

/-- **The parts that are read**, and the micro-units they are read as. -/
theorem parseParts_ok_iff :
    parseParts negative whole fraction currency = .ok money ↔
      (whole ≠ [] ∨ fraction ≠ []) ∧ whole.all Char.isDigit ∧ fraction.all Char.isDigit ∧
        fraction.length ≤ 6 ∧ money.currency = currency ∧
        money.micros = partsMicros negative whole fraction := by
  unfold parseParts
  by_cases hempty : whole = [] ∧ fraction = []
  · rw [if_pos hempty]
    simp [hempty.1, hempty.2]
  rw [if_neg hempty]
  by_cases hfraction : fraction.all Char.isDigit
  swap
  · rw [if_pos (.inr hfraction)]
    simp [hfraction]
  rw [byteLen_of_digits hfraction]
  by_cases hlength : 6 < fraction.length
  · rw [if_pos (.inl hlength)]
    simp [hlength]
  rw [if_neg (by tauto)]
  by_cases hwhole : whole.all Char.isDigit
  swap
  · have hne : whole ≠ [] := by
      rintro rfl
      simp at hwhole
    rw [if_pos ⟨hne, hwhole⟩]
    simp [hwhole]
  rw [if_neg (by tauto), fractionValue_eq (by omega)]
  have hrest : (whole ≠ [] ∨ fraction ≠ []) ∧ fraction.length ≤ 6 := ⟨by tauto, by omega⟩
  simp only [hwhole, hfraction, hrest, ne_eq, true_and]
  have hzero : (0 : ℤ) ≤ number fraction * 10 ^ (6 - fraction.length) := by positivity
  have hnonneg : (0 : ℤ) ≤ number whole * 10 ^ 6 + number fraction * 10 ^ (6 - fraction.length) := by
    positivity
  rw [Nat.sub_zero, magnitude_eq hzero, partsMicros]
  generalize (number whole * 10 ^ 6 + number fraction * 10 ^ (6 - fraction.length) : ℤ) = sum
    at hnonneg ⊢
  have hsigned : (if negative then -1 else 1) * sum = if negative then -sum else sum := by
    split_ifs <;> ring
  have hmicros : |if negative then -sum else sum| = sum := by
    rw [apply_ite abs, abs_neg, abs_of_nonneg hnonneg, ite_self]
  rw [hsigned]
  by_cases hfits : sum < 2 ^ 127
  · rw [if_pos hfits]
    exact fromSigned_ok_iff.trans and_comm
  · -- what does not fit is beyond the bound of every value
    rw [if_neg hfits]
    refine iff_of_false nofun (fun h => ?_)
    have hle := money.bounded
    rw [h.2, hmicros, maxMoneyMicros] at hle
    omega

/-- What the parts are worth, in micro-units. -/
theorem signed_eq (h : fraction.length ≤ 6) :
    signed negative (number whole + number fraction / 10 ^ fraction.length) =
      (partsMicros negative whole fraction : ℚ) / 10 ^ 6 := by
  have hpow : (10 : ℚ) ^ 6 = 10 ^ (6 - fraction.length) * 10 ^ fraction.length := by
    rw [← pow_add]
    congr 1
    omega
  have hmagnitude : (number whole + number fraction / 10 ^ fraction.length : ℚ) =
      (number whole * 10 ^ 6 + number fraction * 10 ^ (6 - fraction.length)) / 10 ^ 6 := by
    have hne : (10 : ℚ) ^ fraction.length ≠ 0 := by positivity
    have hrest : (10 : ℚ) ^ (6 - fraction.length) ≠ 0 := by positivity
    rw [hpow]
    field_simp
  rw [signed, partsMicros, hmagnitude]
  push_cast
  split_ifs <;> ring

theorem signed_whole_eq :
    signed negative (number digits) = (partsMicros negative digits [] : ℚ) / 10 ^ 6 := by
  rw [← @signed_eq negative digits [] (Nat.zero_le 6)]
  congr 1
  simp [number]

/-- **The parser reads exactly the decimals**, each as what it is worth. -/
theorem parse_ok_iff :
    parse amount currency = .ok money ↔
      money.currency = currency ∧ Decimal amount (money.micros / 10 ^ 6) := by
  constructor
  · intro h
    rcases hparts : parts amount with ⟨negative, whole, fraction⟩
    rw [parse, hparts] at h
    obtain ⟨hne, hwhole, hfraction, hlength, hcurrency, hmicros⟩ := parseParts_ok_iff.mp h
    refine ⟨hcurrency, ?_⟩
    obtain ⟨heq, hnil⟩ | heq := eq_of_parts hparts
    · rw [hnil] at hne hmicros
      rw [hmicros, ← signed_whole_eq, heq]
      exact .whole _ (hne.resolve_right (fun hno => hno rfl)) hwhole
    · rw [hmicros, ← signed_eq hlength, heq]
      exact .dotted _ hne hwhole hfraction hlength
  · rintro ⟨hcurrency, hdecimal⟩
    generalize hvalue : (money.micros / 10 ^ 6 : ℚ) = value at hdecimal
    have hcancel : ∀ micros : ℤ, value = (micros : ℚ) / 10 ^ 6 → money.micros = micros := by
      intro micros heq
      rw [heq, div_left_inj' (by norm_num)] at hvalue
      exact_mod_cast hvalue
    cases hdecimal with
    | whole negative hne hdigits =>
      rw [parse, parts_whole hdigits]
      exact parseParts_ok_iff.mpr ⟨.inl hne, hdigits, rfl, by decide, hcurrency, hcancel _ signed_whole_eq⟩
    | dotted negative hne hwhole hfraction hlength =>
      rw [parse, parts_dotted hwhole]
      exact parseParts_ok_iff.mpr ⟨hne, hwhole, hfraction, hlength, hcurrency, hcancel _ (signed_eq hlength)⟩

/-! ## The printed amount -/

/-- The amount of a displayed value is the part before the space. -/
theorem displayedAmount_eq (money : Money) :
    displayedAmount money =
      sign (decide (money.micros < 0)) ++ Nat.toDigits 10 (money.micros.natAbs / 10 ^ 6) ++
        '.' :: padded 6 (money.micros.natAbs % 10 ^ 6) := by
  obtain ⟨hdigits, -⟩ := padded_spec 6 (money.micros.natAbs % 10 ^ 6)
  have hspace : ∀ c ∈ sign (decide (money.micros < 0)) ++ Nat.toDigits 10 (money.micros.natAbs / 10 ^ 6) ++
      '.' :: padded 6 (money.micros.natAbs % 10 ^ 6), decide (c ≠ ' ') = true := by
    intro c hc
    rw [decide_eq_true_iff]
    rw [List.mem_append, List.mem_append, List.mem_cons] at hc
    obtain (hsign | hwhole) | rfl | hfraction := hc
    · unfold sign at hsign
      split_ifs at hsign
      · rw [List.mem_singleton.mp hsign]
        decide
      · exact absurd hsign List.not_mem_nil
    · exact isDigit_ne (List.all_eq_true.mp (all_isDigit_toDigits _) c hwhole) (by decide)
    · decide
    · exact isDigit_ne (List.all_eq_true.mp hdigits c hfraction) (by decide)
  have hdisplay : display money =
      (sign (decide (money.micros < 0)) ++ Nat.toDigits 10 (money.micros.natAbs / 10 ^ 6) ++
        '.' :: padded 6 (money.micros.natAbs % 10 ^ 6)) ++ ' ' :: money.currency.code := by
    simp [display, sign]
  rw [displayedAmount, hdisplay, List.takeWhile_append_of_pos hspace]
  simp

/-- **Money as text**: a value is read back from the amount it is displayed with, and the parser accepts
exactly the decimals of at most six places within the bound, each as its exact value. -/
theorem money_text :
    (∀ money : Money, parse (displayedAmount money) money.currency = .ok money) ∧
      ∀ (amount : Text) (currency : Currency) (money : Money),
        parse amount currency = .ok money ↔
          money.currency = currency ∧ Decimal amount (money.micros / 10 ^ 6) := by
  refine ⟨fun money => ?_, fun amount currency money => parse_ok_iff⟩
  obtain ⟨hdigits, hnumber⟩ := padded_spec 6 (money.micros.natAbs % 10 ^ 6)
  have hlength : (padded 6 (money.micros.natAbs % 10 ^ 6)).length = 6 :=
    length_padded (by decide) (Nat.mod_lt _ (by decide))
  have hparts := @parts_dotted (decide (money.micros < 0)) _ (padded 6 (money.micros.natAbs % 10 ^ 6))
    (all_isDigit_toDigits (money.micros.natAbs / 10 ^ 6))
  rw [displayedAmount_eq, parse, hparts]
  refine parseParts_ok_iff.mpr ⟨.inl Nat.toDigits_ne_nil, all_isDigit_toDigits _, hdigits, hlength.le, rfl, ?_⟩
  have hwhole : number (Nat.toDigits 10 (money.micros.natAbs / 10 ^ 6)) = money.micros.natAbs / 10 ^ 6 :=
    Nat.ofDigitChars_ten_toDigits
  rw [partsMicros, hwhole, hnumber, hlength]
  by_cases h : money.micros < 0
  · rw [if_pos (decide_eq_true h)]
    omega
  · rw [if_neg (by simpa using h)]
    omega

end MoneyText
