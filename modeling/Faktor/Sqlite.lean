/-
# SQLite values: three-valued logic and integer arithmetic

The part of SQLite's semantics that statements over INTEGER columns rest on, stated
over arbitrary data:

* a comparison with `NULL` is neither true nor false, and a `WHERE` clause keeps a row
  only when its condition is true (`SqlBool`, `SqlBool.holds`);
* the sum of two integers that leaves the signed 64-bit range is computed in binary64
  and stays a `REAL` in an INTEGER column, which a reader of integers then refuses
  (`SqlNum`, `sqlAdd`, `SqlNum.readInt`);
* the aggregate `SUM` over integers raises an error when it overflows, `total` never
  does (`sqlSum`, `sqlTotal`);
* a job of several statements fails with the first one that does (`bind_eq_ok`).

Amounts are naturals: every column modelled with these values is written non-negative.
-/
import Mathlib

namespace Sqlite

/-! ## Three-valued logic -/

/-- A truth value of SQL: `none` is `NULL`. -/
abbrev SqlBool := Option Bool

/-- `a = b` over nullable columns: `NULL` when either side is `NULL`. -/
def sqlEq {α : Type} [DecidableEq α] (a b : Option α) : SqlBool :=
  match a, b with
  | some x, some y => some (decide (x = y))
  | _, _ => none

/-- `a IS NULL`, never `NULL` itself. -/
def sqlIsNull {α : Type} (a : Option α) : SqlBool := some a.isNone

/-- `a IS NOT NULL`. -/
def sqlIsNotNull {α : Type} (a : Option α) : SqlBool := some a.isSome

/-- Kleene conjunction. -/
def sqlAnd (a b : SqlBool) : SqlBool :=
  match a, b with
  | some false, _ => some false
  | _, some false => some false
  | some true, some true => some true
  | _, _ => none

/-- Kleene disjunction. -/
def sqlOr (a b : SqlBool) : SqlBool :=
  match a, b with
  | some true, _ => some true
  | _, some true => some true
  | some false, some false => some false
  | _, _ => none

/-- A `WHERE` clause keeps a row exactly when its condition is true. -/
def SqlBool.holds (b : SqlBool) : Bool := b == some true

@[simp] theorem holds_sqlAnd (a b : SqlBool) :
    (sqlAnd a b).holds = true ↔ a.holds = true ∧ b.holds = true := by
  rcases a with _ | _ | _ <;> rcases b with _ | _ | _ <;> decide

@[simp] theorem holds_sqlOr (a b : SqlBool) :
    (sqlOr a b).holds = true ↔ a.holds = true ∨ b.holds = true := by
  rcases a with _ | _ | _ <;> rcases b with _ | _ | _ <;> decide

@[simp] theorem holds_sqlIsNull {α : Type} (a : Option α) :
    (sqlIsNull a).holds = true ↔ a = none := by
  cases a <;> simp [sqlIsNull, SqlBool.holds]

@[simp] theorem holds_sqlIsNotNull {α : Type} (a : Option α) :
    (sqlIsNotNull a).holds = true ↔ ∃ x, a = some x := by
  cases a <;> simp [sqlIsNotNull, SqlBool.holds]

/-- An equality test is true only between two present, equal values. -/
@[simp] theorem holds_sqlEq {α : Type} [DecidableEq α] (a b : Option α) :
    (sqlEq a b).holds = true ↔ ∃ x, a = some x ∧ b = some x := by
  cases a with
  | none => simp [sqlEq, SqlBool.holds]
  | some x =>
    cases b with
    | none => simp [sqlEq, SqlBool.holds]
    | some y => simp [sqlEq, SqlBool.holds, eq_comm]

/-! ## Integers and their overflow -/

/-- `i64::MAX`. -/
def i64Max : ℕ := 2 ^ 63 - 1

/-- Quotient by `2 ^ e`, rounded to nearest with ties to even. -/
def roundShift (n e : ℕ) : ℕ :=
  let q := n / 2 ^ e
  let r := n % 2 ^ e
  if 2 * r > 2 ^ e ∨ (2 * r = 2 ^ e ∧ q % 2 = 1) then q + 1 else q

/-- The binary64 value nearest to `n` (53 significant bits, ties to even); every such
value from `2 ^ 53` on is itself a natural number. -/
def toDouble (n : ℕ) : ℕ :=
  if n < 2 ^ 53 then n
  else roundShift n (n.log2 - 52) * 2 ^ (n.log2 - 52)

theorem toDouble_of_lt {n : ℕ} (h : n < 2 ^ 53) : toDouble n = n := by
  rw [toDouble, if_pos h]

/-- A non-negative value of an INTEGER column that is not `STRICT`: an integer, or the
binary64 number an overflowing addition left behind. -/
inductive SqlNum
  | int (n : ℕ)
  | real (n : ℕ)
  deriving DecidableEq, Repr

/-- INTEGER affinity: a `REAL` that fits the 64-bit range is stored as an integer. -/
def SqlNum.store : SqlNum → SqlNum
  | .int n => .int n
  | .real n => if n ≤ i64Max then .int n else .real n

/-- The operand of a binary64 addition. -/
def SqlNum.asDouble : SqlNum → ℕ
  | .int n => toDouble n
  | .real n => n

/-- `a + b` for a column value and a bound integer: exact when the result is a signed
64-bit integer, otherwise both operands are converted to binary64. -/
def sqlAdd (a : SqlNum) (b : ℕ) : SqlNum :=
  match a with
  | .int n => if n + b ≤ i64Max then .int (n + b) else .real (toDouble (toDouble n + toDouble b))
  | .real n => .real (toDouble (n + toDouble b))

/-- Reading a column as `i64`: a `REAL` is a type error of the reader. -/
def SqlNum.readInt : SqlNum → Option ℕ
  | .int n => some n
  | .real _ => none

theorem sqlAdd_int {n b : ℕ} (h : n + b ≤ i64Max) : sqlAdd (.int n) b = .int (n + b) := by
  rw [sqlAdd, if_pos h]

/-- Folding amounts one after the other is exact as long as the total is in range. -/
theorem foldl_sqlAdd_int (l : List ℕ) (n : ℕ) (h : n + l.sum ≤ i64Max) :
    l.foldl (fun acc b => (sqlAdd acc b).store) (.int n) = .int (n + l.sum) := by
  induction l generalizing n with
  | nil => simp
  | cons b l ih =>
    rw [List.sum_cons] at h
    have hb : (sqlAdd (.int n) b).store = .int (n + b) := by
      rw [sqlAdd_int (by omega)]
      rfl
    rw [List.foldl_cons, hb, ih (n + b) (by omega), List.sum_cons, Nat.add_assoc]

/-! ## Aggregates -/

/-- `SUM` over integers: an "integer overflow" error outside the 64-bit range. -/
def sqlSum (l : List ℕ) : Option ℕ := if l.sum ≤ i64Max then some l.sum else none

/-- `CAST(MIN(total(x), bound) AS INTEGER)`: the exact integer sum as a binary64 number,
cut at `bound`. -/
def sqlTotal (bound : ℕ) (l : List ℕ) : ℕ := min (toDouble l.sum) bound

theorem sqlSum_eq_some {l : List ℕ} {n : ℕ} (h : sqlSum l = some n) : n = l.sum := by
  unfold sqlSum at h
  split at h
  · exact (Option.some.inj h).symm
  · cases h

/-! ## Statements that can fail -/

/-- A sequence of two statements goes through when both do. -/
theorem bind_eq_ok {ε α β : Type} {x : Except ε α} {f : α → Except ε β} {b : β} :
    (x >>= f) = .ok b ↔ ∃ a, x = .ok a ∧ f a = .ok b := by
  cases x with
  | error e => simp [bind, Except.bind]
  | ok a => simp [bind, Except.bind]

theorem map_eq_ok {ε α β : Type} {x : Except ε α} {f : α → β} {b : β} :
    x.map f = .ok b ↔ ∃ a, x = .ok a ∧ f a = b := by
  cases x with
  | error e => simp [Except.map]
  | ok a => simp [Except.map]

/-- A refusal, when its condition holds. -/
def refuseWhen {ε : Type} (p : Prop) [Decidable p] (e : ε) : Except ε Unit :=
  if p then .error e else .ok ()

theorem refuseWhen_eq_ok {ε : Type} {p : Prop} [Decidable p] {e : ε} {u : Unit} :
    refuseWhen p e = .ok u ↔ ¬ p := by
  unfold refuseWhen
  by_cases hp : p <;> simp [hp]

end Sqlite
