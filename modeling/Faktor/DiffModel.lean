/-
# Line diffs: the edit script

The greedy algorithm keeps the furthest point of each diagonal in one list, indexed by the diagonal plus an
offset and updated in place; before each round it takes a snapshot of the diagonals of that round, and from
the snapshots it goes back from the end of both lists.  Reads and writes are checked: an index out of range
is a panic, as in the source.

* `cameFromKplus1`, `snake`, `advance`, `sweep`, `search` : the rounds;
* `rewind`, `backtrack` : the way back;
* `myersEditScript` : the script, `none` when the bound on the number of edits is passed;
* `Transforms` : what a script that consumes both lists is.
-/
import Mathlib
import Faktor.EditGraph

namespace Diff

open EditGraph

variable {α : Type} [DecidableEq α]

/-! ## Bounds -/

def MAX_DIFF_BYTES : ℕ := 512 * 1024

def MAX_DIFF_LINES : ℕ := 20000

def MAX_MYERS_D_ITER : ℕ := 4096

def TRACE_ENTRY_BUDGET : ℕ := 8000000

def DIFF_CONTEXT_LINES : ℕ := 3

/-- The loop that raises `d_budget` while a trace with one more row fits. -/
def raiseBudget (budget dBudget : ℕ) : ℕ :=
  if (dBudget + 1) * (dBudget + 1) ≤ budget then raiseBudget budget (dBudget + 1) else dBudget
termination_by budget - dBudget
decreasing_by
  rename_i h
  have := Nat.le_mul_self (dBudget + 1)
  omega

def dCap : ℕ := min MAX_MYERS_D_ITER (raiseBudget TRACE_ENTRY_BUDGET 0)

/-- The loop stops at the greatest number whose square is within the budget. -/
theorem raiseBudget_eq_sqrt {budget dBudget : ℕ} (h : dBudget * dBudget ≤ budget) :
    raiseBudget budget dBudget = Nat.sqrt budget := by
  induction dBudget using raiseBudget.induct budget with
  | case1 dBudget hnext ih =>
    rw [raiseBudget, if_pos hnext]
    exact ih hnext
  | case2 dBudget hstop =>
    rw [raiseBudget, if_neg hstop]
    exact Nat.eq_sqrt.mpr ⟨h, not_le.mp hstop⟩

theorem dCap_eq : dCap = 2828 := by
  have hsqrt : Nat.sqrt TRACE_ENTRY_BUDGET = 2828 :=
    (Nat.eq_sqrt.mpr ⟨by decide, by decide⟩).symm
  rw [dCap, raiseBudget_eq_sqrt (Nat.zero_le _), hsqrt]
  rfl

/-! ## Reads and writes -/

/-- Why the code stops without a result. -/
inductive Panic
  | indexOutOfRange
  deriving DecidableEq, Repr

/-- `v[i as usize]`: a negative `i` is cast to a number above every length. -/
def readAt {β : Type} (v : List β) (i : ℤ) : Except Panic β :=
  match itemAt v i with
  | some x => .ok x
  | none => .error .indexOutOfRange

/-- `v[i as usize] = x`. -/
def writeAt {β : Type} (v : List β) (i : ℤ) (x : β) : Except Panic (List β) :=
  if 0 ≤ i ∧ i < v.length then .ok (v.set i.toNat x) else .error .indexOutOfRange

/-- `v[lo..hi].to_vec()`. -/
def sliceOf {β : Type} (v : List β) (lo hi : ℤ) : Except Panic (List β) :=
  if 0 ≤ lo ∧ lo ≤ hi ∧ hi ≤ v.length then .ok ((v.drop lo.toNat).take (hi - lo).toNat)
  else .error .indexOutOfRange

/-! ## Scripts -/

/-- `Op`: one step of an edit script. -/
inductive Op (α : Type)
  | eq (count : ℕ)
  | del (line : α)
  | ins (line : α)
  deriving DecidableEq, Repr

/-- A script that consumes both lists: equal runs match, the other steps carry the lines. -/
inductive Transforms : List (Op α) → List α → List α → Prop
  | nil : Transforms [] [] []
  | eq (run : List α) {ops : List (Op α)} {a b : List α} :
      Transforms ops a b → Transforms (.eq run.length :: ops) (run ++ a) (run ++ b)
  | del (line : α) {ops : List (Op α)} {a b : List α} :
      Transforms ops a b → Transforms (.del line :: ops) (line :: a) b
  | ins (line : α) {ops : List (Op α)} {a b : List α} :
      Transforms ops a b → Transforms (.ins line :: ops) a (line :: b)

/-- The number of lines a script deletes and inserts. -/
def edits : List (Op α) → ℕ
  | [] => 0
  | .eq _ :: ops => edits ops
  | .del _ :: ops => edits ops + 1
  | .ins _ :: ops => edits ops + 1

/-! ## The rounds -/

/-- Whether round `d` comes to diagonal `k` by an insertion; `idx` is the place of the diagonal. -/
def cameFromKplus1 (v : List ℤ) (idx k d : ℤ) : Except Panic Bool :=
  if k = -d then .ok true
  else if k ≠ d then do
    let below ← readAt v (idx - 1)
    let above ← readAt v (idx + 1)
    pure (decide (below < above))
  else .ok false

/-- The run of equal lines from `(x, y)`. -/
def snake (a b : List α) (x y : ℤ) : Except Panic (ℤ × ℤ) :=
  if h : (0 ≤ x ∧ x < a.length) ∧ 0 ≤ y ∧ y < b.length then do
    let p ← readAt a x
    let q ← readAt b y
    if p = q then snake a b (x + 1) (y + 1) else return (x, y)
  else .ok (x, y)
termination_by (a.length - x).toNat

/-- Diagonal `k` of round `d`: the point reached and the list with it. -/
def advance (a b : List α) (offset d k : ℤ) (v : List ℤ) : Except Panic (ℤ × ℤ × List ℤ) := do
  let idx := k + offset
  let came ← cameFromKplus1 v idx k d
  let x ← if came then readAt v (idx + 1) else do
    let below ← readAt v (idx - 1)
    pure (below + 1)
  let (x, y) ← snake a b x (x - k)
  let v ← writeAt v idx x
  return (x, y, v)

/-- The diagonals of round `d` from `k` on, and whether one of them comes to the end of both lists. -/
def sweep (a b : List α) (offset d k : ℤ) (v : List ℤ) : Except Panic (Bool × List ℤ) :=
  if k ≤ d then do
    let (x, y, v) ← advance a b offset d k v
    if a.length ≤ x ∧ b.length ≤ y then return (true, v) else sweep a b offset d (k + 2) v
  else .ok (false, v)
termination_by (d + 1 - k).toNat

/-- The rounds from `d` on; `rounds` are left.  The result is the round that comes to the end, with the
snapshots. -/
def search (a b : List α) (offset : ℤ) : (rounds d : ℕ) → List ℤ → List (List ℤ) →
    Except Panic (Option (ℕ × List (List ℤ)))
  | 0, _, _, _ => .ok none
  | rounds + 1, d, v, trace => do
    let row ← sliceOf v (offset - d) (offset + d + 1)
    let (hit, v) ← sweep a b offset d (-d) v
    if hit then return some (d, trace ++ [row]) else search a b offset rounds (d + 1) v (trace ++ [row])

/-! ## The way back -/

/-- The equal lines between the last edit, which ends at `(sx, sy)`, and `(x, y)`. -/
def rewind (sx sy x y : ℤ) (ops : List (Op α)) : ℤ × ℤ × List (Op α) :=
  if sx < x ∧ sy < y then rewind sx sy (x - 1) (y - 1) (.eq 1 :: ops) else (x, y, ops)
termination_by (x - sx).toNat

/-- The last `d` edits before `(x, y)`; the source pushes the steps backwards and reverses them at the end. -/
def backtrack (a b : List α) (trace : List (List ℤ)) : ℕ → ℤ → ℤ → List (Op α) →
    Except Panic (ℤ × ℤ × List (Op α))
  | 0, x, y, ops => .ok (x, y, ops)
  | e + 1, x, y, ops => do
    let d : ℤ := e + 1
    let k := x - y
    let row ← readAt trace d
    let came ← cameFromKplus1 row (k + d) k d
    let prevK := if came then k + 1 else k - 1
    let px ← readAt row (prevK + d)
    let py := px - prevK
    let (sx, sy) := if came then (px, py + 1) else (px + 1, py)
    let (x, y, ops) := rewind sx sy x y ops
    if came then do
      let line ← readAt b (y - 1)
      backtrack a b trace e x (y - 1) (.ins line :: ops)
    else do
      let line ← readAt a (x - 1)
      backtrack a b trace e (x - 1) y (.del line :: ops)

/-- One step of the merge of adjacent equal runs; the last step pushed stands first. -/
def pushMerged : List (Op α) → Op α → List (Op α)
  | .eq run :: merged, .eq n => .eq (run + n) :: merged
  | merged, op => op :: merged

/-- The script within `cap` rounds. -/
def editScriptWithin (cap : ℕ) (a b : List α) : Except Panic (Option (List (Op α))) :=
  if a.length = 0 ∧ b.length = 0 then .ok (some [])
  else do
    match ← search a b cap (cap + 1) 0 (List.replicate (2 * cap + 1) 0) [] with
    | none => return none
    | some (found, trace) => do
      let (x, _, ops) ← backtrack a b trace found a.length b.length []
      let ops := if 0 < x then .eq x.toNat :: ops else ops
      return some (ops.foldl pushMerged []).reverse

/-- `myers_edit_script`. -/
def myersEditScript (a b : List α) : Except Panic (Option (List (Op α))) := editScriptWithin dCap a b

end Diff
