/-
# A greedy loop

A loop that asks a state for its next choice, makes the step of that choice, and ends when there is none.  It
runs under a fuel; a measure that every step lowers bounds the fuel that is needed.

* `run` : the loop;
* `run_induct`, `run_visit_induct` : what every step keeps, the loop keeps;
* `next_run_eq_none` : with enough fuel the loop ends for want of a choice;
* `run_congr` : two loops that choose alike run alike;
* `argmin_perm` : the least element of a list does not depend on its order, when the keys are distinct.
-/
import Mathlib

namespace GreedyLoop

variable {σ α : Type*} (next : σ → Option α) (step : σ → α → σ)

/-- The loop. -/
def run : ℕ → σ → σ
  | 0, s => s
  | fuel + 1, s =>
    match next s with
    | none => s
    | some a => run fuel (step s a)

variable {next step}

theorem run_of_none {s : σ} (h : next s = none) (fuel : ℕ) : run next step fuel s = s := by
  cases fuel with
  | zero => rfl
  | succ fuel => simp only [run, h]

theorem run_succ_of_some {s : σ} {a : α} (h : next s = some a) (fuel : ℕ) :
    run next step (fuel + 1) s = run next step fuel (step s a) := by
  simp only [run, h]

/-- **What every step keeps, the loop keeps.** -/
theorem run_induct {P : σ → Prop} (hstep : ∀ s a, P s → next s = some a → P (step s a)) (fuel : ℕ) {s : σ}
    (h : P s) : P (run next step fuel s) := by
  induction fuel generalizing s with
  | zero => exact h
  | succ fuel ih =>
    cases hnext : next s with
    | none =>
      rw [run_of_none hnext]
      exact h
    | some a =>
      rw [run_succ_of_some hnext]
      exact ih (hstep s a h hnext)

theorem run_add (n k : ℕ) (s : σ) : run next step (n + k) s = run next step k (run next step n s) := by
  induction n generalizing s with
  | zero => rw [Nat.zero_add, run]
  | succ n ih =>
    cases hnext : next s with
    | none => rw [run_of_none hnext, run_of_none hnext, run_of_none hnext]
    | some a => rw [Nat.succ_add, run_succ_of_some hnext, run_succ_of_some hnext, ih]

/-- The same, with the state of every round at hand. -/
theorem run_visit_induct {P : σ → Prop} {s : σ} (h : P s)
    (hstep : ∀ n a, P (run next step n s) → next (run next step n s) = some a →
      P (step (run next step n s) a)) (fuel : ℕ) : P (run next step fuel s) := by
  induction fuel with
  | zero => exact h
  | succ n ih =>
    rw [run_add]
    cases hnext : next (run next step n s) with
    | none =>
      rw [run_of_none hnext]
      exact ih
    | some a =>
      rw [run_succ_of_some hnext, run]
      exact hstep n a ih hnext

/-- A loop that ended went through every choice that was made on the way. -/
theorem exists_run_of_choice {n fuel : ℕ} {s : σ} {a : α} (hchoice : next (run next step n s) = some a)
    (hend : next (run next step fuel s) = none) :
    ∃ k, run next step fuel s = run next step k (step (run next step n s) a) := by
  by_cases hlt : n < fuel
  · obtain ⟨k, rfl⟩ : ∃ k, fuel = n + (k + 1) := ⟨fuel - n - 1, by omega⟩
    exact ⟨k, by rw [run_add, run_succ_of_some hchoice]⟩
  · obtain ⟨k, rfl⟩ : ∃ k, n = fuel + k := ⟨n - fuel, by omega⟩
    rw [run_add, run_of_none hend, hend] at hchoice
    exact absurd hchoice (by simp)

/-- **With enough fuel the loop ends for want of a choice.** -/
theorem next_run_eq_none {m : σ → ℕ} (hless : ∀ s a, next s = some a → m (step s a) < m s)
    {fuel : ℕ} {s : σ} (h : m s ≤ fuel) : next (run next step fuel s) = none := by
  induction fuel generalizing s with
  | zero =>
    cases hnext : next s with
    | none => exact hnext
    | some a =>
      have hlt := hless s a hnext
      omega
  | succ fuel ih =>
    cases hnext : next s with
    | none =>
      rw [run_of_none hnext]
      exact hnext
    | some a =>
      have hlt := hless s a hnext
      rw [run_succ_of_some hnext]
      exact ih (by omega)

/-- Loops that choose alike run alike. -/
theorem run_congr {next' : σ → Option α} (h : ∀ s, next s = next' s) (fuel : ℕ) (s : σ) :
    run next step fuel s = run next' step fuel s := by
  have hnext : next = next' := funext h
  rw [hnext]

/-! ## The least element -/

/-- **The least element does not depend on the order of the list**, when no two have the same key. -/
theorem argmin_perm {β : Type*} [LinearOrder β] {key : α → β} {xs ys : List α} (hperm : xs.Perm ys)
    (hinj : ∀ a ∈ xs, ∀ b ∈ xs, key a = key b → a = b) : xs.argmin key = ys.argmin key := by
  classical
  cases hx : xs.argmin key with
  | none =>
    have hnil : ys = [] := by
      rw [List.argmin_eq_none.mp hx] at hperm
      exact List.nil_perm.mp hperm
    rw [hnil]
    rfl
  | some a =>
    have ha : a ∈ xs := List.argmin_mem hx
    cases hy : ys.argmin key with
    | none =>
      rw [List.argmin_eq_none.mp hy] at hperm
      exact absurd (hperm.mem_iff.mp ha) List.not_mem_nil
    | some b =>
      have hb : b ∈ xs := hperm.mem_iff.mpr (List.argmin_mem hy)
      have hab : key a ≤ key b := List.le_of_mem_argmin hb hx
      have hba : key b ≤ key a := List.le_of_mem_argmin (hperm.mem_iff.mp ha) hy
      rw [hinj a ha b hb (le_antisymm hab hba)]

end GreedyLoop
