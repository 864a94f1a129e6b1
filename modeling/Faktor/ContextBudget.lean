/-
# The token budget of a model

A model announces how many tokens its window holds and how many it may write.  Up to 32768 tokens the
budget is a fixed profile of 32000; above, six of its seven classes are shares of the window, each between
bounds of its own, and the tools get what is left, up to 8000.  Just above the threshold the lower bounds
already sum to more than the window.

* `ContextBudget.forCapabilities`, `ContextBudget.total` : the budget, and the sum of its classes;
* `ContextBudget.scaled_le_iff` : when the six scaled classes fit the window;
* `ContextBudget.total_le_context_iff` : **the windows that the budget fits**.
-/
import Mathlib
import Faktor.Saturating

namespace Context

open Saturating

/-! ## The budget -/

/-- `ModelCapabilities`: the window and the longest answer, in tokens. -/
structure ModelCapabilities where
  context : ℕ
  maxOutput : ℕ
  deriving DecidableEq, Repr

/-- `ContextBudget`. -/
structure ContextBudget where
  system : ℕ
  tools : ℕ
  working : ℕ
  retrieved : ℕ
  recent : ℕ
  outputReserve : ℕ
  safety : ℕ
  deriving DecidableEq, Repr

/-- `usize::clamp`. -/
def clamp (n low high : ℕ) : ℕ := max low (min n high)

namespace ContextBudget

/-- `ContextBudget::default`: the profile of a window of 32K. -/
def default : ContextBudget where
  system := 5000
  tools := 0
  working := 3000
  retrieved := 7000
  recent := 10000
  outputReserve := 5000
  safety := 2000

/-- The classes that are scaled with the window, before the tools get the rest. -/
def scaled (context maxOutput : ℕ) : ContextBudget where
  system := clamp (context / 16) 5000 12000
  tools := 0
  working := 4000
  retrieved := clamp (context / 12) 7000 24000
  recent := clamp (context / 8) 10000 60000
  outputReserve := min (add maxOutput 1000) (context / 4)
  safety := max (context / 32) 2000

/-- What the scaled classes take, added up in the order of the source. -/
def used (b : ContextBudget) : ℕ :=
  add (add (add (add (add b.system b.working) b.retrieved) b.recent) b.outputReserve) b.safety

/-- `for_capabilities`. -/
def forCapabilities (caps : ModelCapabilities) : ContextBudget :=
  let context := max caps.context (mul caps.maxOutput 2)
  if context ≤ 32768 then default
  else
    let b := scaled context caps.maxOutput
    { b with tools := min (context - b.used) 8000 }

/-- `total`. -/
def total (b : ContextBudget) : ℕ :=
  add (add (add (add (add (add b.system b.tools) b.working) b.retrieved) b.recent) b.outputReserve) b.safety

/-- `context_max`: what the assembled context may take. -/
def contextMax (b : ContextBudget) : ℕ := b.total - b.outputReserve - b.safety

/-! ## The sum of the classes -/

/-- The saturated sum of the seven classes is their sum, cut once. -/
theorem total_eq (b : ContextBudget) :
    b.total = min (b.system + b.tools + b.working + b.retrieved + b.recent + b.outputReserve + b.safety)
      u64Max := by
  simp only [total, add]
  omega

theorem used_eq (b : ContextBudget) :
    b.used = min (b.system + b.working + b.retrieved + b.recent + b.outputReserve + b.safety) u64Max := by
  simp only [used, add]
  omega

/-- A bound on a saturated sum hides the saturation. -/
theorem min_add_of_le {a b c : ℕ} (hc : c ≤ u64Max) : min (add a b) c = min (a + b) c := by
  rw [add, min_assoc, min_eq_right hc]

/-- What the scaled classes take of a window. -/
def scaledSum (context maxOutput : ℕ) : ℕ :=
  clamp (context / 16) 5000 12000 + 4000 + clamp (context / 12) 7000 24000 +
    clamp (context / 8) 10000 60000 + min (maxOutput + 1000) (context / 4) + max (context / 32) 2000

theorem used_scaled {context maxOutput : ℕ} (hcontext : context ≤ u64Max) :
    (scaled context maxOutput).used = min (scaledSum context maxOutput) u64Max := by
  rw [used_eq, scaledSum]
  simp only [scaled]
  rw [min_add_of_le ((Nat.div_le_self context 4).trans hcontext)]

/-- **The scaled classes fit the window** from 37333 tokens on, and below for an answer that is short
enough: there the lower bounds, 28000 together, and the reserve for the answer count. -/
theorem scaled_le_iff {context maxOutput : ℕ} (hlarge : 32768 < context) :
    scaledSum context maxOutput ≤ context ↔ 37333 ≤ context ∨ maxOutput + 29000 ≤ context := by
  by_cases hband : context < 64000
  · -- every class but the reserve is at its lower bound
    have hclasses : scaledSum context maxOutput = 28000 + min (maxOutput + 1000) (context / 4) := by
      simp only [scaledSum, clamp]
      omega
    rw [hclasses]
    omega
  · have hsystem : clamp (context / 16) 5000 12000 ≤ context / 16 + 1000 := by
      rw [clamp]
      omega
    have hretrieved : clamp (context / 12) 7000 24000 ≤ context / 12 + 1700 := by
      rw [clamp]
      omega
    have hrecent : clamp (context / 8) 10000 60000 ≤ context / 8 + 2000 := by
      rw [clamp]
      omega
    have hfits : scaledSum context maxOutput ≤ context := by
      rw [scaledSum]
      omega
    exact iff_of_true hfits (Or.inl (by omega))

/-- The tools get what is left: the budget fits the window exactly when the scaled classes do. -/
theorem total_withTools_le_iff (b : ContextBudget) {context : ℕ}
    (hcontext : context < u64Max) :
    ({ b with tools := min (context - b.used) 8000 } : ContextBudget).total ≤ context ↔
      b.used ≤ context := by
  rw [total_eq, used_eq]
  dsimp only
  omega

/-- Above the threshold, with an answer that fits the window twice, the budget is the scaled one. -/
theorem forCapabilities_eq {caps : ModelCapabilities} (hlarge : 32768 < caps.context)
    (hanswer : 2 * caps.maxOutput ≤ caps.context) :
    forCapabilities caps =
      let b := scaled caps.context caps.maxOutput
      { b with tools := min (caps.context - b.used) 8000 } := by
  have hwindow : max caps.context (mul caps.maxOutput 2) = caps.context := by
    refine max_eq_left ((min_le_left _ _).trans ?_)
    rw [mul_comm]
    exact hanswer
  rw [forCapabilities, hwindow, if_neg (by omega)]

/-- **The windows that the budget fits**: among the windows above the threshold that hold the longest
answer twice, those of 37333 tokens on, and the smaller ones whose answer leaves 29000. -/
theorem total_le_context_iff (caps : ModelCapabilities) (hlarge : 32768 < caps.context)
    (hanswer : 2 * caps.maxOutput ≤ caps.context) :
    (forCapabilities caps).total ≤ caps.context ↔
      37333 ≤ caps.context ∨ caps.maxOutput + 29000 ≤ caps.context := by
  rw [forCapabilities_eq hlarge hanswer, ← scaled_le_iff hlarge]
  rcases lt_or_ge caps.context u64Max with hcontext | hcontext
  · rw [total_withTools_le_iff _ hcontext, used_scaled hcontext.le]
    exact min_le_iff.trans (or_iff_left (not_le.mpr hcontext))
  · -- a window that no saturated sum exceeds
    have htotal : ∀ b : ContextBudget, b.total ≤ caps.context := fun b => by
      rw [total_eq]
      exact (min_le_right _ _).trans hcontext
    refine iff_of_true (htotal _) ((scaled_le_iff hlarge).mpr (Or.inl ?_))
    exact le_trans (by decide) hcontext

/-- The window of 200000 tokens has its budget within it. -/
theorem total_le_context_iff_200k :
    (32768 < 200000 ∧ 2 * 8192 ≤ 200000) ∧ (forCapabilities ⟨200000, 8192⟩).total ≤ 200000 :=
  ⟨by decide, (total_le_context_iff ⟨200000, 8192⟩ (by decide) (by decide)).mpr (Or.inl (by decide))⟩

/-- A window of 33000 tokens with answers of up to 8192 gets a budget of 36250. -/
theorem smallWindow_exceeded :
    ∃ caps : ModelCapabilities, 32768 < caps.context ∧ 2 * caps.maxOutput ≤ caps.context ∧
      (forCapabilities caps).total = 36250 ∧ ¬ (forCapabilities caps).total ≤ caps.context :=
  ⟨⟨33000, 8192⟩, by decide, by decide, by decide, by decide⟩

end ContextBudget

end Context
