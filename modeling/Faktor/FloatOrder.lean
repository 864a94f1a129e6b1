/-
# Comparing binary64 values

Comparisons of numbers that may be infinite or not numbers at all, as the language makes them: a
comparison with a NaN has no answer, and every test with one fails.

* `Binary64.partialCmp` : the order, where there is one;
* `Binary64.gt`, `Binary64.ge` : the tests;
* `Binary64.divNat` : the share of a non-negative value for one of `n` parts.
-/
import Faktor.ContextModel

namespace Compaction

namespace Binary64

/-- `f64::partial_cmp`: none with a NaN. -/
def partialCmp : Binary64 → Binary64 → Option Ordering
  | .nan, _ => none
  | _, .nan => none
  | .finite p, .finite q => some (compare p q)
  | .inf negative, .finite _ => some (if negative then .lt else .gt)
  | .finite _, .inf negative => some (if negative then .gt else .lt)
  | .inf a, .inf b => some (compare b a)

/-- `a > b`. -/
def gt (a b : Binary64) : Prop := partialCmp a b = some .gt

/-- `a >= b`. -/
def ge (a b : Binary64) : Prop := partialCmp a b = some .gt ∨ partialCmp a b = some .eq

instance : DecidableRel gt := fun a b => inferInstanceAs (Decidable (partialCmp a b = some .gt))

instance : DecidableRel ge := fun a b =>
  inferInstanceAs (Decidable (partialCmp a b = some .gt ∨ partialCmp a b = some .eq))

/-- `value / f64::from(n)` of a value that is not negative and of a positive `n`. -/
def divNat (value : Binary64) (n : ℕ) : Binary64 :=
  match value with
  | .finite q => .finite (nearestDouble (q / n))
  | .inf negative => .inf negative
  | .nan => .nan

end Binary64

end Compaction
