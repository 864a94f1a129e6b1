/-
# Totals of groups

`GROUP BY` sorts rows into groups by a key.  `groups` is the list of keys that occur, each once, and
`groupSum` adds up an amount over the rows of one key.  Whatever condition on keys selects groups,
their sums add up to the amount of the rows selected (`sum_groups`), so a table of group sums can
stand in for the rows it was made from.
-/
import Faktor.KeepFirst

namespace GroupTotals

variable {α κ : Type} [DecidableEq κ] (key : α → κ)

/-- The keys of the rows, each at its first occurrence. -/
def groups (rows : List α) : List κ := keepFirst [] (rows.map key)

/-- The rows of one key. -/
def group (rows : List α) (k : κ) : List α := rows.filter fun a => key a = k

/-- An amount added up over the rows of one key. -/
def groupSum (g : α → ℕ) (rows : List α) (k : κ) : ℕ := ((group key rows k).map g).sum

theorem nodup_groups (rows : List α) : (groups key rows).Nodup := nodup_keepFirst [] _

theorem mem_groups {rows : List α} {k : κ} : k ∈ groups key rows ↔ ∃ a ∈ rows, key a = k := by
  unfold groups
  rw [mem_keepFirst, List.mem_map]
  simp

/-- The amount of a group, row by row. -/
theorem groupSum_eq (g : α → ℕ) (rows : List α) (k : κ) :
    groupSum key g rows k = (rows.map fun a => if key a = k then g a else 0).sum := by
  unfold groupSum group
  induction rows with
  | nil => rfl
  | cons a rows ih =>
    by_cases h : key a = k
    · rw [List.filter_cons_of_pos (by simpa using h), List.map_cons, List.sum_cons, ih, List.map_cons,
        List.sum_cons, if_pos h]
    · rw [List.filter_cons_of_neg (by simpa using h), ih, List.map_cons, List.sum_cons, if_neg h,
        Nat.zero_add]

/-- One element of a list without duplicates picks out one summand. -/
theorem sum_map_ite_eq {ks : List κ} (hnodup : ks.Nodup) {k : κ} (hk : k ∈ ks) (n : ℕ) :
    (ks.map fun j => if k = j then n else 0).sum = n := by
  induction ks with
  | nil => cases hk
  | cons j ks ih =>
    obtain ⟨hj, hks⟩ := List.nodup_cons.mp hnodup
    rw [List.map_cons, List.sum_cons]
    by_cases h : k = j
    · subst h
      have hzero : ∀ i ∈ ks, (if k = i then n else 0) = 0 := by
        intro i hi
        rw [if_neg]
        rintro rfl
        exact hj hi
      rw [if_pos rfl, List.map_congr_left hzero, List.map_const', List.sum_replicate, smul_zero,
        Nat.add_zero]
    · rw [if_neg h, Nat.zero_add]
      exact ih hks ((List.mem_cons.mp hk).resolve_left h)

/-- **The sums of the groups that a condition on keys selects add up to the rows it selects.** -/
theorem sum_groups (g : α → ℕ) (p : κ → Bool) (rows : List α) :
    ((groups key rows).map fun k => if p k then groupSum key g rows k else 0).sum =
      (rows.map fun a => if p (key a) then g a else 0).sum := by
  -- over any duplicate-free list of keys that has them all, by induction on the rows
  have hall : ∀ ks : List κ, ks.Nodup → ∀ rows : List α, (∀ a ∈ rows, key a ∈ ks) →
      (ks.map fun k => if p k then groupSum key g rows k else 0).sum =
        (rows.map fun a => if p (key a) then g a else 0).sum := by
    intro ks hnodup rows
    induction rows with
    | nil =>
      intro _
      have hzero : ∀ k ∈ ks, (if p k then groupSum key g [] k else 0) = 0 := by
        intro k _
        simp [groupSum, group]
      rw [List.map_congr_left hzero, List.map_const', List.sum_replicate, smul_zero]
      rfl
    | cons a rows ih =>
      intro hks
      have hsplit : ∀ k ∈ ks, (if p k then groupSum key g (a :: rows) k else 0) =
          (if key a = k then (if p (key a) then g a else 0) else 0) +
            (if p k then groupSum key g rows k else 0) := by
        intro k _
        rw [groupSum_eq, groupSum_eq, List.map_cons, List.sum_cons]
        by_cases h : key a = k
        · subst h
          by_cases hp : p (key a) = true <;> simp [hp]
        · simp [h]
      rw [List.map_congr_left hsplit, List.sum_map_add,
        sum_map_ite_eq hnodup (hks a List.mem_cons_self), List.map_cons, List.sum_cons,
        ih fun b hb => hks b (List.mem_cons_of_mem a hb)]
  apply hall _ (nodup_groups key rows)
  intro a ha
  exact (mem_groups key).mpr ⟨a, ha, rfl⟩

end GroupTotals
