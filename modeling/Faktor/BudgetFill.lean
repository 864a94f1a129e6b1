/-
# Filling a budget from a list

Two ways to fill a budget with items in the order they come: stop at the first one that does not fit, or
pass it over and go on.  The first keeps a contiguous front of the list; the second leaves nothing out that
would still fit.

* `takeWithin`, `fillWithin` : the two ways, from what is used already;
* `takeWithin_prefix`, `used_add_takeWithin_le`, `prefix_takeWithin` : the longest front within the limit;
* `prefix_append_of_drop` : a front that is resumed where it stopped is a front;
* `fillWithin_sublist`, `used_add_fillWithin_le` : a sublist, and within the limit;
* `lt_of_count_fillWithin_lt` : what was passed over no longer fits.
-/
import Mathlib

namespace BudgetFill

variable {α : Type*} (size : α → ℕ)

/-- What the items cost together. -/
def total (items : List α) : ℕ := (items.map size).sum

@[simp] theorem total_nil : total size [] = 0 := rfl

@[simp] theorem total_cons (a : α) (items : List α) : total size (a :: items) = size a + total size items := by
  simp [total]

@[simp] theorem total_append (front back : List α) :
    total size (front ++ back) = total size front + total size back := by
  simp [total]

/-! ## Stopping at the first that does not fit -/

/-- The items up to the first that does not fit the limit beside what is used. -/
def takeWithin (limit used : ℕ) : List α → List α
  | [] => []
  | a :: rest => if used + size a ≤ limit then a :: takeWithin limit (used + size a) rest else []

theorem takeWithin_prefix (limit used : ℕ) (items : List α) : takeWithin size limit used items <+: items := by
  induction items generalizing used with
  | nil => exact List.prefix_refl []
  | cons a rest ih =>
    rw [takeWithin]
    by_cases hfits : used + size a ≤ limit
    · rw [if_pos hfits]
      exact (List.prefix_cons_inj a).mpr (ih (used + size a))
    · rw [if_neg hfits]
      exact List.nil_prefix

theorem used_add_takeWithin_le {limit used : ℕ} (hused : used ≤ limit) (items : List α) :
    used + total size (takeWithin size limit used items) ≤ limit := by
  induction items generalizing used with
  | nil => simpa [takeWithin] using hused
  | cons a rest ih =>
    rw [takeWithin]
    by_cases hfits : used + size a ≤ limit
    · rw [if_pos hfits, total_cons, ← Nat.add_assoc]
      exact ih hfits
    · rw [if_neg hfits]
      simpa using hused

/-- **Every front that fits is taken.** -/
theorem prefix_takeWithin {limit used : ℕ} {front items : List α} (hfront : front <+: items)
    (hfits : used + total size front ≤ limit) : front <+: takeWithin size limit used items := by
  induction front generalizing used items with
  | nil => exact List.nil_prefix
  | cons a front ih =>
    obtain ⟨back, rfl⟩ := hfront
    rw [total_cons] at hfits
    rw [List.cons_append, takeWithin, if_pos (by omega)]
    exact (List.prefix_cons_inj a).mpr (ih (List.prefix_append front back) (by omega))

/-- A front, and then a front of what it left, are a front. -/
theorem prefix_append_of_drop {front more items : List α} (hfront : front <+: items)
    (hmore : more <+: items.drop front.length) : front ++ more <+: items := by
  obtain ⟨back, rfl⟩ := hfront
  rw [List.drop_left] at hmore
  exact (List.prefix_append_right_inj front).mpr hmore

/-! ## Passing over what does not fit -/

/-- Every item that fits the limit beside what is used when its turn comes. -/
def fillWithin (limit used : ℕ) : List α → List α
  | [] => []
  | a :: rest =>
    if used + size a ≤ limit then a :: fillWithin limit (used + size a) rest else fillWithin limit used rest

theorem fillWithin_sublist (limit used : ℕ) (items : List α) :
    (fillWithin size limit used items).Sublist items := by
  induction items generalizing used with
  | nil => exact List.Sublist.refl []
  | cons a rest ih =>
    rw [fillWithin]
    by_cases hfits : used + size a ≤ limit
    · rw [if_pos hfits]
      exact (ih (used + size a)).cons_cons a
    · rw [if_neg hfits]
      exact (ih used).cons a

theorem used_add_fillWithin_le {limit used : ℕ} (hused : used ≤ limit) (items : List α) :
    used + total size (fillWithin size limit used items) ≤ limit := by
  induction items generalizing used with
  | nil => simpa [fillWithin] using hused
  | cons a rest ih =>
    rw [fillWithin]
    by_cases hfits : used + size a ≤ limit
    · rw [if_pos hfits, total_cons, ← Nat.add_assoc]
      exact ih hfits
    · rw [if_neg hfits]
      exact ih hused

/-- **Nothing is passed over that would still fit**, counting equal items as often as they stand there. -/
theorem lt_of_count_fillWithin_lt [DecidableEq α] {limit used : ℕ} {items : List α} {c : α}
    (hless : (fillWithin size limit used items).count c < items.count c) :
    limit < used + total size (fillWithin size limit used items) + size c := by
  induction items generalizing used with
  | nil => simp [fillWithin] at hless
  | cons a rest ih =>
    by_cases hfits : used + size a ≤ limit
    · have hstep : fillWithin size limit used (a :: rest) =
          a :: fillWithin size limit (used + size a) rest := by
        rw [fillWithin, if_pos hfits]
      rw [hstep, List.count_cons, List.count_cons] at hless
      have hrest : limit <
          used + size a + total size (fillWithin size limit (used + size a) rest) + size c :=
        ih (by omega)
      rw [hstep, total_cons]
      omega
    · have hstep : fillWithin size limit used (a :: rest) = fillWithin size limit used rest := by
        rw [fillWithin, if_neg hfits]
      rw [hstep] at hless ⊢
      by_cases hac : a = c
      · subst hac
        omega
      · rw [List.count_cons_of_ne hac] at hless
        exact ih hless

/-- Something is taken when there is an item that fits. -/
theorem fillWithin_ne_nil {limit used : ℕ} {items : List α} {c : α} (hc : c ∈ items)
    (hfits : used + size c ≤ limit) : fillWithin size limit used items ≠ [] := by
  classical
  intro hnone
  have hlt : (fillWithin size limit used items).count c < items.count c := by
    rw [hnone, List.count_nil]
    exact List.count_pos_iff.mpr hc
  have hover := lt_of_count_fillWithin_lt size hlt
  rw [hnone, total_nil] at hover
  omega

end BudgetFill
