/-
# The most recent keys

A list of keys read as a sequence of touches, the last ones last.  `recent` lists the distinct keys in
the order of their last touch, the most recent one first.  A bounded table that drops its least recent
key when it is full holds a prefix of that list (`take_recent_concat`).

A table finds its least recent key by stamps.  Where the rows, in the order of recency, have decreasing
stamps, the row with the smallest stamp is the last one (`argmin_eq_getLast?`).
-/
import Faktor.KeepFirst

namespace Recency

variable {κ : Type*} [DecidableEq κ]

/-- The distinct keys, by their last touch, the most recent one first. -/
def recent (touches : List κ) : List κ := keepFirst [] touches.reverse

theorem nodup_recent (touches : List κ) : (recent touches).Nodup := nodup_keepFirst [] _

theorem mem_recent {touches : List κ} {k : κ} : k ∈ recent touches ↔ k ∈ touches := by
  rw [recent, mem_keepFirst, List.mem_reverse]
  simp

/-- As many as there are distinct keys. -/
theorem length_recent (touches : List κ) : (recent touches).length = touches.toFinset.card := by
  rw [← List.toFinset_card_of_nodup (nodup_recent touches)]
  congr 1
  ext k
  simp only [List.mem_toFinset, mem_recent]

theorem keepFirst_singleton (k : κ) (l : List κ) :
    keepFirst [k] l = (keepFirst [] l).filter fun j => j ≠ k := by
  have hseen : ∀ seen : List κ, keepFirst (k :: seen) l = keepFirst seen (l.filter fun j => j ≠ k) := by
    induction l with
    | nil => exact fun seen => rfl
    | cons j l ih =>
      intro seen
      by_cases hj : j = k
      · rw [keepFirst, if_pos (by simp [hj]), ih, List.filter_cons_of_neg (by simp [hj])]
      · rw [List.filter_cons_of_pos (by simpa using hj), keepFirst, keepFirst]
        have hcomm : keepFirst (j :: k :: seen) l = keepFirst (k :: j :: seen) l := by
          apply keepFirst_congr
          intro a _
          simp only [List.mem_cons]
          tauto
        by_cases hmem : j ∈ seen
        · rw [if_pos (List.mem_cons_of_mem k hmem), if_pos hmem, ih]
        · rw [if_neg (by simp [hj, hmem]), if_neg hmem, hcomm, ih]
  rw [hseen, filter_keepFirst]

/-- A touch brings its key to the front. -/
theorem recent_concat (touches : List κ) (k : κ) :
    recent (touches ++ [k]) = k :: (recent touches).filter fun j => j ≠ k := by
  unfold recent
  rw [List.reverse_append, List.reverse_singleton, List.singleton_append, keepFirst,
    if_neg List.not_mem_nil, keepFirst_singleton]

/-- A prefix of the list without a key, when the key is in the prefix or when it is not. -/
theorem take_filter_ne {r : List κ} (hr : r.Nodup) (n : ℕ) (k : κ) :
    (r.filter fun j => j ≠ k).take n =
      if k ∈ r.take (n + 1) then (r.take (n + 1)).filter (fun j => j ≠ k) else r.take n := by
  induction r generalizing n with
  | nil => simp
  | cons a r ih =>
    obtain ⟨ha, hr⟩ := List.nodup_cons.mp hr
    rw [List.take_succ_cons]
    by_cases hak : a = k
    · subst hak
      have hself : r.filter (fun j => decide (j ≠ a)) = r := by
        rw [List.filter_eq_self]
        intro j hj
        simp only [ne_eq, decide_not, Bool.not_eq_true', decide_eq_false_iff_not]
        rintro rfl
        exact ha hj
      have htake : (r.take n).filter (fun j => decide (j ≠ a)) = r.take n := by
        rw [List.filter_eq_self]
        intro j hj
        simp only [ne_eq, decide_not, Bool.not_eq_true', decide_eq_false_iff_not]
        rintro rfl
        exact ha (List.mem_of_mem_take hj)
      rw [List.filter_cons_of_neg (by simp), hself, if_pos List.mem_cons_self,
        List.filter_cons_of_neg (by simp), htake]
    · rw [List.filter_cons_of_pos (by simpa using hak)]
      cases n with
      | zero => simp [Ne.symm hak]
      | succ n =>
        rw [List.take_succ_cons, ih hr n, List.take_succ_cons]
        by_cases hk : k ∈ r.take (n + 1)
        · rw [if_pos hk, if_pos (List.mem_cons_of_mem a hk),
            List.filter_cons_of_pos (by simpa using hak)]
        · rw [if_neg hk, if_neg (by simp [Ne.symm hak, hk])]

/-- **What a table of `n + 1` keys holds after a touch.** -/
theorem take_recent_concat (touches : List κ) (k : κ) (n : ℕ) :
    (recent (touches ++ [k])).take (n + 1) =
      if k ∈ (recent touches).take (n + 1) then
        k :: ((recent touches).take (n + 1)).filter (fun j => j ≠ k)
      else k :: (recent touches).take n := by
  rw [recent_concat, List.take_succ_cons, take_filter_ne (nodup_recent touches)]
  split
  · rfl
  · rfl

/-! ## Stamps -/

section Stamps

variable {α : Type*}

/-- In the order of recency the smallest stamp is the last one. -/
theorem argmin_eq_getLast? {rows order : List α} {stamp : α → ℕ} (hperm : order.Perm rows)
    (hstamps : order.Pairwise fun a b => stamp b < stamp a) :
    rows.argmin stamp = order.getLast? := by
  classical
  cases hlast : order.getLast? with
  | none =>
    rw [List.getLast?_eq_none_iff] at hlast
    subst hlast
    rw [List.nil_perm.mp hperm]
    rfl
  | some e =>
    obtain ⟨older, rfl⟩ := List.getLast?_eq_some_iff.mp hlast
    rw [List.pairwise_append] at hstamps
    have hless : ∀ a ∈ older, stamp e < stamp a := fun a ha => hstamps.2.2 a ha e (by simp)
    have hmem : ∀ a, a ∈ rows ↔ a ∈ older ∨ a = e := by
      intro a
      rw [← hperm.mem_iff, List.mem_append, List.mem_singleton]
    rw [List.argmin_eq_some_iff]
    refine ⟨(hmem e).mpr (Or.inr rfl), fun a ha => ?_, fun a ha hle => ?_⟩
    · rcases (hmem a).mp ha with ha | rfl
      · exact (hless a ha).le
      · exact le_rfl
    · rcases (hmem a).mp ha with ha | rfl
      · exact absurd hle (Nat.not_le.mpr (hless a ha))
      · exact le_rfl

end Stamps

end Recency
