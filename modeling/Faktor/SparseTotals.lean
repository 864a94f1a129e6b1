/-
# Sparse totals under a cap

A list of keys with their totals, in which an absent key stands for zero and no total passes a cap.  An
amount is added to its key or opens it; once the list is sorted, a fold over the keys that are there equals a
fold over all of them, as long as a zero changes nothing.

* `bump`, `amountAt` : adding to a key, and the total of one;
* `amountAt_bump`, `keys_bump_nodup` : what an addition does to the totals, and to the keys;
* `amountAt_perm` : a total does not depend on the order;
* `foldlM_range_eq` : **the sparse fold is the full one**.
-/
import Mathlib

namespace SparseTotals

/-- A key with its total. -/
abbrev Terms := List (ℕ × ℕ)

/-- Adds an amount to the total of its key. -/
def bump (cap key amount : ℕ) : Terms → Terms
  | [] => [(key, min amount cap)]
  | (k, total) :: rest =>
    if k = key then (k, min (total + amount) cap) :: rest else (k, total) :: bump cap key amount rest

/-- The total of a key. -/
def amountAt (terms : Terms) (key : ℕ) : ℕ := (terms.lookup key).getD 0

/-- The keys that are there. -/
def keys (terms : Terms) : List ℕ := terms.map Prod.fst

@[simp] theorem amountAt_nil (key : ℕ) : amountAt [] key = 0 := rfl

theorem amountAt_cons (k total : ℕ) (rest : Terms) (key : ℕ) :
    amountAt ((k, total) :: rest) key = if key = k then total else amountAt rest key := by
  rw [amountAt, List.lookup_cons]
  by_cases hkey : key = k
  · rw [if_pos hkey, beq_iff_eq.mpr hkey]
    rfl
  · rw [if_neg hkey, beq_eq_false_iff_ne.mpr hkey]
    rfl

variable {terms : Terms}

theorem amountAt_eq_zero {key : ℕ} (h : key ∉ keys terms) : amountAt terms key = 0 := by
  induction terms with
  | nil => rfl
  | cons t rest ih =>
    obtain ⟨k, total⟩ := t
    rw [keys, List.map_cons, List.mem_cons, not_or] at h
    rw [amountAt_cons, if_neg h.1]
    exact ih h.2

/-! ## Adding to a key -/

theorem amountAt_bump (cap key amount : ℕ) (terms : Terms) (key' : ℕ) :
    amountAt (bump cap key amount terms) key' =
      if key' = key then min (amountAt terms key + amount) cap else amountAt terms key' := by
  induction terms with
  | nil =>
    rw [bump, amountAt_cons, amountAt_nil, amountAt_nil, Nat.zero_add]
  | cons t rest ih =>
    obtain ⟨k, total⟩ := t
    rw [bump]
    by_cases hk : k = key
    · subst hk
      rw [if_pos rfl, amountAt_cons, amountAt_cons, amountAt_cons, if_pos rfl]
      by_cases hkey : key' = k
      · rw [if_pos hkey, if_pos hkey]
      · rw [if_neg hkey, if_neg hkey, if_neg hkey]
    · rw [if_neg hk, amountAt_cons, ih, amountAt_cons, amountAt_cons, if_neg (Ne.symm hk)]
      by_cases hkey : key' = k
      · rw [if_pos hkey, if_pos hkey, if_neg (by omega)]
      · rw [if_neg hkey, if_neg hkey]

variable {k : ℕ}

theorem mem_keys_bump {cap key amount : ℕ} (h : k ∈ keys (bump cap key amount terms)) :
    k = key ∨ k ∈ keys terms := by
  induction terms with
  | nil => simpa [bump, keys] using h
  | cons t rest ih =>
    obtain ⟨k₀, total⟩ := t
    rw [bump] at h
    by_cases hk : k₀ = key
    · rw [if_pos hk] at h
      exact Or.inr (by simpa [keys] using h)
    · rw [if_neg hk, keys, List.map_cons, List.mem_cons] at h
      rcases h with h | h
      · exact Or.inr (by rw [keys, List.map_cons]; exact List.mem_cons.mpr (Or.inl h))
      · rcases ih h with h | h
        · exact Or.inl h
        · exact Or.inr (by rw [keys, List.map_cons]; exact List.mem_cons_of_mem _ h)

theorem keys_bump_nodup {cap key amount : ℕ} (h : (keys terms).Nodup) :
    (keys (bump cap key amount terms)).Nodup := by
  induction terms with
  | nil => simp [bump, keys]
  | cons t rest ih =>
    obtain ⟨k, total⟩ := t
    rw [keys, List.map_cons, List.nodup_cons] at h
    rw [bump]
    by_cases hk : k = key
    · rw [if_pos hk, keys, List.map_cons, List.nodup_cons]
      exact h
    · rw [if_neg hk, keys, List.map_cons, List.nodup_cons]
      refine ⟨?_, ih h.2⟩
      intro hmem
      rcases mem_keys_bump hmem with hkey | hrest
      · exact hk hkey
      · exact h.1 hrest

/-- Adding one amount to several keys. -/
def bumpAll (cap amount : ℕ) (ks : List ℕ) (terms : Terms) : Terms :=
  ks.foldl (fun ts k => bump cap k amount ts) terms

theorem keys_bumpAll_nodup {cap amount : ℕ} (ks : List ℕ) (h : (keys terms).Nodup) :
    (keys (bumpAll cap amount ks terms)).Nodup := by
  induction ks generalizing terms with
  | nil => exact h
  | cons k rest ih => exact ih (keys_bump_nodup h)

variable {ks : List ℕ}

theorem mem_keys_bumpAll {cap amount : ℕ} (h : k ∈ keys (bumpAll cap amount ks terms)) :
    k ∈ ks ∨ k ∈ keys terms := by
  induction ks generalizing terms with
  | nil => exact Or.inr h
  | cons k₀ rest ih =>
    rcases ih h with h | h
    · exact Or.inl (List.mem_cons_of_mem _ h)
    · rcases mem_keys_bump h with rfl | h
      · exact Or.inl List.mem_cons_self
      · exact Or.inr h

theorem amountAt_bumpAll {cap amount : ℕ} (hks : ks.Nodup) (terms : Terms) (key : ℕ) :
    amountAt (bumpAll cap amount ks terms) key =
      if key ∈ ks then min (amountAt terms key + amount) cap else amountAt terms key := by
  induction ks generalizing terms with
  | nil => rfl
  | cons k rest ih =>
    rw [List.nodup_cons] at hks
    show amountAt (bumpAll cap amount rest (bump cap k amount terms)) key = _
    rw [ih hks.2, amountAt_bump]
    by_cases hkey : key = k
    · subst hkey
      rw [if_neg hks.1, if_pos rfl, if_pos List.mem_cons_self]
    · rw [if_neg hkey]
      by_cases hrest : key ∈ rest
      · rw [if_pos hrest, if_pos (List.mem_cons_of_mem k hrest)]
      · rw [if_neg hrest, if_neg (List.not_mem_cons_of_ne_of_not_mem hkey hrest)]

/-! ## Sorting -/

theorem amountAt_of_mem (h : (keys terms).Nodup) {total : ℕ} (hmem : (k, total) ∈ terms) :
    amountAt terms k = total := by
  induction terms with
  | nil => exact absurd hmem List.not_mem_nil
  | cons t rest ih =>
    obtain ⟨k₀, total₀⟩ := t
    rw [keys, List.map_cons, List.nodup_cons] at h
    rw [amountAt_cons]
    rcases List.mem_cons.mp hmem with heq | hrest
    · obtain ⟨rfl, rfl⟩ := Prod.mk.inj heq
      rw [if_pos rfl]
    · have hne : k ≠ k₀ := by
        rintro rfl
        exact h.1 (List.mem_map.mpr ⟨(k, total), hrest, rfl⟩)
      rw [if_neg hne]
      exact ih h.2 hrest

theorem amountAt_perm {terms' : Terms} (hperm : terms.Perm terms') (h : (keys terms).Nodup) (key : ℕ) :
    amountAt terms key = amountAt terms' key := by
  have h' : (keys terms').Nodup := (hperm.map Prod.fst).nodup_iff.mp h
  by_cases hkey : key ∈ keys terms
  · obtain ⟨⟨k, total⟩, hmem, rfl⟩ := List.mem_map.mp hkey
    rw [amountAt_of_mem h hmem, amountAt_of_mem h' (hperm.mem_iff.mp hmem)]
  · have hkey' : key ∉ keys terms' := fun hmem => hkey ((hperm.map Prod.fst).mem_iff.mpr hmem)
    rw [amountAt_eq_zero hkey, amountAt_eq_zero hkey']

/-- The terms by their keys. -/
def sorted (terms : Terms) : Terms := terms.insertionSort fun s t => s.1 ≤ t.1

theorem sorted_perm (terms : Terms) : (sorted terms).Perm terms := List.perm_insertionSort _ _

theorem keys_sorted_pairwise (h : (keys terms).Nodup) :
    (keys (sorted terms)).Pairwise (· < ·) := by
  have hle : (keys (sorted terms)).Pairwise (· ≤ ·) := by
    rw [keys, List.pairwise_map]
    exact List.pairwise_insertionSort (fun s t : ℕ × ℕ => s.1 ≤ t.1) terms
  have hnodup : (keys (sorted terms)).Nodup := ((sorted_perm terms).map Prod.fst).nodup_iff.mpr h
  exact (hle.and hnodup).imp fun h => lt_of_le_of_ne h.1 h.2

theorem exists_eq_cons_of_mem_keys (hsorted : (keys terms).Pairwise (· < ·)) {start : ℕ}
    (hle : ∀ k ∈ keys terms, start ≤ k) (hmem : start ∈ keys terms) :
    ∃ total rest, terms = (start, total) :: rest := by
  cases terms with
  | nil => exact absurd hmem List.not_mem_nil
  | cons t rest =>
    obtain ⟨k, total⟩ := t
    rw [keys, List.map_cons] at hsorted hmem hle
    have hk : start ≤ k := hle k List.mem_cons_self
    rcases List.mem_cons.mp hmem with heq | hrest
    · exact ⟨total, rest, by rw [heq]⟩
    · have hlt : k < start := (List.pairwise_cons.mp hsorted).1 start hrest
      omega

/-- **A fold over all the keys of a range is the fold over those that are there**, in their order, when its
step reads the key's amount and an amount of zero changes nothing. -/
theorem foldlM_range_eq {m : Type → Type} [Monad m] [LawfulMonad m] {β : Type} (step : β → ℕ → ℕ → m β)
    (hzero : ∀ b k, step b k 0 = pure b) (hsorted : (keys terms).Pairwise (· < ·)) {start n : ℕ}
    (hrange : ∀ k ∈ keys terms, start ≤ k ∧ k < start + n) {full : β → ℕ → m β}
    (hfull : ∀ k, start ≤ k → k < start + n → ∀ b, full b k = step b k (amountAt terms k)) (b : β) :
    (List.range' start n).foldlM full b = terms.foldlM (fun b t => step b t.1 t.2) b := by
  induction n generalizing start terms b with
  | zero =>
    have hnil : terms = [] := by
      cases terms with
      | nil => rfl
      | cons t rest =>
        have h := hrange t.1 (by simp [keys])
        omega
    subst hnil
    rfl
  | succ n ih =>
    rw [List.range'_succ, List.foldlM_cons, hfull start (le_refl start) (by omega)]
    by_cases hhead : start ∈ keys terms
    · -- the first key is there, and the rest of the range reads the rest of the terms
      obtain ⟨total, rest, rfl⟩ := exists_eq_cons_of_mem_keys hsorted (fun k hk => (hrange k hk).1) hhead
      rw [keys, List.map_cons, List.pairwise_cons] at hsorted
      rw [amountAt_cons, if_pos rfl, List.foldlM_cons]
      congr 1
      funext b'
      apply ih hsorted.2
      · intro k hk
        have h := hrange k (List.mem_cons_of_mem _ hk)
        have hlt : start < k := hsorted.1 k hk
        omega
      · intro k hstart hn b₀
        rw [hfull k (by omega) (by omega), amountAt_cons, if_neg (by omega)]
    · -- the first key is not there, and its step changes nothing
      rw [amountAt_eq_zero hhead, hzero, pure_bind]
      apply ih hsorted
      · intro k hk
        have h := hrange k hk
        have hne : k ≠ start := fun heq => hhead (heq ▸ hk)
        omega
      · intro k hstart hn
        exact hfull k (by omega) (by omega)

end SparseTotals
