/-
# The edit graph of two lists

A point `(x, y)` stands for the first `x` items of one list and the first `y` items of another.  Passing an
item that both lists have next is free; deleting an item of the first list or inserting one of the second
is an edit, and edits may lead out of the lists.  Diagonal `k` holds the points with `x - y = k`.

* `Align` : one list is got from another with so many edits;
* `lcs`, `lcs_isGreatest` : the length of the longest common sublist;
* `Align.le`, `align_lcs` : the fewest edits are those that keep a longest common sublist;
* `Reach` : the points reached with so many edits;
* `Furthest`, `furthest_succ` : the furthest point on a diagonal, from the two neighbours with one edit less.
-/
import Mathlib

namespace EditGraph

variable {α : Type*}

/-! ## Alignments and common sublists -/

/-- `Align a b d` : the list `b` is got from `a` with `d` deletions and insertions. -/
inductive Align : List α → List α → ℕ → Prop
  | nil : Align [] [] 0
  | keep {a b : List α} {d : ℕ} (item : α) : Align a b d → Align (item :: a) (item :: b) d
  | delete {a b : List α} {d : ℕ} (item : α) : Align a b d → Align (item :: a) b (d + 1)
  | insert {a b : List α} {d : ℕ} (item : α) : Align a b d → Align a (item :: b) (d + 1)

variable {d : ℕ}

/-- Whatever is deleted and inserted, a common sublist is kept. -/
theorem Align.exists_common {a b : List α} (h : Align a b d) :
    ∃ c : List α, c.Sublist a ∧ c.Sublist b ∧ d + 2 * c.length = a.length + b.length := by
  induction h with
  | nil => exact ⟨[], List.Sublist.slnil, List.Sublist.slnil, rfl⟩
  | keep item _ ih =>
    obtain ⟨c, ha, hb, hlen⟩ := ih
    refine ⟨item :: c, ha.cons_cons item, hb.cons_cons item, ?_⟩
    simp only [List.length_cons]
    omega
  | delete item _ ih =>
    obtain ⟨c, ha, hb, hlen⟩ := ih
    refine ⟨c, ha.cons item, hb, ?_⟩
    simp only [List.length_cons]
    omega
  | insert item _ ih =>
    obtain ⟨c, ha, hb, hlen⟩ := ih
    refine ⟨c, ha, hb.cons item, ?_⟩
    simp only [List.length_cons]
    omega

/-- Deleting everything. -/
theorem align_nil_right (a : List α) : Align a [] a.length := by
  induction a with
  | nil => exact .nil
  | cons item a ih => exact .delete item ih

/-- Inserting everything. -/
theorem align_nil_left (b : List α) : Align [] b b.length := by
  induction b with
  | nil => exact .nil
  | cons item b ih => exact .insert item ih

/-- Equal fronts are kept. -/
theorem Align.append_left {a b : List α} (front : List α) (h : Align a b d) :
    Align (front ++ a) (front ++ b) d := by
  induction front with
  | nil => exact h
  | cons item front ih => exact .keep item ih

section LongestCommon

variable [DecidableEq α]

/-- The length of the longest common sublist of two lists. -/
def lcs : List α → List α → ℕ
  | [], _ => 0
  | _ :: _, [] => 0
  | x :: a, y :: b => if x = y then lcs a b + 1 else max (lcs a (y :: b)) (lcs (x :: a) b)
termination_by a b => a.length + b.length

/-- Some alignment keeps `lcs` items. -/
theorem exists_align_lcs (a b : List α) :
    ∃ d, Align a b d ∧ d + 2 * lcs a b = a.length + b.length := by
  induction a, b using lcs.induct with
  | case1 b => exact ⟨b.length, align_nil_left b, by simp [lcs]⟩
  | case2 x a => exact ⟨(x :: a).length, align_nil_right _, by simp [lcs]⟩
  | case3 a x b ih =>
    obtain ⟨d, h, hlen⟩ := ih
    refine ⟨d, .keep x h, ?_⟩
    rw [lcs, if_pos rfl, List.length_cons, List.length_cons]
    omega
  | case4 x a y b hne ihleft ihright =>
    obtain ⟨d, h, hlen⟩ := ihleft
    obtain ⟨e, h', hlen'⟩ := ihright
    rw [lcs, if_neg hne]
    simp only [List.length_cons] at hlen hlen' ⊢
    rcases le_total (lcs a (y :: b)) (lcs (x :: a) b) with hle | hle
    · refine ⟨e + 1, .insert y h', ?_⟩
      rw [max_eq_right hle]
      omega
    · refine ⟨d + 1, .delete x h, ?_⟩
      rw [max_eq_left hle]
      omega

/-- No common sublist is longer than `lcs`. -/
theorem length_le_lcs {a b c : List α} (ha : c.Sublist a) (hb : c.Sublist b) : c.length ≤ lcs a b := by
  induction a, b using lcs.induct generalizing c with
  | case1 b => simp [List.sublist_nil.mp ha]
  | case2 x a => simp [List.sublist_nil.mp hb]
  | case3 a x b ih =>
    rw [lcs, if_pos rfl]
    cases c with
    | nil => exact Nat.zero_le _
    | cons z c => exact Nat.succ_le_succ (ih (List.Sublist.tail ha) (List.Sublist.tail hb))
  | case4 x a y b hne ihleft ihright =>
    rw [lcs, if_neg hne]
    -- the two lists start with different items, so one of the two is not the first of the sublist
    rcases List.sublist_cons_iff.mp ha with ha' | ⟨c', rfl, ha'⟩
    · exact (ihleft ha' hb).trans (le_max_left _ _)
    · rcases List.sublist_cons_iff.mp hb with hb' | ⟨c'', heq, -⟩
      · exact (ihright ha hb').trans (le_max_right _ _)
      · exact absurd (List.cons.inj heq).1 hne

/-- An alignment takes at least the edits that a longest common sublist leaves. -/
theorem Align.le {a b : List α} {d : ℕ} (h : Align a b d) : a.length + b.length ≤ d + 2 * lcs a b := by
  obtain ⟨c, ha, hb, hlen⟩ := h.exists_common
  have hc := length_le_lcs ha hb
  omega

end LongestCommon

/-! ## Points of the graph -/

/-- The item at a position; a negative position has none. -/
def itemAt (l : List α) (x : ℤ) : Option α := if 0 ≤ x then l[x.toNat]? else none

theorem itemAt_natCast (l : List α) (i : ℕ) : itemAt l i = l[i]? := by
  rw [itemAt, if_pos (Int.natCast_nonneg i), Int.toNat_natCast]

variable {l : List α} {x : ℤ}

theorem itemAt_eq_none_iff : itemAt l x = none ↔ x < 0 ∨ l.length ≤ x := by
  rw [itemAt]
  split
  · rw [List.getElem?_eq_none_iff]
    omega
  · exact iff_of_true rfl (by omega)

variable {item : α}

theorem itemAt_bounds (h : itemAt l x = some item) :
    0 ≤ x ∧ x < l.length := by
  by_contra hout
  rw [itemAt_eq_none_iff.mpr (by omega)] at h
  cases h

theorem exists_itemAt (h0 : 0 ≤ x) (hx : x < l.length) : ∃ item, itemAt l x = some item := by
  refine Option.ne_none_iff_exists'.mp fun hnone => ?_
  have := itemAt_eq_none_iff.mp hnone
  omega

theorem drop_eq_cons_of_itemAt (h : itemAt l x = some item) :
    l.drop x.toNat = item :: l.drop (x + 1).toNat := by
  obtain ⟨h0, hx⟩ := itemAt_bounds h
  rw [itemAt, if_pos h0, List.getElem?_eq_some_iff] at h
  obtain ⟨hlt, hget⟩ := h
  rw [List.drop_eq_getElem_cons hlt, hget, show (x + 1).toNat = x.toNat + 1 by omega]

theorem itemAt_of_drop_eq_cons {rest : List α} (h0 : 0 ≤ x) (h : l.drop x.toNat = item :: rest) :
    itemAt l x = some item ∧ x + 1 ≤ l.length ∧ l.drop (x + 1).toNat = rest := by
  have hlt : x.toNat < l.length := by
    by_contra hle
    rw [List.drop_eq_nil_iff.mpr (by omega)] at h
    cases h
  rw [List.drop_eq_getElem_cons hlt, List.cons.injEq] at h
  refine ⟨?_, by omega, ?_⟩
  · rw [itemAt, if_pos h0, List.getElem?_eq_getElem hlt, h.1]
  · rw [show (x + 1).toNat = x.toNat + 1 by omega, h.2]

theorem take_succ_of_itemAt (h : itemAt l x = some item) :
    l.take (x + 1).toNat = l.take x.toNat ++ [item] := by
  have h0 := (itemAt_bounds h).1
  rw [itemAt, if_pos h0] at h
  rw [show (x + 1).toNat = x.toNat + 1 by omega, List.take_add_one, h, Option.toList_some]

/-- `Reach a b d x y` : the point `(x, y)` is reached with `d` edits, maybe beyond the ends of the lists. -/
inductive Reach (a b : List α) : ℕ → ℤ → ℤ → Prop
  | start : Reach a b 0 0 0
  | keep {d : ℕ} {x y : ℤ} (item : α) : Reach a b d x y → itemAt a x = some item → itemAt b y = some item →
      Reach a b d (x + 1) (y + 1)
  | delete {d : ℕ} {x y : ℤ} : Reach a b d x y → Reach a b (d + 1) (x + 1) y
  | insert {d : ℕ} {x y : ℤ} : Reach a b d x y → Reach a b (d + 1) x (y + 1)

variable {a b : List α}

variable {y : ℤ}

theorem Reach.nonneg (h : Reach a b d x y) : 0 ≤ x ∧ 0 ≤ y := by
  induction h with
  | start => exact ⟨le_rfl, le_rfl⟩
  | keep _ _ _ _ ih => omega
  | delete _ ih => omega
  | insert _ ih => omega

/-- With `d` edits, `i` of them deletions, the diagonal is `i - (d - i)`. -/
theorem Reach.diagonal (h : Reach a b d x y) : ∃ i : ℕ, i ≤ d ∧ x - y = 2 * i - d := by
  induction h with
  | start => exact ⟨0, le_rfl, by simp⟩
  | keep _ _ _ _ ih =>
    obtain ⟨i, hi, hk⟩ := ih
    exact ⟨i, hi, by omega⟩
  | delete _ ih =>
    obtain ⟨i, hi, hk⟩ := ih
    exact ⟨i + 1, by omega, by push_cast; omega⟩
  | insert _ ih =>
    obtain ⟨i, hi, hk⟩ := ih
    exact ⟨i, by omega, by push_cast; omega⟩

/-- Beyond the ends there is nothing to keep: each item there has cost an edit, which need not be made. -/
theorem Reach.clip (h : Reach a b d x y) :
    ∃ e : ℕ, Reach a b e (min x a.length) (min y b.length) ∧
      (d : ℤ) = e + (x - min x a.length) + (y - min y b.length) := by
  induction h with
  | start => exact ⟨0, by simpa using Reach.start, by simp⟩
  | @keep d x y item _ ha hb ih =>
    obtain ⟨e, he, hsum⟩ := ih
    have hx := itemAt_bounds ha
    have hy := itemAt_bounds hb
    rw [min_eq_left (by omega), min_eq_left (by omega)] at he hsum
    refine ⟨e, ?_, ?_⟩
    · rw [min_eq_left (by omega), min_eq_left (by omega)]
      exact he.keep item ha hb
    · omega
  | @delete d x y _ ih =>
    obtain ⟨e, he, hsum⟩ := ih
    by_cases hx : x < a.length
    · refine ⟨e + 1, ?_, by push_cast; omega⟩
      rw [show min (x + 1) (a.length : ℤ) = min x a.length + 1 by omega]
      exact he.delete
    · refine ⟨e, ?_, by push_cast; omega⟩
      rwa [show min (x + 1) (a.length : ℤ) = min x a.length by omega]
  | @insert d x y _ ih =>
    obtain ⟨e, he, hsum⟩ := ih
    by_cases hy : y < b.length
    · refine ⟨e + 1, ?_, by push_cast; omega⟩
      rw [show min (y + 1) (b.length : ℤ) = min y b.length + 1 by omega]
      exact he.insert
    · refine ⟨e, ?_, by push_cast; omega⟩
      rwa [show min (y + 1) (b.length : ℤ) = min y b.length by omega]

variable {e : ℕ}

/-- An alignment of what is left leads to the end of both lists. -/
theorem Reach.finish {restA restB : List α} (halign : Align restA restB e) (h : Reach a b d x y)
    (ha : a.drop x.toNat = restA) (hb : b.drop y.toNat = restB) (hx : x ≤ a.length) (hy : y ≤ b.length) :
    Reach a b (d + e) a.length b.length := by
  have hnonneg := h.nonneg
  induction halign generalizing d x y with
  | nil =>
    have hxa := List.drop_eq_nil_iff.mp ha
    have hyb := List.drop_eq_nil_iff.mp hb
    rwa [show x = a.length by omega, show y = b.length by omega] at h
  | @keep restA restB e item _ ih =>
    obtain ⟨hgeta, hxa, hresta⟩ := itemAt_of_drop_eq_cons hnonneg.1 ha
    obtain ⟨hgetb, hyb, hrestb⟩ := itemAt_of_drop_eq_cons hnonneg.2 hb
    exact ih (h.keep item hgeta hgetb) hresta hrestb hxa hyb (by omega)
  | @delete restA restB e item _ ih =>
    obtain ⟨-, hxa, hresta⟩ := itemAt_of_drop_eq_cons hnonneg.1 ha
    rw [show d + (e + 1) = d + 1 + e by omega]
    exact ih h.delete hresta hb hxa hy (by omega)
  | @insert restA restB e item _ ih =>
    obtain ⟨-, hyb, hrestb⟩ := itemAt_of_drop_eq_cons hnonneg.2 hb
    rw [show d + (e + 1) = d + 1 + e by omega]
    exact ih h.insert ha hrestb hx hyb (by omega)

/-- A path to the end takes at least the edits that a longest common sublist leaves. -/
theorem Reach.exists_common (h : Reach a b d x y) (hx : x ≤ a.length) (hy : y ≤ b.length) :
    ∃ c : List α, c.Sublist (a.take x.toNat) ∧ c.Sublist (b.take y.toNat) ∧ x + y = d + 2 * c.length := by
  induction h with
  | start => exact ⟨[], List.nil_sublist _, List.nil_sublist _, by simp⟩
  | @keep d x y item hreach ha hb ih =>
    obtain ⟨c, hca, hcb, hlen⟩ := ih (by omega) (by omega)
    refine ⟨c ++ [item], ?_, ?_, ?_⟩
    · rw [take_succ_of_itemAt ha]
      exact hca.append_right [item]
    · rw [take_succ_of_itemAt hb]
      exact hcb.append_right [item]
    · rw [List.length_append, List.length_singleton]
      push_cast
      omega
  | @delete d x y hreach ih =>
    obtain ⟨c, hca, hcb, hlen⟩ := ih (by omega) hy
    refine ⟨c, hca.trans (List.take_sublist_take_left (by omega)), hcb, ?_⟩
    push_cast
    omega
  | @insert d x y hreach ih =>
    obtain ⟨c, hca, hcb, hlen⟩ := ih hx (by omega)
    refine ⟨c, hca, hcb.trans (List.take_sublist_take_left (by omega)), ?_⟩
    push_cast
    omega

section LongestCommon

variable [DecidableEq α]

/-- The end is reached with the edits that a longest common sublist leaves. -/
theorem exists_reach_lcs (a b : List α) :
    ∃ d, Reach a b d a.length b.length ∧ d + 2 * lcs a b = a.length + b.length := by
  obtain ⟨d, h, hlen⟩ := exists_align_lcs a b
  refine ⟨d, ?_, hlen⟩
  simpa using Reach.start.finish h rfl rfl (Int.natCast_nonneg _) (Int.natCast_nonneg _)

/-- No path to the end takes fewer edits. -/
theorem Reach.le {d : ℕ} (h : Reach a b d a.length b.length) : a.length + b.length ≤ d + 2 * lcs a b := by
  obtain ⟨c, hca, hcb, hlen⟩ := h.exists_common le_rfl le_rfl
  have hc := length_le_lcs (hca.trans (List.take_sublist _ _)) (hcb.trans (List.take_sublist _ _))
  omega

end LongestCommon

/-! ## Furthest points -/

/-- From `(x, y)` the next `len` items of both lists are the same. -/
def Keeps (a b : List α) (x y : ℤ) (len : ℕ) : Prop :=
  ∀ i < len, ∃ item, itemAt a (x + i) = some item ∧ itemAt b (y + i) = some item

theorem Keeps.zero (x y : ℤ) : Keeps a b x y 0 := fun _ hi => absurd hi (Nat.not_lt_zero _)

variable {len : ℕ}

theorem Keeps.succ (ha : itemAt a x = some item) (hb : itemAt b y = some item)
    (h : Keeps a b (x + 1) (y + 1) len) : Keeps a b x y (len + 1) := by
  intro i hi
  cases i with
  | zero => exact ⟨item, by simpa using ha, by simpa using hb⟩
  | succ i =>
    obtain ⟨next, hna, hnb⟩ := h i (by omega)
    refine ⟨next, ?_, ?_⟩
    · rw [← hna]
      congr 1
      push_cast
      ring
    · rw [← hnb]
      congr 1
      push_cast
      ring

theorem Reach.keeps (h : Reach a b d x y) (hkeeps : Keeps a b x y len) :
    Reach a b d (x + len) (y + len) := by
  induction len with
  | zero => simpa using h
  | succ len ih =>
    obtain ⟨item, ha, hb⟩ := hkeeps len (Nat.lt_succ_self len)
    have := (ih fun i hi => hkeeps i (by omega)).keep item ha hb
    push_cast
    rwa [← add_assoc, ← add_assoc]

/-- `Stops a b x y` : no item can be kept at `(x, y)`. -/
def Stops (a b : List α) (x y : ℤ) : Prop :=
  ∀ item, ¬ (itemAt a x = some item ∧ itemAt b y = some item)

/-- The furthest point on diagonal `k` that `d` edits reach. -/
structure Furthest (a b : List α) (d : ℕ) (k x : ℤ) : Prop where
  reach : Reach a b d x (x - k)
  le : ∀ x', Reach a b d x' (x' - k) → x' ≤ x

variable {k x' : ℤ}

theorem Furthest.unique (h : Furthest a b d k x) (h' : Furthest a b d k x') : x = x' :=
  le_antisymm (h'.le x h.reach) (h.le x' h'.reach)

/-- Where the last edit can end on diagonal `k`: `x` is the furthest of such points. -/
structure Lands (a b : List α) (d : ℕ) (k x : ℤ) : Prop where
  reach : Reach a b d x (x - k)
  start : d = 0 → x = 0
  delete : ∀ e x', d = e + 1 → Reach a b e x' (x' - (k - 1)) → x' + 1 ≤ x
  insert : ∀ e x', d = e + 1 → Reach a b e x' (x' - (k + 1)) → x' ≤ x

variable {p : ℤ}

/-- An insertion from the furthest point of the diagonal above. -/
theorem Furthest.lands_insert (h : Furthest a b e (k + 1) p)
    (hbelow : ∀ x, Reach a b e x (x - (k - 1)) → x + 1 ≤ p) : Lands a b (e + 1) k p where
  reach := by
    have hstep := h.reach.insert
    rwa [show p - (k + 1) + 1 = p - k by ring] at hstep
  start := fun hd => absurd hd (Nat.succ_ne_zero e)
  delete := by
    rintro e' x heq hreach
    obtain rfl : e = e' := by omega
    exact hbelow x hreach
  insert := by
    rintro e' x heq hreach
    obtain rfl : e = e' := by omega
    exact h.le x hreach

/-- A deletion from the furthest point of the diagonal below. -/
theorem Furthest.lands_delete (h : Furthest a b e (k - 1) p)
    (habove : ∀ x, Reach a b e x (x - (k + 1)) → x ≤ p + 1) : Lands a b (e + 1) k (p + 1) where
  reach := by
    have hstep := h.reach.delete
    rwa [show p - (k - 1) = p + 1 - k by ring] at hstep
  start := fun hd => absurd hd (Nat.succ_ne_zero e)
  delete := by
    rintro e' x heq hreach
    obtain rfl : e = e' := by omega
    have := h.le x hreach
    omega
  insert := by
    rintro e' x heq hreach
    obtain rfl : e = e' := by omega
    exact habove x hreach

theorem Lands.le (h : Lands a b d k x) (hstops : Stops a b (x + len) (x - k + len)) {y' : ℤ}
    (hreach : Reach a b d x' y') (hk : x' - y' = k) :
    x' ≤ x + len := by
  generalize hd : d = d' at hreach
  induction hreach with
  | start =>
    rw [h.start hd]
    omega
  | @keep e x' y' item _ ha hb ih =>
    have hle := ih (by omega) hd
    -- a point that keeps one more item is not the one where the run stops
    have hne : x' ≠ x + len := by
      rintro rfl
      rw [show y' = x - k + len by omega] at hb
      exact hstops item ⟨ha, hb⟩
    omega
  | @delete e x' y' hreach _ =>
    rw [show y' = x' - (k - 1) by omega] at hreach
    have := h.delete e x' hd hreach
    omega
  | @insert e x' y' hreach _ =>
    rw [show y' = x' - (k + 1) by omega] at hreach
    have := h.insert e x' hd hreach
    omega

/-- What the furthest landing keeps leads to the furthest point. -/
theorem Lands.furthest (h : Lands a b d k x) (hkeeps : Keeps a b x (x - k) len)
    (hstops : Stops a b (x + len) (x - k + len)) :
    Furthest a b d k (x + len) := by
  constructor
  · have hend := h.reach.keeps hkeeps
    rwa [show x - k + (len : ℤ) = x + len - k by ring] at hend
  · intro x' hx'
    exact h.le hstops hx' (by omega)

/-- Without an edit the fronts passed are the same. -/
theorem Reach.take_eq (h : Reach a b 0 x y) : x = y ∧ a.take x.toNat = b.take y.toNat := by
  generalize hd : 0 = d at h
  induction h with
  | start => exact ⟨rfl, by simp⟩
  | keep item _ ha hb ih =>
    obtain ⟨rfl, htake⟩ := ih hd
    refine ⟨rfl, ?_⟩
    rw [take_succ_of_itemAt ha, take_succ_of_itemAt hb, htake]
  | delete => omega
  | insert => omega

/-- A point beyond or at the end of both lists, when no fewer edits reach the end, is the end. -/
theorem Reach.eq_end (h : Reach a b d x y) (hx : a.length ≤ x) (hy : b.length ≤ y)
    (hleast : ∀ e < d, ¬ Reach a b e a.length b.length) : x = a.length ∧ y = b.length := by
  obtain ⟨e, he, hsum⟩ := h.clip
  rw [min_eq_right hx, min_eq_right hy] at he hsum
  have hed : ¬ e < d := fun hlt => hleast e hlt he
  omega

/-- With the fewest edits that reach it, the end is the furthest point of its diagonal. -/
theorem Reach.furthest_end (h : Reach a b d a.length b.length)
    (hleast : ∀ e < d, ¬ Reach a b e a.length b.length) :
    Furthest a b d ((a.length : ℤ) - b.length) a.length where
  reach := by rwa [sub_sub_cancel]
  le := by
    intro x hx
    by_contra hlt
    have := hx.eq_end (by omega) (by omega) hleast
    omega

end EditGraph
