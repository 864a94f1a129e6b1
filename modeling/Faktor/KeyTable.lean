/-
# Tables with a primary key

A table whose rows carry their key: a list of rows, no two of which have one key.  The operations
are those of a relational store: `insert` refuses a key that is taken, `updateWhere` rewrites the
rows that a condition selects without touching their keys, `deleteWhere` removes such rows.  The
table reads as a partial map (`get?`), and a quantity of its rows adds up (`total`).

Nothing here depends on what the rows are.
-/
import Mathlib

/-- Rows no two of which have the same key. -/
structure KeyTable {α κ : Type} (key : α → κ) where
  rows : List α
  nodup : (rows.map key).Nodup

namespace KeyTable

variable {α κ : Type} {key : α → κ}

/-- The table without rows. -/
def empty : KeyTable key where
  rows := []
  nodup := List.nodup_nil

variable {t : KeyTable key}

/-- A table is its rows. -/
theorem ext_rows {u : KeyTable key} (h : t.rows = u.rows) : t = u := by
  cases t
  cases u
  cases h
  rfl

/-- The rows that a condition selects: `SELECT … WHERE`. -/
def select (t : KeyTable key) (p : α → Bool) : List α := t.rows.filter p

/-- `UPDATE … SET … WHERE`: the assignment does not touch the key. -/
def updateWhere (t : KeyTable key) (p : α → Bool) (f : α → α) (hf : ∀ a, key (f a) = key a) :
    KeyTable key where
  rows := t.rows.map fun a => if p a then f a else a
  nodup := by
    have hkeys : (t.rows.map fun a => if p a then f a else a).map key = t.rows.map key := by
      rw [List.map_map]
      apply List.map_congr_left
      intro a _
      show key (if p a then f a else a) = key a
      split
      · exact hf a
      · rfl
    rw [hkeys]
    exact t.nodup

/-- `DELETE … WHERE`. -/
def deleteWhere (t : KeyTable key) (p : α → Bool) : KeyTable key where
  rows := t.rows.filter fun a => !p a
  nodup := t.nodup.sublist (List.filter_sublist.map key)

/-- A quantity of the rows, added up. -/
def total (t : KeyTable key) (g : α → ℕ) : ℕ := (t.rows.map g).sum

variable {p : α → Bool} {a : α}

theorem mem_select :
    a ∈ t.select p ↔ a ∈ t.rows ∧ p a = true := List.mem_filter

variable {b : α}

theorem mem_updateWhere {f : α → α} {hf : ∀ a, key (f a) = key a} :
    b ∈ (t.updateWhere p f hf).rows ↔ ∃ a ∈ t.rows, b = if p a then f a else a := by
  rw [updateWhere, List.mem_map]
  constructor
  · rintro ⟨a, ha, rfl⟩
    exact ⟨a, ha, rfl⟩
  · rintro ⟨a, ha, rfl⟩
    exact ⟨a, ha, rfl⟩

theorem mem_deleteWhere :
    a ∈ (t.deleteWhere p).rows ↔ a ∈ t.rows ∧ p a = false := by
  rw [deleteWhere, List.mem_filter, Bool.not_eq_true']

/-- Two rows of one key are one row. -/
theorem eq_of_key_eq (ha : a ∈ t.rows) (hb : b ∈ t.rows) (h : key a = key b) :
    a = b := List.inj_on_of_nodup_map t.nodup ha hb h

section Lookup

variable [DecidableEq κ]

/-- The row of a key. -/
def get? (t : KeyTable key) (k : κ) : Option α := t.rows.find? fun a => key a = k

/-- `INSERT`: none when the key is taken. -/
def insert? (t : KeyTable key) (a : α) : Option (KeyTable key) :=
  if h : key a ∈ t.rows.map key then none
  else some
    { rows := t.rows ++ [a]
      nodup := by
        rw [List.map_append, List.map_cons, List.map_nil]
        exact t.nodup.append (List.nodup_singleton _) (by simpa using h) }

variable {t : KeyTable key} {k : κ} {a : α}

theorem get?_eq_some :
    t.get? k = some a ↔ a ∈ t.rows ∧ key a = k := by
  constructor
  · intro h
    exact ⟨List.mem_of_find?_eq_some h, by simpa using List.find?_some h⟩
  · rintro ⟨ha, rfl⟩
    cases hfind : t.get? (key a) with
    | none =>
      exact absurd (List.find?_eq_none.mp hfind a ha) (by simp)
    | some b =>
      have hkey : key b = key a := by simpa using List.find?_some hfind
      rw [eq_of_key_eq (List.mem_of_find?_eq_some hfind) ha hkey]

theorem get?_of_mem (h : a ∈ t.rows) : t.get? (key a) = some a :=
  get?_eq_some.mpr ⟨h, rfl⟩

theorem get?_eq_none : t.get? k = none ↔ ∀ a ∈ t.rows, key a ≠ k := by
  rw [get?, List.find?_eq_none]
  simp

@[simp] theorem get?_empty (k : κ) : (empty : KeyTable key).get? k = none := rfl

variable {u : KeyTable key}

/-- What an insert does: the key was free and the row is the last one. -/
theorem insert?_eq_some :
    t.insert? a = some u ↔ t.get? (key a) = none ∧ u.rows = t.rows ++ [a] := by
  rw [insert?, get?_eq_none]
  by_cases h : key a ∈ t.rows.map key
  · rw [dif_pos h]
    obtain ⟨b, hb, hkey⟩ := List.mem_map.mp h
    constructor
    · intro habsurd
      cases habsurd
    · rintro ⟨hfree, -⟩
      exact absurd hkey (hfree b hb)
  · rw [dif_neg h]
    constructor
    · rintro ⟨rfl⟩
      exact ⟨fun b hb hkey => h (List.mem_map.mpr ⟨b, hb, hkey⟩), rfl⟩
    · rintro ⟨-, hrows⟩
      exact congrArg some (ext_rows hrows.symm)

theorem insert?_eq_none :
    t.insert? a = none ↔ ∃ b, t.get? (key a) = some b := by
  rw [← Option.ne_none_iff_exists', Ne, get?_eq_none, insert?]
  split
  · next h =>
    obtain ⟨b, hb, hkey⟩ := List.mem_map.mp h
    exact iff_of_true rfl fun hfree => hfree b hb hkey
  · next h =>
    refine iff_of_false (by simp) (not_not.mpr fun b hb hkey => ?_)
    exact h (List.mem_map.mpr ⟨b, hb, hkey⟩)

theorem get?_insert (h : t.insert? a = some u) (k : κ) :
    u.get? k = if key a = k then some a else t.get? k := by
  obtain ⟨hfree, hrows⟩ := insert?_eq_some.mp h
  rw [get?, hrows, List.find?_append]
  by_cases hk : key a = k
  · subst hk
    rw [if_pos rfl]
    show (t.get? (key a)).or _ = _
    rw [hfree]
    simp
  · rw [if_neg hk]
    show (t.get? k).or _ = _
    rw [List.find?_cons_of_neg (by simpa using hk), List.find?_nil, Option.or_none]

theorem get?_updateWhere (t : KeyTable key) (p : α → Bool) (f : α → α)
    (hf : ∀ a, key (f a) = key a) (k : κ) :
    (t.updateWhere p f hf).get? k = (t.get? k).map fun a => if p a then f a else a := by
  have hkey : ∀ a, key (if p a then f a else a) = key a := by
    intro a
    split
    · exact hf a
    · rfl
  rw [get?, get?, updateWhere, List.find?_map]
  congr 1
  apply congrFun
  apply congrArg
  funext a
  simp [hkey]

theorem get?_deleteWhere (t : KeyTable key) (p : α → Bool) (k : κ) :
    (t.deleteWhere p).get? k = (t.get? k).filter fun a => !p a := by
  cases hget : t.get? k with
  | none =>
    rw [get?_eq_none] at hget
    rw [Option.filter_none, get?_eq_none]
    intro a ha
    exact hget a (mem_deleteWhere.mp ha).1
  | some a =>
    obtain ⟨ha, rfl⟩ := get?_eq_some.mp hget
    by_cases hp : p a = true
    · rw [Option.filter_some, if_neg (by simp [hp]), get?_eq_none]
      intro b hb hkey
      obtain ⟨hb, hpb⟩ := mem_deleteWhere.mp hb
      rw [eq_of_key_eq hb ha hkey, hp] at hpb
      cases hpb
    · have hp' : p a = false := by simpa using hp
      rw [Option.filter_some, if_pos (by simp [hp'])]
      exact get?_of_mem (mem_deleteWhere.mpr ⟨ha, hp'⟩)

/-- `UPDATE` of the row of one key. -/
def modify (t : KeyTable key) (k : κ) (f : α → α) (hf : ∀ a, key (f a) = key a) : KeyTable key :=
  t.updateWhere (fun a => key a = k) f hf

/-- `DELETE` of the row of one key. -/
def erase (t : KeyTable key) (k : κ) : KeyTable key := t.deleteWhere fun a => key a = k

variable {b : α}

theorem mem_modify (t : KeyTable key) (k : κ) (f : α → α) (hf : ∀ a, key (f a) = key a) :
    b ∈ (t.modify k f hf).rows ↔ ∃ a ∈ t.rows, b = if key a = k then f a else a := by
  rw [modify, mem_updateWhere]
  simp

theorem get?_modify (t : KeyTable key) (k : κ) (f : α → α) (hf : ∀ a, key (f a) = key a) (j : κ) :
    (t.modify k f hf).get? j = if j = k then (t.get? j).map f else t.get? j := by
  rw [modify, get?_updateWhere]
  cases hget : t.get? j with
  | none => simp
  | some a =>
    obtain ⟨-, rfl⟩ := get?_eq_some.mp hget
    by_cases h : key a = k <;> simp [h]

theorem get?_erase (t : KeyTable key) (k j : κ) :
    (t.erase k).get? j = if j = k then none else t.get? j := by
  rw [erase, get?_deleteWhere]
  cases hget : t.get? j with
  | none => simp
  | some a =>
    obtain ⟨-, rfl⟩ := get?_eq_some.mp hget
    by_cases h : key a = k <;> simp [h]

/-- An update of one key keeps the other rows. -/
theorem modify_perm (h : t.get? k = some a) (f : α → α) (hf : ∀ a, key (f a) = key a) :
    (t.modify k f hf).rows.Perm (f a :: (t.erase k).rows) := by
  obtain ⟨ha, rfl⟩ := get?_eq_some.mp h
  have hnodup : (f a :: (t.erase (key a)).rows).Nodup := by
    refine List.nodup_cons.mpr ⟨fun hmem => ?_, (t.erase (key a)).nodup.of_map⟩
    have hkey := (mem_deleteWhere.mp hmem).2
    simp [hf] at hkey
  rw [List.perm_ext_iff_of_nodup (t.modify (key a) f hf).nodup.of_map hnodup]
  intro b
  rw [mem_modify, List.mem_cons, erase, mem_deleteWhere, decide_eq_false_iff_not]
  constructor
  · rintro ⟨c, hc, rfl⟩
    by_cases hkey : key c = key a
    · rw [if_pos hkey, eq_of_key_eq hc ha hkey]
      exact .inl rfl
    · rw [if_neg hkey]
      exact .inr ⟨hc, hkey⟩
  · rintro (rfl | ⟨hb, hkey⟩)
    · exact ⟨a, ha, (if_pos rfl).symm⟩
    · exact ⟨b, hb, (if_neg hkey).symm⟩

/-- `INSERT OR REPLACE`: the row of the key, if there is one, makes way. -/
def put (t : KeyTable key) (a : α) : KeyTable key where
  rows := (t.erase (key a)).rows ++ [a]
  nodup := by
    rw [List.map_append, List.map_cons, List.map_nil]
    refine (t.erase (key a)).nodup.append (List.nodup_singleton _) ?_
    intro k hk hsingle
    obtain ⟨b, hb, rfl⟩ := List.mem_map.mp hk
    have hkey := (mem_deleteWhere.mp hb).2
    rw [List.mem_singleton.mp hsingle] at hkey
    simp at hkey

/-- `UPDATE` of the whole row of a key. -/
def replace (t : KeyTable key) (a : α) : KeyTable key where
  rows := t.rows.map fun b => if key b = key a then a else b
  nodup := by
    have hkeys : (t.rows.map fun b => if key b = key a then a else b).map key = t.rows.map key := by
      rw [List.map_map]
      apply List.map_congr_left
      intro b _
      show key (if key b = key a then a else b) = key b
      split
      · next h => exact h.symm
      · rfl
    rw [hkeys]
    exact t.nodup

theorem mem_put :
    b ∈ (t.put a).rows ↔ b ∈ t.rows ∧ key b ≠ key a ∨ b = a := by
  rw [put, List.mem_append, erase, mem_deleteWhere, List.mem_singleton, decide_eq_false_iff_not]

theorem get?_put (t : KeyTable key) (a : α) (k : κ) :
    (t.put a).get? k = if key a = k then some a else t.get? k := by
  split
  · next h => exact get?_eq_some.mpr ⟨mem_put.mpr (.inr rfl), h⟩
  · next h =>
    rw [get?, put, List.find?_append]
    show ((t.erase (key a)).get? k).or _ = _
    rw [get?_erase, if_neg (Ne.symm h), List.find?_cons_of_neg (by simpa using h), List.find?_nil,
      Option.or_none]

theorem get?_replace (t : KeyTable key) (a : α) (k : κ) :
    (t.replace a).get? k = if key a = k then (t.get? k).map fun _ => a else t.get? k := by
  rw [get?, replace, List.find?_map]
  have hfind : (t.rows.find? ((fun b => decide (key b = k)) ∘ fun b => if key b = key a then a else b))
      = t.get? k := by
    rw [get?]
    congr 1
    funext b
    by_cases hb : key b = key a <;> simp [hb]
  rw [hfind]
  cases hget : t.get? k with
  | none => simp
  | some b =>
    obtain ⟨-, rfl⟩ := get?_eq_some.mp hget
    by_cases h : key a = key b
    · simp [h]
    · simp [h, Ne.symm h]

variable {p : α → Bool}

/-- A search that neither the row nor the one it replaces answers. -/
theorem find?_put (ha : p a = false) (hold : ∀ b ∈ t.rows, key b = key a → p b = false) :
    (t.put a).rows.find? p = t.rows.find? p := by
  rw [put, List.find?_append, List.find?_cons_of_neg (by simp [ha]), List.find?_nil, Option.or_none,
    erase, deleteWhere, List.find?_filter]
  apply List.find?_congr
  intro b hb
  by_cases hkey : key b = key a
  · simp [hkey, hold b hb hkey]
  · simp [hkey]

/-- A search that answers for the row exactly when it answers for the one it replaces. -/
theorem find?_replace (hold : ∀ b ∈ t.rows, key b = key a → p a = p b) :
    ((t.replace a).rows.find? p).map key = (t.rows.find? p).map key := by
  have hfind : t.rows.find? (p ∘ fun b => if key b = key a then a else b) = t.rows.find? p := by
    apply List.find?_congr
    intro b hb
    by_cases hkey : key b = key a
    · simp [hkey, hold b hb hkey]
    · simp [hkey]
  rw [replace, List.find?_map, hfind, Option.map_map]
  cases hfound : t.rows.find? p with
  | none => rfl
  | some b =>
    by_cases hkey : key b = key a
    · simp [hkey]
    · simp [hkey]

/-! ### Sums -/

/-- The sum over the selected rows counts the others as zero. -/
theorem sum_select (t : KeyTable key) (p : α → Bool) (g : α → ℕ) :
    ((t.select p).map g).sum = t.total fun a => if p a then g a else 0 := by
  rw [select, total]
  induction t.rows with
  | nil => rfl
  | cons a rest ih =>
    by_cases hp : p a = true
    · rw [List.filter_cons_of_pos hp, List.map_cons, List.map_cons, List.sum_cons, List.sum_cons, ih,
        if_pos hp]
    · rw [List.filter_cons_of_neg hp, List.map_cons, List.sum_cons, ih, if_neg hp, Nat.zero_add]

/-- A sum in which the row of one key counts otherwise. -/
theorem sum_map_ite {rows : List α} (hnodup : (rows.map key).Nodup) (ha : a ∈ rows) (f g : α → ℕ) :
    (rows.map fun b => if key b = key a then f b else g b).sum + g a
      = (rows.map g).sum + f a := by
  induction rows with
  | nil => cases ha
  | cons b rest ih =>
    rw [List.map_cons, List.nodup_cons] at hnodup
    obtain ⟨hb, hrest⟩ := hnodup
    simp only [List.map_cons, List.sum_cons]
    rcases List.mem_cons.mp ha with rfl | ha
    · -- no later row has the key
      have hsame : (rest.map fun c => if key c = key a then f c else g c) = rest.map g := by
        apply List.map_congr_left
        intro c hc
        rw [if_neg]
        intro hkey
        exact hb (List.mem_map.mpr ⟨c, hc, hkey⟩)
      rw [hsame, if_pos rfl]
      omega
    · have hne : key b ≠ key a := by
        intro hkey
        exact hb (List.mem_map.mpr ⟨a, ha, hkey.symm⟩)
      rw [if_neg hne]
      have := ih hrest ha
      omega

theorem total_insert (h : t.insert? a = some u) (g : α → ℕ) :
    u.total g = t.total g + g a := by
  rw [total, (insert?_eq_some.mp h).2, List.map_append, List.sum_append]
  simp [total]

theorem total_modify (h : t.get? k = some a) (f : α → α) (hf : ∀ a, key (f a) = key a) (g : α → ℕ) :
    (t.modify k f hf).total g + g a = t.total g + g (f a) := by
  obtain ⟨ha, rfl⟩ := get?_eq_some.mp h
  have hsum := sum_map_ite t.nodup ha (fun b => g (f b)) g
  rw [total, total, ← hsum, modify, updateWhere, List.map_map]
  congr 3
  funext b
  by_cases hb : key b = key a <;> simp [hb]

theorem total_erase (h : t.get? k = some a) (g : α → ℕ) :
    (t.erase k).total g + g a = t.total g := by
  obtain ⟨ha, rfl⟩ := get?_eq_some.mp h
  have hsum := sum_map_ite t.nodup ha (fun _ => 0) g
  have hfilter : (t.erase (key a)).total g
      = (t.rows.map fun b => if key b = key a then 0 else g b).sum := by
    show ((t.rows.filter fun b => !decide (key b = key a)).map g).sum = _
    induction t.rows with
    | nil => rfl
    | cons b rest ih =>
      by_cases hb : key b = key a
      · simpa [hb] using ih
      · simpa [hb] using ih
  rw [hfilter, hsum]
  rfl

theorem erase_of_get?_eq_none (h : t.get? k = none) : t.erase k = t := by
  apply ext_rows
  rw [erase, deleteWhere]
  refine List.filter_eq_self.mpr ?_
  intro a ha
  simpa using get?_eq_none.mp h a ha

end Lookup

end KeyTable
