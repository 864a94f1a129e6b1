/-
# Tables keyed by an autoincrement rowid

A table is its list of rows in rowid order together with the autoincrement cursor: the
rowids increase strictly and never pass the cursor, so a rowid names at most one row and
is never handed out twice.  The three statements modelled are

* `insert`, which takes the next rowid;
* `updateWhere`, an `UPDATE … SET f WHERE p`, with `update` for a single rowid;
* `get?`, a `SELECT … WHERE rowid = ?`.

`total g` sums an amount over the rows.  Its behaviour under the statements (`total_insert`,
`total_update`) is what conservation arguments over a table rest on.
-/
import Mathlib

/-- A table with an `INTEGER PRIMARY KEY AUTOINCREMENT` rowid and row data `D`. -/
structure RowTable (D : Type) where
  rows : List (ℕ × D)
  seq : ℕ
  sorted : (rows.map Prod.fst).Pairwise (· < ·)
  le_seq : ∀ i ∈ rows.map Prod.fst, i ≤ seq

namespace RowTable

variable {D : Type}

/-- The table with no row. -/
def empty : RowTable D where
  rows := []
  seq := 0
  sorted := by simp
  le_seq := by simp

/-- The row with rowid `id`. -/
def get? (t : RowTable D) (id : ℕ) : Option D :=
  (t.rows.find? (fun r => r.1 == id)).map Prod.snd

/-- Apply `f` to the data of the rows that `p` selects. -/
def mapRows (p : ℕ → D → Bool) (f : D → D) (rows : List (ℕ × D)) : List (ℕ × D) :=
  rows.map (fun r => (r.1, if p r.1 r.2 then f r.2 else r.2))

theorem map_fst_mapRows (p : ℕ → D → Bool) (f : D → D) (rows : List (ℕ × D)) :
    (mapRows p f rows).map Prod.fst = rows.map Prod.fst := by
  rw [mapRows, List.map_map]
  rfl

/-- `UPDATE … SET f WHERE p`. -/
def updateWhere (t : RowTable D) (p : ℕ → D → Bool) (f : D → D) : RowTable D where
  rows := mapRows p f t.rows
  seq := t.seq
  sorted := by rw [map_fst_mapRows]; exact t.sorted
  le_seq := by rw [map_fst_mapRows]; exact t.le_seq

/-- `UPDATE … SET f WHERE rowid = id`. -/
def update (t : RowTable D) (id : ℕ) (f : D → D) : RowTable D :=
  t.updateWhere (fun i _ => i == id) f

/-- `INSERT`, at the next rowid. -/
def insert (t : RowTable D) (d : D) : RowTable D where
  rows := t.rows ++ [(t.seq + 1, d)]
  seq := t.seq + 1
  sorted := by
    rw [List.map_append, List.pairwise_append]
    refine ⟨t.sorted, by simp, ?_⟩
    intro i hi j hj
    have hj' : j = t.seq + 1 := by simpa using hj
    have := t.le_seq i hi
    omega
  le_seq := by
    intro i hi
    rw [List.map_append, List.mem_append] at hi
    rcases hi with hi | hi
    · exact Nat.le_succ_of_le (t.le_seq i hi)
    · have : i = t.seq + 1 := by simpa using hi
      omega

/-- Every row satisfies `P`. -/
def All (t : RowTable D) (P : ℕ → D → Prop) : Prop := ∀ id d, t.get? id = some d → P id d

/-! ## Lookups -/

variable {rows : List (ℕ × D)}

/-- In a list sorted by rowid, `find?` on the rowid finds exactly the members. -/
theorem find?_eq_some_iff_mem (h : (rows.map Prod.fst).Pairwise (· < ·)) (id : ℕ) (d : D) :
    (rows.find? (fun r => r.1 == id)).map Prod.snd = some d ↔ (id, d) ∈ rows := by
  induction rows with
  | nil => simp
  | cons r rows ih =>
    obtain ⟨i, e⟩ := r
    simp only [List.map_cons, List.pairwise_cons] at h
    by_cases hi : i = id
    · subst hi
      have hnot : ∀ e', (i, e') ∉ rows := by
        intro e' he
        have := h.1 i (List.mem_map_of_mem (f := Prod.fst) he)
        omega
      simp [hnot, eq_comm]
    · have hne : ¬ (i == id) = true := by simpa using hi
      rw [List.find?_cons_of_neg (by simpa using hi), ih h.2, List.mem_cons]
      constructor
      · exact Or.inr
      · rintro (heq | hmem)
        · exact absurd (congrArg Prod.fst heq).symm hi
        · exact hmem

theorem get?_eq_some_iff (t : RowTable D) (id : ℕ) (d : D) :
    t.get? id = some d ↔ (id, d) ∈ t.rows :=
  find?_eq_some_iff_mem t.sorted id d

variable {t : RowTable D} {id : ℕ} {d : D}

theorem le_seq_of_get? (h : t.get? id = some d) :
    id ≤ t.seq :=
  t.le_seq id (List.mem_map_of_mem (f := Prod.fst) ((t.get?_eq_some_iff id d).mp h))

@[simp] theorem get?_empty (id : ℕ) : (empty : RowTable D).get? id = none := rfl

theorem find?_mapRows (p : ℕ → D → Bool) (f : D → D) (rows : List (ℕ × D)) (id : ℕ) :
    ((mapRows p f rows).find? (fun r => r.1 == id)).map Prod.snd =
      ((rows.find? (fun r => r.1 == id)).map Prod.snd).map
        (fun d => if p id d then f d else d) := by
  induction rows with
  | nil => rfl
  | cons r rows ih =>
    obtain ⟨i, e⟩ := r
    by_cases hi : i = id
    · subst hi
      simp [mapRows]
    · have hstep : mapRows p f ((i, e) :: rows) =
          (i, if p i e then f e else e) :: mapRows p f rows := rfl
      rw [hstep, List.find?_cons_of_neg (by simpa using hi),
        List.find?_cons_of_neg (by simpa using hi), ih]

theorem get?_updateWhere (t : RowTable D) (p : ℕ → D → Bool) (f : D → D) (id : ℕ) :
    (t.updateWhere p f).get? id = (t.get? id).map (fun d => if p id d then f d else d) :=
  find?_mapRows p f t.rows id

theorem get?_update (t : RowTable D) (id : ℕ) (f : D → D) (j : ℕ) :
    (t.update id f).get? j = if j = id then (t.get? id).map f else t.get? j := by
  rw [update, get?_updateWhere]
  by_cases hj : j = id
  · subst hj
    simp
  · rw [if_neg hj]
    simp [hj]

theorem get?_insert (t : RowTable D) (d : D) (id : ℕ) :
    (t.insert d).get? id = if id = t.seq + 1 then some d else t.get? id := by
  by_cases hid : id = t.seq + 1
  · rw [if_pos hid, get?_eq_some_iff, hid]
    simp [insert]
  · rw [if_neg hid]
    apply Option.ext
    intro e
    rw [get?_eq_some_iff, get?_eq_some_iff]
    simp [insert, hid]

/-! ## Properties of every row -/

theorem all_empty (P : ℕ → D → Prop) : (empty : RowTable D).All P := by
  intro id d h
  simp at h

theorem All.insert {P : ℕ → D → Prop} (h : t.All P) (hd : P (t.seq + 1) d) : (t.insert d).All P := by
  intro id e he
  rw [get?_insert] at he
  split at he
  · rename_i hid
    subst hid
    exact Option.some.inj he ▸ hd
  · exact h id e he

/-! ## Totals -/

/-- The sum of `g` over the rows. -/
def total (t : RowTable D) (g : ℕ → D → ℕ) : ℕ := (t.rows.map (fun r => g r.1 r.2)).sum

@[simp] theorem total_empty (g : ℕ → D → ℕ) : (empty : RowTable D).total g = 0 := rfl

theorem total_insert (t : RowTable D) (d : D) (g : ℕ → D → ℕ) :
    (t.insert d).total g = t.total g + g (t.seq + 1) d := by
  simp [total, insert]

variable {p : ℕ → D → Bool} {f : D → D} {g : ℕ → D → ℕ}

/-- An update that changes no row's amount keeps the total. -/
theorem total_updateWhere_congr (t : RowTable D)
    (h : ∀ id d, t.get? id = some d → p id d = true → g id (f d) = g id d) :
    (t.updateWhere p f).total g = t.total g := by
  simp only [total, updateWhere, mapRows, List.map_map]
  congr 1
  apply List.map_congr_left
  rintro ⟨id, d⟩ hmem
  simp only [Function.comp]
  split
  · exact h id d ((t.get?_eq_some_iff id d).mpr hmem) ‹_›
  · rfl

/-- The total after an update, as a total before it. -/
theorem total_updateWhere (t : RowTable D) (p : ℕ → D → Bool) (f : D → D) (g : ℕ → D → ℕ) :
    (t.updateWhere p f).total g = t.total (fun id d => g id (if p id d then f d else d)) := by
  simp only [total, updateWhere, mapRows, List.map_map]
  rfl

theorem total_congr {k : ℕ → D → ℕ} (h : ∀ id d, t.get? id = some d → g id d = k id d) :
    t.total g = t.total k := by
  unfold total
  congr 1
  apply List.map_congr_left
  rintro ⟨id, d⟩ hmem
  exact h id d ((t.get?_eq_some_iff id d).mpr hmem)

/-- An `UPDATE` whose condition no row meets writes nothing. -/
theorem updateWhere_eq_self (h : ∀ id d, t.get? id = some d → p id d = false) (f : D → D) :
    t.updateWhere p f = t := by
  have hrows : mapRows p f t.rows = t.rows := by
    conv_rhs => rw [← List.map_id t.rows]
    apply List.map_congr_left
    rintro ⟨id, d⟩ hmem
    rw [h id d ((t.get?_eq_some_iff id d).mpr hmem)]
    rfl
  cases t
  simp only [updateWhere] at hrows ⊢
  simp only [hrows]

/-- An update that lowers no row's partner amount bounds one total by another. -/
theorem total_updateWhere_le (t : RowTable D)
    (h : ∀ id d, t.get? id = some d → p id d = true → g id (f d) ≤ g id d) :
    (t.updateWhere p f).total g ≤ t.total g := by
  simp only [total, updateWhere, mapRows, List.map_map]
  apply List.sum_le_sum
  rintro ⟨id, d⟩ hmem
  simp only [Function.comp]
  split
  · exact h id d ((t.get?_eq_some_iff id d).mpr hmem) ‹_›
  · exact le_rfl

theorem sum_mapRows_of_notMem (f : D → D) (g : ℕ → D → ℕ) (h : id ∉ rows.map Prod.fst) :
    ((mapRows (fun i _ => i == id) f rows).map (fun r => g r.1 r.2)).sum =
      (rows.map (fun r => g r.1 r.2)).sum := by
  rw [mapRows, List.map_map]
  congr 1
  apply List.map_congr_left
  intro r hr
  have hne : r.1 ≠ id := fun he => h (he ▸ List.mem_map_of_mem hr)
  simp [hne]

/-- Updating one row exchanges its old amount for its new one. -/
theorem total_update (h : t.get? id = some d) (f : D → D) (g : ℕ → D → ℕ) :
    (t.update id f).total g + g id d = t.total g + g id (f d) := by
  have hmem := (t.get?_eq_some_iff id d).mp h
  obtain ⟨pre, post, hrows⟩ := List.append_of_mem hmem
  have hsort := t.sorted
  rw [hrows, List.map_append, List.map_cons, List.pairwise_append, List.pairwise_cons] at hsort
  have hpre : id ∉ pre.map Prod.fst := fun hin => by
    have := hsort.2.2 id hin id List.mem_cons_self
    omega
  have hpost : id ∉ post.map Prod.fst := fun hin => by
    have := hsort.2.1.1 id hin
    omega
  have hsplit : mapRows (fun i _ => i == id) f t.rows =
      mapRows (fun i _ => i == id) f pre ++ (id, f d) :: mapRows (fun i _ => i == id) f post := by
    simp [hrows, mapRows]
  show ((mapRows (fun i _ => i == id) f t.rows).map (fun r => g r.1 r.2)).sum + g id d =
    (t.rows.map (fun r => g r.1 r.2)).sum + g id (f d)
  rw [hsplit, List.map_append, List.map_cons, List.sum_append, List.sum_cons,
    sum_mapRows_of_notMem f g hpre, sum_mapRows_of_notMem f g hpost, hrows, List.map_append,
    List.map_cons, List.sum_append, List.sum_cons]
  dsimp only
  omega

/-- Rowids selected by `p`, in rowid order: `SELECT rowid … WHERE p ORDER BY rowid`. -/
def select (t : RowTable D) (p : ℕ → D → Bool) : List (ℕ × D) :=
  t.rows.filter (fun r => p r.1 r.2)

theorem mem_select (t : RowTable D) (p : ℕ → D → Bool) (id : ℕ) (d : D) :
    (id, d) ∈ t.select p ↔ t.get? id = some d ∧ p id d = true := by
  rw [select, List.mem_filter, get?_eq_some_iff]

/-- `SELECT … WHERE p ORDER BY rowid DESC LIMIT 1` is the selected row with the largest rowid. -/
theorem getLast?_select (h : (t.select p).getLast? = some (id, d)) :
    t.get? id = some d ∧ p id d = true ∧
      ∀ j e, t.get? j = some e → p j e = true → j ≤ id := by
  obtain ⟨hget, hp⟩ := (t.mem_select p id d).mp (List.mem_of_getLast? h)
  refine ⟨hget, hp, fun j e hj hpj => ?_⟩
  obtain ⟨pre, hpre⟩ := List.getLast?_eq_some_iff.mp h
  have hmem := (t.mem_select p j e).mpr ⟨hj, hpj⟩
  have hsorted : ((t.select p).map Prod.fst).Pairwise (· < ·) :=
    t.sorted.sublist (List.filter_sublist.map Prod.fst)
  rw [hpre, List.map_append, List.pairwise_append] at hsorted
  rw [hpre, List.mem_append, List.mem_singleton] at hmem
  rcases hmem with hin | heq
  · exact le_of_lt (hsorted.2.2 j (List.mem_map_of_mem (f := Prod.fst) hin) id (by simp))
  · exact le_of_eq (congrArg Prod.fst heq)

/-! ## Deletion -/

/-- `DELETE … WHERE p`: the cursor stays, so no rowid is handed out again. -/
def deleteWhere (t : RowTable D) (p : ℕ → D → Bool) : RowTable D where
  rows := t.rows.filter (fun r => !p r.1 r.2)
  seq := t.seq
  sorted := t.sorted.sublist (List.filter_sublist.map Prod.fst)
  le_seq := fun i hi => t.le_seq i ((List.filter_sublist.map Prod.fst).subset hi)

/-- The rows inserted after the cursor stood at `n`. -/
def since (t : RowTable D) (n : ℕ) : List (ℕ × D) := t.rows.filter fun r => n < r.1

theorem since_seq (t : RowTable D) : t.since t.seq = [] := by
  rw [since, List.filter_eq_nil_iff]
  intro r hr
  have := t.le_seq r.1 (List.mem_map_of_mem hr)
  simpa using this

variable {n : ℕ}

theorem since_insert (t : RowTable D) (d : D) (h : n ≤ t.seq) :
    (t.insert d).since n = t.since n ++ [(t.seq + 1, d)] := by
  unfold since insert
  rw [List.filter_append, List.filter_cons_of_pos (by simpa using Nat.lt_succ_of_le h),
    List.filter_nil]

/-- No rowid is missing between a row and the cursor. -/
def Gapless (t : RowTable D) : Prop :=
  ∀ i ∈ t.rows.map Prod.fst, ∀ j, i ≤ j → j ≤ t.seq → j ∈ t.rows.map Prod.fst

theorem gapless_empty : (empty : RowTable D).Gapless := by
  intro i hi
  simp [empty] at hi

theorem Gapless.insert (h : t.Gapless) (d : D) : (t.insert d).Gapless := by
  intro i hi j hij hj
  have hids : (t.insert d).rows.map Prod.fst = t.rows.map Prod.fst ++ [t.seq + 1] := by
    simp [RowTable.insert]
  have hseq : (t.insert d).seq = t.seq + 1 := rfl
  rw [hids, List.mem_append, List.mem_singleton] at hi ⊢
  rcases Nat.lt_or_ge t.seq j with hlt | hle
  · right
    omega
  · left
    rcases hi with hi | rfl
    · exact h i hi j hij hle
    · omega

/-- Without gaps, the rowids of the newest `n` rows are the largest `n` below the cursor. -/
theorem Gapless.lt_of_newest (h : t.Gapless) {older newest : List (ℕ × D)}
    (hrows : t.rows = older ++ newest) {r : ℕ × D} (hr : r ∈ newest) :
    t.seq < r.1 + newest.length := by
  have hmem : r.1 ∈ t.rows.map Prod.fst := by
    rw [hrows]
    exact List.mem_map_of_mem (List.mem_append_right older hr)
  have hsorted := t.sorted
  rw [hrows, List.map_append, List.pairwise_append] at hsorted
  -- every rowid from `r` up to the cursor is one of the newest
  have hsubset : List.range' r.1 (t.seq + 1 - r.1) ⊆ newest.map Prod.fst := by
    intro j hj
    rw [List.mem_range'_1] at hj
    have hin := h r.1 hmem j hj.1 (by omega)
    rw [hrows, List.map_append, List.mem_append] at hin
    rcases hin with hold | hnew
    · have := hsorted.2.2 j hold r.1 (List.mem_map_of_mem hr)
      omega
    · exact hnew
  have hlen := (List.subperm_of_subset List.nodup_range' hsubset).length_le
  rw [List.length_range', List.length_map] at hlen
  omega

/-- The rows up to `n`, and the rows after it. -/
theorem rows_eq_select_append (t : RowTable D) (n : ℕ) :
    t.rows = t.select (fun id _ => id ≤ n) ++ (t.deleteWhere fun id _ => id ≤ n).rows := by
  have hsorted := t.sorted
  show t.rows = t.rows.filter (fun r => decide (r.1 ≤ n)) ++ t.rows.filter fun r => !decide (r.1 ≤ n)
  generalize t.rows = rows at hsorted ⊢
  induction rows with
  | nil => rfl
  | cons r rows ih =>
    rw [List.map_cons, List.pairwise_cons] at hsorted
    by_cases h : r.1 ≤ n
    · rw [List.filter_cons_of_pos (by simpa using h), List.filter_cons_of_neg (by simpa using h),
        List.cons_append, ← ih hsorted.2]
    · -- the rowids increase, so none after this one is up to `n`
      have hnone : ∀ q ∈ rows, ¬ q.1 ≤ n := by
        intro q hq
        have := hsorted.1 q.1 (List.mem_map_of_mem hq)
        omega
      have hempty : rows.filter (fun r => decide (r.1 ≤ n)) = [] := by
        rw [List.filter_eq_nil_iff]
        intro q hq
        simpa using hnone q hq
      have hself : rows.filter (fun r => !decide (r.1 ≤ n)) = rows := by
        rw [List.filter_eq_self]
        intro q hq
        simpa using hnone q hq
      rw [List.filter_cons_of_neg (by simpa using h), List.filter_cons_of_pos (by simpa using h),
        hempty, hself, List.nil_append]

theorem select_le_append (t : RowTable D) {m : ℕ} (h : n ≤ m) :
    t.select (fun id _ => id ≤ m) = t.select (fun id _ => id ≤ n) ++
      (t.deleteWhere fun id _ => id ≤ n).select fun id _ => id ≤ m := by
  have hself : (t.select fun id _ => decide (id ≤ n)).filter (fun r => decide (r.1 ≤ m)) =
      t.select fun id _ => decide (id ≤ n) := by
    rw [List.filter_eq_self]
    rintro ⟨id, d⟩ hr
    have hid := ((t.mem_select _ id d).mp hr).2
    simp only [decide_eq_true_eq] at hid ⊢
    omega
  conv_lhs => rw [select, t.rows_eq_select_append n, List.filter_append, hself]
  rfl

end RowTable
