/-
# The full scan, and every run of the ledger

A scan replaces the inventory of one class by what is on disk, except for the rows that were written
after it began, and replaces the usage row by its own count.  The count is shown to be the one of
the index it leaves (`setInventoryScannedAt_accounted`).

* `usage_exact` : after every run of ledger operations, the usage rows are the sums over the index,
  and no digest is indexed twice in one family.
-/
import Faktor.StorageAccounting
import Faktor.Trace

namespace Storage

open Sqlite (i64Max bind_eq_ok)

/-! ## The full scan

The loops of the scan visit the keys of one class, each at most once, and count the row that a key
has after its visit.  The keys that are done carry the accumulators, the others still have the row
they had before. -/

/-- The two indexes differ at one key at most. -/
structure SameBut (id : ObjectId) (t t' : ObjectIndex) : Prop where
  get? : ∀ j, j ≠ id → t'.get? j = t.get? j
  total : ∀ w : ObjectRow → ℕ, (∀ o, o.id = id → w o = 0) → t'.table.total w = t.table.total w

theorem SameBut.refl (id : ObjectId) (t : ObjectIndex) : SameBut id t t where
  get? := fun _ _ => rfl
  total := fun _ _ => rfl

variable {t u : ObjectIndex} {o : ObjectRow}

theorem SameBut.of_insert (h : t.insert? o = some u) :
    SameBut o.id t u where
  get? := by
    intro j hj
    have := KeyTable.get?_insert (ObjectIndex.insert?_eq_some h) j
    rwa [if_neg (Ne.symm hj)] at this
  total := by
    intro w hw
    rw [KeyTable.total_insert (ObjectIndex.insert?_eq_some h), hw o rfl, Nat.add_zero]

variable {row : ObjectRow}

theorem SameBut.of_modify {id : ObjectId} (hget : t.get? id = some row) (f : ObjectRow → ObjectRow)
    (hid : ∀ o, (f o).id = o.id) (hu : u.table = t.table.modify id f hid) : SameBut id t u where
  get? := by
    intro j hj
    rw [ObjectIndex.get?, hu, KeyTable.get?_modify, if_neg hj]
    rfl
  total := by
    intro w hw
    have hrow : row.id = id := (KeyTable.get?_eq_some.mp hget).2
    have := KeyTable.total_modify hget f hid w
    rw [hw row hrow, hw (f row) ((hid row).trans hrow), ← hu] at this
    omega

theorem SameBut.of_erase (t : ObjectIndex) (id : ObjectId) : SameBut id t (t.erase id) where
  get? := by
    intro j hj
    have := KeyTable.get?_erase t.table id j
    rwa [if_neg hj] at this
  total := by
    intro w hw
    cases hget : t.table.get? id with
    | none => exact congrArg (fun u => KeyTable.total u w) (KeyTable.erase_of_get?_eq_none hget)
    | some row =>
      have := KeyTable.total_erase hget w
      rw [hw row (KeyTable.get?_eq_some.mp hget).2] at this
      exact this

/-- What a row adds to a quantity of a class, over the keys that are done. -/
def doneShare (c : StorageClass) (done : List String) (g : ObjectRow → ℕ) (o : ObjectRow) : ℕ :=
  if o.storageClass = c ∧ o.key ∈ done then g o else 0

/-- The sum over the keys that are done. -/
def ObjectIndex.tallyDone (t : ObjectIndex) (c : StorageClass) (done : List String)
    (g : ObjectRow → ℕ) : ℕ := t.table.total (doneShare c done g)

variable {c : StorageClass} {done : List String} {key : String}

theorem doneShare_of_notMem (hkey : key ∉ done) (g : ObjectRow → ℕ) (ho : o.id = (c, key)) :
    doneShare c done g o = 0 := by
  rw [doneShare, if_neg]
  rintro ⟨-, hmem⟩
  rw [show o.key = key from congrArg Prod.snd ho] at hmem
  exact hkey hmem

variable {r : ObjectRow}

/-- One more key, with the row it has. -/
theorem tallyDone_cons (hkey : key ∉ done) (hr : t.get? (c, key) = some r) (g : ObjectRow → ℕ) :
    t.tallyDone c (key :: done) g = t.tallyDone c done g + g r := by
  obtain ⟨hmem, hid⟩ := KeyTable.get?_eq_some.mp hr
  have hsum := KeyTable.sum_map_ite t.table.nodup hmem g (doneShare c done g)
  rw [doneShare_of_notMem hkey g hid, Nat.add_zero] at hsum
  rw [ObjectIndex.tallyDone, ObjectIndex.tallyDone, KeyTable.total, KeyTable.total, ← hsum]
  congr 2
  funext o
  -- the new key is the key of one row of the class
  by_cases ho : o.id = r.id
  · rw [if_pos ho, doneShare, if_pos]
    rw [hid] at ho
    exact ⟨congrArg Prod.fst ho, by rw [show o.key = key from congrArg Prod.snd ho]; simp⟩
  · rw [if_neg ho, doneShare, doneShare]
    have hne : ¬ (o.storageClass = c ∧ o.key = key) := by
      rintro ⟨h₁, h₂⟩
      exact ho (by rw [hid, ObjectRow.id, h₁, h₂])
    by_cases hc : o.storageClass = c
    · have hk : o.key ≠ key := fun h => hne ⟨hc, h⟩
      simp [hc, hk]
    · simp [hc]

/-- One more key, without a row. -/
theorem tallyDone_cons_of_none (hnone : t.get? (c, key) = none) (g : ObjectRow → ℕ) :
    t.tallyDone c (key :: done) g = t.tallyDone c done g := by
  rw [ObjectIndex.tallyDone, ObjectIndex.tallyDone, KeyTable.total, KeyTable.total]
  congr 1
  apply List.map_congr_left
  intro o ho
  have hne : ¬ (o.storageClass = c ∧ o.key = key) := by
    rintro ⟨h₁, h₂⟩
    exact KeyTable.get?_eq_none.mp hnone o ho (by rw [ObjectRow.id, h₁, h₂])
  rw [doneShare, doneShare]
  by_cases hc : o.storageClass = c
  · have hk : o.key ≠ key := fun h => hne ⟨hc, h⟩
    simp [hc, hk]
  · simp [hc]

/-- The keys that are done are counted, and the rest of the index is as it was. -/
structure Visited (c : StorageClass) (t₀ : ObjectIndex) (done : List String) (i : Inventory) :
    Prop where
  sized : ∀ o ∈ i.objects.table.rows, o.bytes ≤ i64Max
  otherRows : ∀ c', c' ≠ c → ∀ key, i.objects.get? (c', key) = t₀.get? (c', key)
  otherTallies : ∀ c', c' ≠ c → ∀ g, i.objects.tally c' g = t₀.tally c' g
  undone : ∀ key, key ∉ done → i.objects.get? (c, key) = t₀.get? (c, key)
  bytes : toI64 i.totalBytes = toI64 (i.objects.tallyDone c done ObjectRow.bytes)
  objects : i.effectiveObjects = i.objects.tallyDone c done fun _ => 1
  pinned : toI64 i.pinnedBytes = toI64 (i.objects.tallyDone c done ObjectRow.requiredBytes)

theorem toI64_add {t b T B : ℕ} (h : toI64 t = toI64 T) (hb : toI64 b = B) :
    toI64 (Saturating.add t b) = toI64 (T + B) := by
  have hmax : i64Max ≤ Saturating.u64Max := by decide
  simp only [toI64, Saturating.add] at *
  omega

variable {t₀ : ObjectIndex} {i : Inventory}

/-- The part of the invariant that does not count. -/
theorem Visited.frame (h : Visited c t₀ done i) (hsame : SameBut (c, key) i.objects t) :
    (∀ c', c' ≠ c → ∀ k, t.get? (c', k) = t₀.get? (c', k)) ∧
      (∀ c', c' ≠ c → ∀ g, t.tally c' g = t₀.tally c' g) ∧
      ∀ k, k ∉ key :: done → t.get? (c, k) = t₀.get? (c, k) := by
  refine ⟨?_, ?_, ?_⟩
  · intro c' hc' k
    rw [hsame.get? _ (fun heq => hc' (congrArg Prod.fst heq)), h.otherRows c' hc' k]
  · intro c' hc' g
    rw [← h.otherTallies c' hc' g]
    refine hsame.total _ ?_
    intro o ho
    refine share_of_ne ?_
    rw [show o.storageClass = c from congrArg Prod.fst ho]
    exact Ne.symm hc'
  · intro k hk
    rw [List.mem_cons, not_or] at hk
    rw [hsame.get? _ (fun heq => hk.1 (congrArg Prod.snd heq)), h.undone k hk.2]

/-- A key that is visited and whose row counts. -/
theorem Visited.visit (h : Visited c t₀ done i) (hkey : key ∉ done) (hsame : SameBut (c, key) i.objects t)
    (hr : t.get? (c, key) = some r) (hsized : ∀ o ∈ t.table.rows, o.bytes ≤ i64Max) (bytes : ℕ)
    (hbytes : toI64 bytes = r.bytes) (seen : List String) (inserted : ℕ) :
    Visited c t₀ (key :: done)
      ({ i with objects := t, seen := seen, inserted := inserted }.count bytes r.required) := by
  obtain ⟨hrows, htallies, hundone⟩ := h.frame hsame
  have hbefore : ∀ g, t.tallyDone c done g = i.objects.tallyDone c done g :=
    fun g => hsame.total _ fun o ho => doneShare_of_notMem hkey g ho
  have hafter : ∀ g, t.tallyDone c (key :: done) g = i.objects.tallyDone c done g + g r := by
    intro g
    rw [tallyDone_cons hkey hr, hbefore]
  refine ⟨hsized, hrows, htallies, hundone, ?_, ?_, ?_⟩
  · show toI64 (Saturating.add i.totalBytes bytes) = toI64 (t.tallyDone c (key :: done) _)
    rw [hafter]
    exact toI64_add h.bytes hbytes
  · show i.effectiveObjects + 1 = t.tallyDone c (key :: done) _
    rw [hafter, h.objects]
  · show toI64 (if r.required then Saturating.add i.pinnedBytes bytes else i.pinnedBytes)
      = toI64 (t.tallyDone c (key :: done) _)
    rw [hafter]
    by_cases hrequired : r.required = true
    · rw [if_pos hrequired]
      exact toI64_add h.pinned (by rw [hbytes, ObjectRow.requiredBytes, if_pos hrequired])
    · rw [if_neg hrequired, h.pinned, ObjectRow.requiredBytes, if_neg hrequired, Nat.add_zero]

theorem get?_setRequired (t : ObjectIndex) (id : ObjectId) (required : Bool) :
    (t.setRequired id required).get? id = (t.get? id).map fun o => { o with required := required } :=
  (KeyTable.get?_modify t.table id (fun o => { o with required := required }) (fun _ => rfl)
    id).trans (if_pos rfl)

/-- A row that is kept, with the requirement its pin gives it. -/
theorem Visited.keep (h : Visited c t₀ done i) (hkey : row.key ∉ done) (hclass : row.storageClass = c)
    (hrow : t₀.get? (c, row.key) = some row) (pins seen : List String) :
    Visited c t₀ (row.key :: done) ({ i with seen := seen }.keep pins row) := by
  have hid : row.id = (c, row.key) := by rw [ObjectRow.id, hclass]
  have hget : i.objects.get? (c, row.key) = some row := (h.undone row.key hkey).trans hrow
  have hsized : row.bytes ≤ i64Max := h.sized row (KeyTable.get?_eq_some.mp hget).1
  set required := row.required || pins.contains row.key with hrequired
  by_cases hsame : required = row.required
  · have hkeep : ({ i with seen := seen }.keep pins row)
        = { i with objects := i.objects, seen := seen, inserted := i.inserted }.count row.bytes
            row.required := by
      rw [Inventory.keep]
      simp only [← hrequired, hsame, ne_eq, not_true_eq_false, if_false]
    rw [hkeep]
    exact h.visit hkey (.refl _ _) hget h.sized _ (toI64_of_le hsized) _ _
  · have hkeep : ({ i with seen := seen }.keep pins row)
        = { i with objects := i.objects.setRequired row.id required, seen := seen,
                   inserted := i.inserted }.count row.bytes required := by
      rw [Inventory.keep]
      simp only [← hrequired, ne_eq, hsame, not_false_eq_true, if_true]
    rw [hkeep, hid]
    set r : ObjectRow := { row with required := required }
    have hr : (i.objects.setRequired (c, row.key) required).get? (c, row.key) = some r := by
      rw [get?_setRequired, hget]
      rfl
    have hbut : SameBut (c, row.key) i.objects (i.objects.setRequired (c, row.key) required) :=
      .of_modify hget (fun o => { o with required := required }) (fun _ => rfl) rfl
    refine h.visit hkey hbut hr ?_ _ (toI64_of_le hsized) _ _
    intro o ho
    rcases ObjectIndex.mem_of_modify hget ho with rfl | ho
    · exact hsized
    · exact h.sized o ho

variable {object : ScannedObject} {scannedMs : ℤ}

/-- A scanned object that is written. -/
theorem Visited.put (h : Visited c t₀ done i) (hkey : object.key ∉ done) {required : Bool}
    (hput : putScanned c scannedMs i.objects object required = some t) (seen : List String) (inserted : ℕ) :
    Visited c t₀ (object.key :: done) ({ i with objects := t, seen := seen, inserted := inserted }.count
      object.bytes required) := by
  unfold putScanned at hput
  cases hget : i.objects.get? (c, object.key) with
  | some row =>
    rw [hget] at hput
    have hid : row.id = (c, object.key) := (KeyTable.get?_eq_some.mp hget).2
    set r : ObjectRow := { row with
      bytes := toI64 object.bytes, digest := object.digest.orElse fun _ => row.digest
      family := c.family, lastUsedMs := object.lastUsedMs, required := required } with hr
    have hrid : r.id = (c, object.key) := hid
    have htable := ObjectIndex.replace?_eq_some hput
    rw [hrid] at htable
    have hrow : t.get? (c, object.key) = some r := by
      rw [ObjectIndex.get?, htable, KeyTable.get?_modify, if_pos rfl]
      show Option.map _ (i.objects.get? (c, object.key)) = some r
      rw [hget, Option.map_some, ObjectIndex.overwrite, if_pos (hid.trans hrid.symm)]
    refine h.visit hkey (.of_modify hget _ _ htable) hrow ?_ _ rfl _ _
    intro o ho
    rcases ObjectIndex.mem_of_replace hput ho with rfl | ho
    · exact toI64_le _
    · exact h.sized o ho
  | none =>
    rw [hget] at hput
    set r : ObjectRow :=
      { storageClass := c, key := object.key, bytes := toI64 object.bytes, digest := object.digest
        family := c.family, createdMs := scannedMs, lastUsedMs := object.lastUsedMs
        required := required } with hr
    have hrow : t.get? (c, object.key) = some r := by
      have := KeyTable.get?_insert (ObjectIndex.insert?_eq_some hput) (c, object.key)
      rwa [if_pos (show r.id = (c, object.key) from rfl)] at this
    refine h.visit hkey (.of_insert hput) hrow ?_ _ rfl _ _
    intro o ho
    rcases ObjectIndex.mem_of_insert hput ho with rfl | ho
    · exact toI64_le _
    · exact h.sized o ho

/-- The rows of the class before the scan, as its loops find them. -/
structure Existing (c : StorageClass) (t₀ : ObjectIndex) (existing : List ObjectRow) : Prop where
  row : ∀ row ∈ existing, row.storageClass = c ∧ t₀.get? (c, row.key) = some row
  complete : ∀ o ∈ t₀.table.rows, o.storageClass = c → o ∈ existing

theorem existingRows_existing (s : Ledger) (c : StorageClass) :
    Existing c s.objects (existingRows s c) where
  row := by
    intro row hrow
    rw [existingRows, List.mem_mergeSort, KeyTable.mem_select, decide_eq_true_eq] at hrow
    refine ⟨hrow.2, ?_⟩
    have := KeyTable.get?_of_mem hrow.1
    rwa [ObjectRow.id, hrow.2] at this
  complete := by
    intro o ho hclass
    rw [existingRows, List.mem_mergeSort, KeyTable.mem_select, decide_eq_true_eq]
    exact ⟨ho, hclass⟩

/-- The rows of one class have different keys. -/
theorem nodup_existingRows (s : Ledger) (c : StorageClass) :
    ((existingRows s c).map ObjectRow.key).Nodup := by
  have hids : ((existingRows s c).map ObjectRow.id).Nodup := by
    have hperm := (List.mergeSort_perm (s.objects.table.select fun o => o.storageClass = c)
      fun a b => a.key ≤ b.key).map ObjectRow.id
    exact hperm.nodup_iff.mpr (s.objects.table.nodup.sublist (List.filter_sublist.map _))
  refine List.Nodup.map_on ?_ (List.Nodup.of_map _ hids)
  intro a ha b hb hkey
  have hexisting := existingRows_existing s c
  have hid : a.id = b.id := by
    rw [ObjectRow.id, ObjectRow.id, (hexisting.row a ha).1, (hexisting.row b hb).1, hkey]
  exact List.inj_on_of_nodup_map hids ha hb hid

theorem Visited.start (hsized : ∀ o ∈ t₀.table.rows, o.bytes ≤ i64Max) (c : StorageClass) :
    Visited c t₀ [] (.start t₀) := by
  have hzero : ∀ g, t₀.tallyDone c [] g = 0 := by
    intro g
    rw [ObjectIndex.tallyDone, KeyTable.total]
    have hnone : doneShare c [] g = fun _ => 0 := by
      funext o
      simp [doneShare]
    rw [hnone]
    simp
  refine ⟨hsized, fun _ _ _ => rfl, fun _ _ _ => rfl, fun _ _ => rfl, ?_, ?_, ?_⟩
  · show toI64 0 = toI64 (t₀.tallyDone c [] _)
    rw [hzero]
  · show 0 = t₀.tallyDone c [] _
    rw [hzero]
  · show toI64 0 = toI64 (t₀.tallyDone c [] _)
    rw [hzero]

variable {existing : List ObjectRow} {pins : List String} {scanStartedMs : ℤ} {i' : Inventory}

/-- One object of the scan. -/
theorem scanObject_visited (hexisting : Existing c t₀ existing) (h : Visited c t₀ i.seen i)
    (hscan : scanObject c pins scanStartedMs scannedMs existing i object = .ok i') :
    Visited c t₀ i'.seen i' := by
  simp only [scanObject] at hscan
  by_cases hseen : object.key ∈ i.seen
  · rw [if_pos hseen] at hscan
    obtain rfl := Except.ok.inj hscan
    exact h
  · rw [if_neg hseen] at hscan
    split at hscan
    · next row hfind =>
      obtain ⟨hclass, hrow⟩ := hexisting.row row (List.mem_of_find?_eq_some hfind)
      have hkey : row.key = object.key := by simpa using List.find?_some hfind
      rw [← hkey] at hseen
      split_ifs at hscan with hnewer hunchanged
      · obtain rfl := Except.ok.inj hscan
        have := h.keep hseen hclass hrow pins (object.key :: i.seen)
        rwa [hkey] at this
      · obtain rfl := Except.ok.inj hscan
        have hget : i.objects.get? (c, row.key) = some row := (h.undone row.key hseen).trans hrow
        have hsized : row.bytes ≤ i64Max := h.sized row (KeyTable.get?_eq_some.mp hget).1
        have := h.visit hseen (.refl _ _) hget h.sized object.bytes
          (by rw [← hunchanged.1]; exact toI64_of_le hsized) (object.key :: i.seen) i.inserted
        rwa [hkey, hunchanged.2.1] at this
      · simp only [bind_eq_ok, orConstraint_eq_ok] at hscan
        obtain ⟨t, hput, hscan⟩ := hscan
        obtain rfl := Except.ok.inj hscan
        rw [hkey] at hseen
        exact h.put hseen hput _ _
    · simp only [bind_eq_ok, orConstraint_eq_ok] at hscan
      obtain ⟨t, hput, hscan⟩ := hscan
      obtain rfl := Except.ok.inj hscan
      exact h.put hseen hput _ _

variable {objects : List ScannedObject}

/-- The first loop. -/
theorem foldlM_scanObject_visited (hexisting : Existing c t₀ existing) (h : Visited c t₀ i.seen i)
    (hscan : objects.foldlM (scanObject c pins scanStartedMs scannedMs existing) i = .ok i') :
    Visited c t₀ i'.seen i' := by
  induction objects generalizing i with
  | nil =>
    obtain rfl := Except.ok.inj hscan
    exact h
  | cons object rest ih =>
    rw [List.foldlM_cons, bind_eq_ok] at hscan
    obtain ⟨i₁, hfirst, hrest⟩ := hscan
    exact ih (scanObject_visited hexisting h hfirst) hrest

/-- A row of the class, in the second loop: the keys that are done grow by its key. -/
theorem missObject_visited (h : Visited c t₀ done i) (hseen : ∀ key ∈ i.seen, key ∈ done)
    (hclass : row.storageClass = c) (hrow : t₀.get? (c, row.key) = some row) (pins : List String)
    (scanStartedMs : ℤ) (hdone : row.key ∈ done → row.key ∈ i.seen) :
    Visited c t₀ (row.key :: done) (missObject pins scanStartedMs i row) := by
  unfold missObject
  by_cases hkey : row.key ∈ i.seen
  · rw [if_pos hkey]
    -- the key was done before
    have hmem : row.key ∈ done := hseen _ hkey
    have hshare : ∀ g, doneShare c (row.key :: done) g = doneShare c done g := by
      intro g
      funext o
      rw [doneShare, doneShare]
      by_cases ho : o.key = row.key
      · simp [ho, hmem]
      · simp [ho]
    refine ⟨h.sized, h.otherRows, h.otherTallies, ?_, ?_, ?_, ?_⟩
    · intro key hnot
      exact h.undone key fun hin => hnot (List.mem_cons_of_mem _ hin)
    · rw [ObjectIndex.tallyDone, hshare]
      exact h.bytes
    · rw [ObjectIndex.tallyDone, hshare]
      exact h.objects
    · rw [ObjectIndex.tallyDone, hshare]
      exact h.pinned
  · rw [if_neg hkey]
    have hnot : row.key ∉ done := fun hin => hkey (hdone hin)
    split_ifs
    · exact h.keep hnot hclass hrow pins i.seen
    · have hid : row.id = (c, row.key) := by rw [ObjectRow.id, hclass]
      have hsame : SameBut (c, row.key) i.objects (i.objects.erase row.id) := by
        rw [hid]
        exact .of_erase i.objects (c, row.key)
      have hnone : (i.objects.erase row.id).get? (c, row.key) = none := by
        rw [hid]
        have := KeyTable.get?_erase i.objects.table (c, row.key) (c, row.key)
        rwa [if_pos rfl] at this
      obtain ⟨hrows, htallies, hundone⟩ := h.frame hsame
      have hafter : ∀ g, (i.objects.erase row.id).tallyDone c (row.key :: done) g
          = i.objects.tallyDone c done g := by
        intro g
        rw [tallyDone_cons_of_none hnone]
        exact hsame.total _ fun o ho => doneShare_of_notMem hnot g ho
      refine ⟨?_, hrows, htallies, hundone, ?_, ?_, ?_⟩
      · exact fun o ho => h.sized o (ObjectIndex.mem_of_erase ho)
      · show toI64 i.totalBytes = toI64 ((i.objects.erase row.id).tallyDone c _ _)
        rw [hafter]
        exact h.bytes
      · show i.effectiveObjects = (i.objects.erase row.id).tallyDone c _ _
        rw [hafter]
        exact h.objects
      · show toI64 i.pinnedBytes = toI64 ((i.objects.erase row.id).tallyDone c _ _)
        rw [hafter]
        exact h.pinned

theorem seen_missObject (pins : List String) (scanStartedMs : ℤ) (i : Inventory) (row : ObjectRow) :
    (missObject pins scanStartedMs i row).seen = i.seen := by
  unfold missObject
  split_ifs <;> rfl

/-- The second loop, over rows with distinct keys: all of their keys are done. -/
theorem foldl_missObject_visited (pins : List String) (scanStartedMs : ℤ) {rows : List ObjectRow}
    (hrows : ∀ row ∈ rows, row.storageClass = c ∧ t₀.get? (c, row.key) = some row)
    (hnodup : (rows.map ObjectRow.key).Nodup) (h : Visited c t₀ done i) (hseen : ∀ key ∈ i.seen, key ∈ done)
    (hdone : ∀ row ∈ rows, row.key ∈ done → row.key ∈ i.seen) :
    ∃ done', Visited c t₀ done' (rows.foldl (missObject pins scanStartedMs) i) ∧
      (∀ row ∈ rows, row.key ∈ done') ∧ ∀ key ∈ done, key ∈ done' := by
  induction rows generalizing done i with
  | nil => exact ⟨done, h, by simp, fun _ hk => hk⟩
  | cons row rest ih =>
    rw [List.map_cons, List.nodup_cons] at hnodup
    obtain ⟨hclass, hrow⟩ := hrows row List.mem_cons_self
    have hnext := missObject_visited h hseen hclass hrow pins scanStartedMs
      (hdone row List.mem_cons_self)
    obtain ⟨done', hvisited, hall, hmono⟩ := ih
      (fun r hr => hrows r (List.mem_cons_of_mem _ hr)) hnodup.2 hnext
      (by
        intro key hk
        rw [seen_missObject] at hk
        exact List.mem_cons_of_mem _ (hseen key hk))
      (by
        intro r hr hmem
        rw [seen_missObject]
        rcases List.mem_cons.mp hmem with heq | hmem
        · exact absurd (List.mem_map.mpr ⟨r, hr, heq⟩) hnodup.1
        · exact hdone r (List.mem_cons_of_mem _ hr) hmem)
    refine ⟨done', hvisited, ?_, ?_⟩
    · intro r hr
      rcases List.mem_cons.mp hr with rfl | hr
      · exact hmono _ List.mem_cons_self
      · exact hall r hr
    · exact fun key hk => hmono key (List.mem_cons_of_mem _ hk)

/-- The rows of the class, once every key of it is done. -/
theorem Visited.tally_eq (h : Visited c t₀ done i)
    (hall : ∀ o ∈ t₀.table.rows, o.storageClass = c → o.key ∈ done) (g : ObjectRow → ℕ) :
    i.objects.tally c g = i.objects.tallyDone c done g := by
  rw [ObjectIndex.tally, ObjectIndex.tallyDone, KeyTable.total, KeyTable.total]
  congr 1
  apply List.map_congr_left
  intro o ho
  rw [share, doneShare]
  by_cases hc : o.storageClass = c
  · have hkey : o.key ∈ done := by
      by_contra hnot
      -- a row whose key is not done was there before
      have hget : i.objects.get? (c, o.key) = some o := by
        have := KeyTable.get?_of_mem ho
        rwa [ObjectRow.id, hc] at this
      rw [h.undone o.key hnot] at hget
      exact hnot (hall o (KeyTable.get?_eq_some.mp hget).1 hc)
    rw [if_pos hc, if_pos ⟨hc, hkey⟩]
  · rw [if_neg hc, if_neg (fun hand => hc hand.1)]

theorem usage_recordMissing (s : Ledger) (c : StorageClass) (now : ℤ) (missing : List ObjectRow) :
    (recordMissing s c now missing).1.usage = s.usage := by
  have hfold : ∀ (rows : List ObjectRow) (p : Ledger × ℕ),
      (rows.foldl (recordMissingOn now) p).1.usage = p.1.usage := by
    intro rows
    induction rows with
    | nil => exact fun p => rfl
    | cons row rest ih =>
      intro p
      rw [List.foldl_cons, ih, recordMissingOn]
      dsimp only
      split <;> rfl
  rw [recordMissing]
  split
  · exact hfold missing (s, 0)
  · rfl

/-- The required bytes of a class are part of its bytes. -/
theorem tally_requiredBytes_le (t : ObjectIndex) (c : StorageClass) :
    t.tally c ObjectRow.requiredBytes ≤ t.tally c ObjectRow.bytes := by
  refine List.sum_le_sum ?_
  intro o _
  rw [share, share, ObjectRow.requiredBytes]
  split_ifs <;> omega

variable {s s' : Ledger}

/-- The usage row that a scan computes is the one of its index. -/
theorem Visited.accounted (hs : Accounted s) (h : Visited c s.objects done i)
    (hall : ∀ o ∈ s.objects.table.rows, o.storageClass = c → o.key ∈ done)
    (hobjects : s'.objects = i.objects)
    (husage : s'.usage = Function.update s.usage c (some
      { bytes := toI64 i.totalBytes, objects := i.effectiveObjects
        pinnedBytes := toI64 i.pinnedBytes })) (hfit : i.objects.tally c ObjectRow.bytes ≤ i64Max) :
    Accounted s' := by
  have hself : s'.usage c = some
      { bytes := toI64 i.totalBytes, objects := i.effectiveObjects
        pinnedBytes := toI64 i.pinnedBytes } := by
    rw [husage, Function.update_self]
  have hother : ∀ c', c' ≠ c → s'.usage c' = s.usage c' := by
    intro c' hc'
    rw [husage, Function.update_of_ne hc']
  constructor
  · rw [hobjects]
    exact h.sized
  · rw [hobjects]
    intro o ho
    by_cases hc : o.storageClass = c
    · rw [hc, hself]
      rfl
    · have hget : i.objects.get? (o.storageClass, o.key) = some o := KeyTable.get?_of_mem ho
      rw [h.otherRows _ hc] at hget
      rw [hother _ hc]
      exact hs.present o (KeyTable.get?_eq_some.mp hget).1
  · rw [hobjects]
    intro c'
    by_cases hc : c' = c
    · subst hc
      have hbytes := h.bytes
      have hpinned := h.pinned
      rw [← h.tally_eq hall] at hbytes hpinned
      rw [toI64_of_le hfit] at hbytes
      rw [toI64_of_le (le_trans (tally_requiredBytes_le _ _) hfit)] at hpinned
      rw [Ledger.usageOf, hself, Option.getD_some, hbytes, hpinned, h.objects, ← h.tally_eq hall]
    · rw [Ledger.usageOf, hother _ hc]
      show s.usageOf c' = _
      rw [hs.counted c']
      simp only [h.otherTallies c' hc]

variable {now : ℤ}

/-- **A full scan leaves the usage row of its index**, when the bytes of the class fit the column. -/
theorem setInventoryScannedAt_accounted (hs : Accounted s) {change : InventoryChange}
    (h : setInventoryScannedAt s c objects scanStartedMs now = .ok (change, s'))
    (hfit : s'.objects.tally c ObjectRow.bytes ≤ i64Max) : Accounted s' := by
  simp only [setInventoryScannedAt, bind_eq_ok] at h
  obtain ⟨scanned, hscan, h⟩ := h
  obtain ⟨-, rfl⟩ := Prod.mk.inj (Except.ok.inj h)
  have hexisting := existingRows_existing s c
  have hscanned : Visited c s.objects scanned.seen scanned :=
    foldlM_scanObject_visited hexisting (Visited.start hs.sized c) hscan
  obtain ⟨done, hvisited, hkeys, -⟩ := foldl_missObject_visited (pinnedKeys s c) scanStartedMs
    hexisting.row (nodup_existingRows s c) hscanned (fun _ hk => hk) (fun _ _ hk => hk)
  refine hvisited.accounted hs (fun o ho hc => hkeys o (hexisting.complete o ho hc)) rfl ?_ hfit
  show Function.update (recordMissing s c now _).1.usage c _ = _
  rw [usage_recordMissing]

/-! ## Runs -/

/-- The operations of the ledger.  `removeKeys` is the transaction of `remove_objects_with_prefix`,
over the keys that were read before it, whatever happened in between. -/
inductive LedgerCall
  | upsert (c : StorageClass) (key : String) (bytes : ℕ) (digest : Option String) (lastUsedMs : ℤ)
      (required : Bool)
  | commit (id : String) (actualBytes : ℕ) (digest : Option String) (lastUsedMs : ℤ)
  | pin (id : ObjectId) (reason : String) (now : ℤ)
  | unpin (id : ObjectId)
  | remove (id : ObjectId)
  | evict (id : ObjectId) (digest : Option String) (freedBytes : ℕ) (verified : Bool)
      (reason : String) (now : ℤ)
  | resize (id : ObjectId) (newBytes : ℕ)
  | shrink (id : ObjectId) (digest : Option String) (reclaimedBytes remainingBytes : ℕ)
      (verified : Bool) (reason : String) (now : ℤ)
  | scan (c : StorageClass) (objects : List ScannedObject) (scanStartedMs now : ℤ)
  | removeKeys (c : StorageClass) (keys : List String)
  | reserve (id owner : String) (c : StorageClass) (key : String) (bytes : ℕ) (now expires : ℤ)
      (quota total : ℕ) (rule : VolumeRule)
  | abort (id : String)
  | expire (now : ℤ)

/-- The ledger after a transaction: an error rolls it back. -/
def committed {α : Type} (s : Ledger) : Except GovernorError (α × Ledger) → Ledger
  | .ok (_, s') => s'
  | .error _ => s

/-- One operation. -/
def exec (s : Ledger) : LedgerCall → Ledger
  | .upsert c key bytes digest lastUsedMs required =>
    committed s (upsertObject s c key bytes digest lastUsedMs required)
  | .commit id actualBytes digest lastUsedMs =>
    committed s (commitReservation s id actualBytes digest lastUsedMs)
  | .pin id reason now => committed s ((pin s id reason now).map fun s' => ((), s'))
  | .unpin id => unpin s id
  | .remove id => (removeObject s id).2
  | .evict id digest freedBytes verified reason now =>
    (removeObjectAndRecordEviction s id digest freedBytes verified reason now).2
  | .resize id newBytes => (resizeObject s id newBytes).2
  | .shrink id digest reclaimedBytes remainingBytes verified reason now =>
    (resizeObjectAndRecordEviction s id digest reclaimedBytes remainingBytes verified reason now).2
  | .scan c objects scanStartedMs now =>
    committed s (setInventoryScannedAt s c objects scanStartedMs now)
  | .removeKeys c keys => (removeKeys c s keys).2
  | .reserve id owner c key bytes now expires quota total rule =>
    committed s (tryReserveAtomic s id owner c key bytes now expires quota total rule)
  | .abort id => deleteReservation s id
  | .expire now => s.expireReservations now

/-- Every operation can happen at any time. -/
def step (s : Ledger) (call : LedgerCall) : Option Ledger := some (exec s call)

/-- The bytes of every class stay below `2^63` in the state an operation leaves. -/
def Fits (s : Ledger) (call : LedgerCall) : Prop :=
  ∀ c ∈ StorageClass.all, (exec s call).objects.tally c ObjectRow.bytes ≤ i64Max

instance (s : Ledger) (call : LedgerCall) : Decidable (Fits s call) :=
  inferInstanceAs (Decidable (∀ c ∈ StorageClass.all,
    (exec s call).objects.tally c ObjectRow.bytes ≤ i64Max))

theorem committed_accounted {α : Type} (hs : Accounted s) {result : Except GovernorError (α × Ledger)}
    (h : ∀ a s', result = .ok (a, s') → Accounted s') : Accounted (committed s result) := by
  match result, h with
  | .error e, _ => exact hs
  | .ok (a, s'), h => exact h a s' rfl

/-- An admission touches neither the objects nor the usage. -/
theorem tryReserveAtomic_frame {id owner : String} {bytes : ℕ} {expires : ℤ} {quota total : ℕ}
    {rule : VolumeRule} {row : AdmitRow}
    (h : tryReserveAtomic s id owner c key bytes now expires quota total rule = .ok (row, s')) :
    s'.objects = s.objects ∧ s'.usage = s.usage := by
  obtain ⟨_, _, -, -, ⟨-, rfl⟩ | ⟨-, -, -, -, -, _, -, rfl⟩⟩ := tryReserveAtomic_cases h
  · exact ⟨rfl, rfl⟩
  · exact ⟨rfl, rfl⟩

/-- **Every operation keeps the counters exact.** -/
theorem exec_accounted (hs : Accounted s) {call : LedgerCall} (hfit : Fits s call) :
    Accounted (exec s call) := by
  cases call with
  | upsert c key bytes digest lastUsedMs required =>
    exact committed_accounted hs fun _ _ h => upsertObjectOn_accounted hs h
  | commit id actualBytes digest lastUsedMs =>
    exact committed_accounted hs fun _ _ h => commitReservation_accounted hs h
  | pin id reason now =>
    refine committed_accounted hs fun _ s' h => ?_
    cases hpin : pin s id reason now with
    | error e =>
      rw [hpin] at h
      cases h
    | ok s₁ =>
      rw [hpin] at h
      obtain ⟨-, rfl⟩ := Prod.mk.inj (Except.ok.inj h)
      exact pin_accounted hs hpin
  | unpin id => exact unpin_accounted hs id
  | remove id => exact removeObjectOn_accounted hs id
  | evict id digest freedBytes verified reason now =>
    exact removeObjectAndRecordEviction_accounted hs id digest freedBytes verified reason now
  | resize id newBytes => exact resizeObject_accounted hs id newBytes
  | shrink id digest reclaimedBytes remainingBytes verified reason now =>
    exact resizeObjectAndRecordEviction_accounted hs id digest reclaimedBytes remainingBytes verified
      reason now
  | scan c objects scanStartedMs now =>
    have hclass := hfit c c.mem_all
    rw [exec] at hclass ⊢
    cases hscan : setInventoryScannedAt s c objects scanStartedMs now with
    | error e => exact hs
    | ok result =>
      rw [hscan] at hclass
      exact setInventoryScannedAt_accounted hs hscan hclass
  | removeKeys c keys => exact removeKeys_accounted hs keys
  | reserve id owner c key bytes now expires quota total rule =>
    refine committed_accounted hs fun row s' h => ?_
    obtain ⟨hobjects, husage⟩ := tryReserveAtomic_frame h
    exact hs.congr hobjects husage
  | abort id => exact hs.congr rfl rfl
  | expire now => exact hs.congr rfl rfl

/-- The counters are exact after every run. -/
theorem run_accounted {calls : List LedgerCall} (hrun : Trace.run step .fresh calls = some s)
    (hfits : Trace.Along step Fits .fresh calls) :
    Accounted s := by
  refine Trace.run_invariant_along ?_ Accounted.fresh hfits hrun
  intro t call t' ht hfit hstep
  obtain rfl := Option.some.inj hstep
  exact exec_accounted ht hfit

/-- Rows of one family with one digest are one row. -/
theorem length_select_digest_le_one (t : ObjectIndex) (family : Family) (digest : String) :
    (t.table.select fun o => o.family = family && o.digest = some digest).length ≤ 1 := by
  set p : ObjectRow → Bool := fun o => o.family = family && o.digest = some digest with hp
  have hnodup : ((t.table.select p).map ObjectRow.id).Nodup :=
    t.table.nodup.sublist (List.filter_sublist.map ObjectRow.id)
  have hrow : ∀ o ∈ t.table.select p, o ∈ t.table.rows ∧ o.family = family
      ∧ o.digest = some digest := by
    intro o ho
    simpa [hp, KeyTable.mem_select] using ho
  match hsel : t.table.select p with
  | [] => simp
  | [_] => simp
  | a :: b :: rest =>
    -- two rows of the selection would have one id
    rw [hsel] at hnodup hrow
    obtain ⟨ha, hafamily, hadigest⟩ := hrow a (by simp)
    obtain ⟨hb, hbfamily, hbdigest⟩ := hrow b (by simp)
    have hid := t.digests a ha b hb (hafamily.trans hbfamily.symm)
      (hadigest.trans hbdigest.symm) (by rw [hadigest]; rfl)
    rw [List.map_cons, List.map_cons, hid] at hnodup
    exact absurd List.mem_cons_self (List.nodup_cons.mp hnodup).1

/-- A quantity of a class is the sum over the rows that are selected by it. -/
theorem tally_eq_sum_select (t : ObjectIndex) (c : StorageClass) (g : ObjectRow → ℕ) :
    t.tally c g = ((t.table.select fun o => o.storageClass = c).map g).sum := by
  rw [KeyTable.sum_select, ObjectIndex.tally]
  congr 1
  funext o
  rw [share]
  simp only [decide_eq_true_eq]

theorem tally_one_eq_length (t : ObjectIndex) (c : StorageClass) :
    t.tally c (fun _ => 1) = (t.table.select fun o => o.storageClass = c).length := by
  rw [tally_eq_sum_select, List.map_const', List.sum_replicate, smul_eq_mul, Nat.mul_one]

theorem tally_requiredBytes_eq (t : ObjectIndex) (c : StorageClass) :
    t.tally c ObjectRow.requiredBytes
      = ((t.table.select fun o => o.storageClass = c && o.required).map ObjectRow.bytes).sum := by
  rw [KeyTable.sum_select, ObjectIndex.tally]
  congr 1
  funext o
  rw [share, ObjectRow.requiredBytes]
  by_cases hc : o.storageClass = c
  · simp [hc]
  · simp [hc]

/-- **The usage rows are the sums over the index.**  After every run of ledger operations that keeps
the bytes of each class below `2^63`: the usage row of every class holds the bytes, the number and
the required bytes of its objects, and no digest is indexed twice in one family. -/
theorem usage_exact {s : Ledger} {calls : List LedgerCall}
    (hrun : Trace.run step .fresh calls = some s) (hfits : Trace.Along step Fits .fresh calls) :
    (∀ c, s.usageOf c =
      { bytes := ((s.objects.table.select fun o => o.storageClass = c).map ObjectRow.bytes).sum
        objects := (s.objects.table.select fun o => o.storageClass = c).length
        pinnedBytes := ((s.objects.table.select fun o => o.storageClass = c && o.required).map
          ObjectRow.bytes).sum }) ∧
    ∀ family digest,
      (s.objects.table.select fun o => o.family = family && o.digest = some digest).length ≤ 1 := by
  have hs : Accounted s := run_accounted hrun hfits
  refine ⟨?_, length_select_digest_le_one s.objects⟩
  intro c
  rw [hs.counted c, tally_one_eq_length, tally_requiredBytes_eq, tally_eq_sum_select]

/-- A pinned blob of the main store that a checkpoint takes over. -/
def promotedBlob : List LedgerCall :=
  [.upsert .mainCas "blob" 10 (some "blob") 1 false,
   .pin (.mainCas, "blob") "in use" 2,
   .upsert .checkpoint "blob" 10 (some "blob") 3 false]

/-- The blob is counted once, in the class it was promoted to, and it is still required there. -/
theorem promotedBlob_counted : ∃ s, Trace.run step .fresh promotedBlob = some s ∧
    s.usageOf .mainCas = { bytes := 0, objects := 0, pinnedBytes := 0 } ∧
    s.usageOf .checkpoint = { bytes := 10, objects := 1, pinnedBytes := 10 } ∧
    (s.objects.table.select fun o => o.family = .main && o.digest = some "blob").length ≤ 1 := by
  have hfits : Trace.Along step Fits .fresh promotedBlob := by decide +kernel
  refine ⟨_, rfl, ?_, ?_, (usage_exact rfl hfits).2 _ _⟩
  · rw [(usage_exact rfl hfits).1]
    decide +kernel
  · rw [(usage_exact rfl hfits).1]
    decide +kernel

end Storage
