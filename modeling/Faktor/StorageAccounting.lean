/-
# The usage counters agree with the object index

Every class has one usage row: bytes, number of objects, bytes of required objects.  The operations
of the ledger move it by deltas, with clamps at zero.  Here each of them is shown to move the row by
exactly what it does to the index (`Accounted`), so that the clamps never act.
-/
import Faktor.StorageLedger

namespace Storage

open Sqlite (i64Max bind_eq_ok)

/-! ## Sums over the index -/

/-- What a row adds to a quantity of a class. -/
def share (c : StorageClass) (g : ObjectRow → ℕ) (o : ObjectRow) : ℕ :=
  if o.storageClass = c then g o else 0

/-- A quantity of the rows of a class, added up. -/
def ObjectIndex.tally (t : ObjectIndex) (c : StorageClass) (g : ObjectRow → ℕ) : ℕ :=
  t.table.total (share c g)

/-- The bytes that count as pinned. -/
def ObjectRow.requiredBytes (o : ObjectRow) : ℕ := if o.required then o.bytes else 0

namespace ObjectIndex

variable {t u : ObjectIndex} {o : ObjectRow}

theorem insert?_eq_some (h : t.insert? o = some u) :
    t.table.insert? o = some u.table := by
  unfold insert? at h
  split at h
  · cases h
  · next table htable =>
    split_ifs at h
    rw [htable, ← Option.some.inj h]

theorem tally_insert (h : t.insert? o = some u) (c : StorageClass) (g : ObjectRow → ℕ) :
    u.tally c g = t.tally c g + share c g o :=
  KeyTable.total_insert (insert?_eq_some h) _

variable {a : ObjectRow}

theorem mem_of_insert (h : t.insert? o = some u) (ha : a ∈ u.table.rows) : a = o ∨ a ∈ t.table.rows := by
  rw [(KeyTable.insert?_eq_some.mp (insert?_eq_some h)).2, List.mem_append,
    List.mem_singleton] at ha
  exact ha.symm

/-- What an update of one row leaves: every other row, and the new one. -/
theorem replace?_eq_some (h : t.replace? o = some u) :
    u.table = t.table.modify o.id (overwrite o) (id_overwrite o) := by
  simp only [replace?] at h
  split_ifs at h
  rw [← Option.some.inj h]

theorem tally_replace {old : ObjectRow} (h : t.replace? o = some u) (hold : t.get? o.id = some old)
    (c : StorageClass) (g : ObjectRow → ℕ) :
    u.tally c g + share c g old = t.tally c g + share c g o := by
  have hsum := KeyTable.total_modify hold (overwrite o) (id_overwrite o) (share c g)
  rw [show overwrite o old = o from if_pos (KeyTable.get?_eq_some.mp hold).2] at hsum
  rw [tally, replace?_eq_some h]
  exact hsum

theorem mem_of_replace (h : t.replace? o = some u) (ha : a ∈ u.table.rows) : a = o ∨ a ∈ t.table.rows := by
  rw [replace?_eq_some h, KeyTable.mem_modify] at ha
  obtain ⟨b, hb, rfl⟩ := ha
  by_cases hkey : b.id = o.id
  · left
    simp [overwrite, hkey]
  · right
    simpa [hkey] using hb

variable {id : ObjectId} {f : ObjectRow → ObjectRow}

theorem tally_modify (h : t.get? id = some o) {hid : ∀ o, (f o).id = o.id}
    {hfamily : ∀ o, (f o).family = o.family} {hdigest : ∀ o, (f o).digest = o.digest} (c : StorageClass)
    (g : ObjectRow → ℕ) :
    (t.modify id f hid hfamily hdigest).tally c g + share c g o
      = t.tally c g + share c g (f o) :=
  KeyTable.total_modify h f hid _

theorem mem_of_modify (h : t.get? id = some o) {hid : ∀ o, (f o).id = o.id}
    {hfamily : ∀ o, (f o).family = o.family} {hdigest : ∀ o, (f o).digest = o.digest}
    (ha : a ∈ (t.modify id f hid hfamily hdigest).table.rows) : a = f o ∨ a ∈ t.table.rows := by
  obtain ⟨b, hb, rfl⟩ := (KeyTable.mem_modify _ _ _ hid).mp ha
  obtain ⟨ho, rfl⟩ := KeyTable.get?_eq_some.mp h
  by_cases hkey : b.id = o.id
  · left
    rw [KeyTable.eq_of_key_eq hb ho hkey]
    simp
  · right
    simpa [hkey] using hb

theorem tally_erase (h : t.get? id = some o) (c : StorageClass) (g : ObjectRow → ℕ) :
    (t.erase id).tally c g + share c g o = t.tally c g :=
  KeyTable.total_erase h _

theorem mem_of_erase (ha : a ∈ (t.erase id).table.rows) : a ∈ t.table.rows := (KeyTable.mem_deleteWhere.mp ha).1

/-- A row that is there is part of every sum of its class. -/
theorem share_le_tally (h : t.get? id = some o) (c : StorageClass) (g : ObjectRow → ℕ) :
    share c g o ≤ t.tally c g := by
  have := tally_erase h c g
  omega

end ObjectIndex

variable {c : StorageClass} {g : ObjectRow → ℕ} {o : ObjectRow}

theorem share_self (h : o.storageClass = c) : share c g o = g o := if_pos h

theorem share_of_ne (h : o.storageClass ≠ c) : share c g o = 0 := if_neg h

/-! ## The usage rows -/

/-- The usage row of a class, zero when there is none. -/
def Ledger.usageOf (s : Ledger) (c : StorageClass) : UsageRow :=
  (s.usage c).getD { bytes := 0, objects := 0, pinnedBytes := 0 }

variable {s : Ledger}

theorem usageOf_updateUsage (h : (s.usage c).isSome = true) (f : UsageRow → UsageRow) (c' : StorageClass) :
    (s.updateUsage c f).usageOf c' = if c' = c then f (s.usageOf c) else s.usageOf c' := by
  obtain ⟨u, hu⟩ := Option.isSome_iff_exists.mp h
  by_cases hc : c' = c
  · subst hc
    simp [Ledger.usageOf, Ledger.updateUsage, hu]
  · simp [Ledger.usageOf, Ledger.updateUsage, hc]

@[simp] theorem isSome_updateUsage (s : Ledger) (c c' : StorageClass) (f : UsageRow → UsageRow) :
    ((s.updateUsage c f).usage c').isSome = (s.usage c').isSome := by
  by_cases hc : c' = c
  · subst hc
    simp [Ledger.updateUsage]
  · simp [Ledger.updateUsage, hc]

@[simp] theorem usageOf_ensureUsageOn (s : Ledger) (c c' : StorageClass) :
    (ensureUsageOn s c).usageOf c' = s.usageOf c' := by
  by_cases hc : c' = c
  · subst hc
    simp [Ledger.usageOf, ensureUsageOn]
  · simp [Ledger.usageOf, ensureUsageOn, hc]

theorem isSome_ensureUsageOn (s : Ledger) (c c' : StorageClass) :
    ((ensureUsageOn s c).usage c').isSome = (decide (c' = c) || (s.usage c').isSome) := by
  by_cases hc : c' = c
  · subst hc
    simp [ensureUsageOn]
  · simp [ensureUsageOn, hc]

/-- **The accounting invariant**: the rows fit their column, their classes have usage rows, and the
usage rows are the sums. -/
structure Accounted (s : Ledger) : Prop where
  sized : ∀ o ∈ s.objects.table.rows, o.bytes ≤ i64Max
  present : ∀ o ∈ s.objects.table.rows, (s.usage o.storageClass).isSome = true
  counted : ∀ c, s.usageOf c =
    { bytes := s.objects.tally c ObjectRow.bytes
      objects := s.objects.tally c fun _ => 1
      pinnedBytes := s.objects.tally c ObjectRow.requiredBytes }

theorem Accounted.fresh : Accounted .fresh where
  sized := by simp [Ledger.fresh, ObjectIndex.empty, KeyTable.empty]
  present := by simp [Ledger.fresh, ObjectIndex.empty, KeyTable.empty]
  counted := by
    intro c
    rfl

variable {s' : Ledger}

/-- The invariant reads the objects and the usage only. -/
theorem Accounted.congr (hs : Accounted s) (hobjects : s'.objects = s.objects) (husage : s'.usage = s.usage) :
    Accounted s' where
  sized := by rw [hobjects]; exact hs.sized
  present := by rw [hobjects, husage]; exact hs.present
  counted := by
    intro c
    rw [hobjects, Ledger.usageOf, husage]
    exact hs.counted c

theorem toI64_of_le {n : ℕ} (h : n ≤ i64Max) : toI64 n = n := Nat.min_eq_left h

theorem toI64_le (n : ℕ) : toI64 n ≤ i64Max := Nat.min_le_right _ _

/-! ## One row comes, goes or changes -/

/-- A row that is inserted, with the counters of its class. -/
theorem Accounted.gain (hs : Accounted s) (hinsert : s.objects.insert? o = some s'.objects)
    (hsized : o.bytes ≤ i64Max)
    (hsome : ∀ c, c = o.storageClass ∨ (s.usage c).isSome = true → (s'.usage c).isSome = true)
    (husage : ∀ c, s'.usageOf c = if c = o.storageClass then
      { bytes := (s.usageOf c).bytes + o.bytes, objects := (s.usageOf c).objects + 1
        pinnedBytes := (s.usageOf c).pinnedBytes + o.requiredBytes } else s.usageOf c) :
    Accounted s' where
  sized := by
    intro a ha
    rcases ObjectIndex.mem_of_insert hinsert ha with rfl | ha
    · exact hsized
    · exact hs.sized a ha
  present := by
    intro a ha
    rcases ObjectIndex.mem_of_insert hinsert ha with rfl | ha
    · exact hsome _ (.inl rfl)
    · exact hsome _ (.inr (hs.present a ha))
  counted := by
    intro c
    rw [husage, hs.counted c]
    simp only [ObjectIndex.tally_insert hinsert]
    by_cases hc : c = o.storageClass
    · simp only [if_pos hc, share_self hc.symm, Nat.cast_add, Nat.cast_one]
    · simp only [if_neg hc, share_of_ne (Ne.symm hc), Nat.add_zero]

variable {id : ObjectId}

/-- A row that is deleted, with the counters of its class. -/
theorem Accounted.lose (hs : Accounted s) (hget : s.objects.get? id = some o)
    (hobjects : s'.objects = s.objects.erase id)
    (hsome : ∀ c, (s.usage c).isSome = true → (s'.usage c).isSome = true)
    (husage : ∀ c, s'.usageOf c = if c = o.storageClass then
      { bytes := (s.usageOf c).bytes - o.bytes, objects := (s.usageOf c).objects - 1
        pinnedBytes := (s.usageOf c).pinnedBytes - o.requiredBytes } else s.usageOf c) :
    Accounted s' where
  sized := by
    intro a ha
    rw [hobjects] at ha
    exact hs.sized a (ObjectIndex.mem_of_erase ha)
  present := by
    intro a ha
    rw [hobjects] at ha
    exact hsome _ (hs.present a (ObjectIndex.mem_of_erase ha))
  counted := by
    intro c
    rw [husage, hs.counted c, hobjects]
    simp only [← ObjectIndex.tally_erase hget]
    by_cases hc : c = o.storageClass
    · simp only [if_pos hc, share_self hc.symm, Nat.cast_add, Nat.cast_one, add_sub_cancel_right]
    · simp only [if_neg hc, share_of_ne (Ne.symm hc), Nat.add_zero]

variable {old : ObjectRow}

/-- A row that changes its size or its requirement, with the counters of its class. -/
theorem Accounted.change (hs : Accounted s) {new : ObjectRow} (hclass : new.storageClass = old.storageClass)
    (hsized : new.bytes ≤ i64Max) (hmem : ∀ a ∈ s'.objects.table.rows, a = new ∨ a ∈ s.objects.table.rows)
    (htally : ∀ c g, s'.objects.tally c g + share c g old = s.objects.tally c g + share c g new)
    (hold : (s.usage old.storageClass).isSome = true)
    (hsome : ∀ c, (s.usage c).isSome = true → (s'.usage c).isSome = true)
    (husage : ∀ c, s'.usageOf c = if c = old.storageClass then
      { bytes := (s.usageOf c).bytes + new.bytes - old.bytes, objects := (s.usageOf c).objects
        pinnedBytes := (s.usageOf c).pinnedBytes + new.requiredBytes - old.requiredBytes }
      else s.usageOf c) :
    Accounted s' where
  sized := by
    intro a ha
    rcases hmem a ha with rfl | ha
    · exact hsized
    · exact hs.sized a ha
  present := by
    intro a ha
    rcases hmem a ha with rfl | ha
    · rw [hclass]
      exact hsome _ hold
    · exact hsome _ (hs.present a ha)
  counted := by
    intro c
    have hbytes := htally c ObjectRow.bytes
    have hone := htally c fun _ => 1
    have hrequired := htally c ObjectRow.requiredBytes
    rw [husage, hs.counted c]
    by_cases hc : c = old.storageClass
    · have hc' : new.storageClass = c := hclass.trans hc.symm
      rw [share_self hc.symm, share_self hc'] at hbytes hone hrequired
      simp only [if_pos hc, UsageRow.mk.injEq]
      omega
    · have hc' : new.storageClass ≠ c := fun h => hc (h.symm.trans hclass)
      rw [share_of_ne (Ne.symm hc), share_of_ne hc'] at hbytes hone hrequired
      simp only [if_neg hc, UsageRow.mk.injEq]
      omega

/-! ## What the counter statements do -/

theorem usageOf_addPinnedOn (s : Ledger) (c : StorageClass) (bytes : ℕ) (c' : StorageClass) :
    (addPinnedOn s c bytes).usageOf c' = if c' = c then
      { s.usageOf c with pinnedBytes := (s.usageOf c).pinnedBytes + toI64 bytes }
      else s.usageOf c' := by
  rw [addPinnedOn, usageOf_updateUsage (by simp [isSome_ensureUsageOn])]
  simp only [usageOf_ensureUsageOn]

theorem isSome_addPinnedOn (s : Ledger) (c : StorageClass) (bytes : ℕ) (c' : StorageClass) :
    ((addPinnedOn s c bytes).usage c').isSome = (decide (c' = c) || (s.usage c').isSome) := by
  rw [addPinnedOn, isSome_updateUsage, isSome_ensureUsageOn]

section

variable (hs : Accounted s) (hget : s.objects.get? id = some o)
include hs hget

/-- In an accounted ledger the sums of a class hold the share of each of its rows. -/
theorem Accounted.row_le :
    (o.bytes : ℤ) ≤ (s.usageOf o.storageClass).bytes ∧ 1 ≤ (s.usageOf o.storageClass).objects ∧
      (o.requiredBytes : ℤ) ≤ (s.usageOf o.storageClass).pinnedBytes := by
  have hbytes := ObjectIndex.share_le_tally hget o.storageClass ObjectRow.bytes
  have hone := ObjectIndex.share_le_tally hget o.storageClass fun _ => 1
  have hrequired := ObjectIndex.share_le_tally hget o.storageClass ObjectRow.requiredBytes
  rw [share_self rfl] at hbytes hone hrequired
  rw [hs.counted o.storageClass]
  simp only
  omega

/-- The row that is read has a usage row and fits its column. -/
theorem Accounted.row :
    (s.usage o.storageClass).isSome = true ∧ o.bytes ≤ i64Max ∧ o.id = id := by
  obtain ⟨hmem, hid⟩ := KeyTable.get?_eq_some.mp hget
  exact ⟨hs.present o hmem, hs.sized o hmem, hid⟩

/-- Deleting a row and its counts. -/
theorem Accounted.drop (s' : Ledger) (hobjects : s'.objects = s.objects.erase id)
    (husage : s'.usage = s.usage) :
    Accounted (s'.dropUsage o) := by
  obtain ⟨hsome, hsized, -⟩ := hs.row hget
  obtain ⟨hbytes, hone, hrequired⟩ := hs.row_le hget
  have hof : ∀ c, s'.usageOf c = s.usageOf c := by
    intro c
    rw [Ledger.usageOf, husage]
    rfl
  refine hs.lose hget hobjects ?_ ?_
  · intro c hc
    rw [Ledger.dropUsage, isSome_updateUsage, husage]
    exact hc
  · intro c
    rw [Ledger.dropUsage, usageOf_updateUsage (by rw [husage]; exact hsome), hof, hof]
    by_cases hc : c = o.storageClass
    · subst hc
      rw [if_pos rfl, if_pos rfl, toI64_of_le hsized]
      -- the clamps at zero do not act
      have hpinned : (if o.required = true then (o.bytes : ℤ) else 0) = o.requiredBytes := by
        rw [ObjectRow.requiredBytes]
        split <;> simp
      rw [hpinned, UsageRow.mk.injEq]
      omega
    · rw [if_neg hc, if_neg hc]

end

variable {bytes : ℕ}

/-- Inserting a row and its counts. -/
theorem Accounted.add (hs : Accounted s) (s₁ : Ledger) (hinsert : s.objects.insert? o = some s₁.objects)
    (hbytes : o.bytes = toI64 bytes) (husage : s₁.usage = (ensureUsageOn s o.storageClass).usage) :
    Accounted (s₁.countUsage o.storageClass bytes o.required) := by
  rw [Ledger.countUsage]
  set counted := s₁.updateUsage o.storageClass fun u =>
    { u with bytes := u.bytes + toI64 bytes, objects := u.objects + 1 } with hcountedDef
  have hsome₁ : ∀ c, (s₁.usage c).isSome = (decide (c = o.storageClass) || (s.usage c).isSome) := by
    intro c
    rw [husage, isSome_ensureUsageOn]
  have hof₁ : ∀ c, s₁.usageOf c = s.usageOf c := by
    intro c
    rw [Ledger.usageOf, husage]
    exact usageOf_ensureUsageOn s o.storageClass c
  have hcounted : ∀ c, counted.usageOf c = if c = o.storageClass then
      { s.usageOf c with bytes := (s.usageOf c).bytes + o.bytes
                         objects := (s.usageOf c).objects + 1 } else s.usageOf c := by
    intro c
    rw [hcountedDef, usageOf_updateUsage (by simp [hsome₁]), hof₁, hof₁, hbytes]
    by_cases hc : c = o.storageClass
    · subst hc
      rfl
    · rw [if_neg hc, if_neg hc]
  have hsomeCounted : ∀ c, (counted.usage c).isSome
      = (decide (c = o.storageClass) || (s.usage c).isSome) := by
    intro c
    rw [hcountedDef, isSome_updateUsage, hsome₁]
  have hsized : o.bytes ≤ i64Max := hbytes ▸ toI64_le bytes
  by_cases hrequired : o.required = true
  · rw [if_pos hrequired]
    refine hs.gain hinsert hsized ?_ ?_
    · intro c hc
      rw [isSome_addPinnedOn, hsomeCounted]
      rcases hc with rfl | hc
      · simp
      · simp [hc]
    · intro c
      rw [usageOf_addPinnedOn, hcounted, hcounted, ← hbytes]
      by_cases hc : c = o.storageClass
      · subst hc
        simp [ObjectRow.requiredBytes, hrequired]
      · rw [if_neg hc, if_neg hc, if_neg hc]
  · rw [if_neg hrequired]
    refine hs.gain hinsert hsized ?_ ?_
    · intro c hc
      rw [hsomeCounted]
      rcases hc with rfl | hc
      · simp
      · simp [hc]
    · intro c
      rw [hcounted]
      by_cases hc : c = o.storageClass
      · subst hc
        simp [ObjectRow.requiredBytes, hrequired]
      · rw [if_neg hc, if_neg hc]

/-- A column, when the row counts as pinned. -/
def pinnedPart (required : Bool) (bytes : ℕ) : ℤ := if required then (bytes : ℤ) else 0

theorem pinnedPart_requiredBytes (o : ObjectRow) :
    pinnedPart o.required o.bytes = o.requiredBytes := by
  rw [pinnedPart, ObjectRow.requiredBytes]
  split <;> simp

variable {oldBytes : ℕ} {oldRequired required : Bool}

/-- The counters of a row that changes, when they hold what they take away. -/
theorem usageOf_moveUsage (hsome : (s.usage c).isSome = true)
    (hle : pinnedPart oldRequired (toI64 oldBytes) ≤ (s.usageOf c).pinnedBytes) (c' : StorageClass) :
    (s.moveUsage c oldBytes bytes oldRequired required).usageOf c' = if c' = c then
      { bytes := (s.usageOf c).bytes + toI64 bytes - toI64 oldBytes
        objects := (s.usageOf c).objects
        pinnedBytes := (s.usageOf c).pinnedBytes + pinnedPart required (toI64 bytes)
          - pinnedPart oldRequired (toI64 oldBytes) }
      else s.usageOf c' := by
  have hsized : ∀ f c', (s.updateUsage c f).usageOf c'
      = if c' = c then f (s.usageOf c) else s.usageOf c' := usageOf_updateUsage hsome
  have hsome' : ∀ f, ((s.updateUsage c f).usage c).isSome = true := by
    intro f
    rw [isSome_updateUsage]
    exact hsome
  by_cases hc : c' = c
  · subst hc
    cases required <;> cases oldRequired <;>
      simp only [Ledger.moveUsage, pinnedPart, ne_eq, not_true_eq_false, not_false_eq_true, reduceCtorEq,
        if_true, if_false, usageOf_addPinnedOn, subPinnedOn, adjustPinnedOn,
        usageOf_updateUsage (hsome' _), hsized, UsageRow.mk.injEq, Bool.false_eq_true, true_and] at hle ⊢ <;>
      omega
  · cases required <;> cases oldRequired <;>
      simp [Ledger.moveUsage, usageOf_addPinnedOn, subPinnedOn, adjustPinnedOn,
        usageOf_updateUsage (hsome' _), hsized, hc]

theorem isSome_moveUsage {c' : StorageClass} (h : (s.usage c').isSome = true) :
    ((s.moveUsage c oldBytes bytes oldRequired required).usage c').isSome = true := by
  cases required <;> cases oldRequired <;>
    simp [Ledger.moveUsage, isSome_addPinnedOn, subPinnedOn, adjustPinnedOn, h]

@[simp] theorem objects_moveUsage (s : Ledger) (c : StorageClass) (oldBytes bytes : ℕ)
    (oldRequired required : Bool) :
    (s.moveUsage c oldBytes bytes oldRequired required).objects = s.objects := by
  cases required <;> cases oldRequired <;> rfl

/-- Changing a row and its counts. -/
theorem Accounted.move {s₁ : Ledger} (hs : Accounted s) (new : ObjectRow)
    (hget : s.objects.get? old.id = some old) (hid : new.id = old.id) (hbytes : new.bytes = toI64 bytes)
    (hmem : ∀ a ∈ s₁.objects.table.rows, a = new ∨ a ∈ s.objects.table.rows)
    (htally : ∀ c g, s₁.objects.tally c g + share c g old = s.objects.tally c g + share c g new)
    (hsome₁ : ∀ c, (s.usage c).isSome = true → (s₁.usage c).isSome = true)
    (hof₁ : ∀ c, s₁.usageOf c = s.usageOf c) :
    Accounted (s₁.moveUsage old.storageClass old.bytes bytes old.required new.required) := by
  obtain ⟨hsome, hsized, -⟩ := hs.row hget
  obtain ⟨-, -, hrequired⟩ := hs.row_le hget
  have hclass : new.storageClass = old.storageClass := congrArg Prod.fst hid
  have hle : pinnedPart old.required (toI64 old.bytes)
      ≤ (s₁.usageOf old.storageClass).pinnedBytes := by
    rw [toI64_of_le hsized, pinnedPart_requiredBytes, hof₁]
    exact hrequired
  refine hs.change hclass (hbytes ▸ toI64_le bytes) ?_ ?_ hsome ?_ ?_
  · rw [objects_moveUsage]
    exact hmem
  · rw [objects_moveUsage]
    exact htally
  · intro c hc
    exact isSome_moveUsage (hsome₁ c hc)
  · intro c
    rw [usageOf_moveUsage (hsome₁ _ hsome) hle, hof₁, hof₁, toI64_of_le hsized,
      pinnedPart_requiredBytes, ← hbytes, pinnedPart_requiredBytes]
    by_cases hc : c = old.storageClass
    · subst hc
      rfl
    · rw [if_neg hc, if_neg hc]

/-! ## The operations keep the invariant -/

theorem removeObjectOn_accounted (hs : Accounted s) (id : ObjectId) :
    Accounted (removeObjectOn s id).2 := by
  unfold removeObjectOn
  cases hget : s.objects.get? id with
  | none => exact hs
  | some row => exact hs.drop hget _ rfl rfl

variable {digest : String}

/-- A row that a digest names is under its own key. -/
theorem findDigest_eq_some {t : ObjectIndex} {family : Family} (h : t.findDigest family digest = some o) :
    t.get? o.id = some o ∧ o.family = family ∧ o.digest = some digest := by
  have hp := List.find?_some h
  rw [Bool.and_eq_true, decide_eq_true_eq, decide_eq_true_eq] at hp
  exact ⟨KeyTable.get?_of_mem (List.mem_of_find?_eq_some h), hp⟩

variable {row : ObjectRow} {lastUsedMs : ℤ}

section

variable (hs : Accounted s)
include hs

theorem promoteObjectOn_accounted (hget : s.objects.get? row.id = some row) {toClass : StorageClass}
    (h : promoteObjectOn s row digest toClass lastUsedMs required = .ok s') :
    Accounted s' := by
  have hsized : row.bytes ≤ i64Max := (hs.row hget).2.1
  -- the row leaves its class, and a row like it comes to the stronger one
  have hdropped := hs.drop hget { s with objects := s.objects.erase row.id } rfl rfl
  simp only [promoteObjectOn, bind_eq_ok, orConstraint_eq_ok] at h
  obtain ⟨objects, hinsert, pins, -, h⟩ := h
  obtain rfl := Except.ok.inj h
  set dropped := { s with objects := s.objects.erase row.id }.dropUsage row
  exact hdropped.add { ensureUsageOn dropped toClass with objects := objects, pins := pins } hinsert
    (toI64_of_le hsized).symm rfl

theorem upsertObjectOn_accounted {key : String} {digest : Option String} {stored : Bool}
    (h : upsertObjectOn s c key bytes digest lastUsedMs required = .ok (stored, s')) :
    Accounted s' := by
  unfold upsertObjectOn at h
  split at h
  · next owner howner =>
    split_ifs at h
    · obtain ⟨promoted, hpromoted, h⟩ := bind_eq_ok.mp h
      obtain ⟨-, rfl⟩ := Prod.mk.inj (Except.ok.inj h)
      obtain ⟨d, -, hfound⟩ := Option.bind_eq_some_iff.mp howner
      have hown := findDigest_eq_some (Option.filter_eq_some_iff.mp hfound).1
      exact promoteObjectOn_accounted hs hown.1 hpromoted
    · obtain ⟨-, rfl⟩ := Prod.mk.inj (Except.ok.inj h)
      exact hs
  · dsimp only at h
    split at h
    · next old hold =>
      simp only [bind_eq_ok, orConstraint_eq_ok] at h
      obtain ⟨objects, hreplace, h⟩ := h
      obtain ⟨-, rfl⟩ := Prod.mk.inj (Except.ok.inj h)
      have hid : old.id = (c, key) := (hs.row hold).2.2
      have hclass : c = old.storageClass := (congrArg Prod.fst hid).symm
      subst hclass
      set new : ObjectRow := { old with
        bytes := toI64 bytes, digest := digest.orElse fun _ => old.digest, lastUsedMs := lastUsedMs
        required := required || isPinnedOn s (old.storageClass, key)
        family := old.storageClass.family } with hnew
      refine hs.move new (hid ▸ hold) rfl rfl ?_ ?_ ?_ ?_
      · exact fun a ha => ObjectIndex.mem_of_replace hreplace ha
      · exact fun c' g => ObjectIndex.tally_replace hreplace (hid ▸ hold) c' g
      · intro c' hc'
        show ((ensureUsageOn s _).usage c').isSome = true
        rw [isSome_ensureUsageOn, hc', Bool.or_true]
      · exact fun c' => usageOf_ensureUsageOn s _ c'
    · simp only [bind_eq_ok, orConstraint_eq_ok] at h
      obtain ⟨objects, hinsert, h⟩ := h
      obtain ⟨-, rfl⟩ := Prod.mk.inj (Except.ok.inj h)
      exact hs.add { ensureUsageOn s c with objects := objects } hinsert rfl rfl

/-- A row whose required flag or size is set, with the counters that go with it. -/
theorem Accounted.modified (hget : s.objects.get? id = some row) (f : ObjectRow → ObjectRow)
    (hid : ∀ o, (f o).id = o.id) (hfamily : ∀ o, (f o).family = o.family)
    (hdigest : ∀ o, (f o).digest = o.digest)
    (hobjects : s'.objects = s.objects.modify id f hid hfamily hdigest) (hsized : (f row).bytes ≤ i64Max)
    (hsome : ∀ c, (s.usage c).isSome = true → (s'.usage c).isSome = true)
    (husage : ∀ c, s'.usageOf c = if c = row.storageClass then
      { bytes := (s.usageOf c).bytes + (f row).bytes - row.bytes, objects := (s.usageOf c).objects
        pinnedBytes := (s.usageOf c).pinnedBytes + (f row).requiredBytes - row.requiredBytes }
      else s.usageOf c) : Accounted s' := by
  refine hs.change (congrArg Prod.fst (hid row)) hsized ?_ ?_ (hs.row hget).1 hsome husage
  · rw [hobjects]
    exact fun a ha => ObjectIndex.mem_of_modify hget ha
  · rw [hobjects]
    exact fun c g => ObjectIndex.tally_modify hget c g

theorem pin_accounted {reason : String} {now : ℤ} (h : pin s id reason now = .ok s') :
    Accounted s' := by
  simp only [pin, bind_eq_ok] at h
  obtain ⟨pins, -, h⟩ := h
  cases hget : s.objects.get? id with
  | none =>
    rw [hget] at h
    obtain rfl := Except.ok.inj h
    exact hs.congr rfl rfl
  | some row =>
    rw [hget] at h
    dsimp only at h
    obtain ⟨hsome, hsized, hid⟩ := hs.row hget
    have hclass : id.1 = row.storageClass := (congrArg Prod.fst hid).symm
    split_ifs at h with hrequired
    · obtain rfl := Except.ok.inj h
      exact hs.congr rfl rfl
    · obtain rfl := Except.ok.inj h
      refine hs.modified hget (fun o => { o with required := true }) (fun _ => rfl)
        (fun _ => rfl) (fun _ => rfl) rfl hsized ?_ ?_
      · intro c hc
        rw [isSome_addPinnedOn]
        simp [hc]
      · intro c
        rw [usageOf_addPinnedOn, hclass, toI64_of_le hsized]
        by_cases hc : c = row.storageClass
        · subst hc
          simp [ObjectRow.requiredBytes, hrequired, Ledger.usageOf]
        · rw [if_neg hc, if_neg hc]
          rfl

theorem unpin_accounted (id : ObjectId) : Accounted (unpin s id) := by
  unfold unpin
  cases hpin : s.pins.get? id with
  | none => exact hs
  | some p =>
    dsimp only
    cases hget : s.objects.get? id with
    | none => exact hs.congr rfl rfl
    | some row =>
      dsimp only
      obtain ⟨hsome, hsized, hid⟩ := hs.row hget
      obtain ⟨-, -, hpinned⟩ := hs.row_le hget
      have hclass : id.1 = row.storageClass := (congrArg Prod.fst hid).symm
      set s₁ : Ledger := { s with pins := s.pins.erase id, objects := s.objects.setRequired id false }
      have hsome₁ : (s₁.usage row.storageClass).isSome = true := hsome
      have hof : ∀ c, s₁.usageOf c = s.usageOf c := fun c => rfl
      split_ifs with hrequired
      · refine hs.modified hget (fun o => { o with required := false }) (fun _ => rfl)
          (fun _ => rfl) (fun _ => rfl) rfl hsized ?_ ?_
        · intro c hc
          rw [subPinnedOn, isSome_updateUsage]
          exact hc
        · intro c
          rw [subPinnedOn, hclass, usageOf_updateUsage hsome₁, toI64_of_le hsized, hof, hof]
          by_cases hc : c = row.storageClass
          · subst hc
            simp only [ObjectRow.requiredBytes, hrequired, if_true] at hpinned
            simp only [if_true, ObjectRow.requiredBytes, hrequired, Bool.false_eq_true, if_false,
              UsageRow.mk.injEq, true_and]
            omega
          · rw [if_neg hc, if_neg hc]
      · exact hs.congr rfl rfl

theorem resizeObject_accounted (id : ObjectId) (newBytes : ℕ) :
    Accounted (resizeObject s id newBytes).2 := by
  unfold resizeObject
  cases hget : s.objects.get? id with
  | none => exact hs
  | some row =>
    dsimp only
    obtain ⟨hsome, hsized, hid⟩ := hs.row hget
    obtain ⟨hbytes, -, hpinned⟩ := hs.row_le hget
    have hclass : id.1 = row.storageClass := (congrArg Prod.fst hid).symm
    rw [hclass]
    set s₁ : Ledger := { s with objects := s.objects.setBytes id (toI64 newBytes) } with hs₁
    have hsome₁ : (s₁.usage row.storageClass).isSome = true := hsome
    have hof : ∀ c, s₁.usageOf c = s.usageOf c := fun c => rfl
    split_ifs with hrequired
    · refine hs.modified hget (fun o => { o with bytes := toI64 newBytes }) (fun _ => rfl)
        (fun _ => rfl) (fun _ => rfl) rfl (toI64_le _) ?_ ?_
      · intro c hc
        rw [adjustPinnedOn, isSome_updateUsage, isSome_updateUsage]
        exact hc
      · intro c
        rw [adjustPinnedOn, usageOf_updateUsage (by rw [isSome_updateUsage]; exact hsome₁),
          usageOf_updateUsage hsome₁, usageOf_updateUsage hsome₁, hof, hof, toI64_of_le hsized]
        by_cases hc : c = row.storageClass
        · subst hc
          simp only [ObjectRow.requiredBytes, hrequired, if_true] at hpinned
          simp only [if_true, ObjectRow.requiredBytes, hrequired, UsageRow.mk.injEq, true_and]
          omega
        · rw [if_neg hc, if_neg hc, if_neg hc]
    · refine hs.modified hget (fun o => { o with bytes := toI64 newBytes }) (fun _ => rfl)
        (fun _ => rfl) (fun _ => rfl) rfl (toI64_le _) ?_ ?_
      · intro c hc
        rw [isSome_updateUsage]
        exact hc
      · intro c
        rw [usageOf_updateUsage hsome₁, hof, hof, toI64_of_le hsized]
        by_cases hc : c = row.storageClass
        · subst hc
          simp only [if_true, ObjectRow.requiredBytes, hrequired, Bool.false_eq_true, if_false,
            UsageRow.mk.injEq, true_and]
          omega
        · rw [if_neg hc, if_neg hc]

theorem recordLossMarkerOn_accounted (row : LossRow) :
    Accounted (recordLossMarkerOn s row) := by
  unfold recordLossMarkerOn
  dsimp only
  split
  · exact hs
  · exact hs.congr rfl rfl

theorem removeObjectAndRecordEviction_accounted (id : ObjectId) (digest : Option String) (freedBytes : ℕ)
    (verified : Bool) (reason : String) (now : ℤ) :
    Accounted (removeObjectAndRecordEviction s id digest freedBytes verified reason now).2 := by
  have hremoved := removeObjectOn_accounted hs id
  unfold removeObjectAndRecordEviction
  split
  · next s' heq =>
    rw [heq] at hremoved
    exact hremoved
  · next row s' heq =>
    rw [heq] at hremoved
    have hevicted : ∀ e, Accounted (s'.recordEviction e) := fun e => hremoved.congr rfl rfl
    dsimp only
    split
    · exact recordLossMarkerOn_accounted (hevicted _) _
    · exact hevicted _

theorem resizeObjectAndRecordEviction_accounted (id : ObjectId) (digest : Option String)
    (reclaimedBytes remainingBytes : ℕ) (verified : Bool) (reason : String) (now : ℤ) :
    Accounted (resizeObjectAndRecordEviction s id digest reclaimedBytes remainingBytes
      verified reason now).2 := by
  have hresized := resizeObject_accounted hs id remainingBytes
  unfold resizeObjectAndRecordEviction
  split
  · next s' heq =>
    rw [heq] at hresized
    exact hresized
  · next row s' heq =>
    rw [heq] at hresized
    exact hresized.congr rfl rfl

/-- The loop over the keys of a prefix, whatever keys were read. -/
theorem removeKeys_accounted (keys : List String) : Accounted (removeKeys c s keys).2 := by
  induction keys generalizing s with
  | nil => exact hs
  | cons key rest ih => exact ih (removeObjectOn_accounted hs (c, key))

theorem commitReservation_accounted {id : String} {actualBytes : ℕ} {digest : Option String}
    {row : Option ReservationRow} (h : commitReservation s id actualBytes digest lastUsedMs = .ok (row, s')) :
    Accounted s' := by
  unfold commitReservation at h
  split at h
  · obtain ⟨-, rfl⟩ := Prod.mk.inj (Except.ok.inj h)
    exact hs
  · obtain ⟨⟨stored, s₁⟩, hupsert, h⟩ := bind_eq_ok.mp h
    obtain ⟨-, rfl⟩ := Prod.mk.inj (Except.ok.inj h)
    have hdeleted : Accounted (deleteReservation s id) := hs.congr rfl rfl
    exact upsertObjectOn_accounted hdeleted hupsert

end

end Storage
