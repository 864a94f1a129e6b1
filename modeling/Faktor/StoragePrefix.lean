/-
# What is under a prefix

`usage_prefix` and `remove_objects_with_prefix` are about one directory: the object under its key, and all
objects under its key and a slash.  The statements cut the keys by characters, at a length that was counted in
bytes.

* `usagePrefix` : the bytes of a directory;
* `prefix_exact_iff` : when the two are about the directory.
-/
import Faktor.StorageLedger
import Faktor.TextBytes

namespace Storage

open TextBytes (byteLen utf8ByteSize_eq_byteLen byteLen_eq_length_iff length_le_byteLen)

/-- The rows that the `WHERE` clause of both statements selects. -/
def rowsWithPrefix (s : Ledger) (c : StorageClass) (pre : String) : List ObjectRow :=
  s.objects.table.select fun o => o.storageClass = c &&
    (o.key = pre || o.key.toList.take (pre.utf8ByteSize + 1) = pre.toList ++ ['/'])

/-- `Ledger::usage_prefix`. -/
def usagePrefix (s : Ledger) (c : StorageClass) (pre : String) : Except GovernorError ℕ :=
  (sumColumn ((rowsWithPrefix s c pre).map fun o => (o.bytes : ℤ))).map Int.toNat

/-- The key is the prefix, or stands under it and a slash. -/
def UnderPrefix (pre key : String) : Prop := key = pre ∨ pre.toList ++ ['/'] <+: key.toList

instance (pre key : String) : Decidable (UnderPrefix pre key) :=
  inferInstanceAs (Decidable (key = pre ∨ pre.toList ++ ['/'] <+: key.toList))

/-- The rows of the directory. -/
def rowsUnder (s : Ledger) (c : StorageClass) (pre : String) : List ObjectRow :=
  s.objects.table.select fun o => o.storageClass = c && decide (UnderPrefix pre o.key)

/-- The key stands under the prefix and a slash, with more to it. -/
def StrictlyUnder (pre key : String) : Prop := ∃ c rest, key.toList = pre.toList ++ '/' :: c :: rest

/-- Cut at the length of the text in bytes, a key has the text as its start only when it is the text or every
character has one byte. -/
theorem take_eq_iff {text key : List Char} :
    key.take (byteLen text + 1) = text ++ ['/'] ↔
      (text ++ ['/'] <+: key) ∧ (key = text ++ ['/'] ∨ ∀ c ∈ text, c.val ≤ 127) := by
  rw [← byteLen_eq_length_iff]
  have hle := length_le_byteLen text
  constructor
  · intro h
    refine ⟨h ▸ List.take_prefix _ _, ?_⟩
    by_cases hlen : key.length ≤ byteLen text + 1
    · exact Or.inl (by rw [← h, List.take_of_length_le hlen])
    · have hcut := congrArg List.length h
      rw [List.length_take, List.length_append, List.length_singleton] at hcut
      right
      omega
  · rintro ⟨⟨rest, rfl⟩, hkey | hascii⟩
    · rw [hkey, List.take_of_length_le (by rw [List.length_append, List.length_singleton]; omega)]
    · rw [hascii, List.take_left' (by rw [List.length_append, List.length_singleton])]

theorem removeObjectOn_objects (s : Ledger) (id : ObjectId) :
    (removeObjectOn s id).2.objects.table = s.objects.table.erase id := by
  unfold removeObjectOn
  cases hget : s.objects.get? id with
  | none => exact (KeyTable.erase_of_get?_eq_none hget).symm
  | some row => rfl

/-- **What a removal takes away**: the rows of the class with one of the keys. -/
theorem mem_removeKeys {c : StorageClass} {s : Ledger} {keys : List String} {o : ObjectRow} :
    o ∈ (removeKeys c s keys).2.objects.table.rows ↔
      o ∈ s.objects.table.rows ∧ ¬ (o.storageClass = c ∧ o.key ∈ keys) := by
  induction keys generalizing s with
  | nil => simp [removeKeys]
  | cons key rest ih =>
    have hid : o.id = (c, key) ↔ o.storageClass = c ∧ o.key = key := Prod.mk_inj
    show o ∈ (removeKeys c (removeObjectOn s (c, key)).2 rest).2.objects.table.rows ↔ _
    rw [ih, removeObjectOn_objects, KeyTable.erase, KeyTable.mem_deleteWhere, List.mem_cons,
      decide_eq_false_iff_not, hid]
    tauto

/-- The bytes and the release of a prefix are those of its directory. -/
structure ExactlyUnder (s : Ledger) (c : StorageClass) (pre : String) : Prop where
  sums : usagePrefix s c pre =
    (sumColumn ((rowsUnder s c pre).map fun o => (o.bytes : ℤ))).map Int.toNat
  releases : removeObjectsWithPrefix s c pre = removeKeys c s ((rowsUnder s c pre).map ObjectRow.key)
  gone : ∀ o, o ∈ (removeObjectsWithPrefix s c pre).2.objects.table.rows ↔
    o ∈ s.objects.table.rows ∧ ¬ (o.storageClass = c ∧ UnderPrefix pre o.key)

theorem mem_rowsUnder {s : Ledger} {c : StorageClass} {pre : String} {o : ObjectRow} :
    o ∈ rowsUnder s c pre ↔ o ∈ s.objects.table.rows ∧ o.storageClass = c ∧ UnderPrefix pre o.key := by
  rw [rowsUnder, KeyTable.mem_select, Bool.and_eq_true, decide_eq_true_eq, decide_eq_true_eq]

/-- A key that is under the prefix is the prefix, the prefix and a slash, or strictly under it. -/
theorem under_cases {pre key : String} (h : UnderPrefix pre key) :
    key = pre ∨ key.toList = pre.toList ++ ['/'] ∨ StrictlyUnder pre key := by
  rcases h with h | ⟨rest, hrest⟩
  · exact Or.inl h
  · right
    cases rest with
    | nil => exact Or.inl (by rw [← hrest, List.append_nil])
    | cons c rest => exact Or.inr ⟨c, rest, by rw [← hrest, List.append_assoc]; rfl⟩

/-- The clause selects a key when it is under the prefix, and not strictly or under ASCII characters. -/
theorem selected_iff {pre key : String} :
    (key = pre ∨ key.toList.take (pre.utf8ByteSize + 1) = pre.toList ++ ['/']) ↔
      UnderPrefix pre key ∧ (StrictlyUnder pre key → ∀ c ∈ pre.toList, c.val ≤ 127) := by
  rw [utf8ByteSize_eq_byteLen, take_eq_iff]
  constructor
  · rintro (rfl | ⟨hpre, hkey⟩)
    · refine ⟨Or.inl rfl, ?_⟩
      rintro ⟨c, rest, hlonger⟩
      have hlength := congrArg List.length hlonger
      rw [List.length_append, List.length_cons, List.length_cons] at hlength
      omega
    · refine ⟨Or.inr hpre, ?_⟩
      rintro ⟨c, rest, hlonger⟩
      refine hkey.resolve_left fun heq => ?_
      have hlength := congrArg List.length (heq.symm.trans hlonger)
      simp only [List.length_append, List.length_cons, List.length_nil] at hlength
      omega
  · rintro ⟨hunder, hascii⟩
    rcases under_cases hunder with heq | heq | hstrict
    · exact Or.inl heq
    · exact Or.inr ⟨heq ▸ List.prefix_rfl, Or.inl heq⟩
    · obtain ⟨c, rest, hlonger⟩ := hstrict
      refine Or.inr ⟨⟨c :: rest, ?_⟩, Or.inr (hascii ⟨c, rest, hlonger⟩)⟩
      rw [hlonger, List.append_assoc]
      rfl

/-- **When the statements are about the directory**: the prefix is ASCII, or nothing of the class stands
strictly under it. -/
theorem prefix_exact_iff (s : Ledger) (c : StorageClass) (pre : String) :
    ExactlyUnder s c pre ↔
      (∀ ch ∈ pre.toList, ch.val ≤ 127) ∨
        ∀ o ∈ s.objects.table.rows, o.storageClass = c → ¬ StrictlyUnder pre o.key := by
  constructor
  · intro h
    by_contra hboth
    rw [not_or] at hboth
    obtain ⟨hwide, hstrict⟩ := hboth
    apply hstrict
    intro o ho hc hunder
    -- the removal leaves the row there, although it is under the prefix
    have hkept : o ∈ (removeObjectsWithPrefix s c pre).2.objects.table.rows := by
      refine mem_removeKeys.mpr ⟨ho, fun hgone => ?_⟩
      obtain ⟨o', ho', hkey⟩ := List.mem_map.mp hgone.2
      rw [KeyTable.mem_select, Bool.and_eq_true, Bool.or_eq_true, decide_eq_true_eq,
        decide_eq_true_eq, decide_eq_true_eq, hkey, selected_iff] at ho'
      exact hwide (ho'.2.2.2 hunder)
    obtain ⟨ch, rest, hlonger⟩ := hunder
    refine ((h.gone o).mp hkept).2 ⟨hc, Or.inr ⟨ch :: rest, ?_⟩⟩
    rw [hlonger, List.append_assoc]
    rfl
  · intro h
    have hrows : rowsWithPrefix s c pre = rowsUnder s c pre := by
      apply List.filter_congr
      intro o ho
      by_cases hc : o.storageClass = c
      · have hstrict : StrictlyUnder pre o.key → ∀ ch ∈ pre.toList, ch.val ≤ 127 := by
          intro hunder
          exact h.resolve_right fun hnone => hnone o ho hc hunder
        rw [Bool.eq_iff_iff, Bool.and_eq_true, Bool.and_eq_true, Bool.or_eq_true, decide_eq_true_eq,
          decide_eq_true_eq, decide_eq_true_eq, decide_eq_true_eq, selected_iff]
        tauto
      · rw [decide_eq_false hc, Bool.false_and, Bool.false_and]
    have hkeys : removeObjectsWithPrefix s c pre =
        removeKeys c s ((rowsUnder s c pre).map ObjectRow.key) := by
      rw [← hrows]
      rfl
    refine ⟨by rw [usagePrefix, hrows], hkeys, fun o => ?_⟩
    rw [hkeys, mem_removeKeys]
    constructor
    · rintro ⟨ho, hnot⟩
      exact ⟨ho, fun hunder => hnot ⟨hunder.1, List.mem_map_of_mem (mem_rowsUnder.mpr ⟨ho, hunder⟩)⟩⟩
    · rintro ⟨ho, hnot⟩
      refine ⟨ho, fun hgone => hnot ⟨hgone.1, ?_⟩⟩
      obtain ⟨o', ho', hkey⟩ := List.mem_map.mp hgone.2
      exact hkey ▸ (mem_rowsUnder.mp ho').2.2

/-- A shadow directory with a name that is not ASCII, and one file in it. -/
def accentedShadow : Ledger :=
  { Ledger.fresh with
    objects := ⟨⟨[⟨.shadowWorkspace, "shadows/é/a", 7, none, .main, 0, 0, false⟩], by decide⟩, by decide⟩ }

/-- The bytes of the directory are not counted, and its removal leaves the file in the index. -/
theorem accentedShadow_charged_forever :
    UnderPrefix "shadows/é" "shadows/é/a" ∧
      usagePrefix accentedShadow .shadowWorkspace "shadows/é" = .ok 0 ∧
      (removeObjectsWithPrefix accentedShadow .shadowWorkspace "shadows/é").2.objects.table.rows =
        accentedShadow.objects.table.rows ∧
      ¬ ExactlyUnder accentedShadow .shadowWorkspace "shadows/é" := by
  have hunder : UnderPrefix "shadows/é" "shadows/é/a" := by decide +kernel
  have hkept : (removeObjectsWithPrefix accentedShadow .shadowWorkspace "shadows/é").2.objects.table.rows =
      accentedShadow.objects.table.rows := by decide +kernel
  refine ⟨hunder, by decide +kernel, hkept, fun h => ?_⟩
  have hrow := (h.gone ⟨.shadowWorkspace, "shadows/é/a", 7, none, .main, 0, 0, false⟩).mp
    (hkept ▸ List.mem_cons_self)
  exact hrow.2 ⟨rfl, hunder⟩

end Storage
