/-
# The storage ledger

The durable ledger of the storage governor (`ledger.rs`): how many bytes each class uses, the index
of the objects that make them up, the pins, and the reservations of writes that are not published
yet.  Every operation is one transaction; a constraint of the schema that a statement breaks rolls
it back.

The usage counters are not computed from the index.  Each operation adjusts them by what it does to
its one row, and only a full scan replaces them.
-/
import Faktor.KeyTable
import Faktor.StoragePolicy

namespace Storage

open Sqlite (i64Max bind_eq_ok refuseWhen refuseWhen_eq_ok)

/-! ## Rows -/

/-- The errors of the ledger. -/
inductive GovernorError
  | malformed (message : String)
  /-- A key or a unique index of a table. -/
  | constraint (table : String)
  deriving DecidableEq, Repr

/-- A row of `object_index`. -/
structure ObjectRow where
  storageClass : StorageClass
  key : String
  bytes : ℕ
  digest : Option String
  family : Family
  createdMs : ℤ
  lastUsedMs : ℤ
  required : Bool
  deriving DecidableEq, Repr

/-- The primary key of an object and of its pin. -/
abbrev ObjectId := StorageClass × String

def ObjectRow.id (o : ObjectRow) : ObjectId := (o.storageClass, o.key)

/-- The unique index over `(family, digest)`, of the rows that have a digest. -/
def DigestsUnique (rows : List ObjectRow) : Prop :=
  ∀ a ∈ rows, ∀ b ∈ rows, a.family = b.family → a.digest = b.digest → a.digest.isSome = true →
    a.id = b.id

instance (rows : List ObjectRow) : Decidable (DigestsUnique rows) :=
  inferInstanceAs (Decidable (∀ a ∈ rows, ∀ b ∈ rows, a.family = b.family → a.digest = b.digest →
    a.digest.isSome = true → a.id = b.id))

/-- `object_index`, with both of its constraints. -/
structure ObjectIndex where
  table : KeyTable ObjectRow.id
  digests : DigestsUnique table.rows

namespace ObjectIndex

def empty : ObjectIndex where
  table := .empty
  digests := by simp [DigestsUnique, KeyTable.empty]

def get? (t : ObjectIndex) (id : ObjectId) : Option ObjectRow := t.table.get? id

/-- The row of a digest in a family. -/
def findDigest (t : ObjectIndex) (family : Family) (digest : String) : Option ObjectRow :=
  t.table.rows.find? fun o => o.family = family && o.digest = some digest

/-- `INSERT`. -/
def insert? (t : ObjectIndex) (o : ObjectRow) : Option ObjectIndex :=
  match t.table.insert? o with
  | none => none
  | some table => if h : DigestsUnique table.rows then some ⟨table, h⟩ else none

/-- The row under the key of `o` becomes `o`. -/
def overwrite (o a : ObjectRow) : ObjectRow := if a.id = o.id then o else a

theorem id_overwrite (o a : ObjectRow) : (overwrite o a).id = a.id := by
  rw [overwrite]
  split
  · next h => exact h.symm
  · rfl

/-- `UPDATE` of the row under the key of `o`, to `o`. -/
def replace? (t : ObjectIndex) (o : ObjectRow) : Option ObjectIndex :=
  let table := t.table.modify o.id (overwrite o) (id_overwrite o)
  if h : DigestsUnique table.rows then some ⟨table, h⟩ else none

/-- `UPDATE` of one row that leaves the digest and the family alone. -/
def modify (t : ObjectIndex) (id : ObjectId) (f : ObjectRow → ObjectRow)
    (hid : ∀ o, (f o).id = o.id) (hfamily : ∀ o, (f o).family = o.family)
    (hdigest : ∀ o, (f o).digest = o.digest) : ObjectIndex where
  table := t.table.modify id f hid
  digests := by
    -- every row of the new table has the id, the family and the digest of a row of the old one
    have hrow : ∀ b ∈ (t.table.modify id f hid).rows, ∃ a ∈ t.table.rows,
        b.id = a.id ∧ b.family = a.family ∧ b.digest = a.digest := by
      intro b hb
      obtain ⟨a, ha, rfl⟩ := (KeyTable.mem_modify _ _ _ hid).mp hb
      refine ⟨a, ha, ?_⟩
      split
      · exact ⟨hid a, hfamily a, hdigest a⟩
      · exact ⟨rfl, rfl, rfl⟩
    intro b hb b' hb' hf hd hsome
    obtain ⟨a, ha, h₁, h₂, h₃⟩ := hrow b hb
    obtain ⟨a', ha', h₁', h₂', h₃'⟩ := hrow b' hb'
    rw [h₁, h₁']
    exact t.digests a ha a' ha' (by rw [← h₂, ← h₂', hf]) (by rw [← h₃, ← h₃', hd])
      (by rw [← h₃]; exact hsome)

/-- `DELETE` of one row. -/
def erase (t : ObjectIndex) (id : ObjectId) : ObjectIndex where
  table := t.table.erase id
  digests := by
    intro a ha b hb
    exact t.digests a (KeyTable.mem_deleteWhere.mp ha).1 b (KeyTable.mem_deleteWhere.mp hb).1

end ObjectIndex

/-- A row of `pin`. -/
structure PinRow where
  storageClass : StorageClass
  key : String
  reason : String
  createdMs : ℤ
  deriving DecidableEq, Repr

def PinRow.id (p : PinRow) : ObjectId := (p.storageClass, p.key)

/-- A row of `reservation`; the volume is absent when the destination was ambiguous. -/
structure ReservationRow where
  id : String
  storageClass : StorageClass
  key : String
  bytes : ℕ
  owner : String
  volume : Option ℕ
  createdMs : ℤ
  leaseExpiresMs : ℤ
  deriving DecidableEq, Repr

/-- A row of `usage`. -/
structure UsageRow where
  bytes : ℤ
  objects : ℤ
  pinnedBytes : ℤ
  deriving DecidableEq, Repr

/-- A row of `eviction`, and one of `loss_marker` or `loss_tombstone`. -/
structure EvictionRow where
  storageClass : StorageClass
  key : String
  digest : Option String
  bytes : ℕ
  verified : Bool
  reason : String
  createdMs : ℤ
  deriving DecidableEq, Repr

structure LossRow where
  storageClass : StorageClass
  key : String
  digest : Option String
  bytes : ℕ
  reason : String
  createdMs : ℤ
  deriving DecidableEq, Repr

/-- The ledger. -/
structure Ledger where
  usage : StorageClass → Option UsageRow
  objects : ObjectIndex
  pins : KeyTable PinRow.id
  reservations : KeyTable ReservationRow.id
  evictions : List EvictionRow
  lossMarkers : List LossRow
  lossTombstones : List LossRow
  evictionCount : ℕ
  lossMarkerCount : ℕ

/-- A ledger that was just opened. -/
def Ledger.fresh : Ledger where
  usage := fun _ => none
  objects := .empty
  pins := .empty
  reservations := .empty
  evictions := []
  lossMarkers := []
  lossTombstones := []
  evictionCount := 0
  lossMarkerCount := 0

/-- `to_i64`: what the column of a byte count holds. -/
def toI64 (value : ℕ) : ℕ := min value i64Max

/-- A `SQL` column read with a default. -/
def orConstraint {α : Type} (table : String) : Option α → Except GovernorError α
  | none => .error (.constraint table)
  | some a => .ok a

theorem orConstraint_eq_ok {α : Type} {table : String} {x : Option α} {a : α} :
    orConstraint table x = .ok a ↔ x = some a := by
  cases x <;> simp [orConstraint]

/-! ## The counters -/

/-- `UPDATE usage … WHERE class = ?1`. -/
def Ledger.updateUsage (s : Ledger) (c : StorageClass) (f : UsageRow → UsageRow) : Ledger :=
  { s with usage := Function.update s.usage c ((s.usage c).map f) }

/-- `ensure_usage_on`. -/
def ensureUsageOn (s : Ledger) (c : StorageClass) : Ledger :=
  let row := (s.usage c).getD { bytes := 0, objects := 0, pinnedBytes := 0 }
  { s with usage := Function.update s.usage c (some row) }

/-- `add_pinned_on`. -/
def addPinnedOn (s : Ledger) (c : StorageClass) (bytes : ℕ) : Ledger :=
  (ensureUsageOn s c).updateUsage c fun u => { u with pinnedBytes := u.pinnedBytes + toI64 bytes }

/-- `sub_pinned_on`. -/
def subPinnedOn (s : Ledger) (c : StorageClass) (bytes : ℕ) : Ledger :=
  s.updateUsage c fun u => { u with pinnedBytes := max (u.pinnedBytes - toI64 bytes) 0 }

/-- `adjust_pinned_on`. -/
def adjustPinnedOn (s : Ledger) (c : StorageClass) (oldBytes newBytes : ℕ) : Ledger :=
  let delta : ℤ := toI64 newBytes - toI64 oldBytes
  s.updateUsage c fun u => { u with pinnedBytes := max (u.pinnedBytes + delta) 0 }

/-- The counters of a row that leaves the class. -/
def Ledger.dropUsage (s : Ledger) (o : ObjectRow) : Ledger :=
  s.updateUsage o.storageClass fun u =>
    { bytes := max (u.bytes - toI64 o.bytes) 0
      objects := max (u.objects - 1) 0
      pinnedBytes := max (u.pinnedBytes - if o.required then (toI64 o.bytes : ℤ) else 0) 0 }

/-- The counters of a row that comes to the class. -/
def Ledger.countUsage (s : Ledger) (c : StorageClass) (bytes : ℕ) (required : Bool) : Ledger :=
  let counted := s.updateUsage c fun u =>
    { u with bytes := u.bytes + toI64 bytes, objects := u.objects + 1 }
  if required then addPinnedOn counted c bytes else counted

/-- `is_pinned_on`. -/
def isPinnedOn (s : Ledger) (id : ObjectId) : Bool := (s.pins.get? id).isSome

/-! ## Objects -/

/-- `INSERT INTO pin … ON CONFLICT DO UPDATE SET reason`. -/
def putPin (pins : KeyTable PinRow.id) (pin : PinRow) :
    Except GovernorError (KeyTable PinRow.id) :=
  match pins.get? pin.id with
  | some _ => .ok (pins.modify pin.id (fun p => { p with reason := pin.reason }) fun _ => rfl)
  | none => orConstraint "pin" (pins.insert? pin)

/-- The pin of a row that moves, under its new name. -/
def movePin (pins : KeyTable PinRow.id) (oldPin : Option PinRow) (target : ObjectId) :
    Except GovernorError (KeyTable PinRow.id) := do
  match oldPin with
  | none => return pins
  | some pin =>
    let placed ← putPin pins { pin with storageClass := target.1, key := target.2 }
    return placed.erase pin.id

/-- `promote_object_on`: the row of a digest moves to a stronger class, with its pin. -/
def promoteObjectOn (s : Ledger) (row : ObjectRow) (digest : String) (toClass : StorageClass)
    (lastUsedMs : ℤ) (required : Bool) : Except GovernorError Ledger := do
  let oldPin := s.pins.get? row.id
  let required := required || row.required || oldPin.isSome || isPinnedOn s (toClass, digest)
  let dropped := { s with objects := s.objects.erase row.id }.dropUsage row
  let ensured := ensureUsageOn dropped toClass
  let objects ← orConstraint "object_index" (ensured.objects.insert?
    { storageClass := toClass, key := digest, bytes := row.bytes, digest := some digest,
      family := toClass.family, createdMs := row.createdMs,
      lastUsedMs := max lastUsedMs row.createdMs, required := required })
  let moved ← movePin ensured.pins oldPin (toClass, digest)
  return { ensured with objects := objects, pins := moved }.countUsage toClass row.bytes required

/-- The row that already indexes the digest under another name, if the digest is given. -/
def digestOwner (s : Ledger) (id : ObjectId) (digest : Option String) : Option ObjectRow :=
  digest.bind fun digest =>
    (s.objects.findDigest id.1.family digest).filter fun owner => owner.id ≠ id

/-- The counters of a row of the class that changes its size and its requirement. -/
def Ledger.moveUsage (s : Ledger) (c : StorageClass) (oldBytes bytes : ℕ)
    (oldRequired required : Bool) : Ledger :=
  let delta : ℤ := toI64 bytes - toI64 oldBytes
  let sized := s.updateUsage c fun u => { u with bytes := u.bytes + delta }
  if required ≠ oldRequired then
    if required then addPinnedOn sized c bytes else subPinnedOn sized c oldBytes
  else if required then adjustPinnedOn sized c oldBytes bytes
  else sized

/-- `upsert_object_on`. -/
def upsertObjectOn (s : Ledger) (c : StorageClass) (key : String) (bytes : ℕ)
    (digest : Option String) (lastUsedMs : ℤ) (required : Bool) :
    Except GovernorError (Bool × Ledger) := do
  match digestOwner s (c, key) digest with
  | some owner =>
    -- the same blob under another name: the stronger class keeps it, and it is counted once
    if digest = some key ∧ owner.storageClass.retentionRank < c.retentionRank then
      let promoted ← promoteObjectOn s owner key c lastUsedMs required
      return (true, promoted)
    else return (false, s)
  | none =>
    let required := required || isPinnedOn s (c, key)
    let ensured := ensureUsageOn s c
    match ensured.objects.get? (c, key) with
    | some old =>
      let objects ← orConstraint "object_index" (ensured.objects.replace?
        { old with bytes := toI64 bytes, digest := digest.orElse fun _ => old.digest,
                   lastUsedMs := lastUsedMs, required := required, family := c.family })
      return (true, { ensured with objects := objects }.moveUsage c old.bytes bytes
        old.required required)
    | none =>
      let objects ← orConstraint "object_index" (ensured.objects.insert?
        { storageClass := c, key := key, bytes := toI64 bytes, digest := digest, family := c.family,
          createdMs := lastUsedMs, lastUsedMs := lastUsedMs, required := required })
      return (true, { ensured with objects := objects }.countUsage c bytes required)

/-- `remove_object_on`. -/
def removeObjectOn (s : Ledger) (id : ObjectId) : Option ObjectRow × Ledger :=
  match s.objects.get? id with
  | none => (none, s)
  | some row =>
    (some row, { s with objects := s.objects.erase id, pins := s.pins.erase id }.dropUsage row)

/-- `Ledger::upsert_object`. -/
def upsertObject (s : Ledger) (c : StorageClass) (key : String) (bytes : ℕ)
    (digest : Option String) (lastUsedMs : ℤ) (required : Bool) :
    Except GovernorError (Bool × Ledger) :=
  upsertObjectOn s c key bytes digest lastUsedMs required

/-- `Ledger::remove_object`. -/
def removeObject (s : Ledger) (id : ObjectId) : Option ObjectRow × Ledger := removeObjectOn s id

/-- `record_loss_marker_on`: once for a key and a reason, compacted ones included. -/
def recordLossMarkerOn (s : Ledger) (row : LossRow) : Ledger :=
  let same : LossRow → Bool := fun r => r.storageClass = row.storageClass && r.key = row.key
    && r.reason = row.reason
  if s.lossMarkers.any same || s.lossTombstones.any same then s
  else { s with lossMarkers := s.lossMarkers ++ [row], lossMarkerCount := s.lossMarkerCount + 1 }

/-- The eviction row of a removal or of a shrink. -/
def Ledger.recordEviction (s : Ledger) (row : EvictionRow) : Ledger :=
  { s with evictions := s.evictions ++ [row], evictionCount := s.evictionCount + 1 }

/-- `Ledger::remove_object_and_record_eviction`. -/
def removeObjectAndRecordEviction (s : Ledger) (id : ObjectId) (digest : Option String)
    (freedBytes : ℕ) (verified : Bool) (reason : String) (now : ℤ) : Option ObjectRow × Ledger :=
  match removeObjectOn s id with
  | (none, s') => (none, s')
  | (some row, s') =>
    let digest := digest.orElse fun _ => row.digest
    let evicted := s'.recordEviction
      { storageClass := id.1, key := id.2, digest := digest, bytes := toI64 freedBytes,
        verified := verified, reason := reason, createdMs := now }
    (some row, if id.1.requiresLossMarker then recordLossMarkerOn evicted
        { storageClass := id.1, key := id.2, digest := digest, bytes := toI64 freedBytes,
          reason := "archive_evicted", createdMs := now }
      else evicted)

/-- The required flag of one row. -/
def ObjectIndex.setRequired (t : ObjectIndex) (id : ObjectId) (required : Bool) : ObjectIndex :=
  t.modify id (fun o => { o with required := required }) (fun _ => rfl) (fun _ => rfl) fun _ => rfl

/-- `Ledger::pin`. -/
def pin (s : Ledger) (id : ObjectId) (reason : String) (now : ℤ) : Except GovernorError Ledger := do
  let pins ← putPin s.pins
    { storageClass := id.1, key := id.2, reason := reason, createdMs := now }
  match s.objects.get? id with
  | some row =>
    if row.required then return { s with pins := pins }
    let marked := { s with pins := pins, objects := s.objects.setRequired id true }
    return addPinnedOn marked id.1 row.bytes
  | none => return { s with pins := pins }

/-- `Ledger::unpin`. -/
def unpin (s : Ledger) (id : ObjectId) : Ledger :=
  match s.pins.get? id with
  | none => s
  | some _ =>
    let unpinned := { s with pins := s.pins.erase id }
    match s.objects.get? id with
    | some row =>
      if row.required then
        subPinnedOn { unpinned with objects := s.objects.setRequired id false } id.1 row.bytes
      else unpinned
    | none => unpinned

/-- The size of one row. -/
def ObjectIndex.setBytes (t : ObjectIndex) (id : ObjectId) (bytes : ℕ) : ObjectIndex :=
  t.modify id (fun o => { o with bytes := bytes }) (fun _ => rfl) (fun _ => rfl) fun _ => rfl

/-- `Ledger::resize_object`. -/
def resizeObject (s : Ledger) (id : ObjectId) (newBytes : ℕ) : Option ObjectRow × Ledger :=
  match s.objects.get? id with
  | none => (none, s)
  | some row =>
    let delta : ℤ := toI64 newBytes - toI64 row.bytes
    let sized := { s with objects := s.objects.setBytes id (toI64 newBytes) }.updateUsage id.1
      fun u => { u with bytes := max (u.bytes + delta) 0 }
    (some { row with bytes := newBytes },
      if row.required then adjustPinnedOn sized id.1 row.bytes newBytes else sized)

/-- `Ledger::resize_object_and_record_eviction`. -/
def resizeObjectAndRecordEviction (s : Ledger) (id : ObjectId) (digest : Option String)
    (reclaimedBytes remainingBytes : ℕ) (verified : Bool) (reason : String) (now : ℤ) :
    Option ObjectRow × Ledger :=
  match resizeObject s id remainingBytes with
  | (none, s') => (none, s')
  | (some row, s') => (some row, s'.recordEviction
      { storageClass := id.1, key := id.2, digest := digest.orElse fun _ => row.digest,
        bytes := toI64 reclaimedBytes, verified := verified, reason := reason, createdMs := now })

/-- The keys that `remove_objects_with_prefix` reads before its transaction: the key itself and
what is under it.  The prefix is cut by its length in bytes, the key by characters. -/
def keysWithPrefix (s : Ledger) (c : StorageClass) (pre : String) : List String :=
  ((s.objects.table.select fun o => o.storageClass = c &&
    (o.key = pre || o.key.toList.take (pre.utf8ByteSize + 1) = pre.toList ++ ['/'])).map
      ObjectRow.key)

/-- The transaction of `remove_objects_with_prefix`, over the keys that were read. -/
def removeKeys (c : StorageClass) : Ledger → List String → ℕ × Ledger
  | s, [] => (0, s)
  | s, key :: rest =>
    let (row, s') := removeObjectOn s (c, key)
    let (released, s'') := removeKeys c s' rest
    (Saturating.add ((row.map ObjectRow.bytes).getD 0) released, s'')

/-- `Ledger::remove_objects_with_prefix`. -/
def removeObjectsWithPrefix (s : Ledger) (c : StorageClass) (pre : String) : ℕ × Ledger :=
  removeKeys c s (keysWithPrefix s c pre)

/-! ## The full scan -/

/-- One object as a scan reports it. -/
structure ScannedObject where
  key : String
  bytes : ℕ
  digest : Option String
  lastUsedMs : ℤ
  required : Bool
  deriving DecidableEq, Repr

/-- The accumulators of `set_inventory_scanned_at`. -/
structure Inventory where
  objects : ObjectIndex
  seen : List String
  totalBytes : ℕ
  pinnedBytes : ℕ
  effectiveObjects : ℕ
  inserted : ℕ
  removed : ℕ
  missing : List ObjectRow

/-- Before the first object. -/
def Inventory.start (objects : ObjectIndex) : Inventory where
  objects := objects
  seen := []
  totalBytes := 0
  pinnedBytes := 0
  effectiveObjects := 0
  inserted := 0
  removed := 0
  missing := []

/-- A row that counts, with the requirement it has now. -/
def Inventory.count (i : Inventory) (bytes : ℕ) (required : Bool) : Inventory :=
  { i with totalBytes := Saturating.add i.totalBytes bytes
           pinnedBytes := if required then Saturating.add i.pinnedBytes bytes else i.pinnedBytes
           effectiveObjects := i.effectiveObjects + 1 }

section Scan

variable (c : StorageClass) (pins : List String) (scanStartedMs scannedMs : ℤ)

/-- A row that is newer than the scan keeps its bytes; a pin makes it required. -/
def Inventory.keep (i : Inventory) (row : ObjectRow) : Inventory :=
  let required := row.required || pins.contains row.key
  let objects := if required ≠ row.required then i.objects.setRequired row.id required
    else i.objects
  { i with objects := objects }.count row.bytes required

/-- `INSERT INTO object_index … ON CONFLICT DO UPDATE` of a scanned object. -/
def putScanned (t : ObjectIndex) (object : ScannedObject) (required : Bool) :
    Option ObjectIndex :=
  match t.get? (c, object.key) with
  | some row => t.replace?
      { row with bytes := toI64 object.bytes, digest := object.digest.orElse fun _ => row.digest,
                 family := c.family, lastUsedMs := object.lastUsedMs, required := required }
  | none => t.insert?
      { storageClass := c, key := object.key, bytes := toI64 object.bytes,
        digest := object.digest, family := c.family, createdMs := scannedMs,
        lastUsedMs := object.lastUsedMs, required := required }

/-- One object of the scan, against the rows the class had before it. -/
def scanObject (existing : List ObjectRow) (i : Inventory) (object : ScannedObject) :
    Except GovernorError Inventory := do
  -- an object reported twice counts once
  if object.key ∈ i.seen then return i
  let i := { i with seen := object.key :: i.seen }
  let required := object.required || pins.contains object.key
  match existing.find? fun row => row.key = object.key with
  | some row =>
    if scanStartedMs < row.lastUsedMs then return i.keep pins row
    else if row.bytes = object.bytes ∧ row.required = required ∧ row.digest = object.digest
        ∧ row.family = c.family then
      return i.count object.bytes required
    else
      let objects ← orConstraint "object_index" (putScanned c scannedMs i.objects object required)
      return { i with objects := objects, inserted := i.inserted + 1 }.count object.bytes required
  | none =>
    let objects ← orConstraint "object_index" (putScanned c scannedMs i.objects object required)
    return { i with objects := objects, inserted := i.inserted + 1 }.count object.bytes required

/-- A row of the class that the scan did not report. -/
def missObject (i : Inventory) (row : ObjectRow) : Inventory :=
  if row.key ∈ i.seen then i
  else if scanStartedMs < row.lastUsedMs then i.keep pins row
  else { i with objects := i.objects.erase row.id, removed := i.removed + 1,
                missing := i.missing ++ [row] }

end Scan

/-- `InventoryChange`. -/
structure InventoryChange where
  scanned : ℕ
  inserted : ℕ
  removed : ℕ
  missingMarkers : ℕ
  deriving DecidableEq, Repr

/-- The loss marker of an archive object that vanished; compacted ones are not asked here. -/
def recordMissingOn (now : ℤ) (s : Ledger × ℕ) (row : ObjectRow) : Ledger × ℕ :=
  let same : LossRow → Bool := fun r => r.storageClass = row.storageClass && r.key = row.key
    && r.reason = "missing_on_reconcile"
  let marker : LossRow :=
    { storageClass := row.storageClass, key := row.key, digest := row.digest,
      bytes := toI64 row.bytes, reason := "missing_on_reconcile", createdMs := now }
  if s.1.lossMarkers.any same then s
  else
    ({ s.1 with lossMarkers := s.1.lossMarkers ++ [marker],
                lossMarkerCount := s.1.lossMarkerCount + 1 }, s.2 + 1)

/-- The loss markers of a scan, and how many are new. -/
def recordMissing (s : Ledger) (c : StorageClass) (now : ℤ) (missing : List ObjectRow) : Ledger × ℕ :=
  if c.requiresLossMarker then missing.foldl (recordMissingOn now) (s, 0) else (s, 0)

/-- The rows of a class, by key. -/
def existingRows (s : Ledger) (c : StorageClass) : List ObjectRow :=
  (s.objects.table.select fun o => o.storageClass = c).mergeSort fun a b => a.key ≤ b.key

/-- The pins of a class. -/
def pinnedKeys (s : Ledger) (c : StorageClass) : List String :=
  (s.pins.select fun p => p.storageClass = c).map PinRow.key

/-- `Ledger::set_inventory_scanned_at`. -/
def setInventoryScannedAt (s : Ledger) (c : StorageClass) (objects : List ScannedObject)
    (scanStartedMs now : ℤ) : Except GovernorError (InventoryChange × Ledger) := do
  let existing := existingRows s c
  let pins := pinnedKeys s c
  let scanned ← objects.foldlM (scanObject c pins scanStartedMs now existing) (.start s.objects)
  let final := existing.foldl (missObject pins scanStartedMs) scanned
  let (marked, markers) := recordMissing s c now final.missing
  let usage : UsageRow :=
    { bytes := toI64 final.totalBytes, objects := final.effectiveObjects
      pinnedBytes := toI64 final.pinnedBytes }
  return ({ scanned := objects.length, inserted := final.inserted, removed := final.removed,
            missingMarkers := markers },
    { marked with objects := final.objects, usage := Function.update marked.usage c (some usage) })

/-! ## Reservations -/

/-- `SUM` of an integer column, which fails outside of its range. -/
def sumColumn (l : List ℤ) : Except GovernorError ℤ :=
  if -(2 ^ 63) ≤ l.sum ∧ l.sum ≤ i64Max then .ok l.sum else .error (.constraint "integer overflow")

/-- The usage rows that are there. -/
def Ledger.usageRows (s : Ledger) : List UsageRow := StorageClass.all.filterMap s.usage

/-- `BudgetSnapshot`. -/
structure BudgetSnapshot where
  classBytes : ℕ
  classPinned : ℕ
  classPending : ℕ
  totalBytes : ℕ
  totalPinned : ℕ
  totalPending : ℕ
  deriving DecidableEq, Repr

/-- The bytes of the reservations that a condition selects, among those with a lease. -/
def pendingWhere (s : Ledger) (now : ℤ) (p : ReservationRow → Bool) : Except GovernorError ℕ :=
  (sumColumn ((s.reservations.select fun r => now ≤ r.leaseExpiresMs && p r).map
    fun r => (r.bytes : ℤ))).map Int.toNat

/-- `budget_snapshot_on`. -/
def budgetSnapshotOn (s : Ledger) (c : StorageClass) (now : ℤ) :
    Except GovernorError BudgetSnapshot := do
  let classPending ← pendingWhere s now fun r => r.storageClass = c
  let totalBytes ← sumColumn (s.usageRows.map UsageRow.bytes)
  let totalPinned ← sumColumn (s.usageRows.map UsageRow.pinnedBytes)
  let totalPending ← pendingWhere s now fun _ => true
  return { classBytes := (((s.usage c).map UsageRow.bytes).getD 0).toNat
           classPinned := (((s.usage c).map UsageRow.pinnedBytes).getD 0).toNat
           classPending := classPending
           totalBytes := totalBytes.toNat
           totalPinned := totalPinned.toNat
           totalPending := totalPending }

/-- `VolumeDenial`. -/
inductive VolumeDenial
  | unmeasured (detail : String)
  | reserve (volumeId deficit available : ℕ) (detail : String)
  deriving DecidableEq, Repr

/-- `VolumeRule`, with what the probe answers for each candidate path. -/
structure VolumeRule where
  paths : List (String × Option FilesystemSpace)
  writeBound : ℕ
  ledgerVolumeId : Option ℕ
  unsettledInflight : ℕ
  admissionCeiling : ℕ
  config : StorageGovernorConfig

/-- The volumes of the candidate paths, up to the first one that cannot be measured. -/
def resolveVolumes : List (String × Option FilesystemSpace) → List FilesystemSpace →
    List FilesystemSpace × Option VolumeDenial
  | [], spaces => (spaces, none)
  | (path, none) :: _, spaces =>
    (spaces, some (.unmeasured (s!"capacity measurement failed for destination {path}; new material "
      ++ "storage is refused until the destination volume can be measured")))
  | (_, some space) :: rest, spaces => resolveVolumes rest (addSpace space spaces)

/-- The free-space rule of one volume. -/
def volumeDenial (s : Ledger) (rule : VolumeRule) (now : ℤ) (space : FilesystemSpace) :
    Except GovernorError (Option VolumeDenial) := do
  let reserve := volumeReserveBytes rule.config space.capacityBytes
  let pending ← pendingWhere s now fun r => r.volume = some space.filesystemId || r.volume = none
  let inflight := if rule.ledgerVolumeId = some space.filesystemId then rule.unsettledInflight else 0
  let deficit := volumeAdmissionDeficit space.availableBytes reserve
    (Saturating.add pending inflight) rule.writeBound
  return if 0 < deficit then
      some (.reserve space.filesystemId deficit (space.availableBytes - reserve)
        (s!"destination volume {space.filesystemId}: {space.availableBytes} bytes free, {reserve} "
          ++ s!"byte reserve, {pending} bytes of unmaterialized reservations, {inflight} bytes of "
          ++ s!"in-flight SQLite growth, {rule.writeBound} byte write bound; {deficit} bytes short "
          ++ "of preserving the reserve"))
    else none

/-- The rule over the volumes, up to the first denial. -/
def volumesDenial (s : Ledger) (rule : VolumeRule) (now : ℤ) :
    List FilesystemSpace → Except GovernorError (Option VolumeDenial)
  | [] => .ok none
  | space :: rest => do
    match ← volumeDenial s rule now space with
    | some denial => return some denial
    | none => volumesDenial s rule now rest

/-- `AdmitRow`. -/
structure AdmitRow where
  reservationId : Option String
  snapshot : BudgetSnapshot
  classUsed : ℕ
  totalUsed : ℕ
  classDeficit : ℕ
  totalDeficit : ℕ
  budgetDeficit : ℕ
  volumeDenial : Option VolumeDenial
  volume : Option ℕ
  deriving DecidableEq, Repr

/-- `Ledger::expire_reservations`, and the first statement of an admission. -/
def Ledger.expireReservations (s : Ledger) (now : ℤ) : Ledger :=
  { s with reservations := s.reservations.deleteWhere fun r => r.leaseExpiresMs < now }

/-- The volume that the reservation row names: the only one of the candidates. -/
def destinationVolume (spaces : List FilesystemSpace) (unmeasured : Option VolumeDenial) :
    Option ℕ :=
  if unmeasured.isNone && spaces.length = 1 then spaces.head?.map FilesystemSpace.filesystemId
  else none

/-- The free-space rule of an admission. -/
def admissionDenial (s : Ledger) (rule : VolumeRule) (now : ℤ) (spaces : List FilesystemSpace) :
    Option VolumeDenial → Except GovernorError (Option VolumeDenial)
  | some denial => .ok (some denial)
  | none => volumesDenial s rule now spaces

/-- The figures of an admission, without the reservation. -/
def admitRow (snapshot : BudgetSnapshot) (bytes quota total : ℕ) (rule : VolumeRule)
    (denial : Option VolumeDenial) (volume : Option ℕ) : AdmitRow :=
  let classUsed := Saturating.add snapshot.classBytes snapshot.classPending
  let totalUsed := Saturating.add snapshot.totalBytes snapshot.totalPending
  { reservationId := none
    snapshot := snapshot
    classUsed := classUsed
    totalUsed := totalUsed
    classDeficit := Saturating.add classUsed bytes - quota
    totalDeficit := Saturating.add totalUsed bytes - min rule.admissionCeiling total
    budgetDeficit := Saturating.add totalUsed bytes - total
    volumeDenial := denial
    volume := volume }

/-- `Ledger::try_reserve_atomic`; `id` is the fresh identifier the reservation gets if it is
granted, `owner` the boot of the process. -/
def tryReserveAtomic (s : Ledger) (id owner : String) (c : StorageClass) (key : String)
    (bytes : ℕ) (now expires : ℤ) (quota total : ℕ) (rule : VolumeRule) :
    Except GovernorError (AdmitRow × Ledger) := do
  let s := s.expireReservations now
  let snapshot ← budgetSnapshotOn s c now
  let volumes := resolveVolumes rule.paths []
  let volume := destinationVolume volumes.1 volumes.2
  let denial ← admissionDenial s rule now volumes.1 volumes.2
  let row := admitRow snapshot bytes quota total rule denial volume
  if row.classDeficit = 0 ∧ row.totalDeficit = 0 ∧ bytes ≤ total ∧ row.volumeDenial = none then
    let reservations ← orConstraint "reservation" (s.reservations.insert?
      { id := id, storageClass := c, key := key, bytes := toI64 bytes, owner := owner,
        volume := volume, createdMs := now, leaseExpiresMs := expires })
    return ({ row with reservationId := some id }, { s with reservations := reservations })
  else return (row, s)

/-- What an admission can do: refuse, or insert one row after every test passed. -/
theorem tryReserveAtomic_cases {s s' : Ledger} {id owner : String} {c : StorageClass} {key : String}
    {bytes : ℕ} {now expires : ℤ} {quota total : ℕ} {rule : VolumeRule} {row : AdmitRow}
    (h : tryReserveAtomic s id owner c key bytes now expires quota total rule = .ok (row, s')) :
    ∃ snapshot denial, budgetSnapshotOn (s.expireReservations now) c now = .ok snapshot ∧
      admissionDenial (s.expireReservations now) rule now (resolveVolumes rule.paths []).1
        (resolveVolumes rule.paths []).2 = .ok denial ∧
      ((row.reservationId = none ∧ s' = s.expireReservations now) ∨
      (row.reservationId = some id ∧
        Saturating.add (Saturating.add snapshot.classBytes snapshot.classPending) bytes ≤ quota ∧
        Saturating.add (Saturating.add snapshot.totalBytes snapshot.totalPending) bytes
          ≤ min rule.admissionCeiling total ∧
        bytes ≤ total ∧ denial = none ∧
        ∃ reservations, (s.expireReservations now).reservations.insert?
          { id := id, storageClass := c, key := key, bytes := toI64 bytes, owner := owner
            volume := destinationVolume (resolveVolumes rule.paths []).1
              (resolveVolumes rule.paths []).2
            createdMs := now, leaseExpiresMs := expires } = some reservations ∧
          s' = { s.expireReservations now with reservations := reservations })) := by
  simp only [tryReserveAtomic, bind_eq_ok] at h
  obtain ⟨snapshot, hsnapshot, denial, hdenial, h⟩ := h
  refine ⟨snapshot, denial, hsnapshot, hdenial, ?_⟩
  split_ifs at h with hfits
  · simp only [bind_eq_ok, orConstraint_eq_ok] at h
    obtain ⟨reservations, hinsert, h⟩ := h
    obtain ⟨rfl, rfl⟩ := Prod.mk.inj (Except.ok.inj h)
    obtain ⟨hclass, htotal, hbytes, hnone⟩ := hfits
    exact .inr ⟨rfl, Nat.le_of_sub_eq_zero hclass, Nat.le_of_sub_eq_zero htotal, hbytes, hnone,
      reservations, hinsert, rfl⟩
  · obtain ⟨rfl, rfl⟩ := Prod.mk.inj (Except.ok.inj h)
    exact .inl ⟨rfl, rfl⟩

/-- `Ledger::delete_reservation`. -/
def deleteReservation (s : Ledger) (id : String) : Ledger :=
  { s with reservations := s.reservations.erase id }

/-- `Ledger::commit_reservation`: the published object takes the place of the reservation. -/
def commitReservation (s : Ledger) (id : String) (actualBytes : ℕ) (digest : Option String)
    (lastUsedMs : ℤ) : Except GovernorError (Option ReservationRow × Ledger) := do
  match s.reservations.get? id with
  | none => return (none, s)
  | some row =>
    let key := digest.getD row.key
    let (_, s') ← upsertObjectOn (deleteReservation s id) row.storageClass key actualBytes digest
      lastUsedMs false
    return (some { row with key := key, bytes := actualBytes }, s')

end Storage
