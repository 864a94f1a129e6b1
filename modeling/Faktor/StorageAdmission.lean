/-
# Admission: what a grant tests, and what keeps it true

Several governors share one ledger.  A write is admitted by one transaction, which counts the usage
rows and the reservations of the others, and it leaves a row that the next admission counts.  The
bytes then move from the reservation to the usage row of an object, which the commit may insert,
resize, find under another name or take over from a weaker class.

The load of a class is what it uses and what is reserved for it.  Only a grant raises a load, and a
grant tests the sum it makes.

* `granted_within` : a granted write leaves the load of its class within the quota and the sum of
  the loads within the ceiling of its purpose, and everything that follows keeps it so.
-/
import Faktor.StorageScan

namespace Storage

open Sqlite (i64Max bind_eq_ok)

/-! ## The limits -/

/-- The limits of a governor: a configuration that was accepted, and a measured capacity. -/
structure Policy where
  operator : StorageGovernorConfig
  config : StorageGovernorConfig
  validated : operator.validated = .ok config
  spaces : List FilesystemSpace
  measured : (CapacitySnapshot.evaluate config spaces).measured = true

namespace Policy

/-- The effective budget. -/
def budget (p : Policy) : ℕ := (CapacitySnapshot.evaluate p.config p.spaces).effectiveBudgetBytes

def quota (p : Policy) (c : StorageClass) : ℕ := p.config.quotaFor c p.budget

/-- The ceiling of a purpose, as `reserve_inner` and `charge_sqlite_growth` pass it on. -/
def ceiling (p : Policy) (purpose : AdmissionPurpose) : ℕ :=
  min (purpose.ceilingBytes p.config p.budget) p.budget

theorem budget_lt (p : Policy) : p.budget < 2 ^ 62 := effectiveBudget_lt p.validated p.measured

theorem budget_lt_u64Max (p : Policy) : p.budget < Saturating.u64Max :=
  lt_trans p.budget_lt (by decide)

theorem budget_le_i64Max (p : Policy) : p.budget ≤ i64Max :=
  le_of_lt (lt_trans p.budget_lt (by decide))

theorem quota_le (p : Policy) (c : StorageClass) : p.quota c ≤ p.budget :=
  p.config.quotaFor_le c p.budget

theorem ceiling_le (p : Policy) (purpose : AdmissionPurpose) : p.ceiling purpose ≤ p.budget :=
  Nat.min_le_right _ _

end Policy

/-! ## Loads -/

/-- What a reservation adds to a class. -/
def pendingShare (c : StorageClass) (r : ReservationRow) : ℕ :=
  if r.storageClass = c then r.bytes else 0

/-- The bytes reserved for a class. -/
def Ledger.reservedIn (s : Ledger) (c : StorageClass) : ℕ := s.reservations.total (pendingShare c)

/-- The bytes reserved for all classes. -/
def Ledger.reserved (s : Ledger) : ℕ := s.reservations.total ReservationRow.bytes

/-- What a class uses and what is reserved for it. -/
def Ledger.load (s : Ledger) (c : StorageClass) : ℕ :=
  s.objects.tally c ObjectRow.bytes + s.reservedIn c

/-- The loads of all classes. -/
def Ledger.totalLoad (s : Ledger) : ℕ := (StorageClass.all.map s.load).sum

/-- The durable usage of all classes. -/
def Ledger.usedBytes (s : Ledger) : ℤ := (StorageClass.all.map fun c => (s.usageOf c).bytes).sum

/-- Every reservation belongs to one class. -/
theorem sum_pendingShare (r : ReservationRow) :
    (StorageClass.all.map fun c => pendingShare c r).sum = r.bytes := by
  cases h : r.storageClass <;> simp [StorageClass.all, pendingShare, h]

theorem sum_reservedIn (s : Ledger) : (StorageClass.all.map s.reservedIn).sum = s.reserved := by
  have hrows : ∀ rows : List ReservationRow,
      (StorageClass.all.map fun c => (rows.map (pendingShare c)).sum).sum
        = (rows.map ReservationRow.bytes).sum := by
    intro rows
    induction rows with
    | nil => rfl
    | cons r rest ih =>
      simp only [List.map_cons, List.sum_cons, List.sum_map_add]
      rw [ih, sum_pendingShare]
  exact hrows s.reservations.rows

variable {s t : Ledger}

/-- A load that no class exceeds, added up. -/
theorem totalLoad_mono (h : ∀ c, t.load c ≤ s.load c) : t.totalLoad ≤ s.totalLoad :=
  List.sum_le_sum fun c _ => h c

theorem totalLoad_eq (s : Ledger) :
    s.totalLoad = (StorageClass.all.map fun c => s.objects.tally c ObjectRow.bytes).sum
      + s.reserved := by
  rw [← sum_reservedIn, ← List.sum_map_add]
  rfl

/-- In an accounted ledger the load of a class is its usage row and its reservations. -/
theorem Accounted.load_eq (hs : Accounted s) (c : StorageClass) :
    (s.load c : ℤ) = (s.usageOf c).bytes + s.reservedIn c := by
  rw [hs.counted c, Ledger.load]
  push_cast
  rfl

theorem Accounted.usedBytes_eq (hs : Accounted s) :
    s.usedBytes = ((StorageClass.all.map fun c => s.objects.tally c ObjectRow.bytes).sum : ℕ) := by
  rw [Ledger.usedBytes, Nat.cast_list_sum, List.map_map]
  congr 1
  apply List.map_congr_left
  intro c _
  rw [hs.counted c]
  rfl

theorem Accounted.totalLoad_eq (hs : Accounted s) :
    (s.totalLoad : ℤ) = s.usedBytes + s.reserved := by
  rw [Storage.totalLoad_eq, hs.usedBytes_eq]
  push_cast
  rfl

/-! ## What an admission tests -/

/-- Every lease is still held. -/
def LeasesHeld (s : Ledger) (now : ℤ) : Prop := ∀ r ∈ s.reservations.rows, now ≤ r.leaseExpiresMs

instance (s : Ledger) (now : ℤ) : Decidable (LeasesHeld s now) :=
  inferInstanceAs (Decidable (∀ r ∈ s.reservations.rows, now ≤ r.leaseExpiresMs))

variable {now : ℤ}

/-- While every lease is held there is nothing to expire. -/
theorem expireReservations_of_held (h : LeasesHeld s now) :
    s.expireReservations now = s := by
  have hkeep : s.reservations.deleteWhere (fun r => r.leaseExpiresMs < now) = s.reservations := by
    refine KeyTable.ext_rows ?_
    refine List.filter_eq_self.mpr ?_
    intro r hr
    have := h r hr
    simp only [Bool.not_eq_true', decide_eq_false_iff_not]
    omega
  rw [Ledger.expireReservations, hkeep]

theorem sumColumn_eq_ok {l : List ℤ} {n : ℤ} (h : sumColumn l = .ok n) : n = l.sum := by
  rw [sumColumn] at h
  split_ifs at h
  exact (Except.ok.inj h).symm

theorem sum_map_cast {α : Type} (l : List α) (g : α → ℕ) :
    (l.map fun a => (g a : ℤ)).sum = ((l.map g).sum : ℕ) := by
  rw [Nat.cast_list_sum, List.map_map]
  rfl

/-- What a condition selects, among reservations whose leases are all held. -/
theorem pendingWhere_eq_ok (hheld : LeasesHeld s now) {p : ReservationRow → Bool} {n : ℕ}
    (h : pendingWhere s now p = .ok n) :
    n = s.reservations.total fun r => if p r then r.bytes else 0 := by
  rw [pendingWhere] at h
  cases hsum : sumColumn ((s.reservations.select fun r => now ≤ r.leaseExpiresMs && p r).map
      fun r => (r.bytes : ℤ)) with
  | error e =>
    rw [hsum] at h
    cases h
  | ok sum =>
    rw [hsum] at h
    obtain rfl := Except.ok.inj h
    rw [sumColumn_eq_ok hsum, sum_map_cast, Int.toNat_natCast, KeyTable.sum_select,
      KeyTable.total, KeyTable.total]
    congr 1
    apply List.map_congr_left
    intro r hr
    simp only [hheld r hr, decide_true, Bool.true_and]

/-- The usage rows that are there hold all of the usage. -/
theorem sum_usageRows (s : Ledger) : (s.usageRows.map UsageRow.bytes).sum = s.usedBytes := by
  rw [Ledger.usageRows, Ledger.usedBytes]
  induction StorageClass.all with
  | nil => rfl
  | cons c rest ih =>
    cases hc : s.usage c with
    | none =>
      rw [List.filterMap_cons_none hc, ih, List.map_cons, List.sum_cons, Ledger.usageOf, hc]
      simp
    | some row =>
      rw [List.filterMap_cons_some hc, List.map_cons, List.sum_cons, ih, List.map_cons,
        List.sum_cons, Ledger.usageOf, hc]
      rfl

variable {c : StorageClass}

/-- The figures of an admission are the loads. -/
theorem budgetSnapshotOn_eq_ok (hs : Accounted s) (hheld : LeasesHeld s now) {snapshot : BudgetSnapshot}
    (h : budgetSnapshotOn s c now = .ok snapshot) :
    snapshot.classBytes + snapshot.classPending = s.load c ∧
      snapshot.totalBytes + snapshot.totalPending = s.totalLoad := by
  simp only [budgetSnapshotOn, bind_eq_ok] at h
  obtain ⟨classPending, hclass, totalBytes, hbytes, totalPinned, -, totalPending, htotal, h⟩ := h
  obtain rfl := Except.ok.inj h
  have hclassPending : classPending = s.reservedIn c := by
    have hsum := pendingWhere_eq_ok hheld hclass
    simp only [decide_eq_true_eq] at hsum
    exact hsum
  have htotalPending : totalPending = s.reserved := by
    have hsum := pendingWhere_eq_ok hheld htotal
    simp only [if_true] at hsum
    exact hsum
  constructor
  · have hcounted : ((s.usage c).map UsageRow.bytes).getD 0 = (s.usageOf c).bytes := by
      rw [Ledger.usageOf]
      cases s.usage c <;> rfl
    show (((s.usage c).map UsageRow.bytes).getD 0).toNat + classPending = s.load c
    rw [hclassPending, hcounted, hs.counted c, Int.toNat_natCast, Ledger.load]
  · show totalBytes.toNat + totalPending = s.totalLoad
    rw [htotalPending, sumColumn_eq_ok hbytes, sum_usageRows, hs.usedBytes_eq, Int.toNat_natCast,
      totalLoad_eq]

/-! ## Reservations of a governor -/

/-- A request to `try_reserve`: the write, its purpose, the clock and the volumes it may land on.
`id` is the identifier the reservation gets. -/
structure Request where
  id : String
  owner : String
  storageClass : StorageClass
  key : String
  bytes : ℕ
  purpose : AdmissionPurpose
  now : ℤ
  now_le : now ≤ i64Max
  paths : List (String × Option FilesystemSpace)
  ledgerVolumeId : Option ℕ
  unsettledInflight : ℕ

/-- The volume rule of a request. -/
def Request.rule (p : Policy) (r : Request) : VolumeRule where
  paths := r.paths
  writeBound := freeSpaceWriteBound r.storageClass r.bytes
  ledgerVolumeId := r.ledgerVolumeId
  unsettledInflight := r.unsettledInflight
  admissionCeiling := p.ceiling r.purpose
  config := p.config

/-- The end of the lease, `now.saturating_add(lease)`. -/
def Request.expires (p : Policy) (r : Request) : ℤ :=
  min (r.now + max p.config.reservationLeaseMs 1) i64Max

theorem Request.now_le_expires (p : Policy) (r : Request) : r.now ≤ r.expires p := by
  have := r.now_le
  rw [Request.expires]
  omega

/-- The transaction of `try_reserve`. -/
def tryReserve (p : Policy) (s : Ledger) (r : Request) : Except GovernorError (AdmitRow × Ledger) :=
  tryReserveAtomic s r.id r.owner r.storageClass r.key r.bytes r.now (r.expires p)
    (p.quota r.storageClass) p.budget (r.rule p)

/-- `Reservation`: what the writer holds. -/
structure Reservation where
  id : String
  storageClass : StorageClass
  key : String
  bytes : ℕ
  deriving DecidableEq, Repr

/-- The reservation of a granted request. -/
def Request.reservation (r : Request) : Reservation where
  id := r.id
  storageClass := r.storageClass
  key := r.key
  bytes := r.bytes

/-- `Reservation::commit`.  A refused commit drops the reservation; bytes whose row is gone are
adopted, since they are already on disk.  The health report that follows reads the ledger only. -/
def Reservation.commit (s : Ledger) (h : Reservation) (actualBytes : ℕ) (digest : Option String)
    (now : ℤ) : Except GovernorError Unit × Ledger :=
  if h.bytes < actualBytes then
    (.error (.malformed (s!"reservation {h.id} admitted {h.bytes} bytes but {actualBytes} were "
      ++ "published; a caller may never exceed its own admission")), deleteReservation s h.id)
  else
    match commitReservation s h.id actualBytes digest now with
    | .error e => (.error e, s)
    | .ok (some _, s') => (.ok (), s')
    | .ok (none, s') =>
      match upsertObject s' h.storageClass (digest.getD h.key) actualBytes digest now false with
      | .error e => (.error e, s')
      | .ok (_, s'') => (.ok (), s'')

/-- The ledger, and the reservations that the writers of all governors hold. -/
structure System where
  ledger : Ledger
  held : List Reservation

/-- What the governors of one ledger do.  `abort` is also the drop of a reservation; the removals
are the ones of evictions and of deleted objects. -/
inductive Event
  | reserve (r : Request)
  | commit (h : Reservation) (actualBytes : ℕ) (digest : Option String) (now : ℤ)
  | abort (h : Reservation)
  | remove (id : ObjectId)
  | evict (id : ObjectId) (digest : Option String) (freedBytes : ℕ) (verified : Bool)
      (reason : String) (now : ℤ)
  | removeKeys (c : StorageClass) (keys : List String)

/-- What a request answers to its writer. -/
def System.admitted (s : System) (r : Request) : Except GovernorError (AdmitRow × Ledger) → System
  | .error _ => s
  | .ok (row, ledger) =>
    { ledger := ledger
      held := if row.reservationId.isSome then r.reservation :: s.held else s.held }

/-- One event; a writer commits and aborts what it holds. -/
def System.step (p : Policy) (s : System) : Event → Option System
  | .reserve r => some (s.admitted r (tryReserve p s.ledger r))
  | .commit h actualBytes digest now =>
    if h ∈ s.held then
      some { ledger := (h.commit s.ledger actualBytes digest now).2, held := s.held.erase h }
    else none
  | .abort h =>
    if h ∈ s.held then some { ledger := deleteReservation s.ledger h.id, held := s.held.erase h }
    else none
  | .remove id => some { s with ledger := (removeObject s.ledger id).2 }
  | .evict id digest freedBytes verified reason now =>
    some { s with ledger := (removeObjectAndRecordEviction s.ledger id digest freedBytes verified
      reason now).2 }
  | .removeKeys c keys => some { s with ledger := (removeKeys c s.ledger keys).2 }

/-! ## What an operation does to the loads -/

/-- Rows with the digest of a blob have its size. -/
def DigestSized (size : String → ℕ) (t : ObjectIndex) : Prop :=
  ∀ o ∈ t.table.rows, ∀ d, o.digest = some d → o.bytes = size d

/-- The operation removes objects and nothing else. -/
structure Shrinks (s t : Ledger) : Prop where
  rows : ∀ o ∈ t.objects.table.rows, o ∈ s.objects.table.rows
  tally : ∀ c, t.objects.tally c ObjectRow.bytes ≤ s.objects.tally c ObjectRow.bytes
  reservations : t.reservations = s.reservations

theorem Shrinks.refl (s : Ledger) : Shrinks s s where
  rows := fun _ ho => ho
  tally := fun _ => le_rfl
  reservations := rfl

variable {u : Ledger}

theorem Shrinks.trans (h : Shrinks s t) (h' : Shrinks t u) : Shrinks s u where
  rows := fun o ho => h.rows o (h'.rows o ho)
  tally := fun c => le_trans (h'.tally c) (h.tally c)
  reservations := h'.reservations.trans h.reservations

theorem Shrinks.congr (h : Shrinks s t) (hobjects : u.objects = t.objects)
    (hreservations : u.reservations = t.reservations) : Shrinks s u where
  rows := by rw [hobjects]; exact h.rows
  tally := by rw [hobjects]; exact h.tally
  reservations := by rw [hreservations]; exact h.reservations

theorem removeObjectOn_shrinks (s : Ledger) (id : ObjectId) : Shrinks s (removeObjectOn s id).2 := by
  unfold removeObjectOn
  cases hget : s.objects.get? id with
  | none => exact .refl s
  | some row =>
    constructor
    · exact fun o ho => ObjectIndex.mem_of_erase ho
    · intro c
      have := ObjectIndex.tally_erase hget c ObjectRow.bytes
      show (s.objects.erase id).tally c ObjectRow.bytes ≤ _
      omega
    · rfl

theorem removeKeys_shrinks (c : StorageClass) (s : Ledger) (keys : List String) :
    Shrinks s (removeKeys c s keys).2 := by
  induction keys generalizing s with
  | nil => exact .refl s
  | cons key rest ih => exact (removeObjectOn_shrinks s (c, key)).trans (ih _)

theorem recordLossMarkerOn_frame (s : Ledger) (row : LossRow) :
    (recordLossMarkerOn s row).objects = s.objects ∧
      (recordLossMarkerOn s row).reservations = s.reservations := by
  unfold recordLossMarkerOn
  dsimp only
  split
  · exact ⟨rfl, rfl⟩
  · exact ⟨rfl, rfl⟩

theorem removeObjectAndRecordEviction_shrinks (s : Ledger) (id : ObjectId) (digest : Option String)
    (freedBytes : ℕ) (verified : Bool) (reason : String) (now : ℤ) :
    Shrinks s (removeObjectAndRecordEviction s id digest freedBytes verified reason now).2 := by
  have hremoved := removeObjectOn_shrinks s id
  unfold removeObjectAndRecordEviction
  split
  · next s' heq =>
    rw [heq] at hremoved
    exact hremoved
  · next row s' heq =>
    rw [heq] at hremoved
    dsimp only
    split
    · refine hremoved.congr ?_ ?_
      · exact (recordLossMarkerOn_frame _ _).1
      · exact (recordLossMarkerOn_frame _ _).2
    · exact hremoved.congr rfl rfl

theorem Shrinks.load_le (h : Shrinks s t) (c : StorageClass) : t.load c ≤ s.load c := by
  rw [Ledger.load, Ledger.load, Ledger.reservedIn, h.reservations]
  exact Nat.add_le_add_right (h.tally c) _

/-- The operation stores a blob: the class of it grows by its size at most. -/
structure Stores (size : String → ℕ) (c : StorageClass) (bytes : ℕ) (s t : Ledger) : Prop where
  digestSized : DigestSized size t.objects
  tally : ∀ c', t.objects.tally c' ObjectRow.bytes
    ≤ s.objects.tally c' ObjectRow.bytes + if c' = c then bytes else 0
  reservations : t.reservations = s.reservations

@[simp] theorem reservations_countUsage (s : Ledger) (c : StorageClass) (bytes : ℕ)
    (required : Bool) : (s.countUsage c bytes required).reservations = s.reservations := by
  cases required <;> rfl

@[simp] theorem objects_countUsage (s : Ledger) (c : StorageClass) (bytes : ℕ)
    (required : Bool) : (s.countUsage c bytes required).objects = s.objects := by
  cases required <;> rfl

@[simp] theorem reservations_moveUsage (s : Ledger) (c : StorageClass) (oldBytes bytes : ℕ)
    (oldRequired required : Bool) :
    (s.moveUsage c oldBytes bytes oldRequired required).reservations = s.reservations := by
  cases required <;> cases oldRequired <;> rfl

variable {size : String → ℕ} {lastUsedMs : ℤ} {required : Bool}

/-- A promotion takes the row from its class to the stronger one. -/
theorem promoteObjectOn_stores {s' : Ledger} (hs : DigestSized size s.objects) {row : ObjectRow}
    (hget : s.objects.get? row.id = some row) {digest : String} (hdigest : row.digest = some digest)
    {toClass : StorageClass} (h : promoteObjectOn s row digest toClass lastUsedMs required = .ok s') :
    Stores size toClass (size digest) s s' := by
  have hrow : row.bytes = size digest := hs row (KeyTable.get?_eq_some.mp hget).1 digest hdigest
  simp only [promoteObjectOn, bind_eq_ok, orConstraint_eq_ok] at h
  obtain ⟨objects, hinsert, pins, -, h⟩ := h
  obtain rfl := Except.ok.inj h
  have hinsert' : (s.objects.erase row.id).insert? _ = some objects := hinsert
  constructor
  · rw [objects_countUsage]
    intro o ho d hd
    rcases ObjectIndex.mem_of_insert hinsert' ho with rfl | ho
    · rw [← Option.some.inj hd]
      exact hrow
    · exact hs o (ObjectIndex.mem_of_erase ho) d hd
  · intro c'
    have herase := ObjectIndex.tally_erase hget c' ObjectRow.bytes
    rw [objects_countUsage]
    show objects.tally c' ObjectRow.bytes ≤ _
    rw [ObjectIndex.tally_insert hinsert', share, hrow]
    simp only [eq_comm (a := toClass)]
    omega
  · rw [reservations_countUsage]
    rfl

/-- The digest that the row under a key bears after a blob was stored there. -/
def digestAfter (s : Ledger) (id : ObjectId) (digest : Option String) : Option String :=
  digest.orElse fun _ => (s.objects.get? id).bind ObjectRow.digest

variable {digest : Option String}

/-- **An upsert adds at most its bytes to its class**, whether it inserts the row, resizes it, finds
the blob under another name or takes it over from a weaker class. -/
theorem upsertObjectOn_stores {s' : Ledger} (hs : DigestSized size s.objects) {key : String} {bytes : ℕ}
    (hbytes : bytes ≤ i64Max) (hsize : ∀ d ∈ digestAfter s (c, key) digest, bytes = size d) {stored : Bool}
    (h : upsertObjectOn s c key bytes digest lastUsedMs required = .ok (stored, s')) :
    Stores size c bytes s s' := by
  unfold upsertObjectOn at h
  split at h
  · next owner howner =>
    split_ifs at h with hpromote
    · obtain ⟨promoted, hpromoted, h⟩ := bind_eq_ok.mp h
      obtain ⟨-, rfl⟩ := Prod.mk.inj (Except.ok.inj h)
      obtain ⟨d, hd, hfound⟩ := Option.bind_eq_some_iff.mp howner
      obtain rfl : d = key := Option.some.inj (hd.symm.trans hpromote.1)
      obtain ⟨hget, -, hdigest⟩ := findDigest_eq_some (Option.filter_eq_some_iff.mp hfound).1
      have hsame : bytes = size d := by
        refine hsize d ?_
        rw [digestAfter, hd]
        rfl
      rw [hsame]
      exact promoteObjectOn_stores hs hget hdigest hpromoted
    · obtain ⟨-, rfl⟩ := Prod.mk.inj (Except.ok.inj h)
      exact ⟨hs, fun c' => Nat.le_add_right _ _, rfl⟩
  · dsimp only at h
    split at h
    · next old hold =>
      have hold' : s.objects.get? (c, key) = some old := hold
      simp only [bind_eq_ok, orConstraint_eq_ok] at h
      obtain ⟨objects, hreplace, h⟩ := h
      obtain ⟨-, rfl⟩ := Prod.mk.inj (Except.ok.inj h)
      have hid : old.id = (c, key) := (KeyTable.get?_eq_some.mp hold').2
      set new : ObjectRow := { old with
        bytes := toI64 bytes, digest := digest.orElse fun _ => old.digest, lastUsedMs := lastUsedMs
        required := required || isPinnedOn s (c, key), family := c.family } with hnew
      have hreplace' : s.objects.replace? new = some objects := hreplace
      constructor
      · rw [objects_moveUsage]
        intro o ho d hd
        rcases ObjectIndex.mem_of_replace hreplace' ho with rfl | ho
        · show toI64 bytes = size d
          rw [toI64_of_le hbytes]
          refine hsize d ?_
          rw [digestAfter, hold']
          exact hd
        · exact hs o ho d hd
      · intro c'
        have hsum := ObjectIndex.tally_replace hreplace' (hid ▸ hold') c' ObjectRow.bytes
        have hshare : share c' ObjectRow.bytes new = if c' = c then bytes else 0 := by
          rw [share, show new.storageClass = c from congrArg Prod.fst hid]
          simp only [eq_comm (a := c), hnew, toI64_of_le hbytes]
        rw [hshare] at hsum
        rw [objects_moveUsage]
        show objects.tally c' ObjectRow.bytes ≤ _
        omega
      · rw [reservations_moveUsage]
        rfl
    · next hnone =>
      have hnone' : s.objects.get? (c, key) = none := hnone
      simp only [bind_eq_ok, orConstraint_eq_ok] at h
      obtain ⟨objects, hinsert, h⟩ := h
      obtain ⟨-, rfl⟩ := Prod.mk.inj (Except.ok.inj h)
      have hinsert' : s.objects.insert? _ = some objects := hinsert
      constructor
      · rw [objects_countUsage]
        intro o ho d hd
        rcases ObjectIndex.mem_of_insert hinsert' ho with rfl | ho
        · show toI64 bytes = size d
          rw [toI64_of_le hbytes]
          refine hsize d ?_
          rw [digestAfter, hnone']
          show Option.orElse digest _ = some d
          rw [show digest = some d from hd]
          rfl
        · exact hs o ho d hd
      · intro c'
        rw [objects_countUsage]
        show objects.tally c' ObjectRow.bytes ≤ _
        rw [ObjectIndex.tally_insert hinsert', share]
        simp only [eq_comm (a := c), toI64_of_le hbytes]
        exact le_rfl
      · rw [reservations_countUsage]
        rfl

/-! ## The system -/

/-- What the premises of an interleaving ask of one event: no lease runs out, and the blobs of one
digest have one size. -/
def Orderly (size : String → ℕ) (s : System) : Event → Prop
  | .reserve r => LeasesHeld s.ledger r.now
  | .commit h actualBytes digest _ =>
    ∀ d ∈ digestAfter s.ledger (h.storageClass, digest.getD h.key) digest, actualBytes = size d
  | .abort _ => True
  | .remove _ => True
  | .evict .. => True
  | .removeKeys .. => True

instance (size : String → ℕ) (s : System) : ∀ e, Decidable (Orderly size s e)
  | .reserve r => inferInstanceAs (Decidable (LeasesHeld s.ledger r.now))
  | .commit h actualBytes digest _ => inferInstanceAs (Decidable
      (∀ d ∈ digestAfter s.ledger (h.storageClass, digest.getD h.key) digest, actualBytes = size d))
  | .abort _ => .isTrue trivial
  | .remove _ => .isTrue trivial
  | .evict .. => .isTrue trivial
  | .removeKeys .. => .isTrue trivial

/-- The row of a reservation that a writer holds. -/
def Reservation.RowOf (h : Reservation) (r : ReservationRow) : Prop :=
  r.id = h.id ∧ r.storageClass = h.storageClass ∧ r.key = h.key ∧ r.bytes = h.bytes

/-- The invariant: the counters are exact, and every reservation that is held has its row. -/
structure Sound (size : String → ℕ) (s : System) : Prop where
  accounted : Accounted s.ledger
  digestSized : DigestSized size s.ledger.objects
  held : ∀ h ∈ s.held, h.bytes ≤ i64Max ∧ ∃ r ∈ s.ledger.reservations.rows, h.RowOf r
  distinct : (s.held.map Reservation.id).Nodup

/-- The request is granted. -/
def System.grants (p : Policy) (s : System) (r : Request) : Bool :=
  match tryReserve p s.ledger r with
  | .ok (row, _) => row.reservationId.isSome
  | .error _ => false

/-- The row that a granted request leaves. -/
def Request.row (p : Policy) (r : Request) (volume : Option ℕ) : ReservationRow where
  id := r.id
  storageClass := r.storageClass
  key := r.key
  bytes := r.bytes
  owner := r.owner
  volume := volume
  createdMs := r.now
  leaseExpiresMs := r.expires p

/-- What a granted request passed, and what it left. -/
structure Granted (p : Policy) (s : System) (r : Request) (s' : System) : Prop where
  bytes_le : r.bytes ≤ p.budget
  load_le : s.ledger.load r.storageClass + r.bytes ≤ p.quota r.storageClass
  totalLoad_le : s.ledger.totalLoad + r.bytes ≤ p.ceiling r.purpose
  volumes : admissionDenial s.ledger (r.rule p) r.now (resolveVolumes r.paths []).1
    (resolveVolumes r.paths []).2 = .ok none
  inserted : s.ledger.reservations.insert? (r.row p (destinationVolume (resolveVolumes r.paths []).1
    (resolveVolumes r.paths []).2)) = some s'.ledger.reservations
  ledger : s'.ledger = { s.ledger with reservations := s'.ledger.reservations }
  held : s'.held = r.reservation :: s.held

variable {r : Request}

/-- **An admission leaves everything as it was, or it is granted** after every test passed. -/
theorem admit_cases (p : Policy) {s : System} (hs : Accounted s.ledger) (hheld : LeasesHeld s.ledger r.now) :
    (s.grants p r = false ∧ s.admitted r (tryReserve p s.ledger r) = s) ∨
      (s.grants p r = true ∧ Granted p s r (s.admitted r (tryReserve p s.ledger r))) := by
  rw [System.grants]
  cases htry : tryReserve p s.ledger r with
  | error e => exact .inl ⟨rfl, rfl⟩
  | ok result =>
    obtain ⟨row, ledger⟩ := result
    obtain ⟨snapshot, denial, hsnapshot, hdenial, hcases⟩ := tryReserveAtomic_cases htry
    rw [expireReservations_of_held hheld] at hsnapshot hdenial hcases
    obtain ⟨hclass, htotal⟩ := budgetSnapshotOn_eq_ok hs hheld hsnapshot
    rcases hcases with ⟨hnone, rfl⟩ | ⟨hsome, hquota, hceiling, hbytes, rfl, reservations, hinsert, rfl⟩
    · left
      simp only [System.admitted, hnone, Option.isSome_none, Bool.false_eq_true, if_false, and_self]
    · right
      have hclassBound : p.quota r.storageClass < Saturating.u64Max :=
        lt_of_le_of_lt (p.quota_le _) p.budget_lt_u64Max
      have hceilingBound : min (r.rule p).admissionCeiling p.budget < Saturating.u64Max :=
        lt_of_le_of_lt (Nat.min_le_right _ _) p.budget_lt_u64Max
      rw [Saturating.add_le_iff hclassBound] at hquota
      rw [Saturating.add_le_iff hceilingBound] at hceiling
      have hclassUsed : Saturating.add snapshot.classBytes snapshot.classPending = s.ledger.load
          r.storageClass := by
        rw [← hclass]
        refine Saturating.add_of_saturated_lt ?_
        omega
      have htotalUsed : Saturating.add snapshot.totalBytes snapshot.totalPending
          = s.ledger.totalLoad := by
        rw [← htotal]
        refine Saturating.add_of_saturated_lt ?_
        omega
      rw [hclassUsed] at hquota
      rw [htotalUsed] at hceiling
      have hrow : toI64 r.bytes = r.bytes := toI64_of_le (le_trans hbytes p.budget_le_i64Max)
      rw [hrow] at hinsert
      refine ⟨by simp [hsome], hbytes, hquota, ?_, hdenial, hinsert, rfl, ?_⟩
      · exact le_trans hceiling (Nat.min_le_left _ _)
      · simp [System.admitted, hsome]

/-- The reservations that are live are the ones an admission counts. -/
theorem pendingWhere_expireReservations (s : Ledger) (now : ℤ) (p : ReservationRow → Bool) :
    pendingWhere (s.expireReservations now) now p = pendingWhere s now p := by
  have hselect : (s.expireReservations now).reservations.select
      (fun r => now ≤ r.leaseExpiresMs && p r)
      = s.reservations.select fun r => now ≤ r.leaseExpiresMs && p r := by
    show List.filter _ (List.filter _ s.reservations.rows) = List.filter _ s.reservations.rows
    rw [List.filter_filter]
    apply List.filter_congr
    intro r _
    by_cases hlease : now ≤ r.leaseExpiresMs
    · simp [hlease]
    · simp [hlease]
  rw [pendingWhere, pendingWhere, hselect]

theorem budgetSnapshotOn_expireReservations (s : Ledger) (c : StorageClass) (now : ℤ) :
    budgetSnapshotOn (s.expireReservations now) c now = budgetSnapshotOn s c now := by
  simp only [budgetSnapshotOn, pendingWhere_expireReservations]
  rfl

theorem leasesHeld_expireReservations (s : Ledger) (now : ℤ) :
    LeasesHeld (s.expireReservations now) now := by
  intro r hr
  have := (KeyTable.mem_deleteWhere.mp hr).2
  simpa using this

/-- An expired reservation is gone before the tests of an admission. -/
theorem tryReserve_expireReservations (p : Policy) (s : Ledger) (r : Request) :
    tryReserve p (s.expireReservations r.now) r = tryReserve p s r := by
  have htwice : (s.expireReservations r.now).expireReservations r.now = s.expireReservations r.now :=
    expireReservations_of_held (leasesHeld_expireReservations s r.now)
  simp only [tryReserve, tryReserveAtomic, htwice]

variable {p : Policy}

/-- A request that is granted, whether or not a lease ran out before. -/
theorem granted_of_grants {s : System} (hs : Accounted s.ledger) (h : s.grants p r = true) :
    Granted p { s with ledger := s.ledger.expireReservations r.now } r
      (s.admitted r (tryReserve p s.ledger r)) := by
  set live : System := { s with ledger := s.ledger.expireReservations r.now } with hlive
  have hsame : tryReserve p live.ledger r = tryReserve p s.ledger r :=
    tryReserve_expireReservations p s.ledger r
  have hgrants : live.grants p r = true := by
    rw [System.grants, hsame]
    exact h
  have haccounted : Accounted live.ledger := hs.congr rfl rfl
  rcases admit_cases p haccounted (leasesHeld_expireReservations s.ledger r.now) with
    ⟨hrefused, -⟩ | ⟨-, hgranted⟩
  · rw [hgrants] at hrefused
    cases hrefused
  · have hadmit : live.admitted r (tryReserve p live.ledger r) = s.admitted r (tryReserve p s.ledger r) := by
      rw [hsame]
      cases htry : tryReserve p s.ledger r with
      | error e =>
        rw [System.grants, htry] at h
        cases h
      | ok result => rfl
    rw [← hadmit]
    exact hgranted

variable {s' : System}

/-- The loads after a grant. -/
theorem Granted.load_eq {s : System} (h : Granted p s r s') (c : StorageClass) :
    s'.ledger.load c = s.ledger.load c + if r.storageClass = c then r.bytes else 0 := by
  have hinsert := KeyTable.total_insert h.inserted (pendingShare c)
  have hobjects : s'.ledger.objects = s.ledger.objects := by rw [h.ledger]
  rw [Ledger.load, Ledger.load, hobjects, Ledger.reservedIn, hinsert, Nat.add_assoc]
  rfl

theorem Granted.totalLoad_eq {s : System} (h : Granted p s r s') :
    s'.ledger.totalLoad = s.ledger.totalLoad + r.bytes := by
  have hinsert := KeyTable.total_insert h.inserted ReservationRow.bytes
  have hobjects : s'.ledger.objects = s.ledger.objects := by rw [h.ledger]
  rw [Storage.totalLoad_eq, Storage.totalLoad_eq, hobjects, Ledger.reserved, hinsert, Nat.add_assoc]
  rfl

variable {h : Reservation}

/-- The row of a reservation goes with its bytes. -/
theorem reservedIn_deleteReservation {r : ReservationRow} (hr : r ∈ s.reservations.rows) (hrow : h.RowOf r)
    (c : StorageClass) :
    (deleteReservation s h.id).reservedIn c + (if h.storageClass = c then h.bytes else 0)
      = s.reservedIn c := by
  obtain ⟨hid, hclass, -, hbytes⟩ := hrow
  have hget : s.reservations.get? h.id = some r := hid ▸ KeyTable.get?_of_mem hr
  have := KeyTable.total_erase hget (pendingShare c)
  rw [pendingShare, hclass, hbytes] at this
  exact this

theorem load_deleteReservation_le {r : ReservationRow} (hr : r ∈ s.reservations.rows) (hrow : h.RowOf r)
    (c : StorageClass) :
    (deleteReservation s h.id).load c ≤ s.load c := by
  have := reservedIn_deleteReservation hr hrow c
  rw [Ledger.load, Ledger.load]
  show s.objects.tally c ObjectRow.bytes + _ ≤ _
  omega

/-- What is left of the rows when the row of one reservation goes. -/
theorem held_erase {s : System} (hnodup : (s.held.map Reservation.id).Nodup)
    (hheld : ∀ k ∈ s.held, k.bytes ≤ i64Max ∧ ∃ r ∈ s.ledger.reservations.rows, k.RowOf r)
    (hmem : h ∈ s.held) : ∀ k ∈ s.held.erase h,
      k.bytes ≤ i64Max ∧ ∃ r ∈ (s.ledger.reservations.erase h.id).rows, k.RowOf r := by
  intro k hk
  have hk' := List.mem_of_mem_erase hk
  obtain ⟨hbytes, r, hr, hrow⟩ := hheld k hk'
  refine ⟨hbytes, r, KeyTable.mem_deleteWhere.mpr ⟨hr, ?_⟩, hrow⟩
  -- another reservation that is held has another id
  have hne : k ≠ h := fun heq => (List.Nodup.mem_erase_iff (List.Nodup.of_map _ hnodup)).mp hk |>.1 heq
  have hids : k.id ≠ h.id := fun heq => hne (List.inj_on_of_nodup_map hnodup hk' hmem heq)
  rw [hrow.1]
  simpa using hids

theorem distinct_erase {s : System} (hnodup : (s.held.map Reservation.id).Nodup) (h : Reservation) :
    ((s.held.erase h).map Reservation.id).Nodup :=
  hnodup.sublist (List.erase_sublist.map _)

/-- What a commit of a held reservation does: the row goes, and the blob may be stored. -/
structure Commits (size : String → ℕ) (h : Reservation) (s t : Ledger) : Prop where
  accounted : Accounted t
  digestSized : DigestSized size t.objects
  load_le : ∀ c, t.load c ≤ s.load c
  reservations : t.reservations = s.reservations ∨ t.reservations = s.reservations.erase h.id

theorem Reservation.commit_commits (hs : Accounted s) (hdigests : DigestSized size s.objects)
    {r : ReservationRow} (hr : r ∈ s.reservations.rows) (hrow : h.RowOf r) (hmax : h.bytes ≤ i64Max)
    {actualBytes : ℕ}
    (hsize : ∀ d ∈ digestAfter s (h.storageClass, digest.getD h.key) digest, actualBytes = size d) (now : ℤ) :
    Commits size h s (h.commit s actualBytes digest now).2 := by
  have hget : s.reservations.get? h.id = some r := hrow.1 ▸ KeyTable.get?_of_mem hr
  rw [Reservation.commit]
  split_ifs with hmore
  · exact ⟨hs.congr rfl rfl, hdigests, load_deleteReservation_le hr hrow, .inr rfl⟩
  · cases hcommit : commitReservation s h.id actualBytes digest now with
    | error e => exact ⟨hs, hdigests, fun c => le_rfl, .inl rfl⟩
    | ok result =>
      obtain ⟨committed, s'⟩ := result
      have haccounted := commitReservation_accounted hs hcommit
      simp only [commitReservation, hget, bind_eq_ok] at hcommit
      obtain ⟨⟨stored, s₁⟩, hupsert, hcommit⟩ := hcommit
      obtain ⟨rfl, rfl⟩ := Prod.mk.inj (Except.ok.inj hcommit)
      rw [hrow.2.1, hrow.2.2.1] at hupsert
      have hdigests' : DigestSized size (deleteReservation s h.id).objects := hdigests
      have hstores : Stores size h.storageClass actualBytes (deleteReservation s h.id) s₁ :=
        upsertObjectOn_stores hdigests' (by omega) hsize hupsert
      refine ⟨haccounted, hstores.digestSized, ?_, .inr hstores.reservations⟩
      intro c
      -- the bytes of the blob are no more than the bytes of the reservation
      have htally := hstores.tally c
      have hreserved := reservedIn_deleteReservation hr hrow c
      show s₁.load c ≤ s.load c
      rw [Ledger.load, Ledger.load, Ledger.reservedIn, hstores.reservations]
      have hobjects : (deleteReservation s h.id).objects = s.objects := rfl
      rw [hobjects] at htally
      show s₁.objects.tally c ObjectRow.bytes + (deleteReservation s h.id).reservedIn c ≤ _
      simp only [eq_comm (a := c)] at htally
      split_ifs at htally hreserved <;> omega

/-- The invariant after an event that leaves what is held alone, apart from one reservation. -/
theorem Sound.shrink {s : System} (hs : Sound size s) (haccounted : Accounted t) (h : Shrinks s.ledger t) :
    Sound size { s with ledger := t } where
  accounted := haccounted
  digestSized := fun o ho => hs.digestSized o (h.rows o ho)
  held := by
    intro k hk
    rw [h.reservations]
    exact hs.held k hk
  distinct := hs.distinct

/-- A grant hands out an id that nobody holds. -/
theorem Granted.sound {s : System} (hs : Sound size s) (h : Granted p s r s') : Sound size s' := by
  obtain ⟨hfresh, hrows⟩ := KeyTable.insert?_eq_some.mp h.inserted
  have hobjects : s'.ledger.objects = s.ledger.objects := by rw [h.ledger]
  have husage : s'.ledger.usage = s.ledger.usage := by rw [h.ledger]
  constructor
  · exact hs.accounted.congr hobjects husage
  · rw [hobjects]
    exact hs.digestSized
  · rw [h.held, hrows]
    intro k hk
    rcases List.mem_cons.mp hk with rfl | hk
    · exact ⟨le_trans h.bytes_le p.budget_le_i64Max, _,
        List.mem_append_right _ List.mem_cons_self, rfl, rfl, rfl, rfl⟩
    · obtain ⟨hbytes, row, hrow, hof⟩ := hs.held k hk
      exact ⟨hbytes, row, List.mem_append_left _ hrow, hof⟩
  · rw [h.held, List.map_cons, List.nodup_cons]
    refine ⟨?_, hs.distinct⟩
    intro hmem
    obtain ⟨k, hk, hid⟩ := List.mem_map.mp hmem
    obtain ⟨-, row, hrow, hof⟩ := hs.held k hk
    exact KeyTable.get?_eq_none.mp hfresh row hrow (hof.1.trans hid)

variable {e : Event}

/-- What an event can do: it is a grant, or no load grows. -/
theorem step_cases {s : System} (hs : Sound size s) (horderly : Orderly size s e)
    (hstep : s.step p e = some s') :
    (∃ r, e = .reserve r ∧ s.grants p r = true ∧ Granted p s r s') ∨
      ∀ c, s'.ledger.load c ≤ s.ledger.load c := by
  cases e with
  | reserve r =>
    obtain rfl := Option.some.inj hstep
    rcases admit_cases p hs.accounted horderly with ⟨-, hsame⟩ | ⟨hgrants, hgranted⟩
    · rw [hsame]
      exact .inr fun c => le_rfl
    · exact .inl ⟨r, rfl, hgrants, hgranted⟩
  | commit h actualBytes digest now =>
    rw [System.step] at hstep
    split_ifs at hstep with hmem
    obtain rfl := Option.some.inj hstep
    obtain ⟨hmax, r, hr, hrow⟩ := hs.held h hmem
    exact .inr (Reservation.commit_commits hs.accounted hs.digestSized hr hrow hmax horderly now).load_le
  | abort h =>
    rw [System.step] at hstep
    split_ifs at hstep with hmem
    obtain rfl := Option.some.inj hstep
    obtain ⟨-, r, hr, hrow⟩ := hs.held h hmem
    exact .inr (load_deleteReservation_le hr hrow)
  | remove id =>
    obtain rfl := Option.some.inj hstep
    exact .inr (removeObjectOn_shrinks s.ledger id).load_le
  | evict id digest freedBytes verified reason now =>
    obtain rfl := Option.some.inj hstep
    exact .inr (removeObjectAndRecordEviction_shrinks s.ledger id digest freedBytes verified reason
      now).load_le
  | removeKeys c keys =>
    obtain rfl := Option.some.inj hstep
    exact .inr (removeKeys_shrinks c s.ledger keys).load_le

/-- Every event keeps the invariant. -/
theorem step_sound {s : System} (hs : Sound size s) (horderly : Orderly size s e)
    (hstep : s.step p e = some s') : Sound size s' := by
  cases e with
  | reserve r =>
    obtain rfl := Option.some.inj hstep
    rcases admit_cases p hs.accounted horderly with ⟨-, hsame⟩ | ⟨-, hgranted⟩
    · rw [hsame]
      exact hs
    · exact hgranted.sound hs
  | commit h actualBytes digest now =>
    rw [System.step] at hstep
    split_ifs at hstep with hmem
    obtain rfl := Option.some.inj hstep
    obtain ⟨hmax, r, hr, hrow⟩ := hs.held h hmem
    have hcommits := Reservation.commit_commits hs.accounted hs.digestSized hr hrow hmax horderly now
    refine ⟨hcommits.accounted, hcommits.digestSized, ?_, distinct_erase hs.distinct h⟩
    rcases hcommits.reservations with hsame | herased
    · rw [hsame]
      exact fun k hk => hs.held k (List.mem_of_mem_erase hk)
    · rw [herased]
      exact held_erase hs.distinct hs.held hmem
  | abort h =>
    rw [System.step] at hstep
    split_ifs at hstep with hmem
    obtain rfl := Option.some.inj hstep
    exact ⟨hs.accounted.congr rfl rfl, hs.digestSized, held_erase hs.distinct hs.held hmem,
      distinct_erase hs.distinct h⟩
  | remove id =>
    obtain rfl := Option.some.inj hstep
    exact hs.shrink (removeObjectOn_accounted hs.accounted id) (removeObjectOn_shrinks s.ledger id)
  | evict id digest freedBytes verified reason now =>
    obtain rfl := Option.some.inj hstep
    exact hs.shrink
      (removeObjectAndRecordEviction_accounted hs.accounted id digest freedBytes verified reason now)
      (removeObjectAndRecordEviction_shrinks s.ledger id digest freedBytes verified reason now)
  | removeKeys c keys =>
    obtain rfl := Option.some.inj hstep
    exact hs.shrink (removeKeys_accounted hs.accounted keys) (removeKeys_shrinks c s.ledger keys)

/-! ## Runs -/

/-- The ceiling that an event is admitted under is at most `bound`. -/
def Event.CeilingLe (p : Policy) (bound : ℕ) : Event → Prop
  | .reserve r => p.ceiling r.purpose ≤ bound
  | _ => True

/-- The load of a class is within its quota, and the sum of the loads within a bound. -/
def WithinLimits (p : Policy) (c : StorageClass) (bound : ℕ) (s : System) : Prop :=
  s.ledger.load c ≤ p.quota c ∧ s.ledger.totalLoad ≤ bound

variable {bound : ℕ}

/-- Limits that hold are kept by every event that is admitted under them. -/
theorem step_withinLimits {s : System} (hs : Sound size s) (hwithin : WithinLimits p c bound s)
    (horderly : Orderly size s e) (hceiling : e.CeilingLe p bound) (hstep : s.step p e = some s') :
    WithinLimits p c bound s' := by
  rcases step_cases hs horderly hstep with ⟨r, rfl, -, hgranted⟩ | hloads
  · constructor
    · rw [hgranted.load_eq]
      split_ifs with hc
      · rw [← hc]
        exact hgranted.load_le
      · exact hwithin.1
    · rw [hgranted.totalLoad_eq]
      exact le_trans hgranted.totalLoad_le hceiling
  · exact ⟨le_trans (hloads c) hwithin.1, le_trans (totalLoad_mono hloads) hwithin.2⟩

variable {events : List Event}

theorem run_sound {s t : System} (hs : Sound size s)
    (horderly : Trace.Along (System.step p) (Orderly size) s events)
    (hrun : Trace.run (System.step p) s events = some t) : Sound size t :=
  Trace.run_invariant_along (fun _ _ _ h ho hstep => step_sound h ho hstep) hs horderly hrun

theorem run_withinLimits {s t : System} (hs : Sound size s) (hwithin : WithinLimits p c bound s)
    (horderly : Trace.Along (System.step p) (Orderly size) s events)
    (hceilings : ∀ e ∈ events, e.CeilingLe p bound) (hrun : Trace.run (System.step p) s events = some t) :
    WithinLimits p c bound t := by
  induction events generalizing s with
  | nil =>
    obtain rfl := Option.some.inj hrun
    exact hwithin
  | cons e rest ih =>
    obtain ⟨s', hstep, hrest⟩ := Trace.run_cons_eq_some.mp hrun
    refine ih (step_sound hs horderly.1 hstep) ?_ (horderly.2 s' hstep)
      (fun e' he' => hceilings e' (List.mem_cons_of_mem _ he')) hrest
    exact step_withinLimits hs hwithin horderly.1 (hceilings e List.mem_cons_self) hstep

/-- Every ceiling is below the budget. -/
theorem Event.ceilingLe_budget (p : Policy) (e : Event) : e.CeilingLe p p.budget := by
  cases e with
  | reserve r => exact p.ceiling_le r.purpose
  | _ => trivial

/-- A ledger with any history. -/
def Reached (s : Ledger) : Prop :=
  ∃ calls, Trace.run step .fresh calls = some s ∧ Trace.Along step Fits .fresh calls

theorem Reached.fresh : Reached .fresh := ⟨[], rfl, trivial⟩

theorem Reached.accounted (h : Reached s) : Accounted s := by
  obtain ⟨calls, hrun, hfits⟩ := h
  exact run_accounted hrun hfits

/-- No reservation is handed out yet by the governors that open the ledger. -/
structure Opened (size : String → ℕ) (s : System) : Prop where
  reached : Reached s.ledger
  digestSized : DigestSized size s.ledger.objects
  held : s.held = []

theorem Opened.sound {s : System} (h : Opened size s) : Sound size s := by
  refine ⟨h.reached.accounted, h.digestSized, ?_, ?_⟩
  · rw [h.held]
    simp
  · rw [h.held]
    exact List.nodup_nil

/-- **Admission stays within its limits.**  In every interleaving of the governors of one ledger in
which no lease runs out and equal digests have equal sizes: a request that is refused inserts no row,
and after one that is granted the usage and the reservations of its class are within the quota, and
those of all classes within the budget and, as long as nothing is admitted under a higher ceiling,
within the ceiling of its purpose. -/
theorem granted_within (p : Policy) {size : String → ℕ} {start s s' : System}
    (hstart : Opened size start) {before : List Event} {r : Request}
    (horderly : Trace.Along (System.step p) (Orderly size) start (before ++ [.reserve r]))
    (hrun : Trace.run (System.step p) start before = some s)
    (hstep : s.step p (.reserve r) = some s') :
    (s.grants p r = false → s'.ledger.reservations.rows = s.ledger.reservations.rows) ∧
    (s.grants p r = true → ∀ later t,
      Trace.Along (System.step p) (Orderly size) s' later →
      Trace.run (System.step p) s' later = some t →
      (t.ledger.usageOf r.storageClass).bytes + t.ledger.reservedIn r.storageClass
          ≤ p.quota r.storageClass ∧
        t.ledger.usedBytes + t.ledger.reserved ≤ p.budget ∧
        ((∀ e ∈ later, e.CeilingLe p (p.ceiling r.purpose)) →
          t.ledger.usedBytes + t.ledger.reserved
            ≤ min (r.purpose.ceilingBytes p.config p.budget) p.budget)) := by
  obtain ⟨hbefore, hlast⟩ := Trace.along_append horderly hrun
  have hs : Sound size s := run_sound hstart.sound hbefore hrun
  have hs' : Sound size s' := step_sound hs hlast.1 hstep
  obtain rfl := Option.some.inj hstep
  rcases admit_cases p hs.accounted hlast.1 with ⟨hgrants, hsame⟩ | ⟨hgrants, hgranted⟩
  · rw [hgrants, hsame]
    exact ⟨fun _ => rfl, fun h => absurd h (by decide)⟩
  · rw [hgrants]
    refine ⟨fun h => absurd h (by decide), ?_⟩
    intro _ later t hlater hrun'
    have ht : Sound size t := run_sound hs' hlater hrun'
    have hgranted' : WithinLimits p r.storageClass (p.ceiling r.purpose)
        (s.admitted r (tryReserve p s.ledger r)) := by
      refine ⟨?_, ?_⟩
      · rw [hgranted.load_eq, if_pos rfl]
        exact hgranted.load_le
      · rw [hgranted.totalLoad_eq]
        exact hgranted.totalLoad_le
    have hbudget := run_withinLimits hs' ⟨hgranted'.1, le_trans hgranted'.2 (p.ceiling_le _)⟩ hlater
      (fun e _ => e.ceilingLe_budget p) hrun'
    refine ⟨?_, ?_, ?_⟩
    · rw [← ht.accounted.load_eq]
      exact_mod_cast hbudget.1
    · rw [← ht.accounted.totalLoad_eq]
      exact_mod_cast hbudget.2
    · intro hceilings
      rw [← ht.accounted.totalLoad_eq]
      exact_mod_cast (run_withinLimits hs' hgranted' hlater hceilings hrun').2

/-- The limits of a small installation. -/
def smallOperator : StorageGovernorConfig where
  totalBudgetBytes := 1000000
  watermarkPermille := 900
  reservationLeaseMs := 1000
  capacityPermille := 100
  reservePermille := 100
  reserveBytes := 0
  minInstallAllowanceBytes := 0
  normalAdmissionCeilingPermille := 850
  emergencyCeilingPermille := 900
  shadowMaxBytesPerShadow := 0
  quotas := fun _ => none

/-- One volume of 1 GiB. -/
def smallVolume : FilesystemSpace :=
  { filesystemId := 1, capacityBytes := 1073741824, availableBytes := 536870912 }

def smallPolicy : Policy where
  operator := smallOperator
  config := smallOperator.clamped
  validated := by rfl
  spaces := [smallVolume]
  measured := by decide +kernel

/-- A write of the main store. -/
def smallRequest (id key : String) (bytes : ℕ) : Request where
  id := id
  owner := "boot"
  storageClass := .mainCas
  key := key
  bytes := bytes
  purpose := .normal
  now := 0
  now_le := by decide
  paths := [("cas", some smallVolume)]
  ledgerVolumeId := some 1
  unsettledInflight := 0

/-- A blob is published, then another write is admitted. -/
def publishedBlob : List Event :=
  [.reserve (smallRequest "r₁" "incoming" 100),
   .commit (smallRequest "r₁" "incoming" 100).reservation 90 (some "blob") 5]

theorem opened_fresh (size : String → ℕ) : Opened size ⟨.fresh, []⟩ where
  reached := .fresh
  digestSized := by simp [DigestSized, Ledger.fresh, ObjectIndex.empty, KeyTable.empty]
  held := rfl

/-- The second write is granted, and the class holds the blob and the reservation. -/
theorem publishedBlob_within : ∃ s s',
    Trace.run (System.step smallPolicy) ⟨.fresh, []⟩ publishedBlob = some s ∧
    s.step smallPolicy (.reserve (smallRequest "r₂" "next" 200)) = some s' ∧
    s.grants smallPolicy (smallRequest "r₂" "next" 200) = true ∧
    (s'.ledger.usageOf .mainCas).bytes = 90 ∧ s'.ledger.reservedIn .mainCas = 200 ∧
    (s'.ledger.usageOf .mainCas).bytes + s'.ledger.reservedIn .mainCas
      ≤ smallPolicy.quota .mainCas := by
  refine ⟨_, _, rfl, rfl, by decide +kernel, by decide +kernel, by decide +kernel, ?_⟩
  have horderly : Trace.Along (System.step smallPolicy) (Orderly fun _ => 90) ⟨.fresh, []⟩
      (publishedBlob ++ [.reserve (smallRequest "r₂" "next" 200)]) := by decide +kernel
  exact ((granted_within smallPolicy (opened_fresh _) horderly rfl rfl).2 (by decide +kernel) [] _
    trivial rfl).1

end Storage
