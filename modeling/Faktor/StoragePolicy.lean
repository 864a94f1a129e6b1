/-
# Storage classes, budgets and capacity

What the storage governor admits against (`class.rs`, `config.rs`, `capacity.rs` and the bounds of
`governor.rs`): ten classes under one aggregate budget, quotas for the classes, three admission
bands of the budget, and the reserve of each volume that no write may use.

The budget in force is the smaller of the operator's and a share of the measured capacity, so it is
far below the range of the columns that the bytes are kept in (`effectiveBudget_lt`).
-/
import Faktor.Saturating
import Faktor.Sqlite

namespace Storage

open Saturating (u64Max)
open Sqlite (bind_eq_ok refuseWhen)

/-! ## Classes -/

/-- `StorageClass`. -/
inductive StorageClass
  | mainCas | evidenceCas | compactionArchive | terminalCapture | browserStorage | checkpoint
  | sqliteWal | updateRemnant | rebuildableCache | shadowWorkspace
  deriving DecidableEq, Repr

/-- The physical root family of a class. -/
inductive Family
  | main | evidence
  deriving DecidableEq, Repr

namespace StorageClass

def all : List StorageClass :=
  [mainCas, evidenceCas, compactionArchive, terminalCapture, browserStorage, checkpoint,
    sqliteWal, updateRemnant, rebuildableCache, shadowWorkspace]

def asStr : StorageClass → String
  | mainCas => "main_cas"
  | evidenceCas => "evidence_cas"
  | compactionArchive => "compaction_archive"
  | terminalCapture => "terminal_capture"
  | browserStorage => "browser_storage"
  | checkpoint => "checkpoint"
  | sqliteWal => "sqlite_wal"
  | updateRemnant => "update_remnant"
  | rebuildableCache => "rebuildable_cache"
  | shadowWorkspace => "shadow_workspace"

def defaultSharePermille : StorageClass → ℕ
  | mainCas => 270
  | evidenceCas => 150
  | compactionArchive => 100
  | terminalCapture => 100
  | browserStorage => 50
  | checkpoint => 100
  | sqliteWal => 100
  | updateRemnant => 20
  | rebuildableCache => 30
  | shadowWorkspace => 80

def family : StorageClass → Family
  | evidenceCas => .evidence
  | _ => .main

/-- An archive is not evicted without a loss marker. -/
def requiresLossMarker (c : StorageClass) : Bool := c = compactionArchive

/-- How strongly a class keeps a blob that several classes refer to. -/
def retentionRank : StorageClass → ℕ
  | compactionArchive => 3
  | checkpoint => 2
  | terminalCapture => 1
  | _ => 0

theorem mem_all (c : StorageClass) : c ∈ all := by
  cases c <;> decide

theorem defaultSharePermille_le (c : StorageClass) : c.defaultSharePermille ≤ 1000 := by
  cases c <;> decide

end StorageClass

/-! ## Configuration -/

def minCapacityPermille : ℕ := 1
def maxCapacityPermille : ℕ := 500
def minReservePermille : ℕ := 10
def maxReservePermille : ℕ := 500
def minReserveBytes : ℕ := 64 * 1024 * 1024
def maxReserveBytes : ℕ := 256 * 1024 * 1024 * 1024
def minInstallAllowanceBytesFloor : ℕ := 32 * 1024 * 1024
def maxInstallAllowanceBytes : ℕ := 256 * 1024 * 1024 * 1024
def minNormalAdmissionCeilingPermille : ℕ := 500
def maxNormalAdmissionCeilingPermille : ℕ := 950
def maxEmergencyCeilingPermille : ℕ := 1000
def minShadowMaxBytesPerShadow : ℕ := 1024 * 1024
def maxShadowMaxBytesPerShadow : ℕ := 64 * 1024 * 1024 * 1024

/-- `StorageGovernorConfig`. -/
structure StorageGovernorConfig where
  totalBudgetBytes : ℕ
  watermarkPermille : ℕ
  reservationLeaseMs : ℤ
  capacityPermille : ℕ
  reservePermille : ℕ
  reserveBytes : ℕ
  minInstallAllowanceBytes : ℕ
  normalAdmissionCeilingPermille : ℕ
  emergencyCeilingPermille : ℕ
  shadowMaxBytesPerShadow : ℕ
  quotas : StorageClass → Option ℕ

/-- `Ord::clamp`. -/
def clamp (low high n : ℕ) : ℕ := max low (min high n)

namespace StorageGovernorConfig

/-- The numbers pulled into their safe ranges, the emergency band above the normal one. -/
def clamped (c : StorageGovernorConfig) : StorageGovernorConfig :=
  let normal := clamp minNormalAdmissionCeilingPermille maxNormalAdmissionCeilingPermille
    c.normalAdmissionCeilingPermille
  { c with
    capacityPermille := clamp minCapacityPermille maxCapacityPermille c.capacityPermille
    reservePermille := clamp minReservePermille maxReservePermille c.reservePermille
    reserveBytes := clamp minReserveBytes maxReserveBytes c.reserveBytes
    minInstallAllowanceBytes :=
      clamp minInstallAllowanceBytesFloor maxInstallAllowanceBytes c.minInstallAllowanceBytes
    normalAdmissionCeilingPermille := normal
    emergencyCeilingPermille := clamp (min (normal + 1) maxEmergencyCeilingPermille)
      maxEmergencyCeilingPermille c.emergencyCeilingPermille
    shadowMaxBytesPerShadow :=
      clamp minShadowMaxBytesPerShadow maxShadowMaxBytesPerShadow c.shadowMaxBytesPerShadow }

/-- Quotas that are exactly the shares of the operator's total are default ones. -/
def derivedDefaults (c : StorageGovernorConfig) : Bool :=
  StorageClass.all.all fun k =>
    c.quotas k == some (Saturating.mul c.totalBudgetBytes k.defaultSharePermille / 1000)

/-- The check of one explicit quota. -/
def checkQuota (c : StorageGovernorConfig) (k : StorageClass) : Except String Unit :=
  match c.quotas k with
  | none => .ok ()
  | some quota =>
    if quota = 0 then
      .error s!"storage quota for {k.asStr} must be > 0 (a zero quota refuses every write)"
    else if c.totalBudgetBytes < quota then
      .error
        s!"storage quota for {k.asStr} ({quota}) exceeds the aggregate budget ({c.totalBudgetBytes})"
    else .ok ()

/-- Default quotas follow the budget in force instead of the operator's total. -/
def migrated (c : StorageGovernorConfig) : StorageGovernorConfig :=
  if c.derivedDefaults then { c with quotas := fun _ => none } else c

/-- `StorageGovernorConfig::validated`. -/
def validated (c : StorageGovernorConfig) : Except String StorageGovernorConfig := do
  refuseWhen (c.totalBudgetBytes = 0) "storage.total_budget_bytes must be > 0"
  refuseWhen (c.watermarkPermille = 0 ∨ 1000 < c.watermarkPermille)
    "storage.watermark_permille must be 1..=1000"
  refuseWhen (c.reservationLeaseMs ≤ 0) "storage.reservation_lease_ms must be > 0"
  StorageClass.all.forM c.clamped.migrated.checkQuota
  return c.clamped.migrated

/-- `StorageGovernorConfig::quota_for`. -/
def quotaFor (c : StorageGovernorConfig) (k : StorageClass) (effectiveBudget : ℕ) : ℕ :=
  match c.quotas k with
  | some quota => min quota effectiveBudget
  | none => Saturating.mul effectiveBudget k.defaultSharePermille / 1000

def normalAdmissionCeilingBytes (c : StorageGovernorConfig) (effectiveBudget : ℕ) : ℕ :=
  Saturating.mul effectiveBudget c.normalAdmissionCeilingPermille / 1000

def emergencyCeilingBytes (c : StorageGovernorConfig) (effectiveBudget : ℕ) : ℕ :=
  Saturating.mul effectiveBudget c.emergencyCeilingPermille / 1000

/-- A quota is never above the budget in force. -/
theorem quotaFor_le (c : StorageGovernorConfig) (k : StorageClass) (effectiveBudget : ℕ) :
    c.quotaFor k effectiveBudget ≤ effectiveBudget := by
  rw [quotaFor]
  cases c.quotas k with
  | some quota => exact Nat.min_le_right _ _
  | none => exact Saturating.mul_div_le k.defaultSharePermille_le

/-- A configuration that passed validation has its numbers in range. -/
theorem allowance_le_of_validated {c v : StorageGovernorConfig} (h : c.validated = .ok v) :
    v.minInstallAllowanceBytes ≤ maxInstallAllowanceBytes := by
  simp only [validated, bind_eq_ok] at h
  obtain ⟨-, -, -, -, -, -, -, -, h⟩ := h
  obtain rfl := Except.ok.inj h
  have hclamp : c.clamped.minInstallAllowanceBytes ≤ maxInstallAllowanceBytes := by
    show clamp _ _ _ ≤ _
    rw [clamp]
    exact max_le (by decide) (Nat.min_le_left _ _)
  rw [migrated]
  split
  · exact hclamp
  · exact hclamp

end StorageGovernorConfig

/-! ## Capacity -/

/-- `FilesystemSpace`: one measurement of the volume under a path. -/
structure FilesystemSpace where
  filesystemId : ℕ
  capacityBytes : ℕ
  availableBytes : ℕ
  deriving DecidableEq, Repr

/-- One volume measured through several paths: the larger capacity and the smaller free space. -/
def FilesystemSpace.merge (a b : FilesystemSpace) : FilesystemSpace :=
  { a with capacityBytes := max a.capacityBytes b.capacityBytes
           availableBytes := min a.availableBytes b.availableBytes }

/-- The volumes by their id, in the order of the ids. -/
def addSpace (space : FilesystemSpace) : List FilesystemSpace → List FilesystemSpace
  | [] => [space]
  | a :: rest =>
    if space.filesystemId < a.filesystemId then space :: a :: rest
    else if space.filesystemId = a.filesystemId then a.merge space :: rest
    else a :: addSpace space rest

/-- `volume_reserve_bytes`: the free space that stays untouched on a volume. -/
def volumeReserveBytes (c : StorageGovernorConfig) (volumeCapacity : ℕ) : ℕ :=
  max c.reserveBytes (Saturating.mul volumeCapacity c.reservePermille / 1000)

/-- `volume_admission_deficit`. -/
def volumeAdmissionDeficit (available reserve unmaterialized writeBound : ℕ) : ℕ :=
  Saturating.add (Saturating.add unmaterialized writeBound) reserve - available

/-- The part of `CapacitySnapshot` that admission reads. -/
structure CapacitySnapshot where
  measured : Bool
  capacityBytes : ℕ
  reserveBytes : ℕ
  capacityCapBytes : ℕ
  effectiveBudgetBytes : ℕ
  filesystems : List FilesystemSpace
  deriving DecidableEq, Repr

/-- `CapacitySnapshot::evaluate`. -/
def CapacitySnapshot.evaluate (c : StorageGovernorConfig) (spaces : List FilesystemSpace) :
    CapacitySnapshot :=
  let filesystems := spaces.foldl (fun volumes space => addSpace space volumes) []
  if filesystems = [] then
    { measured := false, capacityBytes := 0, reserveBytes := 0,
      capacityCapBytes := c.totalBudgetBytes, effectiveBudgetBytes := c.totalBudgetBytes,
      filesystems := [] }
  else
    let capacity := filesystems.foldl (fun sum fs => Saturating.add sum fs.capacityBytes) 0
    let reserve := max c.reserveBytes (Saturating.mul capacity c.reservePermille / 1000)
    let relativeCap := Saturating.mul capacity c.capacityPermille / 1000
    let capacityCap := min (max relativeCap c.minInstallAllowanceBytes) (capacity - reserve)
    { measured := true, capacityBytes := capacity, reserveBytes := reserve,
      capacityCapBytes := capacityCap,
      effectiveBudgetBytes := min c.totalBudgetBytes capacityCap, filesystems := filesystems }

/-- **The budget in force is small**: a share of a capacity that saturates at `2^64`, or the
allowance of a small installation. -/
theorem effectiveBudget_lt {c v : StorageGovernorConfig} (hv : c.validated = .ok v)
    {spaces : List FilesystemSpace}
    (hmeasured : (CapacitySnapshot.evaluate v spaces).measured = true) :
    (CapacitySnapshot.evaluate v spaces).effectiveBudgetBytes < 2 ^ 62 := by
  simp only [CapacitySnapshot.evaluate] at hmeasured ⊢
  split_ifs at hmeasured ⊢
  have hallowance := StorageGovernorConfig.allowance_le_of_validated hv
  have hallowanceMax : maxInstallAllowanceBytes < 2 ^ 62 := by decide
  generalize hcap : List.foldl _ _ _ = capacity
  have hshare : Saturating.mul capacity v.capacityPermille / 1000 < 2 ^ 62 := by
    have hmul := Saturating.mul_le capacity v.capacityPermille
    have hmax : u64Max / 1000 < 2 ^ 62 := by decide
    exact lt_of_le_of_lt (Nat.div_le_div_right hmul) hmax
  calc min v.totalBudgetBytes _ ≤ min (max _ _) _ := Nat.min_le_right _ _
    _ ≤ max (Saturating.mul capacity v.capacityPermille / 1000) v.minInstallAllowanceBytes :=
        Nat.min_le_left _ _
    _ < 2 ^ 62 := max_lt hshare (by omega)

/-! ## Purposes and write bounds -/

/-- `AdmissionPurpose`. -/
inductive AdmissionPurpose
  | normal | emergencyMetadata | recovery
  deriving DecidableEq, Repr

/-- `AdmissionPurpose::ceiling_bytes`. -/
def AdmissionPurpose.ceilingBytes (c : StorageGovernorConfig) (effectiveBudget : ℕ) :
    AdmissionPurpose → ℕ
  | normal => c.normalAdmissionCeilingBytes effectiveBudget
  | emergencyMetadata => c.emergencyCeilingBytes effectiveBudget
  | recovery => effectiveBudget

/-- `sqlite_growth_bound`: the payload can land in the log and in the database. -/
def sqliteGrowthBound (incomingBytes : ℕ) : ℕ :=
  Saturating.add (Saturating.mul incomingBytes 2) (16 * 1024)

def reservationMetadataAllowanceBytes : ℕ := 16 * 1024

/-- `free_space_write_bound`: what the destination volume has to hold above its reserve. -/
def freeSpaceWriteBound (k : StorageClass) (bytes : ℕ) : ℕ :=
  if k = .sqliteWal then sqliteGrowthBound bytes
  else Saturating.add bytes reservationMetadataAllowanceBytes

end Storage
