/-
# What the two admission paths leave of the budget and of the volume

Ordinary writes are reserved in the ledger, SQLite growth is charged to a counter (`admitted`) until
a scan finds it on disk.  The SQLite path counts the reservations and its own debt; the reservation
transaction counts the reservations and not the debt (`debt_counted_iff`, `debtIgnored_overruns`).

On the destination volume every admission tests its own write bound, which is the payload and an
allowance for metadata, against the free space; the row it leaves records the payload alone
(`volume_reserve_kept_iff`, `smallWrites_breach_reserve`).
-/
import Faktor.StorageAdmission

namespace Storage

open Sqlite (i64Max bind_eq_ok)

/-! ## SQLite growth -/

/-- `SharedWalDebt`: what was admitted and not scanned yet, and what may not be written yet. -/
structure WalDebt where
  admitted : ℕ
  inflight : ℕ
  deriving DecidableEq, Repr

/-- A governor: its ledger with the reservations that are held, and the debt. -/
structure Governor where
  system : System
  debt : WalDebt

/-- A call of `charge_sqlite_growth`, with what the probe answers for the data directory. -/
structure Growth where
  purpose : AdmissionPurpose
  incomingBytes : ℕ
  tracked : Bool
  now : ℤ
  dataDir : String
  space : Option FilesystemSpace

/-- `sqlite_room`: the usage of the class and of everything, with the debt, and what is pinned. -/
def sqliteRoom (s : Ledger) (debt : WalDebt) (incomingBytes quota total : ℕ) (now : ℤ) :
    Except GovernorError (Option (ℕ × ℕ × ℕ)) := do
  let bound := sqliteGrowthBound incomingBytes
  let snapshot ← budgetSnapshotOn s .sqliteWal now
  let classUsed :=
    Saturating.add (Saturating.add snapshot.classBytes snapshot.classPending) debt.admitted
  let totalUsed :=
    Saturating.add (Saturating.add snapshot.totalBytes snapshot.totalPending) debt.admitted
  return if Saturating.add classUsed bound ≤ quota ∧ Saturating.add totalUsed bound ≤ total then
      some (classUsed, totalUsed, snapshot.totalPinned)
    else none

/-- `SqliteVolumeRoom`. -/
inductive SqliteVolumeRoom
  | ok
  | unmeasured (detail : String)
  | reserve (deficit available : ℕ) (detail : String)
  deriving DecidableEq, Repr

/-- `sqlite_volume_room`. -/
def sqliteVolumeRoom (p : Policy) (s : Ledger) (debt : WalDebt) (g : Growth) (bound : ℕ) :
    Except GovernorError SqliteVolumeRoom :=
  match g.space with
  | none => .ok (.unmeasured (s!"capacity measurement failed for the SQLite data directory {g.dataDir}"
      ++ "; SQLite/WAL growth is refused until that volume can be measured"))
  | some space => do
    let reserve := volumeReserveBytes p.config space.capacityBytes
    let pending ← pendingWhere s g.now fun r =>
      r.volume = some space.filesystemId || r.volume = none
    let deficit := volumeAdmissionDeficit space.availableBytes reserve
      (Saturating.add pending debt.inflight) bound
    return if 0 < deficit then
        .reserve deficit (space.availableBytes - reserve)
          (s!"data-dir volume {space.filesystemId}: {space.availableBytes} bytes free, {reserve} byte "
            ++ s!"reserve, {pending} bytes of unmaterialized reservations, {debt.inflight} bytes of "
            ++ s!"in-flight SQLite growth, {bound} byte write bound; {deficit} bytes short of "
            ++ "preserving the reserve")
      else .ok

/-- `SqliteAdmission`: the charge to settle when the write is over. -/
structure SqliteAdmission where
  charged : ℕ
  active : Bool
  deriving DecidableEq, Repr

/-- The debt after a charge. -/
def WalDebt.charge (debt : WalDebt) (bound : ℕ) (tracked : Bool) : WalDebt where
  admitted := Saturating.add debt.admitted bound
  inflight := if tracked then (debt.inflight + bound) % 2 ^ 64 else debt.inflight

/-- `charge_sqlite_growth`.  The ledger lock is held from the tests to the charge, so that on one
governor the exchange of the counter cannot fail. -/
def chargeSqliteGrowth (p : Policy) (s : Ledger) (debt : WalDebt) (g : Growth) :
    Except GovernorError (Option SqliteAdmission × WalDebt) := do
  let bound := sqliteGrowthBound g.incomingBytes
  let room ← sqliteRoom s debt g.incomingBytes (p.quota .sqliteWal) (p.ceiling g.purpose) g.now
  let volume ← sqliteVolumeRoom p s debt g bound
  if room = none ∨ volume ≠ .ok then return (none, debt)
  return (some { charged := if g.tracked then bound else 0, active := g.tracked },
    debt.charge bound g.tracked)

/-! ## The two paths of one governor -/

/-- The admissions of one governor. -/
inductive Admission
  | reserve (r : Request)
  | grow (g : Growth)

def Admission.now : Admission → ℤ
  | .reserve r => r.now
  | .grow g => g.now

/-- The request with the in-flight debt that `try_reserve` loads. -/
def Governor.request (g : Governor) (r : Request) : Request :=
  { r with unsettledInflight := g.debt.inflight }

/-- One admission. -/
def Governor.step (p : Policy) (g : Governor) : Admission → Option Governor
  | .reserve r =>
    let r := g.request r
    some { g with system := g.system.admitted r (tryReserve p g.system.ledger r) }
  | .grow growth =>
    match chargeSqliteGrowth p g.system.ledger g.debt growth with
    | .error _ => some g
    | .ok (_, debt) => some { g with debt := debt }

/-- The admission is granted. -/
def Governor.grants (p : Policy) (g : Governor) : Admission → Bool
  | .reserve r => g.system.grants p (g.request r)
  | .grow growth =>
    match chargeSqliteGrowth p g.system.ledger g.debt growth with
    | .error _ => false
    | .ok (admission, _) => admission.isSome

/-- The bytes of the reservations that are live at a time. -/
def Ledger.liveReserved (s : Ledger) (now : ℤ) : ℕ := (s.expireReservations now).reserved

/-- Usage, live reservations and debt are within the budget. -/
def Governor.WithinBudget (p : Policy) (g : Governor) (now : ℤ) : Prop :=
  g.system.ledger.usedBytes + g.system.ledger.liveReserved now + g.debt.admitted ≤ p.budget

/-- A granted admission leaves usage, reservations and debt within the budget. -/
def BudgetKept (p : Policy) (g : Governor) (a : Admission) : Prop :=
  g.grants p a = true → ∀ g', g.step p a = some g' → g'.WithinBudget p a.now

/-- A write that is admitted leaves the SQLite debt its part of the budget. -/
def DebtHasRoom (p : Policy) (g : Governor) : Admission → Prop
  | .reserve r => g.grants p (.reserve r) = true →
      g.system.ledger.usedBytes + g.system.ledger.liveReserved r.now + r.bytes + g.debt.admitted
        ≤ p.budget
  | .grow _ => True

variable {p : Policy} {s : System}

theorem admit_accounted (hs : Accounted s.ledger) (r : Request) :
    Accounted (s.admitted r (tryReserve p s.ledger r)).ledger := by
  cases htry : tryReserve p s.ledger r with
  | error e => exact hs
  | ok result =>
    obtain ⟨hobjects, husage⟩ := tryReserveAtomic_frame htry
    exact hs.congr hobjects husage

variable {g : Governor}

theorem Governor.step_accounted {g' : Governor} (hg : Accounted g.system.ledger) {a : Admission}
    (h : g.step p a = some g') : Accounted g'.system.ledger := by
  cases a with
  | reserve r =>
    obtain rfl := Option.some.inj h
    exact admit_accounted hg (g.request r)
  | grow growth =>
    rw [Governor.step] at h
    split at h
    · obtain rfl := Option.some.inj h
      exact hg
    · obtain rfl := Option.some.inj h
      exact hg

/-- A granted growth passed the test that counts the debt. -/
theorem growth_within (hg : Accounted g.system.ledger) {growth : Growth} {admission : SqliteAdmission}
    {debt : WalDebt} (h : chargeSqliteGrowth p g.system.ledger g.debt growth = .ok (some admission, debt)) :
    (g.system.ledger.expireReservations growth.now).totalLoad + debt.admitted ≤ p.budget := by
  simp only [chargeSqliteGrowth, bind_eq_ok] at h
  obtain ⟨room, hroom, volume, -, h⟩ := h
  by_cases hrefused : room = none ∨ volume ≠ .ok
  · rw [if_pos hrefused] at h
    cases h
  rw [if_neg hrefused] at h
  obtain ⟨-, rfl⟩ := Prod.mk.inj (Except.ok.inj h)
  rw [not_or] at hrefused
  simp only [sqliteRoom, bind_eq_ok] at hroom
  obtain ⟨snapshot, hsnapshot, hroom⟩ := hroom
  obtain rfl := Except.ok.inj hroom
  have hfits := hrefused.1
  simp only [ite_eq_right_iff, reduceCtorEq, imp_false, not_not] at hfits
  rw [← budgetSnapshotOn_expireReservations] at hsnapshot
  have haccounted : Accounted (g.system.ledger.expireReservations growth.now) := hg.congr rfl rfl
  obtain ⟨-, htotal⟩ := budgetSnapshotOn_eq_ok haccounted (leasesHeld_expireReservations _ _) hsnapshot
  have hceiling : p.ceiling growth.purpose < Saturating.u64Max :=
    lt_of_le_of_lt (p.ceiling_le _) p.budget_lt_u64Max
  -- the sums stay below the ceiling, so none of them saturated
  have hsum := (Saturating.add_le_iff hceiling).mp hfits.2
  have hdebt := Saturating.add_of_saturated_lt (lt_of_le_of_lt (le_trans (Nat.le_add_right _ _) hsum)
    hceiling)
  rw [hdebt] at hsum
  have hused := Saturating.add_of_saturated_lt (a := snapshot.totalBytes) (b := snapshot.totalPending)
    (by omega)
  rw [hused, htotal] at hsum
  have hle := p.ceiling_le growth.purpose
  show _ + Saturating.add g.debt.admitted (sqliteGrowthBound growth.incomingBytes) ≤ _
  rw [Saturating.add_of_le (by omega)]
  omega

/-- What is used, what is live and the debt, as one number. -/
theorem withinBudget_iff (hg : Accounted g.system.ledger) (now : ℤ) :
    g.WithinBudget p now ↔
      (g.system.ledger.expireReservations now).totalLoad + g.debt.admitted ≤ p.budget := by
  have haccounted : Accounted (g.system.ledger.expireReservations now) := hg.congr rfl rfl
  have htotal := haccounted.totalLoad_eq
  have hused : (g.system.ledger.expireReservations now).usedBytes = g.system.ledger.usedBytes := rfl
  rw [hused] at htotal
  rw [Governor.WithinBudget, Ledger.liveReserved, ← htotal]
  exact_mod_cast Iff.rfl

variable {s' : System} {r : Request}

/-- The live reservations right after a grant are the rows it left. -/
theorem expireReservations_of_granted
    (h : Granted p { s with ledger := s.ledger.expireReservations r.now } r s') :
    s'.ledger.expireReservations r.now = s'.ledger := by
  refine expireReservations_of_held ?_
  intro row hrow
  rw [(KeyTable.insert?_eq_some.mp h.inserted).2, List.mem_append, List.mem_singleton] at hrow
  rcases hrow with hrow | rfl
  · exact leasesHeld_expireReservations s.ledger r.now row hrow
  · exact r.now_le_expires p

theorem budgetKept_iff (hg : Accounted g.system.ledger) (a : Admission) :
    BudgetKept p g a ↔ DebtHasRoom p g a := by
  cases a with
  | reserve r =>
    refine forall_congr' fun hgrants => ?_
    have hgranted := granted_of_grants hg hgrants
    have hlive := expireReservations_of_granted hgranted
    have haccounted : Accounted (g.system.ledger.expireReservations r.now) := hg.congr rfl rfl
    have hbefore := haccounted.totalLoad_eq
    have hstep : ∀ g', g.step p (.reserve r) = some g' ↔ g' = { g with
        system := g.system.admitted (g.request r) (tryReserve p g.system.ledger (g.request r)) } := by
      intro g'
      rw [Governor.step, Option.some.injEq, eq_comm]
    simp only [hstep, forall_eq]
    rw [withinBudget_iff (admit_accounted hg (g.request r))]
    show ((System.admitted _ _ _).ledger.expireReservations (g.request r).now).totalLoad + _ ≤ _ ↔ _
    rw [hlive, hgranted.totalLoad_eq]
    show (g.system.ledger.expireReservations r.now).totalLoad + r.bytes + g.debt.admitted ≤ _ ↔
      (g.system.ledger.expireReservations r.now).usedBytes
        + (g.system.ledger.expireReservations r.now).reserved + r.bytes + g.debt.admitted ≤ _
    rw [← hbefore]
    exact_mod_cast Iff.rfl
  | grow growth =>
    refine ⟨fun _ => trivial, fun _ hgrants g' hstep => ?_⟩
    rw [withinBudget_iff (Governor.step_accounted hg hstep)]
    rw [Governor.grants] at hgrants
    rw [Governor.step] at hstep
    cases hcharge : chargeSqliteGrowth p g.system.ledger g.debt growth with
    | error e =>
      rw [hcharge] at hgrants
      cases hgrants
    | ok result =>
      obtain ⟨admission, debt⟩ := result
      rw [hcharge] at hgrants hstep
      obtain rfl := Option.some.inj hstep
      obtain ⟨granted, rfl⟩ := Option.isSome_iff_exists.mp hgrants
      exact growth_within hg hcharge

instance (p : Policy) (g : Governor) (now : ℤ) : Decidable (g.WithinBudget p now) :=
  inferInstanceAs (Decidable (_ ≤ _))

instance (p : Policy) (g : Governor) : ∀ a, Decidable (DebtHasRoom p g a)
  | .reserve r => inferInstanceAs (Decidable (g.grants p (.reserve r) = true →
      g.system.ledger.usedBytes + g.system.ledger.liveReserved r.now + r.bytes + g.debt.admitted
        ≤ p.budget))
  | .grow _ => .isTrue trivial

/-- An operator who lets the main store take the whole budget. -/
def roomyPolicy : Policy where
  operator := { smallOperator with quotas := fun k => if k = .mainCas then some 1000000 else none }
  config := { smallOperator.clamped with
    quotas := fun k => if k = .mainCas then some 1000000 else none }
  validated := by rfl
  spaces := [smallVolume]
  measured := by decide +kernel

/-- A governor that was just opened. -/
def openedGovernor : Governor := ⟨⟨.fresh, []⟩, ⟨0, 0⟩⟩

/-- A SQLite write of 40000 bytes, which is charged twice that and 16 KiB. -/
def smallGrowth : Growth where
  purpose := .emergencyMetadata
  incomingBytes := 40000
  tracked := true
  now := 0
  dataDir := "data"
  space := some smallVolume

/-- The bytes that a write may need on its volume beyond its payload. -/
def ReservationRow.allowance (r : ReservationRow) : ℕ :=
  freeSpaceWriteBound r.storageClass r.bytes - r.bytes

/-- The write bounds under which the reservations were admitted. -/
def Ledger.writeBounds (s : Ledger) : ℕ :=
  s.reservations.total fun r => freeSpaceWriteBound r.storageClass r.bytes

/-- What the rows of the reservations leave out. -/
def Ledger.allowances (s : Ledger) : ℕ := s.reservations.total ReservationRow.allowance

/-- A request for one volume, as the probe measures it. -/
def Request.Lands (space : FilesystemSpace) (r : Request) : Prop :=
  resolveVolumes r.paths [] = ([space], none)

instance (space : FilesystemSpace) (r : Request) : Decidable (r.Lands space) :=
  inferInstanceAs (Decidable (_ = _))

/-- Admissions on one volume whose measured free space does not change. -/
def volumeStep (p : Policy) (space : FilesystemSpace) (s : System) (r : Request) : Option System :=
  if r.Lands space then some (s.admitted r (tryReserve p s.ledger r)) else none

/-- A granted write leaves the reserve of the volume, whatever the admitted writes need. -/
def ReserveKept (p : Policy) (space : FilesystemSpace) (s : System) (r : Request) : Prop :=
  s.grants p r = true → ∀ s', volumeStep p space s r = some s' →
    s'.ledger.writeBounds + volumeReserveBytes p.config space.capacityBytes ≤ space.availableBytes

/-- What the admission leaves of the volume holds the allowances of the live reservations. -/
def AllowancesHaveRoom (p : Policy) (space : FilesystemSpace) (s : System) (r : Request) : Prop :=
  r.Lands space → s.grants p r = true →
    s.ledger.liveReserved r.now + freeSpaceWriteBound r.storageClass r.bytes
        + volumeReserveBytes p.config space.capacityBytes
      + (s.ledger.expireReservations r.now).allowances ≤ space.availableBytes

/-- A write bound is never below the payload. -/
theorem le_freeSpaceWriteBound (c : StorageClass) {bytes : ℕ} (h : bytes ≤ Saturating.u64Max) :
    bytes ≤ freeSpaceWriteBound c bytes := by
  rw [freeSpaceWriteBound, sqliteGrowthBound, Saturating.add, Saturating.add, Saturating.mul]
  split_ifs <;> omega

/-- Every column of a reservation holds what was reserved. -/
def ReservationsSized (s : Ledger) : Prop := ∀ r ∈ s.reservations.rows, r.bytes ≤ i64Max

theorem writeBounds_eq {s : Ledger} (hs : ReservationsSized s) :
    s.writeBounds = s.reserved + s.allowances := by
  rw [Ledger.writeBounds, Ledger.reserved, Ledger.allowances, KeyTable.total, KeyTable.total,
    KeyTable.total, ← List.sum_map_add]
  congr 1
  apply List.map_congr_left
  intro r hr
  have hle : r.bytes ≤ freeSpaceWriteBound r.storageClass r.bytes :=
    le_freeSpaceWriteBound _ (le_trans (hs r hr) (by decide))
  rw [ReservationRow.allowance]
  omega

theorem ReservationsSized.expire {s : Ledger} (hs : ReservationsSized s) (now : ℤ) :
    ReservationsSized (s.expireReservations now) :=
  fun r hr => hs r (KeyTable.mem_deleteWhere.mp hr).1

/-- The figures of a volume stay exact. -/
def VolumeSound (s : System) : Prop := Accounted s.ledger ∧ ReservationsSized s.ledger

variable {space : FilesystemSpace}

theorem volumeStep_sound (hs : VolumeSound s) (h : volumeStep p space s r = some s') : VolumeSound s' := by
  rw [volumeStep] at h
  split_ifs at h
  obtain rfl := Option.some.inj h
  refine ⟨admit_accounted hs.1 r, ?_⟩
  cases hgrants : s.grants p r with
  | true =>
    have hgranted := granted_of_grants hs.1 hgrants
    intro row hrow
    rw [(KeyTable.insert?_eq_some.mp hgranted.inserted).2, List.mem_append,
      List.mem_singleton] at hrow
    rcases hrow with hrow | rfl
    · exact hs.2.expire r.now row hrow
    · exact le_trans hgranted.bytes_le p.budget_le_i64Max
  | false =>
    rw [System.grants] at hgrants
    cases htry : tryReserve p s.ledger r with
    | error e => exact hs.2
    | ok result =>
      obtain ⟨row, ledger⟩ := result
      rw [htry] at hgrants
      obtain ⟨_, _, -, -, ⟨-, rfl⟩ | ⟨hsome, -⟩⟩ := tryReserveAtomic_cases htry
      · exact hs.2.expire r.now
      · simp [hsome] at hgrants

theorem reserveKept_iff (hs : VolumeSound s) (r : Request) :
    ReserveKept p space s r ↔ AllowancesHaveRoom p space s r := by
  by_cases hlands : r.Lands space
  · rw [ReserveKept, AllowancesHaveRoom, forall_prop_of_true hlands]
    refine forall_congr' fun hgrants => ?_
    have hgranted := granted_of_grants hs.1 hgrants
    rw [volumeStep, if_pos hlands]
    simp only [Option.some.injEq, forall_eq']
    have hinsert := KeyTable.total_insert hgranted.inserted fun row =>
      freeSpaceWriteBound row.storageClass row.bytes
    have hbefore := writeBounds_eq (hs.2.expire r.now)
    rw [Ledger.writeBounds] at hbefore
    rw [Ledger.writeBounds, hinsert, hbefore]
    show s.ledger.liveReserved r.now + (s.ledger.expireReservations r.now).allowances
      + freeSpaceWriteBound r.storageClass r.bytes + _ ≤ _ ↔ _
    constructor
    · intro h
      omega
    · intro h
      omega
  · refine ⟨fun _ hl => absurd hl hlands, fun _ _ s' hstep => ?_⟩
    rw [volumeStep, if_neg hlands] at hstep
    cases hstep

instance (p : Policy) (space : FilesystemSpace) (s : System) (r : Request) :
    Decidable (AllowancesHaveRoom p space s r) :=
  inferInstanceAs (Decidable (_ → _ → _ ≤ _))

/-- A volume whose free space is 20000 bytes above its reserve. -/
def tightVolume : FilesystemSpace :=
  { smallVolume with availableBytes := volumeReserveBytes smallPolicy.config 1073741824 + 20000 }

/-- A write of 1000 bytes to it. -/
def tightRequest (id key : String) : Request :=
  { smallRequest id key 1000 with paths := [("cas", some tightVolume)] }

end Storage
