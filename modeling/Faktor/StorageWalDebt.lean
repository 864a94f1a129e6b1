/-
# The SQLite debt of several governors

The governors of one ledger share two counters.  An admission marks its charge in `inflight`, then
adds it to `admitted` by an exchange that fails when another admission came first; dropping it takes
the mark back.  A scan loads both counters, reads the disk, and takes from `admitted` what was
admitted and no longer in flight when it began.  Every access to a counter is a step of its own.

A scan holds the gate of its own governor, and the counters belong to all of them.

* `admitted_covers_unsettled` : as long as no two scans overlap, the admitted debt covers every
  admission that has not settled;
* `overlappingScans_discount_twice` : two scans of two governors take the same bytes away twice.
-/
import Faktor.StorageHeadroom

namespace Storage

/-! ## The model -/

/-- An admission before its exchange: the debt it loaded, and what it charges. -/
structure Attempt where
  debt : ℕ
  bound : ℕ
  tracked : Bool
  deriving DecidableEq, Repr

/-- The mark that an attempt has in the in-flight counter. -/
def Attempt.mark (a : Attempt) : ℕ := if a.tracked then a.bound else 0

/-- A list of charges, with the one of the attempt if it is tracked. -/
def Attempt.push (a : Attempt) (l : List ℕ) : List ℕ := if a.tracked then a.bound :: l else l

/-- A scan: it has loaded the admitted debt, then the in-flight debt. -/
inductive WalScan
  | loaded (admitted : ℕ)
  | snapped (admitted inflight : ℕ)
  deriving DecidableEq, Repr

/-- The counters, the admissions that are under way (before their mark, before their exchange, after
an exchange that failed), the charges that have not settled, and the scan of each governor. -/
structure WalState (ι : Type) where
  debt : WalDebt
  loaded : List Attempt
  ready : List Attempt
  failed : List ℕ
  unsettled : List ℕ
  scans : ι → Option WalScan

def WalState.fresh (ι : Type) : WalState ι where
  debt := ⟨0, 0⟩
  loaded := []
  ready := []
  failed := []
  unsettled := []
  scans := fun _ => none

/-- The steps on the counters. -/
inductive WalEvent (ι : Type)
  /-- `charge_sqlite_growth` loads the admitted debt. -/
  | load (incomingBytes : ℕ) (tracked : Bool)
  /-- The mark is added before the exchange. -/
  | mark (a : Attempt)
  | exchange (a : Attempt)
  /-- The mark of an exchange that failed is taken back. -/
  | unmark (bound : ℕ)
  /-- `SqliteAdmission` is dropped. -/
  | settle (charged : ℕ)
  /-- The gate of the governor is locked and the admitted debt loaded. -/
  | beginScan (i : ι)
  | loadInflight (i : ι)
  /-- `finish_wal_scan`, and the gate is unlocked. -/
  | finishScan (i : ι)
  /-- A scan that fails unlocks the gate and discounts nothing. -/
  | abandonScan (i : ι)
  deriving DecidableEq

/-- `settle_inflight`. -/
def WalDebt.settle (d : WalDebt) (charged : ℕ) : WalDebt := { d with inflight := d.inflight - charged }

/-- `finish_wal_scan`. -/
def WalDebt.finishScan (d : WalDebt) (admitted inflight : ℕ) : WalDebt :=
  { d with admitted := d.admitted - (admitted - inflight) }

variable {ι : Type} [DecidableEq ι]

/-- One step; the gate of a governor admits one scan at a time. -/
def walStep (s : WalState ι) : WalEvent ι → Option (WalState ι)
  | .load incomingBytes tracked =>
    let a : Attempt :=
      { debt := s.debt.admitted, bound := sqliteGrowthBound incomingBytes, tracked := tracked }
    some { s with loaded := a :: s.loaded }
  | .mark a =>
    if a ∈ s.loaded then
      some { s with loaded := s.loaded.erase a, ready := a :: s.ready,
                    debt := { s.debt with inflight := (s.debt.inflight + a.mark) % 2 ^ 64 } }
    else none
  | .exchange a =>
    if a ∈ s.ready then
      if s.debt.admitted = a.debt then
        some { s with ready := s.ready.erase a,
                      debt := { s.debt with admitted := Saturating.add a.debt a.bound },
                      unsettled := a.push s.unsettled }
      else
        some { s with ready := s.ready.erase a, failed := a.push s.failed }
    else none
  | .unmark bound =>
    if bound ∈ s.failed then
      some { s with failed := s.failed.erase bound, debt := s.debt.settle bound }
    else none
  | .settle charged =>
    if charged ∈ s.unsettled then
      some { s with unsettled := s.unsettled.erase charged, debt := s.debt.settle charged }
    else none
  | .beginScan i =>
    match s.scans i with
    | none => some { s with scans := Function.update s.scans i (some (.loaded s.debt.admitted)) }
    | some _ => none
  | .loadInflight i =>
    match s.scans i with
    | some (.loaded admitted) =>
      let scan := WalScan.snapped admitted s.debt.inflight
      some { s with scans := Function.update s.scans i (some scan) }
    | _ => none
  | .finishScan i =>
    match s.scans i with
    | some (.snapped admitted inflight) =>
      some { s with scans := Function.update s.scans i none,
                    debt := s.debt.finishScan admitted inflight }
    | _ => none
  | .abandonScan i =>
    match s.scans i with
    | some _ => some { s with scans := Function.update s.scans i none }
    | none => none

/-! ## The condition -/

/-- No other governor scans when a scan begins, and the counters stay below `2^64`. -/
def Alone (s : WalState ι) : WalEvent ι → Prop
  | .beginScan i => ∀ j, j ≠ i → s.scans j = none
  | .mark a => s.debt.inflight + a.mark < 2 ^ 64
  | .exchange a => a.debt + a.bound < 2 ^ 64
  | _ => True

instance [Fintype ι] (s : WalState ι) : ∀ e, Decidable (Alone s e)
  | .beginScan i => inferInstanceAs (Decidable (∀ j, j ≠ i → s.scans j = none))
  | .mark a => inferInstanceAs (Decidable (s.debt.inflight + a.mark < 2 ^ 64))
  | .exchange a => inferInstanceAs (Decidable (a.debt + a.bound < 2 ^ 64))
  | .load .. => .isTrue trivial
  | .unmark _ => .isTrue trivial
  | .settle _ => .isTrue trivial
  | .loadInflight _ => .isTrue trivial
  | .finishScan _ => .isTrue trivial
  | .abandonScan _ => .isTrue trivial

/-- What a scan that is running relies on. -/
def WalScan.Covers (s : WalState ι) : WalScan → Prop
  | .loaded admitted => admitted ≤ s.debt.admitted
  | .snapped admitted inflight =>
    admitted ≤ s.debt.admitted ∧
      s.unsettled.sum + admitted ≤ inflight + s.debt.admitted

/-- The invariant: every mark is counted, the debt covers what has not settled, and the one scan that
runs can be finished. -/
structure WalSound (s : WalState ι) : Prop where
  marks : s.debt.inflight = s.unsettled.sum + (s.ready.map Attempt.mark).sum + s.failed.sum
  covered : s.unsettled.sum ≤ s.debt.admitted
  scan : ∀ i scan, s.scans i = some scan → scan.Covers s
  single : ∀ i j, (s.scans i).isSome = true → (s.scans j).isSome = true → i = j

/-! ## Steps -/

omit [DecidableEq ι] in
/-- A running scan stays good while the debt grows at least as the unsettled charges do. -/
theorem WalScan.Covers.mono {s s' : WalState ι} {scan : WalScan} (h : scan.Covers s)
    (hadmitted : s.debt.admitted ≤ s'.debt.admitted)
    (hsum : s'.unsettled.sum + s.debt.admitted ≤ s.unsettled.sum + s'.debt.admitted) :
    scan.Covers s' := by
  cases scan with
  | loaded admitted => exact le_trans h hadmitted
  | snapped admitted inflight =>
    obtain ⟨hle, hcovers⟩ := h
    refine ⟨le_trans hle hadmitted, ?_⟩
    omega

omit [DecidableEq ι] in
/-- A step of an admission, which leaves the scans alone. -/
theorem WalSound.admission {s s' : WalState ι} (hs : WalSound s) (hscans : s'.scans = s.scans)
    (hmarks : s'.debt.inflight
      = s'.unsettled.sum + (s'.ready.map Attempt.mark).sum + s'.failed.sum)
    (hadmitted : s.debt.admitted ≤ s'.debt.admitted)
    (hsum : s'.unsettled.sum + s.debt.admitted ≤ s.unsettled.sum + s'.debt.admitted) :
    WalSound s' where
  marks := hmarks
  covered := by
    have := hs.covered
    omega
  scan := by
    intro i scan hscan
    rw [hscans] at hscan
    exact (hs.scan i scan hscan).mono hadmitted hsum
  single := by
    rw [hscans]
    exact hs.single

theorem Attempt.mark_le (a : Attempt) : a.mark ≤ a.bound := by
  rw [Attempt.mark]
  split_ifs <;> omega

theorem Attempt.sum_push (a : Attempt) (l : List ℕ) : (a.push l).sum = l.sum + a.mark := by
  rw [Attempt.push, Attempt.mark]
  split_ifs <;> simp [Nat.add_comm]

theorem sum_erase_nat {l : List ℕ} {n : ℕ} (h : n ∈ l) : n + (l.erase n).sum = l.sum := by
  have := List.sum_map_erase id h
  simpa using this

theorem load_sound {s s' : WalState ι} (hs : WalSound s) {incomingBytes : ℕ} {tracked : Bool}
    (h : walStep s (.load incomingBytes tracked) = some s') : WalSound s' := by
  obtain rfl := Option.some.inj h
  exact hs.admission rfl hs.marks le_rfl le_rfl

theorem mark_sound {s s' : WalState ι} (hs : WalSound s) {a : Attempt}
    (hfits : s.debt.inflight + a.mark < 2 ^ 64) (h : walStep s (.mark a) = some s') :
    WalSound s' := by
  rw [walStep] at h
  split_ifs at h
  obtain rfl := Option.some.inj h
  refine hs.admission rfl ?_ le_rfl le_rfl
  show (s.debt.inflight + a.mark) % 2 ^ 64
    = s.unsettled.sum + ((a :: s.ready).map Attempt.mark).sum + s.failed.sum
  rw [Nat.mod_eq_of_lt hfits, hs.marks, List.map_cons, List.sum_cons]
  omega

theorem exchange_sound {s s' : WalState ι} (hs : WalSound s) {a : Attempt}
    (hfits : a.debt + a.bound < 2 ^ 64) (h : walStep s (.exchange a) = some s') : WalSound s' := by
  rw [walStep] at h
  split_ifs at h with hready hsame
  · obtain rfl := Option.some.inj h
    have herase := List.sum_map_erase Attempt.mark hready
    have hmarks := hs.marks
    have hadmitted : Saturating.add a.debt a.bound = s.debt.admitted + a.bound := by
      rw [hsame]
      exact Saturating.add_of_le (by rw [Saturating.u64Max]; omega)
    have hunsettled := a.sum_push s.unsettled
    have hle := a.mark_le
    refine hs.admission rfl ?_ ?_ ?_
    · show s.debt.inflight
        = (a.push s.unsettled).sum + ((s.ready.erase a).map Attempt.mark).sum + s.failed.sum
      omega
    · show s.debt.admitted ≤ Saturating.add a.debt a.bound
      omega
    · show (a.push s.unsettled).sum + s.debt.admitted
        ≤ s.unsettled.sum + Saturating.add a.debt a.bound
      omega
  · -- the exchange failed: the mark is still there until it is taken back
    obtain rfl := Option.some.inj h
    have herase := List.sum_map_erase Attempt.mark hready
    have hmarks := hs.marks
    have hfailed := a.sum_push s.failed
    refine hs.admission rfl ?_ le_rfl le_rfl
    show s.debt.inflight
      = s.unsettled.sum + ((s.ready.erase a).map Attempt.mark).sum + (a.push s.failed).sum
    omega

theorem unmark_sound {s s' : WalState ι} (hs : WalSound s) {bound : ℕ}
    (h : walStep s (.unmark bound) = some s') : WalSound s' := by
  rw [walStep] at h
  split_ifs at h with hmem
  obtain rfl := Option.some.inj h
  have herase := sum_erase_nat hmem
  have hmarks := hs.marks
  refine hs.admission rfl ?_ le_rfl le_rfl
  show s.debt.inflight - bound
    = s.unsettled.sum + (s.ready.map Attempt.mark).sum + (s.failed.erase bound).sum
  omega

theorem settle_sound {s s' : WalState ι} (hs : WalSound s) {charged : ℕ}
    (h : walStep s (.settle charged) = some s') : WalSound s' := by
  rw [walStep] at h
  split_ifs at h with hmem
  obtain rfl := Option.some.inj h
  have herase := sum_erase_nat hmem
  have hmarks := hs.marks
  refine hs.admission rfl ?_ le_rfl ?_
  · show s.debt.inflight - charged
      = (s.unsettled.erase charged).sum + (s.ready.map Attempt.mark).sum + s.failed.sum
    omega
  · show (s.unsettled.erase charged).sum + s.debt.admitted ≤ s.unsettled.sum + s.debt.admitted
    omega

variable {i : ι}

/-- The scan of one governor changes, and no other one runs. -/
theorem single_update {scans : ι → Option WalScan} (h : ∀ j, j ≠ i → scans j = none)
    (scan : Option WalScan) (j k : ι) (hj : (Function.update scans i scan j).isSome = true)
    (hk : (Function.update scans i scan k).isSome = true) : j = k := by
  have hi : ∀ l, (Function.update scans i scan l).isSome = true → l = i := by
    intro l hl
    by_contra hne
    rw [Function.update_of_ne hne, h l hne] at hl
    cases hl
  rw [hi j hj, hi k hk]

omit [DecidableEq ι] in
/-- The scan that runs is the only one. -/
theorem WalSound.others {s : WalState ι} (hs : WalSound s) {scan : WalScan}
    (hscan : s.scans i = some scan) (j : ι) (hj : j ≠ i) : s.scans j = none := by
  cases hother : s.scans j with
  | none => rfl
  | some other => exact absurd (hs.single j i (by rw [hother]; rfl) (by rw [hscan]; rfl)) hj

/-- The scan of one governor is the one that runs, and it can be finished. -/
theorem covers_update {s s' : WalState ι} (h : ∀ j, j ≠ i → s.scans j = none)
    {scan : Option WalScan} (hscans : s'.scans = Function.update s.scans i scan)
    (hcovers : ∀ sc, scan = some sc → sc.Covers s') (j : ι) (sc : WalScan)
    (hsc : s'.scans j = some sc) : sc.Covers s' := by
  rw [hscans] at hsc
  by_cases hj : j = i
  · subst hj
    rw [Function.update_self] at hsc
    exact hcovers sc hsc
  · rw [Function.update_of_ne hj, h j hj] at hsc
    cases hsc

theorem beginScan_sound {s s' : WalState ι} (hs : WalSound s)
    (halone : ∀ j, j ≠ i → s.scans j = none) (h : walStep s (.beginScan i) = some s') :
    WalSound s' := by
  rw [walStep] at h
  split at h
  · obtain rfl := Option.some.inj h
    refine ⟨hs.marks, hs.covered, covers_update halone rfl ?_, single_update halone _⟩
    intro sc hsc
    obtain rfl := Option.some.inj hsc
    exact le_refl s.debt.admitted
  · cases h

theorem loadInflight_sound {s s' : WalState ι} (hs : WalSound s)
    (h : walStep s (.loadInflight i) = some s') : WalSound s' := by
  rw [walStep] at h
  split at h
  · next admitted hscan =>
    obtain rfl := Option.some.inj h
    have halone := hs.others hscan
    have hle : admitted ≤ s.debt.admitted := hs.scan i _ hscan
    refine ⟨hs.marks, hs.covered, covers_update halone rfl ?_, single_update halone _⟩
    intro sc hsc
    obtain rfl := Option.some.inj hsc
    -- what has not settled has its mark, and the marks are what is loaded now
    refine ⟨hle, ?_⟩
    show s.unsettled.sum + admitted ≤ s.debt.inflight + s.debt.admitted
    have hmarks := hs.marks
    omega
  · cases h

theorem finishScan_sound {s s' : WalState ι} (hs : WalSound s)
    (h : walStep s (.finishScan i) = some s') : WalSound s' := by
  rw [walStep] at h
  split at h
  · next admitted inflight hscan =>
    obtain rfl := Option.some.inj h
    have halone := hs.others hscan
    obtain ⟨hle, hcovers⟩ := hs.scan i _ hscan
    refine ⟨hs.marks, ?_, covers_update halone rfl ?_, single_update halone _⟩
    · show s.unsettled.sum ≤ s.debt.admitted - (admitted - inflight)
      have hcovered := hs.covered
      omega
    · intro sc hsc
      cases hsc
  · cases h

theorem abandonScan_sound {s s' : WalState ι} (hs : WalSound s)
    (h : walStep s (.abandonScan i) = some s') : WalSound s' := by
  rw [walStep] at h
  split at h
  · next scan hscan =>
    obtain rfl := Option.some.inj h
    have halone := hs.others hscan
    refine ⟨hs.marks, hs.covered, covers_update halone rfl ?_, single_update halone _⟩
    intro sc hsc
    cases hsc
  · cases h

/-- Every step that meets the condition keeps the invariant. -/
theorem walStep_sound {s s' : WalState ι} (hs : WalSound s) {e : WalEvent ι} (halone : Alone s e)
    (h : walStep s e = some s') : WalSound s' := by
  cases e with
  | load incomingBytes tracked => exact load_sound hs h
  | mark a => exact mark_sound hs halone h
  | exchange a => exact exchange_sound hs halone h
  | unmark bound => exact unmark_sound hs h
  | settle charged => exact settle_sound hs h
  | beginScan i => exact beginScan_sound hs halone h
  | loadInflight i => exact loadInflight_sound hs h
  | finishScan i => exact finishScan_sound hs h
  | abandonScan i => exact abandonScan_sound hs h

theorem WalSound.fresh (ι : Type) : WalSound (WalState.fresh ι) where
  marks := rfl
  covered := le_refl 0
  scan := by
    intro i scan hscan
    cases hscan
  single := by
    intro i j hi
    cases hi

/-- **The admitted debt covers what has not settled.**  In every interleaving of admissions and
scans of any number of governors in which no scan begins while another governor scans, and in which
the counters stay below `2^64`: the admitted debt is at least the sum of the charges that have not
settled. -/
theorem admitted_covers_unsettled {events : List (WalEvent ι)} {s : WalState ι}
    (hrun : Trace.run walStep (WalState.fresh ι) events = some s)
    (halone : Trace.Along walStep Alone (WalState.fresh ι) events) :
    s.unsettled.sum ≤ s.debt.admitted := by
  have hs : WalSound s :=
    Trace.run_invariant_along (fun _ _ _ h ha hstep => walStep_sound h ha hstep) (.fresh ι)
      halone hrun
  exact hs.covered

/-- One admission of `incomingBytes`, from the load to the exchange, when the debt is `debt`. -/
def admissionSteps (debt incomingBytes : ℕ) : List (WalEvent Bool) :=
  let a : Attempt := { debt := debt, bound := sqliteGrowthBound incomingBytes, tracked := true }
  [.load incomingBytes true, .mark a, .exchange a]

/-- An admission that settles before a scan, and one that is made while the scan runs. -/
def scanAcrossAdmission : List (WalEvent Bool) :=
  admissionSteps 0 1 ++ [.settle 16386, .beginScan false, .loadInflight false]
    ++ admissionSteps 16386 2 ++ [.finishScan false]

/-- The scan discounts the first admission and keeps the second one. -/
theorem scanAcrossAdmission_covered : ∃ s,
    Trace.run walStep (WalState.fresh Bool) scanAcrossAdmission = some s ∧ s.unsettled = [16388] ∧
      s.debt.admitted = 16388 ∧ s.unsettled.sum ≤ s.debt.admitted := by
  refine ⟨_, rfl, by decide +kernel, by decide +kernel, ?_⟩
  have halone : Trace.Along walStep Alone (WalState.fresh Bool) scanAcrossAdmission := by
    decide +kernel
  exact admitted_covers_unsettled rfl halone

/-- Two governors begin a scan after the first admission, and finish them around the second one. -/
def overlappingScans : List (WalEvent Bool) :=
  admissionSteps 0 1 ++ [.settle 16386, .beginScan false, .loadInflight false, .beginScan true,
    .loadInflight true, .finishScan false] ++ admissionSteps 0 2 ++ [.finishScan true]

/-- **Two scans discount the same bytes.**  The second admission has not settled, and nothing of it
is left in the debt but what the second scan could not take. -/
theorem overlappingScans_discount_twice : ∃ s,
    Trace.run walStep (WalState.fresh Bool) overlappingScans = some s ∧ s.unsettled = [16388] ∧
      s.debt.admitted = 2 ∧ ¬ s.unsettled.sum ≤ s.debt.admitted := by
  refine ⟨_, rfl, ?_, ?_, ?_⟩
  all_goals decide +kernel

end Storage
