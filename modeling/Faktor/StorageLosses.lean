/-
# A loss is recorded once

Loss markers over a run of the history.  `record_loss_marker_on` asks the detail rows and the
tombstones, so it never records a loss twice; the full scan asks the detail rows alone.  Over a run in
which no scan misses an object whose loss is a tombstone, every loss is recorded and counted once
(`LossesSound.run`).  A scan that does records it again (`loss_recorded_twice`).

The main result (`history_guarantee`) puts this together with what a pruning keeps.
-/
import Faktor.StorageCompaction

namespace Storage

open Sqlite (i64Max bind_eq_ok)

/-! ## What one step can do -/

/-- The losses that a full scan looks for. -/
def HistoryOp.missed : HistoryOp → List LossKey
  | .reconcile c now missing =>
    if c.requiresLossMarker then missing.map fun row => (missingMarker now row).lossKey else []
  | _ => []

variable {h h' : History} {row : LossRow}

theorem recordLossMarkerOn_cases (hrun : h.recordLossMarkerOn row = .ok h') :
    h' = h ∨ (h.hasMarker row.lossKey = false ∧ h.hasTombstone row.lossKey = false ∧
      h.insertMarker row = .ok h') := by
  unfold History.recordLossMarkerOn at hrun
  split at hrun
  · exact Or.inl (Except.ok.inj hrun).symm
  · next hnone =>
    rw [Bool.not_eq_true, Bool.or_eq_false_iff] at hnone
    exact Or.inr ⟨hnone.1, hnone.2, hrun⟩

theorem recordMissingOn_cases (hrun : h.recordMissingOn row = .ok h') :
    h' = h ∨ (h.hasMarker row.lossKey = false ∧ h.insertMarker row = .ok h') := by
  unfold History.recordMissingOn at hrun
  split at hrun
  · exact Or.inl (Except.ok.inj hrun).symm
  · next hnone => exact Or.inr ⟨by simpa using hnone, hrun⟩

variable {op : HistoryOp}

/-- **The record rule.**  What the three inserts keep, every operation that records keeps.  A loss
marker is inserted only if it is not there, and if it is a tombstone then by a scan. -/
theorem record_invariant {P : History → Prop} (hP : P h)
    (hmarker : ∀ g row g', P g → g.hasMarker row.lossKey = false →
      (g.hasTombstone row.lossKey = false ∨ row.lossKey ∈ op.missed) →
      g.insertMarker row = .ok g' → P g')
    (heviction : ∀ g row g', P g → g.recordEviction row = .ok g' → P g')
    (hrefusal : ∀ g row g', P g → g.recordRefusal row = .ok g' → P g')
    (hop : ∀ keep now, op ≠ .prune keep now) : P (h.step op) := by
  have hcommit : ∀ result : Except GovernorError History, (∀ h', result = .ok h' → P h') →
      P (h.commit result) := by
    intro result hresult
    cases result with
    | ok h' => exact hresult h' rfl
    | error e => exact hP
  have hloss : ∀ g row g', P g → g.recordLossMarkerOn row = .ok g' → P g' := by
    intro g row g' hg hrun
    rcases recordLossMarkerOn_cases hrun with rfl | ⟨hnone, htomb, hinsert⟩
    · exact hg
    · exact hmarker g row g' hg hnone (Or.inl htomb) hinsert
  cases op with
  | loss row => exact hcommit _ fun h' hrun => hloss h row h' hP hrun
  | eviction row => exact hcommit _ fun h' hrun => heviction h row h' hP hrun
  | removal row =>
    refine hcommit _ fun h' hrun => ?_
    unfold History.recordRemoval at hrun
    obtain ⟨mid, hmid, hrest⟩ := bind_eq_ok.mp hrun
    have hmidP := heviction h row mid hP hmid
    split at hrest
    · exact hloss mid row.lossRow h' hmidP hrest
    · rw [← Except.ok.inj hrest]
      exact hmidP
  | refusal row => exact hcommit _ fun h' hrun => hrefusal h row h' hP hrun
  | reconcile c now missing =>
    refine hcommit _ fun h' hrun => ?_
    unfold History.recordMissing at hrun
    split at hrun
    · next hc =>
      have hmissed : ∀ row ∈ missing, (missingMarker now row).lossKey ∈
          (HistoryOp.reconcile c now missing).missed := by
        intro row hrow
        simp only [HistoryOp.missed, if_pos hc]
        exact List.mem_map_of_mem hrow
      -- an induction along the missing objects, with the losses of the whole scan fixed
      generalize (HistoryOp.reconcile c now missing).missed = losses at hmissed hmarker
      clear hcommit hloss
      induction missing generalizing h with
      | nil =>
        rw [← Except.ok.inj hrun]
        exact hP
      | cons row rows ih =>
        rw [List.foldlM_cons] at hrun
        obtain ⟨mid, hmid, hrest⟩ := bind_eq_ok.mp hrun
        refine ih ?_ (by simp) hrest fun r hr => hmissed r (List.mem_cons_of_mem row hr)
        rcases recordMissingOn_cases hmid with rfl | ⟨hnone, hinsert⟩
        · exact hP
        · exact hmarker h _ mid hP hnone (Or.inr (hmissed row List.mem_cons_self)) hinsert
    · rw [← Except.ok.inj hrun]
      exact hP
  | prune keep now => exact absurd rfl (hop keep now)

/-- A pruning, as a step. -/
theorem step_prune (h : History) (keep : ℕ) (now : ℤ) :
    ∃ p, Moved keep now h (h.step (.prune keep now)) p ∧
      (AllInt h.aggregates → h.PruneFits keep → MovedBytes now h p) := by
  obtain ⟨h', out, p, hrun, hmoved, hbytes⟩ := pruneHistory_pruned h keep now
  have hstep : h.step (.prune keep now) = h' := by
    simp only [History.step, hrun]
  rw [hstep]
  exact ⟨p, hmoved, fun hint hfits => (hbytes hint hfits).2⟩

/-! ## Rows -/

theorem insertMarker_eq_ok (hrun : h.insertMarker row = .ok h') :
    ∃ markers, insertRow h.lossMarkers { row with bytes := toI64 row.bytes } = .ok markers ∧
      h' = { h with lossMarkers := markers, lossMarkerCount := h.lossMarkerCount + 1 } := by
  unfold History.insertMarker at hrun
  obtain ⟨markers, hmarkers, hdone⟩ := bind_eq_ok.mp hrun
  exact ⟨markers, hmarkers, (Except.ok.inj hdone).symm⟩

theorem recordEviction_eq_ok {row : EvictionRow} (hrun : h.recordEviction row = .ok h') :
    ∃ evictions, insertRow h.evictions { row with bytes := toI64 row.bytes } = .ok evictions ∧
      h' = { h with evictions := evictions, evictionCount := h.evictionCount + 1 } := by
  unfold History.recordEviction at hrun
  obtain ⟨evictions, hevictions, hdone⟩ := bind_eq_ok.mp hrun
  exact ⟨evictions, hevictions, (Except.ok.inj hdone).symm⟩

theorem recordRefusal_eq_ok {row : RefusalRow} (hrun : h.recordRefusal row = .ok h') :
    ∃ refusals, insertRow h.refusals
        { row with requested := toI64 row.requested, available := toI64 row.available } =
          .ok refusals ∧
      h' = { h with refusals := refusals, refusalCount := h.refusalCount + 1 } := by
  unfold History.recordRefusal at hrun
  obtain ⟨refusals, hrefusals, hdone⟩ := bind_eq_ok.mp hrun
  exact ⟨refusals, hrefusals, (Except.ok.inj hdone).symm⟩

theorem fresh_wf : History.fresh.Wf := ⟨tableWf_empty, tableWf_empty, tableWf_empty⟩

theorem History.Wf.step (hwf : h.Wf) (op : HistoryOp) : (h.step op).Wf := by
  by_cases hop : ∃ keep now, op = .prune keep now
  · obtain ⟨keep, now, rfl⟩ := hop
    obtain ⟨p, hmoved, -⟩ := step_prune h keep now
    exact hmoved.wf hwf
  · refine record_invariant hwf ?_ ?_ ?_ fun keep now heq => hop ⟨keep, now, heq⟩
    · intro g row g' hg _ _ hrun
      obtain ⟨markers, hmarkers, rfl⟩ := insertMarker_eq_ok hrun
      exact ⟨hg.losses.insertRow hmarkers, hg.evictions, hg.refusals⟩
    · intro g row g' hg hrun
      obtain ⟨evictions, hevictions, rfl⟩ := recordEviction_eq_ok hrun
      exact ⟨hg.losses, hg.evictions.insertRow hevictions, hg.refusals⟩
    · intro g row g' hg hrun
      obtain ⟨refusals, hrefusals, rfl⟩ := recordRefusal_eq_ok hrun
      exact ⟨hg.losses, hg.evictions, hg.refusals.insertRow hrefusals⟩

/-- In every run the rowids have no gap. -/
theorem History.Wf.run (hwf : h.Wf) (ops : List HistoryOp) : (h.run ops).Wf := by
  induction ops generalizing h with
  | nil => exact hwf
  | cons op ops ih => exact ih (hwf.step op)

/-! ## Losses -/

/-- The losses recorded since a history. -/
def recorded (h h' : History) : List LossKey :=
  (h'.lossMarkers.since h.lossMarkers.seq).map fun r => r.2.lossKey

/-- The losses that a run records, in order. -/
def recordings : History → List HistoryOp → List LossKey
  | _, [] => []
  | h, op :: ops => recorded h (h.step op) ++ recordings (h.step op) ops

/-- When a step keeps to one record for a loss: a scan misses no object whose loss is a tombstone and
not a detail row, and a pruning leaves every aggregate in range. -/
def History.StepMeets (h : History) : HistoryOp → Prop
  | .prune keep _ => h.PruneFits keep
  | op => ∀ k ∈ op.missed, h.hasTombstone k = true → h.hasMarker k = true

/-- Every step of the run does. -/
def History.MeetsAlong : History → List HistoryOp → Prop
  | _, [] => True
  | h, op :: ops => h.StepMeets op ∧ (h.step op).MeetsAlong ops

/-- The history after the losses `recs` were recorded: each once, each a detail row or a tombstone,
and counted. -/
structure LossesSound (h : History) (recs : List LossKey) : Prop where
  ints : AllInt h.aggregates
  nodup : recs.Nodup
  mem : ∀ k, k ∈ recs ↔ h.hasMarker k = true ∨ h.hasTombstone k = true
  count : h.lossMarkerCount = recs.length

theorem fresh_sound : LossesSound .fresh [] where
  ints := by simp [AllInt, History.fresh, KeyTable.empty]
  nodup := List.nodup_nil
  mem := by simp [History.hasMarker, History.hasTombstone, History.fresh, RowTable.empty]
  count := rfl

theorem hasMarker_insert (hrun : h.insertMarker row = .ok h') (k : LossKey) :
    h'.hasMarker k = (h.hasMarker k || decide (row.lossKey = k)) := by
  obtain ⟨markers, hmarkers, rfl⟩ := insertMarker_eq_ok hrun
  obtain ⟨-, rfl⟩ := insertRow_eq_ok.mp hmarkers
  unfold History.hasMarker RowTable.insert
  have hlast : [(h.lossMarkers.seq + 1, { row with bytes := toI64 row.bytes })].any
      (fun r => decide (r.2.lossKey = k)) = decide (row.lossKey = k) := by
    rw [List.any_cons, List.any_nil, Bool.or_false]
    rfl
  rw [List.any_append, hlast]

/-- While a step records, the losses since `base` are sound. -/
structure Recording (recs : List LossKey) (base h : History) : Prop where
  seq : base.lossMarkers.seq ≤ h.lossMarkers.seq
  sound : LossesSound h (recs ++ recorded base h)
  tombstones : h.lossTombstones = base.lossTombstones
  markers : ∀ k, base.hasMarker k = true → h.hasMarker k = true

variable {recs : List LossKey}

theorem LossesSound.recording (hs : LossesSound h recs) :
    Recording recs h h where
  seq := le_rfl
  sound := by
    have hnone : recorded h h = [] := by
      unfold recorded
      rw [RowTable.since_seq]
      rfl
    rw [hnone, List.append_nil]
    exact hs
  tombstones := rfl
  markers := fun _ h => h

/-- A loss that is neither a detail row nor a tombstone is recorded for the first time. -/
theorem Recording.insertMarker {base : History} (hr : Recording recs base h)
    (hmarker : h.hasMarker row.lossKey = false) (htomb : h.hasTombstone row.lossKey = false)
    (hrun : h.insertMarker row = .ok h') :
    Recording recs base h' := by
  have hmarkers := hasMarker_insert hrun
  obtain ⟨table, htable, rfl⟩ := insertMarker_eq_ok hrun
  obtain ⟨-, rfl⟩ := insertRow_eq_ok.mp htable
  have hrecorded : recorded base
      { h with lossMarkers := h.lossMarkers.insert { row with bytes := toI64 row.bytes },
               lossMarkerCount := h.lossMarkerCount + 1 } = recorded base h ++ [row.lossKey] := by
    unfold recorded
    rw [RowTable.since_insert _ _ hr.seq, List.map_append]
    rfl
  have hfresh : row.lossKey ∉ recs ++ recorded base h := by
    rw [hr.sound.mem, hmarker, htomb]
    simp
  constructor
  case seq => exact hr.seq.trans (Nat.le_succ _)
  case tombstones => exact hr.tombstones
  case markers =>
    intro k hk
    rw [hmarkers k, hr.markers k hk]
    rfl
  case sound =>
    rw [hrecorded, ← List.append_assoc]
    constructor
    case ints => exact hr.sound.ints
    case nodup =>
      rw [List.nodup_append]
      refine ⟨hr.sound.nodup, List.nodup_singleton _, ?_⟩
      intro a ha b hb
      rw [List.mem_singleton.mp hb]
      rintro rfl
      exact hfresh ha
    case mem =>
      intro k
      rw [List.mem_append, hr.sound.mem k, hmarkers k, List.mem_singleton, Bool.or_eq_true,
        decide_eq_true_eq, eq_comm (a := k)]
      show _ ↔ _ ∨ h.hasTombstone k = true
      tauto
    case count =>
      show h.lossMarkerCount + 1 = _
      have hlength : ∀ (l m : List LossKey), (l ++ m).length = l.length + m.length :=
        fun l m => List.length_append
      rw [hr.sound.count, hlength (recs ++ recorded base h)]
      rfl

/-- The tombstones after a pruning are those before and those of the rows that left. -/
theorem isSome_bury (now : ℤ) (dead : List (ℕ × LossRow)) (tombstones : Tombstones) (k : LossKey) :
    ((dead.foldl (fun t r => buryMarker now t r.2) tombstones).get? k).isSome =
      ((tombstones.get? k).isSome || dead.any fun r => r.2.lossKey = k) := by
  induction dead generalizing tombstones with
  | nil => simp
  | cons r dead ih =>
    rw [List.foldl_cons, ih, List.any_cons, ← Bool.or_assoc]
    congr 1
    unfold buryMarker
    have hkey : LossRow.lossKey { r.2 with createdMs := now } = r.2.lossKey := rfl
    cases hinsert : tombstones.insert? { r.2 with createdMs := now } with
    | some t =>
      rw [Option.getD_some, KeyTable.get?_insert hinsert, hkey]
      by_cases hk : r.2.lossKey = k
      · simp [hk]
      · simp [hk]
    | none =>
      -- the loss is a tombstone already
      obtain ⟨a, ha⟩ := KeyTable.insert?_eq_none.mp hinsert
      rw [Option.getD_none]
      by_cases hk : r.2.lossKey = k
      · rw [hkey, hk] at ha
        simp [hk, ha]
      · simp [hk]

theorem LossesSound.step (hs : LossesSound h recs) (hmeets : h.StepMeets op) :
    LossesSound (h.step op) (recs ++ recorded h (h.step op)) := by
  by_cases hop : ∃ keep now, op = .prune keep now
  · obtain ⟨keep, now, rfl⟩ := hop
    obtain ⟨p, hmoved, hbytes⟩ := step_prune h keep now
    have hweighed := hbytes hs.ints hmeets
    have hlosses := hmoved.losses
    rw [hmoved.history]
    have hnone : recorded h { h with
        lossMarkers := p.losses.rows, evictions := p.evictions.rows, refusals := p.refusals.rows,
        aggregates := p.refusals.aggregates, lossTombstones := p.losses.tombstones } = [] := by
      have hseq : p.losses.rows.seq = h.lossMarkers.seq := hlosses.seq
      unfold recorded
      rw [← hseq, RowTable.since_seq]
      rfl
    rw [hnone, List.append_nil]
    constructor
    case ints => exact hweighed.refusals.allInt
    case nodup => exact hs.nodup
    case mem =>
      intro k
      rw [hs.mem k]
      unfold History.hasMarker History.hasTombstone
      have htomb : p.losses.tombstones =
          p.lost.foldl (fun t r => buryMarker now t r.2) h.lossTombstones := hlosses.tombstones
      have hrows : h.lossMarkers.rows = p.lost ++ p.losses.rows.rows := hlosses.rows
      rw [hrows, List.any_append, htomb, isSome_bury]
      simp only [Bool.or_eq_true]
      tauto
    case count => exact hs.count
  · have hcond : ∀ k ∈ op.missed, h.hasTombstone k = true → h.hasMarker k = true := by
      cases op with
      | prune keep now => exact absurd ⟨keep, now, rfl⟩ hop
      | _ => exact hmeets
    have hall : Recording recs h (h.step op) := by
      refine record_invariant hs.recording ?_ ?_ ?_ fun keep now heq => hop ⟨keep, now, heq⟩
      · intro g row g' hg hmarker hwhy hrun
        refine hg.insertMarker hmarker ?_ hrun
        rcases hwhy with htomb | hmissed
        · exact htomb
        · -- a tombstone that the scan misses is a detail row of the first history, so of this one
          by_contra htomb
          rw [Bool.not_eq_false] at htomb
          have hbase : h.hasTombstone row.lossKey = true := by
            unfold History.hasTombstone at htomb ⊢
            rw [← hg.tombstones]
            exact htomb
          have := hg.markers _ (hcond _ hmissed hbase)
          rw [hmarker] at this
          cases this
      · intro g row g' hg hrun
        obtain ⟨evictions, -, rfl⟩ := recordEviction_eq_ok hrun
        exact ⟨hg.seq, ⟨hg.sound.ints, hg.sound.nodup, hg.sound.mem, hg.sound.count⟩,
          hg.tombstones, hg.markers⟩
      · intro g row g' hg hrun
        obtain ⟨refusals, -, rfl⟩ := recordRefusal_eq_ok hrun
        exact ⟨hg.seq, ⟨hg.sound.ints, hg.sound.nodup, hg.sound.mem, hg.sound.count⟩,
          hg.tombstones, hg.markers⟩
    exact hall.sound

/-- **Over a run, a loss is recorded once.** -/
theorem LossesSound.run (hs : LossesSound h recs) {ops : List HistoryOp} (hmeets : h.MeetsAlong ops) :
    LossesSound (h.run ops) (recs ++ recordings h ops) := by
  induction ops generalizing h recs with
  | nil =>
    rw [recordings, List.append_nil]
    exact hs
  | cons op ops ih =>
    rw [recordings, ← List.append_assoc]
    exact ih (hs.step hmeets.1) hmeets.2

/-! ## Ranges -/

theorem aggregated_le (stored : AggregateRow → ℕ) (p : AggregateKey → Bool)
    (aggregates : Aggregates) :
    aggregated stored p aggregates ≤ aggregates.total stored := by
  unfold aggregated KeyTable.total
  apply List.sum_le_sum
  intro a _
  split
  · exact le_rfl
  · exact Nat.zero_le _

theorem KindSpec.amount_le {D : Type} (spec : KindSpec D) (amount : Detail → ℕ)
    (p : AggregateKey → Bool) (rows : List (ℕ × D)) :
    spec.amount amount p rows ≤ (rows.map fun r => amount (spec.columns r.2)).sum := by
  unfold KindSpec.amount
  apply List.sum_le_sum
  intro r _
  split
  · exact le_rfl
  · exact Nat.zero_le _

/-- The bytes of the rows up to the cutoff. -/
def oldBytes {D : Type} (spec : KindSpec D) (keep : ℕ) (t : RowTable D) : ℕ :=
  ((t.select fun id _ => id ≤ maxId t - min keep i64Max).map fun r => (spec.columns r.2).bytes).sum

/-- A history that holds fewer bytes than an aggregate can may be pruned. -/
theorem pruneFits_of_le {keep : ℕ}
    (hle : h.aggregates.total storedBytes + oldBytes (lossSpec 0) keep h.lossMarkers +
      oldBytes evictionSpec keep h.evictions + oldBytes refusalSpec keep h.refusals ≤ i64Max) :
    h.PruneFits keep := by
  intro k
  have haggregated := aggregated_le storedBytes (fun j => j = k) h.aggregates
  have hlosses := (lossSpec 0).amount_le Detail.bytes (fun j => j = k)
    (h.lossMarkers.select fun id _ => id ≤ maxId h.lossMarkers - min keep i64Max)
  have hevictions := evictionSpec.amount_le Detail.bytes (fun j => j = k)
    (h.evictions.select fun id _ => id ≤ maxId h.evictions - min keep i64Max)
  have hrefusals := refusalSpec.amount_le Detail.bytes (fun j => j = k)
    (h.refusals.select fun id _ => id ≤ maxId h.refusals - min keep i64Max)
  unfold oldBytes at hle
  unfold bytesAt History.compactable
  omega

/-! ## The whole history -/

/-- **What the history guarantees.**  In every run, a pruning ends, keeps the number of events of each
kind, class and reason, and keeps the newest rows.  If every step of the run meets its condition, a
pruning in range succeeds and keeps their bytes, and the run has recorded and counted each loss
once. -/
theorem history_guarantee (ops : List HistoryOp) :
    (∀ keep now, ∃ h' out, (History.fresh.run ops).pruneHistory keep now = some (h', out) ∧
      (∀ kind c reason, h'.events kind c reason = (History.fresh.run ops).events kind c reason) ∧
      (History.fresh.run ops).KeepsNewest keep h') ∧
    (History.fresh.MeetsAlong ops →
      (∀ keep now, (History.fresh.run ops).PruneFits keep →
        ∃ h' n, (History.fresh.run ops).pruneHistory keep now = some (h', .ok n) ∧
          ∀ kind c reason, h'.bytes kind c reason = (History.fresh.run ops).bytes kind c reason) ∧
      (recordings .fresh ops).Nodup ∧
      (History.fresh.run ops).lossMarkerCount = (recordings .fresh ops).length) := by
  constructor
  · intro keep now
    obtain ⟨h', out, p, hrun, hmoved, -⟩ := pruneHistory_pruned (History.fresh.run ops) keep now
    exact ⟨h', out, hrun, hmoved.events_eq, hmoved.newest_kept (fresh_wf.run ops)⟩
  · intro hmeets
    have hsound := fresh_sound.run hmeets
    rw [List.nil_append] at hsound
    refine ⟨?_, hsound.nodup, hsound.count⟩
    intro keep now hfits
    obtain ⟨h', out, p, hrun, hmoved, hbytes⟩ := pruneHistory_pruned (History.fresh.run ops) keep now
    obtain ⟨⟨n, rfl⟩, hweighed⟩ := hbytes hsound.ints hfits
    exact ⟨h', n, hrun, hmoved.bytes_eq hweighed⟩

/-- An archive object, and its eviction. -/
def archived : ObjectRow where
  storageClass := .compactionArchive
  key := "context/1"
  bytes := 10
  digest := none
  family := .main
  createdMs := 1
  lastUsedMs := 1
  required := false

def archivedEviction : EvictionRow where
  storageClass := .compactionArchive
  key := "context/1"
  digest := none
  bytes := 10
  verified := true
  reason := "quota"
  createdMs := 8

/-- A scan misses the object, its marker is compacted, and an eviction and a loss of it follow. -/
def lossyRun : List HistoryOp :=
  [.reconcile .compactionArchive 5 [archived], .prune 0 6, .removal archivedEviction,
    .loss (missingMarker 9 archived)]

theorem lossyRun_meets : History.fresh.MeetsAlong lossyRun := by
  refine ⟨?_, pruneFits_of_le ?_, ?_, ?_, trivial⟩
  · intro k _ hk
    cases hk
  · decide +kernel
  · intro k hk
    cases hk
  · intro k hk
    cases hk

theorem lossyRun_guarantee : History.fresh.MeetsAlong lossyRun ∧
    (recordings .fresh lossyRun).Nodup ∧ (History.fresh.run lossyRun).lossMarkerCount = 2 := by
  obtain ⟨-, hnodup, hcount⟩ := (history_guarantee lossyRun).2 lossyRun_meets
  refine ⟨lossyRun_meets, hnodup, hcount.trans ?_⟩
  decide +kernel

/-- The scan misses the object again after its marker was compacted. -/
def rescanRun : List HistoryOp :=
  [.reconcile .compactionArchive 5 [archived], .prune 0 6, .reconcile .compactionArchive 7 [archived]]

/-- **The scan does not ask the tombstones**: the loss is recorded and counted twice. -/
theorem loss_recorded_twice :
    ¬ (recordings .fresh rescanRun).Nodup ∧ (History.fresh.run rescanRun).lossMarkerCount = 2 := by
  decide +kernel

end Storage
