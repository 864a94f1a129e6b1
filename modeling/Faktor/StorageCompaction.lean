/-
# A pruning of the history moves it, and loses nothing

`prune_history` prunes the three tables one after the other, and the first that fails ends it.
Whatever it returns, each table is pruned (`pruneHistory_pruned`), so

* the number of events of each kind, class and reason stays (`Moved.events_eq`), and so do their bytes
  if every aggregate stays a 64-bit integer (`Moved.bytes_eq`);
* the newest rows of each table stay (`Moved.newest_kept`).
-/
import Faktor.StorageRetention

namespace Storage

open Sqlite (i64Max)

/-! ## What is counted -/

/-- The detail rows of a kind. -/
def History.details (h : History) : HistoryKind → List Detail
  | .lossMarker => h.lossMarkers.rows.map fun r => r.2.columns
  | .eviction => h.evictions.rows.map fun r => r.2.columns
  | .refusal => h.refusals.rows.map fun r => r.2.columns

/-- An amount of the detail rows of a class and reason. -/
def detailAmount (amount : Detail → ℕ) (c : StorageClass) (reason : String) (ds : List Detail) : ℕ :=
  ((ds.filter fun d => d.storageClass = c ∧ d.reason = reason).map amount).sum

/-- The aggregates of a kind, class and reason, in all buckets. -/
def selects (kind : HistoryKind) (c : StorageClass) (reason : String) (k : AggregateKey) : Bool :=
  k.1 = kind ∧ k.2.2 = (c, reason)

/-- The events of a kind, class and reason, over detail rows and aggregates. -/
def History.events (h : History) (kind : HistoryKind) (c : StorageClass) (reason : String) : ℕ :=
  detailAmount (fun _ => 1) c reason (h.details kind) +
    aggregated storedEvents (selects kind c reason) h.aggregates

/-- Their bytes. -/
def History.bytes (h : History) (kind : HistoryKind) (c : StorageClass) (reason : String) : ℕ :=
  detailAmount Detail.bytes c reason (h.details kind) +
    aggregated storedBytes (selects kind c reason) h.aggregates

theorem detailAmount_append (amount : Detail → ℕ) (c : StorageClass) (reason : String)
    (ds es : List Detail) :
    detailAmount amount c reason (ds ++ es) =
      detailAmount amount c reason ds + detailAmount amount c reason es := by
  unfold detailAmount
  rw [List.filter_append, List.map_append, List.sum_append]

/-- The rows of one table, seen from the aggregates of a kind. -/
theorem amount_selects {D : Type} (spec : KindSpec D) (amount : Detail → ℕ) (kind : HistoryKind)
    (c : StorageClass) (reason : String) (rows : List (ℕ × D)) :
    spec.amount amount (selects kind c reason) rows =
      if spec.kind = kind then detailAmount amount c reason (rows.map fun r => spec.columns r.2)
      else 0 := by
  induction rows with
  | nil =>
    show 0 = _
    split <;> rfl
  | cons r rows ih =>
    have hcons : spec.amount amount (selects kind c reason) (r :: rows) =
        (if selects kind c reason (spec.key r) then amount (spec.columns r.2) else 0) +
          spec.amount amount (selects kind c reason) rows := rfl
    rw [hcons, ih]
    have hkey : selects kind c reason (spec.key r) =
        decide (spec.kind = kind ∧ (spec.columns r.2).storageClass = c ∧
          (spec.columns r.2).reason = reason) := by
      simp [selects, KindSpec.key, Detail.aggregateKey]
    rw [hkey]
    unfold detailAmount
    simp only [List.map_cons, List.filter_cons]
    by_cases hkind : spec.kind = kind
    · by_cases hsame : (spec.columns r.2).storageClass = c ∧ (spec.columns r.2).reason = reason
      · simp [hkind, hsame]
      · simp [hkind, hsame]
    · simp [hkind]

/-! ## The three tables -/

/-- How a pruning went: what became of each table, and the rows that left it. -/
structure Pruning where
  losses : KindTables LossRow
  evictions : KindTables EvictionRow
  refusals : KindTables RefusalRow
  lost : List (ℕ × LossRow)
  evicted : List (ℕ × EvictionRow)
  refused : List (ℕ × RefusalRow)

/-- Rows of each table went into the aggregates. -/
structure Moved (keep : ℕ) (now : ℤ) (h h' : History) (p : Pruning) : Prop where
  losses : Pruned (lossSpec now) ⟨h.lossMarkers, h.aggregates, h.lossTombstones⟩ p.losses
    (maxId h.lossMarkers - min keep i64Max) p.lost
  evictions : Pruned evictionSpec ⟨h.evictions, p.losses.aggregates, p.losses.tombstones⟩ p.evictions
    (maxId h.evictions - min keep i64Max) p.evicted
  refusals : Pruned refusalSpec ⟨h.refusals, p.evictions.aggregates, p.losses.tombstones⟩ p.refusals
    (maxId h.refusals - min keep i64Max) p.refused
  history : h' = { h with lossMarkers := p.losses.rows, evictions := p.evictions.rows,
                          refusals := p.refusals.rows, aggregates := p.refusals.aggregates,
                          lossTombstones := p.losses.tombstones }

/-- Their bytes went with them. -/
structure MovedBytes (now : ℤ) (h : History) (p : Pruning) : Prop where
  losses : Weighed (lossSpec now) ⟨h.lossMarkers, h.aggregates, h.lossTombstones⟩ p.losses p.lost
  evictions : Weighed evictionSpec ⟨h.evictions, p.losses.aggregates, p.losses.tombstones⟩ p.evictions
    p.evicted
  refusals : Weighed refusalSpec ⟨h.refusals, p.evictions.aggregates, p.losses.tombstones⟩ p.refusals
    p.refused

/-- The bytes that a pruning may add to the aggregate of a key: those of the rows up to the cutoff of
each table. -/
def History.compactable (h : History) (keep : ℕ) (k : AggregateKey) : ℕ :=
  (lossSpec 0).amount Detail.bytes (fun j => j = k)
      (h.lossMarkers.select fun id _ => id ≤ maxId h.lossMarkers - min keep i64Max) +
    evictionSpec.amount Detail.bytes (fun j => j = k)
      (h.evictions.select fun id _ => id ≤ maxId h.evictions - min keep i64Max) +
    refusalSpec.amount Detail.bytes (fun j => j = k)
      (h.refusals.select fun id _ => id ≤ maxId h.refusals - min keep i64Max)

/-- What is counted of a loss marker does not depend on the time of the compaction. -/
theorem amount_lossSpec (now : ℤ) : (lossSpec now).amount = (lossSpec 0).amount := rfl

/-- Every aggregate stays in the 64-bit range. -/
def History.PruneFits (h : History) (keep : ℕ) : Prop :=
  ∀ k, bytesAt h.aggregates k + h.compactable keep k ≤ i64Max

/-- **The pruning of a history ends.**  Whatever it returns, it has moved rows into the aggregates; in
range it succeeds and has moved their bytes. -/
theorem pruneHistory_pruned (h : History) (keep : ℕ) (now : ℤ) :
    ∃ h' out p, h.pruneHistory keep now = some (h', out) ∧ Moved keep now h h' p ∧
      (AllInt h.aggregates → h.PruneFits keep → (∃ n, out = .ok n) ∧ MovedBytes now h p) := by
  obtain ⟨losses, lostOut, lost, hlosses, hlossPruned, hlossFits⟩ :=
    pruneHistoryKind_pruned (lossSpec now) keep ⟨h.lossMarkers, h.aggregates, h.lossTombstones⟩
  obtain ⟨evictions, evictedOut, evicted, hevictions, hevictionPruned, hevictionFits⟩ :=
    pruneHistoryKind_pruned evictionSpec keep ⟨h.evictions, losses.aggregates, losses.tombstones⟩
  obtain ⟨refusals, refusedOut, refused, hrefusals, hrefusalPruned, hrefusalFits⟩ :=
    pruneHistoryKind_pruned refusalSpec keep ⟨h.refusals, evictions.aggregates, losses.tombstones⟩
  have hlossRange : AllInt h.aggregates → h.PruneFits keep → (∃ n, lostOut = .ok n) ∧
      Weighed (lossSpec now) ⟨h.lossMarkers, h.aggregates, h.lossTombstones⟩ losses lost := by
    intro hint hfits
    refine hlossFits ⟨hint, fun k => ?_⟩
    have hk := hfits k
    unfold History.compactable at hk
    refine le_trans ?_ hk
    rw [amount_lossSpec now]
    show bytesAt h.aggregates k + _ ≤ _
    dsimp only
    omega
  have hevictionRange : AllInt h.aggregates → h.PruneFits keep → (∃ n, evictedOut = .ok n) ∧
      Weighed evictionSpec ⟨h.evictions, losses.aggregates, losses.tombstones⟩ evictions evicted := by
    intro hint hfits
    obtain ⟨-, hweighed⟩ := hlossRange hint hfits
    refine hevictionFits ⟨hweighed.allInt, fun k => ?_⟩
    have hk := hfits k
    have hbytes := hweighed.bytes fun j => j = k
    have hle := hlossPruned.amount_le Detail.bytes fun j => j = k
    unfold History.compactable at hk
    unfold bytesAt at hk ⊢
    rw [hbytes]
    refine le_trans (Nat.add_le_add_right (Nat.add_le_add_left hle _) _) ?_
    refine le_trans ?_ hk
    rw [amount_lossSpec now]
    dsimp only
    omega
  have hrefusalRange : AllInt h.aggregates → h.PruneFits keep → (∃ n, refusedOut = .ok n) ∧
      Weighed refusalSpec ⟨h.refusals, evictions.aggregates, losses.tombstones⟩ refusals refused := by
    intro hint hfits
    obtain ⟨-, hweighed⟩ := hlossRange hint hfits
    obtain ⟨-, hweighed'⟩ := hevictionRange hint hfits
    refine hrefusalFits ⟨hweighed'.allInt, fun k => ?_⟩
    have hk := hfits k
    have hbytes := hweighed.bytes fun j => j = k
    have hbytes' := hweighed'.bytes fun j => j = k
    have hle := hlossPruned.amount_le Detail.bytes fun j => j = k
    have hle' := hevictionPruned.amount_le Detail.bytes fun j => j = k
    unfold History.compactable at hk
    unfold bytesAt at hk ⊢
    rw [hbytes', hbytes]
    refine le_trans (Nat.add_le_add_right (Nat.add_le_add (Nat.add_le_add_left hle _) hle') _) ?_
    refine le_trans ?_ hk
    rw [amount_lossSpec now]
    dsimp only
    omega
  unfold History.pruneHistory
  rw [hlosses]
  cases lostOut with
  | error e =>
    -- the other two tables stay as they were
    refine ⟨_, _, ⟨losses, ⟨h.evictions, losses.aggregates, losses.tombstones⟩,
      ⟨h.refusals, losses.aggregates, losses.tombstones⟩, lost, [], []⟩, rfl,
      ⟨hlossPruned, Pruned.refl _ _ _, Pruned.refl _ _ _, rfl⟩, fun hint hfits => ?_⟩
    obtain ⟨⟨n, hn⟩, -⟩ := hlossRange hint hfits
    cases hn
  | ok lostCount =>
    simp only [Option.bind_eq_bind, Option.bind_some]
    rw [hevictions]
    cases evictedOut with
    | error e =>
      refine ⟨_, _, ⟨losses, evictions, ⟨h.refusals, evictions.aggregates, losses.tombstones⟩, lost,
        evicted, []⟩, rfl, ⟨hlossPruned, hevictionPruned, Pruned.refl _ _ _, rfl⟩,
        fun hint hfits => ?_⟩
      obtain ⟨⟨n, hn⟩, -⟩ := hevictionRange hint hfits
      cases hn
    | ok evictedCount =>
      simp only [Option.bind_some]
      rw [hrefusals]
      cases refusedOut with
      | error e =>
        refine ⟨_, _, ⟨losses, evictions, refusals, lost, evicted, refused⟩, rfl,
          ⟨hlossPruned, hevictionPruned, hrefusalPruned, rfl⟩, fun hint hfits => ?_⟩
        obtain ⟨⟨n, hn⟩, -⟩ := hrefusalRange hint hfits
        cases hn
      | ok refusedCount =>
        exact ⟨_, _, ⟨losses, evictions, refusals, lost, evicted, refused⟩, rfl,
          ⟨hlossPruned, hevictionPruned, hrefusalPruned, rfl⟩, fun hint hfits =>
            ⟨⟨_, rfl⟩, (hlossRange hint hfits).2, (hevictionRange hint hfits).2,
              (hrefusalRange hint hfits).2⟩⟩

/-! ## What stays -/

variable {h h' : History} {p : Pruning}

/-- The detail rows of a kind, before a pruning: those that went, then those that stay. -/
theorem Moved.details {keep : ℕ} {now : ℤ} (hmoved : Moved keep now h h' p) (kind : HistoryKind) :
    ∃ gone, h.details kind = gone ++ h'.details kind ∧
      ∀ amount c reason, detailAmount amount c reason gone =
        (lossSpec now).amount amount (selects kind c reason) p.lost +
          evictionSpec.amount amount (selects kind c reason) p.evicted +
          refusalSpec.amount amount (selects kind c reason) p.refused := by
  have hhistory := hmoved.history
  subst hhistory
  simp only [amount_selects]
  cases kind with
  | lossMarker =>
    refine ⟨p.lost.map fun r => r.2.columns, ?_, fun amount c reason => ?_⟩
    · show h.lossMarkers.rows.map _ = _ ++ p.losses.rows.rows.map _
      rw [← List.map_append, ← hmoved.losses.rows]
    · simp [lossSpec, evictionSpec, refusalSpec]
  | eviction =>
    refine ⟨p.evicted.map fun r => r.2.columns, ?_, fun amount c reason => ?_⟩
    · show h.evictions.rows.map _ = _ ++ p.evictions.rows.rows.map _
      rw [← List.map_append, ← hmoved.evictions.rows]
    · simp [lossSpec, evictionSpec, refusalSpec]
  | refusal =>
    refine ⟨p.refused.map fun r => r.2.columns, ?_, fun amount c reason => ?_⟩
    · show h.refusals.rows.map _ = _ ++ p.refusals.rows.rows.map _
      rw [← List.map_append, ← hmoved.refusals.rows]
    · simp [lossSpec, evictionSpec, refusalSpec]

/-- **No event is lost.** -/
theorem Moved.events_eq {keep : ℕ} {now : ℤ} (hmoved : Moved keep now h h' p) (kind : HistoryKind)
    (c : StorageClass) (reason : String) :
    h'.events kind c reason = h.events kind c reason := by
  obtain ⟨gone, hdetails, hgone⟩ := hmoved.details kind
  have hhistory := hmoved.history
  have haggregates : h'.aggregates = p.refusals.aggregates := by rw [hhistory]
  unfold History.events
  rw [hdetails, detailAmount_append, hgone, haggregates, hmoved.refusals.events,
    hmoved.evictions.events, hmoved.losses.events]
  dsimp only
  omega

/-- **No byte is lost.** -/
theorem Moved.bytes_eq {keep : ℕ} {now : ℤ} (hmoved : Moved keep now h h' p) (hbytes : MovedBytes now h p)
    (kind : HistoryKind) (c : StorageClass) (reason : String) :
    h'.bytes kind c reason = h.bytes kind c reason := by
  obtain ⟨gone, hdetails, hgone⟩ := hmoved.details kind
  have hhistory := hmoved.history
  have haggregates : h'.aggregates = p.refusals.aggregates := by rw [hhistory]
  unfold History.bytes
  rw [hdetails, detailAmount_append, hgone, haggregates, hbytes.refusals.bytes,
    hbytes.evictions.bytes, hbytes.losses.bytes]
  dsimp only
  omega

/-- What the three tables keep to. -/
structure History.Wf (h : History) : Prop where
  losses : TableWf h.lossMarkers
  evictions : TableWf h.evictions
  refusals : TableWf h.refusals

/-- The newest rows of each table are still there. -/
structure History.KeepsNewest (keep : ℕ) (h h' : History) : Prop where
  losses : newest keep h.lossMarkers.rows <:+ h'.lossMarkers.rows
  evictions : newest keep h.evictions.rows <:+ h'.evictions.rows
  refusals : newest keep h.refusals.rows <:+ h'.refusals.rows

theorem Moved.newest_kept {keep : ℕ} {now : ℤ} (hmoved : Moved keep now h h' p) (hwf : h.Wf) :
    h.KeepsNewest keep h' := by
  rw [hmoved.history]
  exact ⟨hmoved.losses.newest_kept hwf.losses, hmoved.evictions.newest_kept hwf.evictions,
    hmoved.refusals.newest_kept hwf.refusals⟩

theorem Moved.wf {keep : ℕ} {now : ℤ} (hmoved : Moved keep now h h' p) (hwf : h.Wf) : h'.Wf := by
  rw [hmoved.history]
  exact ⟨hwf.losses.pruned hmoved.losses, hwf.evictions.pruned hmoved.evictions,
    hwf.refusals.pruned hmoved.refusals⟩

end Storage
