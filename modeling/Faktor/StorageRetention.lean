/-
# Pruning keeps the history

What the compaction of the history tables preserves.  A pruning of a table moves its oldest rows,
batch by batch, into the aggregates (`Pruned`):

* the loop ends;
* the number of events of each kind, class and reason, over detail rows and aggregates, stays, and so
  do their bytes as long as no aggregate leaves the 64-bit range;
* the newest rows stay;
* every loss that was recorded is still a detail row or a tombstone.

Over a run (`recordings_nodup`), a loss is recorded and counted once, if no full scan marks an object
missing whose missing marker is a tombstone.
-/
import Faktor.StorageHistory

namespace Storage

open Sqlite (i64Max SqlNum sqlAdd sqlSum sqlSum_eq_some bind_eq_ok sqlAdd_int)
open GroupTotals (groups group groupSum sum_groups nodup_groups mem_groups)

/-! ## Amounts of the aggregates -/

/-- The number a column holds. -/
def numericValue : SqlNum → ℕ
  | .int n => n
  | .real n => n

/-- An amount of the aggregates whose key `p` selects. -/
def aggregated (stored : AggregateRow → ℕ) (p : AggregateKey → Bool) (aggregates : Aggregates) : ℕ :=
  aggregates.total fun a => if p a.key then stored a else 0

/-- The events and the bytes of an aggregate. -/
def storedEvents (a : AggregateRow) : ℕ := a.events

def storedBytes (a : AggregateRow) : ℕ := numericValue a.bytes

/-- Every aggregate is a 64-bit integer. -/
def AllInt (aggregates : Aggregates) : Prop :=
  ∀ a ∈ aggregates.rows, ∃ n, a.bytes = .int n

/-- The bytes stored under one key. -/
def bytesAt (aggregates : Aggregates) (k : AggregateKey) : ℕ :=
  aggregated storedBytes (fun j => j = k) aggregates

variable {aggregates : Aggregates}

/-- The one row of a key holds the bytes stored under it. -/
theorem bytesAt_of_mem (hint : AllInt aggregates) {a : AggregateRow} (ha : a ∈ aggregates.rows) :
    a.bytes = .int (bytesAt aggregates a.key) := by
  obtain ⟨n, hn⟩ := hint a ha
  have hone := KeyTable.sum_map_ite aggregates.nodup ha (fun b => storedBytes b) fun _ => 0
  have hzero : (aggregates.rows.map fun _ => 0).sum = 0 := by simp
  have hvalue : bytesAt aggregates a.key = storedBytes a := by
    unfold bytesAt aggregated KeyTable.total
    simp only [decide_eq_true_eq]
    omega
  rw [hvalue, storedBytes, hn]
  rfl

variable {k : AggregateKey} {events bytes : ℕ}

/-- An upsert adds what it is given, where the addition is exact. -/
theorem aggregated_upsert {stored : AggregateRow → ℕ} {n : ℕ}
    (hnew : stored ⟨k.1, k.2.1, k.2.2.1, k.2.2.2, events, .int bytes⟩ = n)
    (hadd : ∀ a ∈ aggregates.rows, a.key = k →
      stored { a with events := a.events + events, bytes := (sqlAdd a.bytes bytes).store } =
        stored a + n) (p : AggregateKey → Bool) :
    aggregated stored p (upsertAggregate aggregates k events bytes) =
      aggregated stored p aggregates + if p k then n else 0 := by
  unfold upsertAggregate aggregated
  cases hinsert : aggregates.insert? ⟨k.1, k.2.1, k.2.2.1, k.2.2.2, events, .int bytes⟩ with
  | some inserted =>
    show inserted.total _ = _
    rw [KeyTable.total_insert hinsert, hnew]
    rfl
  | none =>
    -- the key is taken, so its row is updated
    obtain ⟨a, ha⟩ : ∃ a, aggregates.get? k = some a := KeyTable.insert?_eq_none.mp hinsert
    obtain ⟨hmem, hkey⟩ := KeyTable.get?_eq_some.mp ha
    have htotal := KeyTable.total_modify ha
      (fun a => { a with events := a.events + events, bytes := (sqlAdd a.bytes bytes).store })
      (fun _ => rfl) (fun a => if p a.key then stored a else 0)
    have hkeys : AggregateRow.key
        { a with events := a.events + events, bytes := (sqlAdd a.bytes bytes).store } = a.key := rfl
    simp only [hkeys, hadd a hmem hkey, hkey] at htotal
    show (aggregates.modify k _ _).total _ = _
    by_cases hp : p k = true
    · simp only [if_pos hp] at htotal ⊢
      omega
    · simp only [if_neg hp] at htotal ⊢
      omega

/-- An upsert in range leaves integers. -/
theorem AllInt.upsert (h : AllInt aggregates) (hfit : bytesAt aggregates k + bytes ≤ i64Max) :
    AllInt (upsertAggregate aggregates k events bytes) := by
  unfold upsertAggregate
  intro a ha
  cases hinsert : aggregates.insert? ⟨k.1, k.2.1, k.2.2.1, k.2.2.2, events, .int bytes⟩ with
  | some inserted =>
    rw [hinsert] at ha
    rw [(KeyTable.insert?_eq_some.mp hinsert).2, List.mem_append, List.mem_singleton] at ha
    rcases ha with hold | rfl
    · exact h a hold
    · exact ⟨bytes, rfl⟩
  | none =>
    rw [hinsert] at ha
    obtain ⟨b, hb, rfl⟩ := (KeyTable.mem_modify _ _ _ _).mp ha
    by_cases hk : b.key = k
    · rw [if_pos hk]
      subst hk
      refine ⟨bytesAt aggregates b.key + bytes, ?_⟩
      rw [bytesAt_of_mem h hb, sqlAdd_int hfit]
      rfl
    · rw [if_neg hk]
      exact h b hb

/-! ## One batch -/

section Batch

variable {kind : HistoryKind} {batch : List Detail}

variable {ks : List AggregateKey} {aggregates : Aggregates}

/-- The events of a batch are added to the aggregates. -/
theorem events_compactGroups {aggregates' : Aggregates}
    (h : ks.foldlM (compactGroup kind batch) aggregates = .ok aggregates') (p : AggregateKey → Bool) :
    aggregated storedEvents p aggregates' = aggregated storedEvents p aggregates +
      (ks.map fun k => if p k then groupSum (Detail.aggregateKey kind) (fun _ => 1) batch k
        else 0).sum := by
  induction ks generalizing aggregates with
  | nil =>
    rw [Except.ok.inj h]
    rfl
  | cons k ks ih =>
    rw [List.foldlM_cons] at h
    obtain ⟨mid, hmid, hrest⟩ := bind_eq_ok.mp h
    unfold compactGroup at hmid
    split at hmid
    · cases hmid
    · rename_i bytes _
      have hone : aggregated storedEvents p (upsertAggregate aggregates k
          (groupSum (Detail.aggregateKey kind) (fun _ => 1) batch k) bytes) =
          aggregated storedEvents p aggregates +
            if p k then groupSum (Detail.aggregateKey kind) (fun _ => 1) batch k else 0 :=
        aggregated_upsert rfl (fun _ _ _ => rfl) p
      rw [ih hrest, ← Except.ok.inj hmid, hone, List.map_cons, List.sum_cons, Nat.add_assoc]

/-- In range, a batch is compacted and its bytes are added to the aggregates. -/
theorem exists_compactGroups (hnodup : ks.Nodup) (hint : AllInt aggregates)
    (hfit : ∀ k ∈ ks, bytesAt aggregates k +
      groupSum (Detail.aggregateKey kind) Detail.bytes batch k ≤ i64Max) :
    ∃ aggregates', ks.foldlM (compactGroup kind batch) aggregates = .ok aggregates' ∧
      AllInt aggregates' ∧ ∀ p : AggregateKey → Bool,
        aggregated storedBytes p aggregates' = aggregated storedBytes p aggregates +
          (ks.map fun k => if p k then groupSum (Detail.aggregateKey kind) Detail.bytes batch k
            else 0).sum := by
  induction ks generalizing aggregates with
  | nil => exact ⟨aggregates, rfl, hint, fun p => rfl⟩
  | cons k ks ih =>
    obtain ⟨hk, hks⟩ := List.nodup_cons.mp hnodup
    have hfirst := hfit k List.mem_cons_self
    have hsum : sqlSum ((group (Detail.aggregateKey kind) batch k).map Detail.bytes) =
        some (groupSum (Detail.aggregateKey kind) Detail.bytes batch k) := by
      unfold sqlSum
      exact if_pos (by unfold groupSum at hfirst; omega)
    have hstep : compactGroup kind batch aggregates k = .ok (upsertAggregate aggregates k
        (groupSum (Detail.aggregateKey kind) (fun _ => 1) batch k)
        (groupSum (Detail.aggregateKey kind) Detail.bytes batch k)) := by
      unfold compactGroup
      rw [hsum]
    have hadded : ∀ p : AggregateKey → Bool, aggregated storedBytes p (upsertAggregate aggregates k
        (groupSum (Detail.aggregateKey kind) (fun _ => 1) batch k)
        (groupSum (Detail.aggregateKey kind) Detail.bytes batch k)) =
          aggregated storedBytes p aggregates +
            if p k then groupSum (Detail.aggregateKey kind) Detail.bytes batch k else 0 := by
      intro p
      refine aggregated_upsert rfl ?_ p
      rintro a ha rfl
      have hvalue := bytesAt_of_mem hint ha
      simp only [storedBytes, hvalue, sqlAdd_int hfirst]
      rfl
    obtain ⟨aggregates', hrun, hint', hbytes⟩ := ih hks (hint.upsert hfirst) (by
      intro j hj
      have hne : j ≠ k := by
        rintro rfl
        exact hk hj
      have hold := hfit j (List.mem_cons_of_mem k hj)
      unfold bytesAt at hold ⊢
      rw [hadded, if_neg (by simpa using hne.symm)]
      omega)
    refine ⟨aggregates', ?_, hint', fun p => ?_⟩
    · rw [List.foldlM_cons, hstep]
      exact hrun
    · rw [hbytes p, hadded p, List.map_cons, List.sum_cons, Nat.add_assoc]

end Batch

/-! ## One table -/

theorem events_compactBatch {kind : HistoryKind} {batch : List Detail} {aggregates' : Aggregates}
    (h : compactBatch kind batch aggregates = .ok aggregates') (p : AggregateKey → Bool) :
    aggregated storedEvents p aggregates' = aggregated storedEvents p aggregates +
      (batch.map fun d => if p (d.aggregateKey kind) then 1 else 0).sum := by
  rw [events_compactGroups h p, sum_groups]

theorem exists_compactBatch {kind : HistoryKind} {batch : List Detail} (hint : AllInt aggregates)
    (hfit : ∀ k, bytesAt aggregates k +
      groupSum (Detail.aggregateKey kind) Detail.bytes batch k ≤ i64Max) :
    ∃ aggregates', compactBatch kind batch aggregates = .ok aggregates' ∧ AllInt aggregates' ∧
      ∀ p : AggregateKey → Bool,
        aggregated storedBytes p aggregates' = aggregated storedBytes p aggregates +
          (batch.map fun d => if p (d.aggregateKey kind) then d.bytes else 0).sum := by
  obtain ⟨aggregates', hrun, hint', hbytes⟩ :=
    exists_compactGroups (nodup_groups (Detail.aggregateKey kind) batch) hint fun k _ => hfit k
  refine ⟨aggregates', hrun, hint', fun p => ?_⟩
  rw [hbytes p, sum_groups]

section Table

variable {D : Type} {spec : KindSpec D}

/-- The aggregate of a row of the table. -/
def KindSpec.key (spec : KindSpec D) (r : ℕ × D) : AggregateKey :=
  (spec.columns r.2).aggregateKey spec.kind

/-- An amount of the rows whose aggregate `p` selects. -/
def KindSpec.amount (spec : KindSpec D) (amount : Detail → ℕ) (p : AggregateKey → Bool)
    (rows : List (ℕ × D)) : ℕ :=
  (rows.map fun r => if p (spec.key r) then amount (spec.columns r.2) else 0).sum

theorem KindSpec.amount_append (spec : KindSpec D) (amount : Detail → ℕ) (p : AggregateKey → Bool)
    (rows more : List (ℕ × D)) :
    spec.amount amount p (rows ++ more) = spec.amount amount p rows + spec.amount amount p more := by
  unfold KindSpec.amount
  rw [List.map_append, List.sum_append]

/-- The rows `dead`, none after the cutoff, went from the table into the aggregates. -/
structure Pruned (spec : KindSpec D) (t t' : KindTables D) (cutoff : ℕ) (dead : List (ℕ × D)) :
    Prop where
  rows : t.rows.rows = dead ++ t'.rows.rows
  seq : t'.rows.seq = t.rows.seq
  old : ∀ r ∈ dead, r.1 ≤ cutoff
  tombstones : t'.tombstones = dead.foldl (fun tombstones r => spec.bury tombstones r.2) t.tombstones
  events : ∀ p, aggregated storedEvents p t'.aggregates =
    aggregated storedEvents p t.aggregates + spec.amount (fun _ => 1) p dead

/-- Their bytes did too, exactly. -/
structure Weighed (spec : KindSpec D) (t t' : KindTables D) (dead : List (ℕ × D)) : Prop where
  allInt : AllInt t'.aggregates
  bytes : ∀ p, aggregated storedBytes p t'.aggregates =
    aggregated storedBytes p t.aggregates + spec.amount Detail.bytes p dead

/-- The aggregates stay in range when the rows up to `n` are compacted. -/
structure KindFits (spec : KindSpec D) (t : KindTables D) (n : ℕ) : Prop where
  allInt : AllInt t.aggregates
  bytes : ∀ k, bytesAt t.aggregates k +
    spec.amount Detail.bytes (fun j => j = k) (t.rows.select fun id _ => id ≤ n) ≤ i64Max

theorem Pruned.refl (spec : KindSpec D) (t : KindTables D) (cutoff : ℕ) :
    Pruned spec t t cutoff [] where
  rows := rfl
  seq := rfl
  old := by simp
  tombstones := rfl
  events := fun _ => rfl

variable {t : KindTables D}

theorem Weighed.refl (h : AllInt t.aggregates) : Weighed spec t t [] :=
  ⟨h, fun _ => rfl⟩

variable {u v : KindTables D} {n : ℕ} {dead later : List (ℕ × D)}

theorem Pruned.trans (h : Pruned spec t u n dead) (h' : Pruned spec u v n later) :
    Pruned spec t v n (dead ++ later) where
  rows := by rw [h.rows, h'.rows, List.append_assoc]
  seq := h'.seq.trans h.seq
  old := by
    intro r hr
    rcases List.mem_append.mp hr with hr | hr
    · exact h.old r hr
    · exact h'.old r hr
  tombstones := by rw [h'.tombstones, h.tombstones, List.foldl_append]
  events := by
    intro p
    rw [h'.events p, h.events p, spec.amount_append, Nat.add_assoc]

theorem Weighed.trans (h : Weighed spec t u dead) (h' : Weighed spec u v later) :
    Weighed spec t v (dead ++ later) where
  allInt := h'.allInt
  bytes := by
    intro p
    rw [h'.bytes p, h.bytes p, spec.amount_append, Nat.add_assoc]

variable {t' : KindTables D} {m : ℕ}

theorem Pruned.mono (h : Pruned spec t t' n dead) (hle : n ≤ m) : Pruned spec t t' m dead :=
  { h with old := fun r hr => (h.old r hr).trans hle }

/-- The amount of a batch, group by group. -/
theorem groupSum_columns (spec : KindSpec D) (amount : Detail → ℕ) (rows : List (ℕ × D))
    (k : AggregateKey) :
    groupSum (Detail.aggregateKey spec.kind) amount (rows.map fun r => spec.columns r.2) k =
      spec.amount amount (fun j => j = k) rows := by
  rw [GroupTotals.groupSum_eq, List.map_map]
  unfold KindSpec.amount KindSpec.key
  simp only [decide_eq_true_eq]
  rfl

theorem amount_columns (spec : KindSpec D) (amount : Detail → ℕ) (p : AggregateKey → Bool)
    (rows : List (ℕ × D)) :
    ((rows.map fun r => spec.columns r.2).map fun d =>
      if p (d.aggregateKey spec.kind) then amount d else 0).sum = spec.amount amount p rows := by
  rw [List.map_map]
  rfl

variable {id : ℕ}

/-- A batch that is committed prunes the rows up to its id. -/
theorem pruneBatch_pruned {deleted : ℕ} (h : pruneBatch spec t id = .ok (deleted, t')) :
    deleted = (t.rows.select fun i _ => i ≤ id).length ∧
      Pruned spec t t' id (t.rows.select fun i _ => i ≤ id) := by
  unfold pruneBatch at h
  obtain ⟨aggregates, haggregates, hdone⟩ := bind_eq_ok.mp h
  obtain ⟨rfl, rfl⟩ := Prod.mk.inj (Except.ok.inj hdone)
  refine ⟨rfl, ?_⟩
  constructor
  case rows => exact t.rows.rows_eq_select_append id
  case seq => rfl
  case old =>
    rintro ⟨i, d⟩ hr
    have := ((t.rows.mem_select _ i d).mp hr).2
    simpa using this
  case tombstones => rfl
  case events =>
    intro p
    rw [events_compactBatch haggregates p, amount_columns spec (fun _ => 1)]

/-- A batch in range is committed. -/
theorem exists_pruneBatch (h : KindFits spec t id) :
    ∃ t', pruneBatch spec t id = .ok ((t.rows.select fun i _ => i ≤ id).length, t') ∧
      Weighed spec t t' (t.rows.select fun i _ => i ≤ id) := by
  have hfit : ∀ k, bytesAt t.aggregates k + groupSum (Detail.aggregateKey spec.kind) Detail.bytes
      ((t.rows.select fun i _ => i ≤ id).map fun r => spec.columns r.2) k ≤ i64Max := by
    intro k
    rw [groupSum_columns]
    exact h.bytes k
  obtain ⟨aggregates, hrun, hint, hbytes⟩ := exists_compactBatch h.allInt hfit
  refine ⟨_, bind_eq_ok.mpr ⟨aggregates, hrun, rfl⟩, hint, fun p => ?_⟩
  rw [hbytes p, amount_columns]

/-- What is left to compact after a batch still fits. -/
theorem KindFits.after (h : KindFits spec t n) (hle : id ≤ n)
    (hrun : pruneBatch spec t id = .ok ((t.rows.select fun i _ => i ≤ id).length, t'))
    (hweighed : Weighed spec t t' (t.rows.select fun i _ => i ≤ id)) : KindFits spec t' n where
  allInt := hweighed.allInt
  bytes := by
    intro k
    have hrows : t'.rows = t.rows.deleteWhere fun i _ => i ≤ id := by
      unfold pruneBatch at hrun
      obtain ⟨aggregates, -, hdone⟩ := bind_eq_ok.mp hrun
      obtain ⟨-, rfl⟩ := Prod.mk.inj (Except.ok.inj hdone)
      rfl
    have hall := h.bytes k
    rw [t.rows.select_le_append hle, spec.amount_append, ← hrows] at hall
    have hstored := hweighed.bytes fun j => j = k
    unfold bytesAt at hall ⊢
    omega

theorem KindFits.mono (h : KindFits spec t m) (hle : n ≤ m) :
    KindFits spec t n where
  allInt := h.allInt
  bytes := by
    intro k
    have hall := h.bytes k
    rw [t.rows.select_le_append hle, spec.amount_append] at hall
    omega

/-- The id of a batch is that of a row up to the cutoff. -/
theorem batchMax_spec {t : RowTable D} {cutoff : ℕ} (h : batchMax t cutoff = some id) :
    id ≤ cutoff ∧ ∃ d, (id, d) ∈ t.rows := by
  unfold batchMax at h
  rw [Option.map_eq_some_iff] at h
  obtain ⟨⟨i, d⟩, hlast, rfl⟩ := h
  have hmem := (List.take_subset _ _) (List.mem_of_getLast? hlast)
  obtain ⟨hget, hle⟩ := (t.mem_select _ i d).mp hmem
  exact ⟨by simpa using hle, d, (t.get?_eq_some_iff i d).mp hget⟩

/-- The largest rowid is that of the last row. -/
theorem maxId_of_append {t t' : RowTable D} (h : t.rows = dead ++ t'.rows) :
    maxId t' ≤ maxId t := by
  unfold maxId
  cases hlast : t'.rows.getLast? with
  | none => exact Nat.zero_le _
  | some r =>
    rw [h, List.getLast?_append, hlast]
    rfl

/-- **The pruning of a table ends.**  Whatever it returns, it has moved rows up to the cutoff into the
aggregates; in range it succeeds and has moved their bytes. -/
theorem pruneLoop_pruned (keep fuel : ℕ) (hfuel : t.rows.rows.length < fuel) (compacted : ℕ) :
    ∃ t' out dead, pruneLoop spec keep fuel compacted t = some (t', out) ∧
      Pruned spec t t' (maxId t.rows - keep) dead ∧
      ∀ n, maxId t.rows - keep ≤ n → KindFits spec t n →
        (∃ total, out = .ok total) ∧ Weighed spec t t' dead := by
  induction fuel generalizing t compacted with
  | zero => omega
  | succ fuel ih =>
    unfold pruneLoop
    split
    · exact ⟨t, _, [], rfl, .refl spec t _, fun n _ hfits => ⟨⟨_, rfl⟩, .refl hfits.allInt⟩⟩
    · split
      · exact ⟨t, _, [], rfl, .refl spec t _, fun n _ hfits => ⟨⟨_, rfl⟩, .refl hfits.allInt⟩⟩
      · rename_i id hid
        obtain ⟨hcutoff, d, hd⟩ := batchMax_spec hid
        split
        · rename_i e herror
          refine ⟨t, _, [], rfl, .refl spec t _, fun n hn hfits => ?_⟩
          obtain ⟨t', hrun, -⟩ := exists_pruneBatch (hfits.mono (hcutoff.trans hn))
          rw [herror] at hrun
          cases hrun
        · rename_i deleted t' hbatch
          obtain ⟨rfl, hpruned⟩ := pruneBatch_pruned hbatch
          -- the batch has the row its id is taken from
          have hsome : 0 < (t.rows.select fun i _ => decide (i ≤ id)).length := by
            refine List.length_pos_of_mem (a := (id, d)) ?_
            exact (t.rows.mem_select _ id d).mpr ⟨(t.rows.get?_eq_some_iff id d).mpr hd, by simp⟩
          have hlength : t'.rows.rows.length < fuel := by
            have := congrArg List.length hpruned.rows
            rw [List.length_append] at this
            omega
          have hmax : maxId t'.rows - keep ≤ maxId t.rows - keep :=
            Nat.sub_le_sub_right (maxId_of_append hpruned.rows) keep
          rw [if_neg (by omega)]
          obtain ⟨last, out, dead, hrun, hlater, hweigh⟩ := ih hlength
            (compacted + (t.rows.select fun i _ => decide (i ≤ id)).length)
          refine ⟨last, out, _, hrun, (hpruned.mono hcutoff).trans (hlater.mono hmax), ?_⟩
          intro n hn hfits
          obtain ⟨u, hu, hweighed⟩ := exists_pruneBatch (hfits.mono (hcutoff.trans hn))
          rw [hbatch] at hu
          obtain ⟨-, rfl⟩ := Prod.mk.inj (Except.ok.inj hu)
          obtain ⟨hout, hrest⟩ := hweigh n (hmax.trans hn)
            (hfits.after (hcutoff.trans hn) hbatch hweighed)
          exact ⟨hout, hweighed.trans hrest⟩

theorem pruneHistoryKind_pruned (spec : KindSpec D) (detailKeep : ℕ) (t : KindTables D) :
    ∃ t' out dead, pruneHistoryKind spec detailKeep t = some (t', out) ∧
      Pruned spec t t' (maxId t.rows - min detailKeep i64Max) dead ∧
      (KindFits spec t (maxId t.rows - min detailKeep i64Max) →
        (∃ total, out = .ok total) ∧ Weighed spec t t' dead) := by
  obtain ⟨t', out, dead, hrun, hpruned, hweighed⟩ : ∃ t' out dead,
      pruneLoop spec (min detailKeep i64Max) (t.rows.rows.length + 1) 0 t = some (t', out) ∧ _ :=
    pruneLoop_pruned (min detailKeep i64Max) (t.rows.rows.length + 1)
      (Nat.lt_succ_self t.rows.rows.length) 0
  exact ⟨t', out, dead, hrun, hpruned, hweighed _ le_rfl⟩

/-- The rows pruned weigh no more than all the rows up to the cutoff. -/
theorem Pruned.amount_le (h : Pruned spec t t' n dead) (amount : Detail → ℕ) (p : AggregateKey → Bool) :
    spec.amount amount p dead ≤ spec.amount amount p (t.rows.select fun id _ => id ≤ n) := by
  have hself : dead.filter (fun r => decide (r.1 ≤ n)) = dead := by
    rw [List.filter_eq_self]
    intro r hr
    simpa using h.old r hr
  have hselect : (t.rows.select fun id _ => decide (id ≤ n)) =
      dead ++ t'.rows.rows.filter fun r => decide (r.1 ≤ n) := by
    rw [RowTable.select, h.rows, List.filter_append, hself]
  rw [hselect, spec.amount_append]
  exact Nat.le_add_right _ _

/-- What a table of history rows keeps to: no gap, rowids from one, and a cursor of 64 bits. -/
structure TableWf (t : RowTable D) : Prop where
  gapless : t.Gapless
  positive : ∀ r ∈ t.rows, 0 < r.1
  range : t.seq ≤ i64Max

theorem tableWf_empty : TableWf (RowTable.empty : RowTable D) where
  gapless := RowTable.gapless_empty
  positive := by simp [RowTable.empty]
  range := Nat.zero_le _

theorem TableWf.insertRow {t t' : RowTable D} (h : TableWf t) {d : D}
    (hrun : insertRow t d = .ok t') : TableWf t' := by
  obtain ⟨hlt, rfl⟩ := insertRow_eq_ok.mp hrun
  constructor
  case gapless => exact h.gapless.insert d
  case positive =>
    intro r hr
    rcases List.mem_append.mp hr with hold | hnew
    · exact h.positive r hold
    · rw [List.mem_singleton.mp hnew]
      exact Nat.succ_pos _
  case range => exact hlt

theorem TableWf.pruned (hwf : TableWf t.rows) (h : Pruned spec t t' n dead) : TableWf t'.rows := by
  constructor
  case gapless =>
    intro i hi j hij hj
    rw [h.seq] at hj
    have hsorted := t.rows.sorted
    rw [h.rows, List.map_append, List.pairwise_append] at hsorted
    have hin := hwf.gapless i (by rw [h.rows, List.map_append]; exact List.mem_append_right _ hi) j hij hj
    rw [h.rows, List.map_append, List.mem_append] at hin
    rcases hin with hdead | hlive
    · have := hsorted.2.2 j hdead i hi
      omega
    · exact hlive
  case positive =>
    intro r hr
    exact hwf.positive r (by rw [h.rows]; exact List.mem_append_right _ hr)
  case range =>
    rw [h.seq]
    exact hwf.range

theorem maxId_le_seq (t : RowTable D) : maxId t ≤ t.seq := by
  unfold maxId
  cases hlast : t.rows.getLast? with
  | none => exact Nat.zero_le _
  | some r => exact t.le_seq r.1 (List.mem_map_of_mem (List.mem_of_getLast? hlast))

/-- The newest `n` rows. -/
def newest (n : ℕ) (rows : List (ℕ × D)) : List (ℕ × D) := rows.drop (rows.length - n)

/-- **The newest rows stay.**  Without gaps, a pruning that keeps `detailKeep` rows leaves that many of
the newest, or all there are. -/
theorem Pruned.newest_kept {detailKeep : ℕ}
    (h : Pruned spec t t' (maxId t.rows - min detailKeep i64Max) dead) (hwf : TableWf t.rows) :
    newest detailKeep t.rows.rows <:+ t'.rows.rows := by
  have hsplit : t.rows.rows = t.rows.rows.take (t.rows.rows.length - detailKeep) ++
      newest detailKeep t.rows.rows := (List.take_append_drop _ _).symm
  have hlength : (newest detailKeep t.rows.rows).length ≤ detailKeep := by
    unfold newest
    rw [List.length_drop]
    omega
  -- the rowids of the newest rows are above the cutoff
  have habove : ∀ r ∈ newest detailKeep t.rows.rows, r ∉ dead := by
    intro r hr hdead
    have hold := h.old r hdead
    have hid := hwf.gapless.lt_of_newest hsplit hr
    have hpos := hwf.positive r (by rw [hsplit]; exact List.mem_append_right _ hr)
    have hmax := maxId_le_seq t.rows
    have hrange := hwf.range
    omega
  have hboth := h.rows.symm.trans hsplit
  rcases List.append_eq_append_iff.mp hboth with ⟨more, hpre, hrest⟩ | ⟨more, hdead, hnew⟩
  · exact ⟨more, hrest.symm⟩
  · cases more with
    | nil => exact ⟨[], hnew⟩
    | cons r more =>
      refine absurd ?_ (habove r (by rw [hnew]; exact List.mem_cons_self))
      rw [hdead]
      exact List.mem_append_right _ List.mem_cons_self

end Table

end Storage
