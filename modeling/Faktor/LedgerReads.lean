/-
# The reads that compaction must not change

The head folds only some kinds of entries.  The others are durable authorities of their own, read
back row by row: open edit transactions, learning records, completion contracts and step statuses,
integration records, run bases, landing transactions, verified-git artifacts, external operations,
terminal rows, tournament and board rows.  Compaction must therefore pin every row one of these
reads looks at.

* `SameReads` : two tables give every read the same answer;
* `sameReads_compact_iff` : a compaction leaves every read as it was exactly when the table holds no
  verified-git artifact, the one kind missing from the pinned set, and no malformed row of an edit
  transaction that it drops together with the transaction.
-/
import Faktor.LedgerHead
import Faktor.LedgerEditTxns

namespace TypedLedger

/-! ## The other reads -/

structure LearningRecordRow where
  seq : ℕ
  record : String
  payload : String
  deriving DecidableEq, Repr

structure CompletionContractRow where
  seq : ℕ
  taskId : ℕ
  revision : ℕ
  contract : String
  deriving DecidableEq, Repr

structure CompletionStepStatusRow where
  seq : ℕ
  taskId : ℕ
  revision : ℕ
  step : String
  status : String
  detail : String
  snapshot : Option String
  atMs : ℤ
  deriving DecidableEq, Repr

inductive TerminalEventKind
  | created | running | exited | killed | lost | reconciled
  deriving DecidableEq, Repr

structure TerminalLedgerRecord where
  seq : ℕ
  kind : TerminalEventKind
  row : TerminalDurableRow
  exitCode : Option ℤ
  detail : String
  deriving DecidableEq, Repr

def learningRecordOf (e : LedgerEntry) : Option LearningRecordRow :=
  match e.payload with
  | .learningRecord record payload => some ⟨e.seq, record, payload⟩
  | _ => none

def completionContractOf (e : LedgerEntry) : Option CompletionContractRow :=
  match e.payload with
  | .completionContractSet taskId revision contract => some ⟨e.seq, taskId, revision, contract⟩
  | _ => none

def completionStepStatusOf (e : LedgerEntry) : Option CompletionStepStatusRow :=
  match e.payload with
  | .completionStepStatus taskId revision step status detail snapshot atMs =>
    some ⟨e.seq, taskId, revision, step, status, detail, snapshot, atMs⟩
  | _ => none

def integrationRecordOf (e : LedgerEntry) : Option IntegrationRecordRow :=
  match e.payload with
  | .integrationRecorded record => some record
  | _ => none

def runBaseOf (e : LedgerEntry) : Option RunBaseRecord :=
  match e.payload with
  | .runBaseRecorded record => some record
  | _ => none

def verifiedGitArtifactOf (e : LedgerEntry) : Option VerifiedGitArtifact :=
  match e.payload with
  | .verifiedGitArtifactRecorded artifact => some artifact
  | _ => none

def externalOperationOf (e : LedgerEntry) : Option ExternalOperationRow :=
  match e.payload with
  | .externalOperationRecorded record => some record
  | _ => none

def integrationTxnOf (e : LedgerEntry) : Option IntegrationTxnRow :=
  match e.payload with
  | .integrationTxnRecorded row => some row
  | _ => none

/-- `terminal_record_of`. -/
def terminalRecordOf (e : LedgerEntry) : Option TerminalLedgerRecord :=
  match e.payload with
  | .terminalCreated row => some ⟨e.seq, .created, row, none, ""⟩
  | .terminalRunning row => some ⟨e.seq, .running, row, none, ""⟩
  | .terminalExited row exitCode => some ⟨e.seq, .exited, row, exitCode, ""⟩
  | .terminalKilled row reason => some ⟨e.seq, .killed, row, none, reason⟩
  | .terminalLost row reason => some ⟨e.seq, .lost, row, none, reason⟩
  | .terminalReconciled row disposition => some ⟨e.seq, .reconciled, row, none, disposition⟩
  | _ => none

def LedgerPayload.isTournament : LedgerPayload → Bool
  | .tournamentStarted _ _ | .candidateSettled _ _ | .tournamentDecided _ _ _ _ => true
  | _ => false

def LedgerPayload.isBoard : LedgerPayload → Bool
  | .boardPost _ _ _ _ _ _ _ _ | .boardRead _ _ _ | .boardReceipt _ _ _ _ _ | .boardReset _ _ _ =>
    true
  | _ => false

def maxBoardScanPage : ℕ := 500

namespace LedgerStore

variable (s : LedgerStore)

/-- `ledger_learning_records`. -/
def ledgerLearningRecords : List LearningRecordRow := s.entries.filterMap learningRecordOf

/-- `ledger_completion_contract`: the last row of the task. -/
def ledgerCompletionContract (taskId : ℕ) : Option CompletionContractRow :=
  ((s.entries.filterMap completionContractOf).filter (·.taskId = taskId)).getLast?

/-- `ledger_completion_contract_at`: the first row of the task and revision. -/
def ledgerCompletionContractAt (taskId revision : ℕ) : Option CompletionContractRow :=
  (s.entries.filterMap completionContractOf).find? fun row =>
    row.taskId = taskId ∧ row.revision = revision

/-- `ledger_completion_step_statuses`. -/
def ledgerCompletionStepStatuses (taskId revision : ℕ) : List CompletionStepStatusRow :=
  (s.entries.filterMap completionStepStatusOf).filter fun row =>
    row.taskId = taskId ∧ row.revision = revision

/-- `ledger_integration_records_for_task`. -/
def ledgerIntegrationRecordsForTask (taskId : ℕ) : List IntegrationRecordRow :=
  (s.entries.filterMap integrationRecordOf).filter (·.taskId = taskId)

/-- `ledger_integration_record_for_task`: the last one. -/
def ledgerIntegrationRecordForTask (taskId : ℕ) : Option IntegrationRecordRow :=
  (s.ledgerIntegrationRecordsForTask taskId).getLast?

/-- `ledger_run_base_get`: the last one of the run. -/
def ledgerRunBaseGet (runId : String) : Option RunBaseRecord :=
  ((s.entries.filterMap runBaseOf).filter (·.runId = runId)).getLast?

/-- `ledger_verified_git_artifact_get`: the last one of the task and revision. -/
def ledgerVerifiedGitArtifactGet (taskId revision : ℕ) : Option VerifiedGitArtifact :=
  ((s.entries.filterMap verifiedGitArtifactOf).filter fun artifact =>
    artifact.taskId = taskId ∧ artifact.revision = revision).getLast?

/-- `ledger_external_operations`. -/
def ledgerExternalOperations : List ExternalOperationRow :=
  s.entries.filterMap externalOperationOf

/-- `ledger_external_operation_read`: the last one of the key. -/
def ledgerExternalOperationRead (operationKey : String) : Option ExternalOperationRow :=
  (s.ledgerExternalOperations.filter (·.operationKey = operationKey)).getLast?

/-- `ledger_integration_txn_for_run`: the last one of the run. -/
def ledgerIntegrationTxnForRun (runId : String) : Option IntegrationTxnRow :=
  ((s.entries.filterMap integrationTxnOf).filter (·.runId = runId)).getLast?

/-- `ledger_terminal_rows_bounded`. -/
def ledgerTerminalRowsBounded (afterSeq : Option ℤ) (maxRecords : ℕ) : List TerminalLedgerRecord :=
  ((s.entries.filterMap terminalRecordOf).filter fun row => afterSeq.getD 0 < row.seq).take maxRecords

/-- The rows `Tournament::reopen` folds. -/
def tournamentRows : List LedgerEntry := s.entries.filter (·.payload.isTournament)

/-- `board_ledger_page`: one page of board rows below the cursor, newest first. -/
def boardLedgerPage (cursor : Option ℤ) : List LedgerEntry :=
  ((s.entries.filter (·.payload.isBoard)).filter fun e =>
    e.seq < cursor.getD (2 ^ 63 - 1)).reverse.take maxBoardScanPage

end LedgerStore

/-- The same answer: the same value, or a refusal both times. -/
def SameAnswer {α : Type} (before after : Except LedgerError α) : Prop :=
  before.toOption = after.toOption

/-- Two tables answer every authority read alike. -/
structure SameReads (before after : LedgerStore) : Prop where
  openEditTxns : SameAnswer (ledgerOpenEditTxns before.entries) (ledgerOpenEditTxns after.entries)
  learningRecords : before.ledgerLearningRecords = after.ledgerLearningRecords
  completionContract : before.ledgerCompletionContract = after.ledgerCompletionContract
  completionContractAt : before.ledgerCompletionContractAt = after.ledgerCompletionContractAt
  completionStepStatuses : before.ledgerCompletionStepStatuses = after.ledgerCompletionStepStatuses
  integrationRecord : before.ledgerIntegrationRecordForTask = after.ledgerIntegrationRecordForTask
  integrationRecords : before.ledgerIntegrationRecordsForTask = after.ledgerIntegrationRecordsForTask
  runBase : before.ledgerRunBaseGet = after.ledgerRunBaseGet
  landingTxn : before.ledgerIntegrationTxnForRun = after.ledgerIntegrationTxnForRun
  verifiedGitArtifact : before.ledgerVerifiedGitArtifactGet = after.ledgerVerifiedGitArtifactGet
  externalOperation : before.ledgerExternalOperationRead = after.ledgerExternalOperationRead
  externalOperations : before.ledgerExternalOperations = after.ledgerExternalOperations
  terminalRows : before.ledgerTerminalRowsBounded = after.ledgerTerminalRowsBounded
  tournaments : before.tournamentRows = after.tournamentRows
  board : before.boardLedgerPage = after.boardLedgerPage

theorem SameReads.of_entries_eq {before after : LedgerStore} (h : after.entries = before.entries) :
    SameReads before after := by
  obtain ⟨entries, head⟩ := before
  obtain ⟨entries', head'⟩ := after
  obtain rfl : entries' = entries := h
  constructor <;> rfl

/-! ## What a compaction keeps -/

/-- A read of kept rows is unchanged. -/
theorem filterMap_filter_of_kept {α β : Type} {l : List α} {keep : α → Bool} {f : α → Option β}
    (h : ∀ x ∈ l, (f x).isSome → keep x = true) : (l.filter keep).filterMap f = l.filterMap f := by
  induction l with
  | nil => rfl
  | cons x l ih =>
    have ih' := ih fun y hy => h y (by simp [hy])
    have hx := h x (by simp)
    cases hk : keep x with
    | true => simp [hk, List.filterMap_cons, ih']
    | false =>
      have hfx : f x = none := by
        cases hfx : f x with
        | none => rfl
        | some y => simp [hfx, hk] at hx
      simp [hk, hfx, ih']

theorem filter_filter_of_kept {α : Type} {l : List α} {keep p : α → Bool}
    (h : ∀ x ∈ l, p x = true → keep x = true) : (l.filter keep).filter p = l.filter p := by
  rw [List.filter_filter]
  refine List.filter_congr fun x hx => ?_
  cases hp : p x with
  | false => rfl
  | true => simp [h x hx hp]

/-- The reads of a table whose rows of the pinned kinds are kept. -/
theorem SameReads.of_filter {s s' : LedgerStore} {keep : LedgerEntry → Bool}
    (hentries : s'.entries = s.entries.filter keep)
    (hpinned : ∀ e ∈ s.entries, e.payload.pinnedKind = true → keep e = true)
    (hedit : SameAnswer (ledgerOpenEditTxns s.entries) (ledgerOpenEditTxns s'.entries))
    (hgit : s.ledgerVerifiedGitArtifactGet = s'.ledgerVerifiedGitArtifactGet) :
    SameReads s s' := by
  have hmap : ∀ {β : Type} (f : LedgerEntry → Option β),
      (∀ e, (f e).isSome → e.payload.pinnedKind = true) →
        s.entries.filterMap f = s'.entries.filterMap f := by
    intro β f hf
    rw [hentries, filterMap_filter_of_kept fun e he h => hpinned e he (hf e h)]
  have hfilter : ∀ p : LedgerEntry → Bool, (∀ e, p e = true → e.payload.pinnedKind = true) →
      s.entries.filter p = s'.entries.filter p := by
    intro p hp
    rw [hentries, filter_filter_of_kept fun e he h => hpinned e he (hp e h)]
  have hlearn := hmap learningRecordOf (by
    rintro ⟨_, p, _⟩ h; cases p <;> first | rfl | cases h)
  have hcontract := hmap completionContractOf (by
    rintro ⟨_, p, _⟩ h; cases p <;> first | rfl | cases h)
  have hstatus := hmap completionStepStatusOf (by
    rintro ⟨_, p, _⟩ h; cases p <;> first | rfl | cases h)
  have hintegration := hmap integrationRecordOf (by
    rintro ⟨_, p, _⟩ h; cases p <;> first | rfl | cases h)
  have hbase := hmap runBaseOf (by
    rintro ⟨_, p, _⟩ h; cases p <;> first | rfl | cases h)
  have htxn := hmap integrationTxnOf (by
    rintro ⟨_, p, _⟩ h; cases p <;> first | rfl | cases h)
  have hexternal := hmap externalOperationOf (by
    rintro ⟨_, p, _⟩ h; cases p <;> first | rfl | cases h)
  have hterminal := hmap terminalRecordOf (by
    rintro ⟨_, p, _⟩ h; cases p <;> first | rfl | cases h)
  have htournament := hfilter (·.payload.isTournament) (by
    rintro ⟨_, p, _⟩ h; cases p <;> first | rfl | cases h)
  have hboard := hfilter (·.payload.isBoard) (by
    rintro ⟨_, p, _⟩ h; cases p <;> first | rfl | cases h)
  constructor
  case openEditTxns => exact hedit
  case verifiedGitArtifact => exact hgit
  case learningRecords => exact hlearn
  case completionContract => funext t; simp only [LedgerStore.ledgerCompletionContract, hcontract]
  case completionContractAt =>
    funext t r; simp only [LedgerStore.ledgerCompletionContractAt, hcontract]
  case completionStepStatuses =>
    funext t r; simp only [LedgerStore.ledgerCompletionStepStatuses, hstatus]
  case integrationRecord =>
    funext t
    simp only [LedgerStore.ledgerIntegrationRecordForTask,
      LedgerStore.ledgerIntegrationRecordsForTask, hintegration]
  case integrationRecords =>
    funext t; simp only [LedgerStore.ledgerIntegrationRecordsForTask, hintegration]
  case runBase => funext r; simp only [LedgerStore.ledgerRunBaseGet, hbase]
  case landingTxn => funext r; simp only [LedgerStore.ledgerIntegrationTxnForRun, htxn]
  case externalOperation =>
    funext k
    simp only [LedgerStore.ledgerExternalOperationRead, LedgerStore.ledgerExternalOperations,
      hexternal]
  case externalOperations => exact hexternal
  case terminalRows => funext a m; simp only [LedgerStore.ledgerTerminalRowsBounded, hterminal]
  case tournaments => exact htournament
  case board => funext c; simp only [LedgerStore.boardLedgerPage, hboard]

/-! ## The pinned set -/

theorem lastOf_eq_some {entries : List LedgerEntry} {kind : LastKind} {q : ℕ}
    (h : lastOf entries kind = some q) :
    ∃ e ∈ entries, e.payload.lastKind? = some kind ∧ e.seq = q := by
  simp only [lastOf, Option.map_eq_some_iff] at h
  obtain ⟨e, he, rfl⟩ := h
  have hmem := List.mem_filter.mp (List.mem_of_getLast? he)
  exact ⟨e, hmem.1, by simpa using hmem.2, rfl⟩

theorem mem_pinnedSeqs {entries : List LedgerEntry} {head : LedgerHead} {q : ℕ} :
    q ∈ pinnedSeqs entries head ↔
      (∃ e ∈ entries, openEditRow entries e = true ∧ e.seq = q) ∨
      (∃ kind, lastOf entries kind = some q) ∨
      (∃ e ∈ entries, e.payload.opensBlocker head = true ∧ e.seq = q) ∨
      (∃ e ∈ entries, e.payload.pinnedKind = true ∧ e.seq = q) := by
  have hkind : (∃ kind, lastOf entries kind = some q) ↔
      lastOf entries .criteriaSet = some q ∨ lastOf entries .decision = some q ∨
        lastOf entries .goalSet = some q := by
    constructor
    · rintro ⟨_ | _ | _, h⟩
      · exact .inr (.inr h)
      · exact .inl h
      · exact .inr (.inl h)
    · rintro (h | h | h)
      exacts [⟨_, h⟩, ⟨_, h⟩, ⟨_, h⟩]
  simp only [pinnedSeqs, List.mem_dedup, List.mem_insertionSort, List.mem_append, List.mem_map,
    List.mem_filter, Option.mem_toList, hkind, and_assoc, or_assoc]

section Pinned

variable {entries : List LedgerEntry} {head : LedgerHead} (hkeys : ledgerFold.Increasing entries)
  {e : LedgerEntry} (he : e ∈ entries)
include hkeys he

/-- Whether a row is pinned, from the row alone. -/
theorem seq_mem_pinnedSeqs (hlast : e.payload.lastKind? = none)
    (hblocker : e.payload.opensBlocker head = false) :
    e.seq ∈ pinnedSeqs entries head ↔
      openEditRow entries e = true ∨ e.payload.pinnedKind = true := by
  have hsame : ∀ e' ∈ entries, e'.seq = e.seq → e' = e := fun e' he' h =>
    hkeys.eq_of_key_eq he' he h
  rw [mem_pinnedSeqs]
  constructor
  · rintro (⟨e', he', h, hseq⟩ | ⟨kind, h⟩ | ⟨e', he', h, hseq⟩ | ⟨e', he', h, hseq⟩)
    · exact .inl (hsame e' he' hseq ▸ h)
    · obtain ⟨e', he', hk, hseq⟩ := lastOf_eq_some h
      rw [hsame e' he' hseq, hlast] at hk
      cases hk
    · rw [hsame e' he' hseq, hblocker] at h
      cases h
    · exact .inr (hsame e' he' hseq ▸ h)
  · rintro (h | h)
    · exact .inl ⟨e, he, h, rfl⟩
    · exact .inr (.inr (.inr ⟨e, he, h, rfl⟩))

omit hkeys in
theorem pinnedKind_pinned (h : e.payload.pinnedKind = true) :
    e.seq ∈ pinnedSeqs entries head :=
  mem_pinnedSeqs.mpr (.inr (.inr (.inr ⟨e, he, h, rfl⟩)))

/-- An edit row is pinned exactly when its transaction is open. -/
theorem editRow_pinned {t : ℕ} (ht : e.payload.txnOf? = some t) :
    e.seq ∈ pinnedSeqs entries head ↔ openEditTxn entries t = true := by
  have hclosed : ∀ u, e.payload.terminalId? = some u → openEditTxn entries u = false := by
    intro u hu
    have hany : (entries.any fun e => e.payload.terminalId? = some u) = true :=
      List.any_eq_true.mpr ⟨e, he, by simp [hu]⟩
    simp [openEditTxn, hany]
  have hrow : openEditRow entries e = true ↔ openEditTxn entries t = true := by
    obtain ⟨seq, payload, createdMs⟩ := e
    cases payload <;> simp only [LedgerPayload.txnOf?, Option.some.injEq, reduceCtorEq] at ht
    case editTxnPrepared => simp [openEditRow, LedgerPayload.editTxnId?, ht]
    case editTxnProgress => simp [openEditRow, LedgerPayload.editTxnId?, ht]
    case editTxnCommitted =>
      simp [openEditRow, LedgerPayload.editTxnId?, ← ht, hclosed _ rfl]
    case editTxnRolledBack =>
      simp [openEditRow, LedgerPayload.editTxnId?, ← ht, hclosed _ rfl]
  have hkinds : e.payload.lastKind? = none ∧ e.payload.opensBlocker head = false ∧
      e.payload.pinnedKind = false := by
    obtain ⟨seq, payload, createdMs⟩ := e
    cases payload <;> simp only [LedgerPayload.txnOf?, reduceCtorEq] at ht <;>
      exact ⟨rfl, rfl, rfl⟩
  rw [seq_mem_pinnedSeqs hkeys he hkinds.1 hkinds.2.1, hrow, hkinds.2.2]
  simp

/-- A verified-git artifact is never pinned. -/
theorem verifiedGitArtifact_not_pinned (h : (verifiedGitArtifactOf e).isSome = true) :
    e.seq ∉ pinnedSeqs entries head := by
  have hkinds : e.payload.lastKind? = none ∧ e.payload.opensBlocker head = false ∧
      e.payload.pinnedKind = false ∧ e.payload.editTxnId? = none := by
    obtain ⟨seq, payload, createdMs⟩ := e
    cases payload <;> first | exact ⟨rfl, rfl, rfl, rfl⟩ | cases h
  rw [seq_mem_pinnedSeqs hkeys he hkinds.1 hkinds.2.1]
  simp [openEditRow, hkinds.2.2]

end Pinned

/-! ## A compaction and the reads -/

variable (bytes : JsonBytes)

theorem ensureHead_entries (s : LedgerStore) :
    (ledgerEnsureHead bytes s).2.entries = s.entries := by
  unfold ledgerEnsureHead
  split
  · dsimp only
    split <;> rfl
  · rfl

/-- A refused compaction deletes nothing. -/
theorem compactTypedLedger_error {s : LedgerStore} {err : LedgerError}
    (h : (compactTypedLedger bytes s).1 = .error err) :
    (compactTypedLedger bytes s).2.entries = s.entries := by
  have hens := ensureHead_entries bytes s
  unfold compactTypedLedger at h ⊢
  split at h
  · cases h
  · split at h
    · rename_i hr
      rw [hr] at hens
      simpa [hr] using hens
    · rename_i hr
      rw [hr] at hens
      dsimp only at h
      split at h
      · rename_i hv
        simp only [hv]
        exact hens
      · cases h

/-- An accepted compaction keeps exactly the pinned rows. -/
theorem compactTypedLedger_ok {s : LedgerStore} (hkeys : ledgerFold.Increasing s.entries)
    {report : LedgerCompactReport} (h : (compactTypedLedger bytes s).1 = .ok report) :
    ∃ head, (compactTypedLedger bytes s).2.entries =
      s.entries.filter fun e => (pinnedSeqs s.entries head).contains e.seq := by
  have hens := ensureHead_entries bytes s
  unfold compactTypedLedger at h ⊢
  split at h
  · rename_i hnil
    refine ⟨{}, ?_⟩
    simp [List.getLast?_eq_none_iff.mp hnil]
  · rename_i last hlast
    split at h
    · cases h
    · rename_i refreshed s₁ hr
      rw [hr] at hens
      dsimp only at h
      split at h
      · cases h
      · rename_i hv
        simp only [hv]
        refine ⟨if refreshed.checkpointSeq < last.seq then
          foldEntries refreshed (s₁.ledgerEntries (some refreshed.checkpointSeq)) else refreshed, ?_⟩
        simp only [LedgerStore.compactLedger]
        rw [hens]
        refine List.filter_congr fun e he => ?_
        have hle : e.seq < last.seq + 1 := by
          have hkey : last.seq = ledgerFold.top s.entries := hkeys.getLast_key hlast
          have : e.seq ≤ ledgerFold.top s.entries := ledgerFold.le_top he
          omega
        simp [hle]

/-- The rows a compaction drops are readable before it and not after it. -/
theorem verifiedGitArtifact_sameRead_iff {s s' : LedgerStore}
    (h : ∀ e ∈ s'.entries, verifiedGitArtifactOf e = none) :
    s.ledgerVerifiedGitArtifactGet = s'.ledgerVerifiedGitArtifactGet ↔
      ∀ e ∈ s.entries, verifiedGitArtifactOf e = none := by
  have hnil : ∀ es : List LedgerEntry, (∀ e ∈ es, verifiedGitArtifactOf e = none) →
      es.filterMap verifiedGitArtifactOf = [] := fun es hes =>
    List.filterMap_eq_nil_iff.mpr hes
  constructor
  · intro hsame e he
    by_contra hne
    obtain ⟨artifact, ha⟩ := Option.ne_none_iff_exists'.mp hne
    have hafter : s'.ledgerVerifiedGitArtifactGet artifact.taskId artifact.revision = none := by
      simp [LedgerStore.ledgerVerifiedGitArtifactGet, hnil _ h]
    have hmem : artifact ∈ (s.entries.filterMap verifiedGitArtifactOf).filter fun a =>
        a.taskId = artifact.taskId ∧ a.revision = artifact.revision :=
      List.mem_filter.mpr ⟨List.mem_filterMap.mpr ⟨e, he, ha⟩, by simp⟩
    rw [← hsame, LedgerStore.ledgerVerifiedGitArtifactGet, List.getLast?_eq_none_iff] at hafter
    rw [hafter] at hmem
    cases hmem
  · intro hes
    funext taskId revision
    simp [LedgerStore.ledgerVerifiedGitArtifactGet, hnil _ h, hnil _ hes]

/-- The open-transactions read of a compacted table. -/
theorem openEditTxns_sameAnswer_iff {entries : List LedgerEntry} {keep : LedgerEntry → Bool}
    (hkeep : ∀ e ∈ entries, ∀ t, e.payload.txnOf? = some t → keep e = openEditTxn entries t) :
    SameAnswer (ledgerOpenEditTxns entries) (ledgerOpenEditTxns (entries.filter keep)) ↔
      (∀ t, openEditTxn entries t = false → TxnAccepted entries t) ∨
        ∃ t, openEditTxn entries t = true ∧ ¬ TxnAccepted entries t := by
  have hafter : (∃ out, ledgerOpenEditTxns (entries.filter keep) = .ok out) ↔
      ∀ t, openEditTxn entries t = true → TxnAccepted entries t := by
    rw [ledgerOpenEditTxns_ok_iff, txnAccepted_filter hkeep]
  cases hbefore : ledgerOpenEditTxns entries with
  | ok out =>
    have hall := ledgerOpenEditTxns_ok_iff.mp ⟨out, hbefore⟩
    rw [ledgerOpenEditTxns_filter hkeep hbefore]
    simp only [SameAnswer, true_iff]
    exact .inl fun t _ => hall t
  | error err =>
    have hrefused : ¬ ∀ t, TxnAccepted entries t := by
      rw [← ledgerOpenEditTxns_ok_iff, hbefore]
      simp
    cases hout : ledgerOpenEditTxns (entries.filter keep) with
    | ok out =>
      have hopen := hafter.mp ⟨out, hout⟩
      simp only [SameAnswer, Except.toOption, reduceCtorEq, false_iff, not_or, not_exists, not_and,
        not_not]
      exact ⟨fun hclosed => hrefused fun t => by
        cases ht : openEditTxn entries t with
        | true => exact hopen t ht
        | false => exact hclosed t ht, hopen⟩
    | error err' =>
      simp only [SameAnswer, Except.toOption, true_iff]
      right
      rw [hout] at hafter
      simpa using hafter

/-- **What a compaction does to the reads.**  A refused compaction changes none.  An accepted one
changes none exactly when the table holds no verified-git artifact and every edit transaction that
is not open is well formed, or some open one is not, so that the read refuses both times. -/
theorem sameReads_compact_iff (s : LedgerStore) (hkeys : ledgerFold.Increasing s.entries) :
    (∀ err, (compactTypedLedger bytes s).1 = .error err →
      SameReads s (compactTypedLedger bytes s).2) ∧
    (∀ report, (compactTypedLedger bytes s).1 = .ok report →
      (SameReads s (compactTypedLedger bytes s).2 ↔
        (∀ e ∈ s.entries, verifiedGitArtifactOf e = none) ∧
          ((∀ t, openEditTxn s.entries t = false → TxnAccepted s.entries t) ∨
            ∃ t, openEditTxn s.entries t = true ∧ ¬ TxnAccepted s.entries t))) := by
  constructor
  · intro err h
    exact SameReads.of_entries_eq (compactTypedLedger_error bytes h)
  · intro report h
    obtain ⟨head, hentries⟩ := compactTypedLedger_ok bytes hkeys h
    have hpinned : ∀ e ∈ s.entries, e.payload.pinnedKind = true →
        (pinnedSeqs s.entries head).contains e.seq = true := fun e he hk =>
      List.contains_iff_mem.mpr (pinnedKind_pinned he hk)
    have hkeep : ∀ e ∈ s.entries, ∀ t, e.payload.txnOf? = some t →
        (pinnedSeqs s.entries head).contains e.seq = openEditTxn s.entries t := by
      intro e he t ht
      rw [Bool.eq_iff_iff, List.contains_iff_mem]
      exact editRow_pinned hkeys he ht
    have hdropped : ∀ e ∈ (compactTypedLedger bytes s).2.entries,
        verifiedGitArtifactOf e = none := by
      intro e he
      rw [hentries] at he
      obtain ⟨he, hk⟩ := List.mem_filter.mp he
      by_contra hne
      exact verifiedGitArtifact_not_pinned hkeys he (Option.isSome_iff_ne_none.mpr hne)
        (List.contains_iff_mem.mp hk)
    rw [← openEditTxns_sameAnswer_iff hkeep, ← hentries,
      ← verifiedGitArtifact_sameRead_iff hdropped]
    constructor
    · exact fun hsame => ⟨hsame.verifiedGitArtifact, hsame.openEditTxns⟩
    · exact fun hsame => SameReads.of_filter hentries hpinned hsame.2 hsame.1

/-- A goal, a learning record and a completed turn. -/
def learnedStore : LedgerStore where
  entries := [⟨1, .goalSet "build" (some 1) none, 10⟩, ⟨2, .learningRecord "learning" "cache", 11⟩,
    ⟨3, .turnCompleted 1, 12⟩]
  head := none

theorem sameReads_compact_learned :
    (compactTypedLedger LedgerRun.smallBytes learnedStore).1 = .ok ⟨3, 1, 2, [1, 2], 3⟩ ∧
      SameReads learnedStore (compactTypedLedger LedgerRun.smallBytes learnedStore).2 := by
  have hkeys : ledgerFold.Increasing learnedStore.entries := by
    simp [CheckpointFold.Increasing, ledgerFold, learnedStore]
  have hok : (compactTypedLedger LedgerRun.smallBytes learnedStore).1 =
      .ok ⟨3, 1, 2, [1, 2], 3⟩ := rfl
  refine ⟨hok, ((sameReads_compact_iff LedgerRun.smallBytes learnedStore hkeys).2 _ hok).mpr ?_⟩
  exact ⟨by decide, .inl fun t _ => rfl⟩

/-- A goal and the verified-git artifact of revision 3 of task 7. -/
def publishedStore : LedgerStore where
  entries := [⟨1, .goalSet "build" (some 7) none, 10⟩,
    ⟨2, .verifiedGitArtifactRecorded ⟨7, 3, "manifest"⟩, 11⟩]
  head := none

/-- Compaction deletes the artifact of a published revision: its read finds nothing afterwards. -/
theorem compact_forgets_published_artifact :
    ¬ SameReads publishedStore (compactTypedLedger LedgerRun.smallBytes publishedStore).2 := by
  intro hsame
  have hread := congrFun (congrFun hsame.verifiedGitArtifact 7) 3
  exact absurd hread (by decide)

end TypedLedger
