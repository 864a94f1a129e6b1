/-
# The open edit transactions of a session

A multi-file edit is recorded in the typed ledger as a `prepared` row, one `progress` row per
file, and a terminal row.  Crash recovery reads back the transactions that have no terminal row
(`ledger_open_edit_txns`), and refuses the whole stream when any row of any transaction is
malformed or out of order.

* `scan_iff` : the scan behind the read treats each transaction by itself;
* `ledgerOpenEditTxns_ok_iff` : the read accepts a stream exactly when it accepts the rows of every
  transaction;
* `ledgerOpenEditTxns_filter`, `txnAccepted_filter` : what dropping the transactions that are not
  open does to the read.
-/
import Faktor.Sqlite
import Faktor.LedgerModel

namespace TypedLedger

open Sqlite (bind_eq_ok)

/-! ## The checks of edit-transaction rows -/

def maxLedgerText : ℕ := 4096
def maxEditTxnFiles : ℕ := 2000
def maxEditTxnSessionBytes : ℕ := 128
def maxEditTxnTerminalPaths : ℕ := maxEditTxnFiles

/-- `{:?}` of a string, without the escapes of control characters. -/
def debugText (s : String) : String := "\"" ++ s ++ "\""

/-- `malformed_row`. -/
def malformedRow (what detail : String) : LedgerError :=
  .malformed ("ledger " ++ what ++ " row is corrupt: " ++ detail)

/-- `conflict_row`. -/
def conflictRow (what detail : String) : LedgerError :=
  .conflict ("ledger " ++ what ++ " row is inconsistent: " ++ detail)

/-- `if p { return Err(e) }`. -/
def refuseIf (p : Prop) [Decidable p] (e : LedgerError) : Except LedgerError Unit :=
  if p then .error e else .ok ()

theorem refuseIf_eq_ok {p : Prop} [Decidable p] {e : LedgerError} {u : Unit} :
    refuseIf p e = .ok u ↔ ¬ p := by
  unfold refuseIf
  by_cases hp : p <;> simp [hp]

/-- `check_text`. -/
def checkText (value what : String) : Except LedgerError Unit :=
  if value.isEmpty then .error (.malformed s!"ledger entry {what} must be non-empty")
  else if maxLedgerText < value.utf8ByteSize then
    .error (.oversized s!"ledger entry {what} of {value.utf8ByteSize} bytes exceeds {maxLedgerText}")
  else .ok ()

/-- `hexval`. -/
def hexval (c : Char) : Option ℕ :=
  if '0' ≤ c ∧ c ≤ '9' then some (c.toNat - '0'.toNat)
  else if 'a' ≤ c ∧ c ≤ 'f' then some (c.toNat - 'a'.toNat + 10)
  else if 'A' ≤ c ∧ c ≤ 'F' then some (c.toNat - 'A'.toNat + 10)
  else none

/-- `FileHash::from_hex(..).is_some()`. -/
def isFileHash (hex : String) : Bool :=
  hex.utf8ByteSize == 64 && hex.toList.all fun c => (hexval c).isSome

/-- The checks on one staged file. -/
def validateEditTxnFile (file : EditTxnLedgerFile) : Except LedgerError Unit := do
  checkText file.path "edit txn file path"
  refuseIf (isFileHash file.baseDigest = false) (malformedRow "edit_txn_prepared"
    s!"file {file.path} has a base_digest that is not the 64-char hex BLAKE3")

/-- `validate_edit_txn_prepared`. -/
def validateEditTxnPrepared (txnId : ℕ) (session : String) (files : List EditTxnLedgerFile)
    (strategy : String) : Except LedgerError Unit := do
  refuseIf (txnId = 0) (malformedRow "edit_txn_prepared" "txn_id must be non-zero")
  refuseIf (session.isEmpty ∨ maxEditTxnSessionBytes < session.utf8ByteSize)
    (malformedRow "edit_txn_prepared" s!"session must be 1..={maxEditTxnSessionBytes} bytes")
  refuseIf files.isEmpty
    (malformedRow "edit_txn_prepared" "at least one staged file is required")
  refuseIf (maxEditTxnFiles < files.length)
    (.oversized s!"edit_txn_prepared of {files.length} files exceeds MAX_EDIT_TXN_FILES")
  refuseIf (strategy ≠ "roll_forward" ∧ strategy ≠ "roll_back")
    (malformedRow "edit_txn_prepared"
      ("strategy " ++ debugText strategy ++ " is not roll_forward|roll_back"))
  files.forM validateEditTxnFile

/-- `check_edit_txn_path_list`. -/
def checkEditTxnPathList (list : List String) (what : String) : Except LedgerError Unit := do
  refuseIf (maxEditTxnTerminalPaths < list.length) (.oversized
    s!"ledger edit txn {what} of {list.length} paths exceeds MAX_EDIT_TXN_TERMINAL_PATHS")
  list.forM fun p => checkText p what

/-! ## The scan of one transaction -/

/-- `Phase` of `ledger_open_edit_txns`. -/
inductive EditPhase
  | prepared | terminal
  deriving DecidableEq, Repr

structure EditTxnOpenProgress where
  seq : ℕ
  path : String
  outcome : String
  deriving DecidableEq, Repr

structure EditTxnOpenRow where
  txnId : ℕ
  session : String
  strategy : String
  files : List EditTxnLedgerFile
  progress : List EditTxnOpenProgress
  deriving DecidableEq, Repr

/-- What the scan holds under one transaction id, in its `phase`, `prepared` and
`progress_by_txn` maps. -/
structure TxnScan where
  phase : Option EditPhase := none
  session : String := ""
  strategy : String := ""
  files : List EditTxnLedgerFile := []
  progress : List EditTxnOpenProgress := []
  deriving DecidableEq, Repr

/-- The transaction an edit row is about. -/
def LedgerPayload.txnOf? : LedgerPayload → Option ℕ
  | .editTxnPrepared txnId _ _ _ => some txnId
  | .editTxnProgress txnId _ _ _ => some txnId
  | .editTxnCommitted txnId _ _ _ => some txnId
  | .editTxnRolledBack txnId _ _ => some txnId
  | _ => none

/-- A terminal row, after its path lists were checked: the transaction must be prepared and not
closed yet. -/
def closeTxn (x : TxnScan) (txnId : ℕ) (what : String) : Except LedgerError TxnScan :=
  match x.phase with
  | none => .error (conflictRow what s!"terminal row references unknown edit txn {txnId}")
  | some .terminal => .error (malformedRow what s!"duplicate terminal row of txn {txnId}")
  | some .prepared => .ok { x with phase := some .terminal }

/-- One edit row of the scan loop, on what the scan holds under the row's transaction. -/
def txnRow (x : TxnScan) : LedgerPayload → Except LedgerError TxnScan
  | .editTxnPrepared txnId session files strategy => do
    validateEditTxnPrepared txnId session files strategy
    refuseIf (x.phase.isSome = true) (malformedRow "edit_txn_prepared"
      (s!"duplicate prepared rows for txn {txnId}; " ++
        "a re-execution must recover, never re-begin"))
    return { x with phase := some .prepared, session, strategy, files }
  | .editTxnProgress txnId seq path outcome => do
    refuseIf (txnId = 0) (malformedRow "edit_txn_progress" "txn_id must be non-zero")
    checkText path "edit txn progress path"
    refuseIf (outcome ≠ "committed" ∧ outcome ≠ "conflicted") (malformedRow "edit_txn_progress"
      ("outcome " ++ debugText outcome ++ " is not committed|conflicted"))
    refuseIf (x.phase ≠ some .prepared) (malformedRow "edit_txn_progress"
      s!"progress row of txn {txnId} is orphaned or out of order")
    return { x with progress := x.progress ++ [⟨seq, path, outcome⟩] }
  | .editTxnCommitted txnId committed conflicted skipped => do
    checkEditTxnPathList committed "committed"
    checkEditTxnPathList conflicted "conflicted"
    checkEditTxnPathList skipped "skipped"
    closeTxn x txnId "edit_txn_committed"
  | .editTxnRolledBack txnId rolledBack rollbackConflicts => do
    checkEditTxnPathList rolledBack "rolled_back"
    checkEditTxnPathList rollbackConflicts "rollback_conflicts"
    closeTxn x txnId "edit_txn_rolled_back"
  | _ => .ok x

/-- One progress row of an open transaction against its prepared files. -/
def checkProgress (txnId : ℕ) (files : List EditTxnLedgerFile) (row : EditTxnOpenProgress) :
    Except LedgerError Unit :=
  match files[row.seq]? with
  | none =>
    .error (malformedRow "edit_txn_progress"
      s!"seq {row.seq} of txn {txnId} is out of range ({files.length} files prepared)")
  | some file =>
    if file.path ≠ row.path then
      .error (malformedRow "edit_txn_progress"
        ("path " ++ debugText row.path ++ s!" of txn {txnId} seq {row.seq} " ++
          "does not match prepared file " ++ debugText file.path))
    else .ok ()

/-- The first sequence number that stands twice in a sorted list of progress rows. -/
def duplicateSeq : List EditTxnOpenProgress → Option ℕ
  | a :: b :: rest => if a.seq = b.seq then some a.seq else duplicateSeq (b :: rest)
  | _ => none

/-- The open row of one transaction. -/
def assembleTxn (txnId : ℕ) (x : TxnScan) : Except LedgerError EditTxnOpenRow := do
  x.progress.forM (checkProgress txnId x.files)
  let progress := x.progress.insertionSort (·.seq ≤ ·.seq)
  match duplicateSeq progress with
  | some seq =>
    throw (malformedRow "edit_txn_progress" s!"duplicate progress seq {seq} for txn {txnId}")
  | none => return ⟨txnId, x.session, x.strategy, x.files, progress⟩

/-! ## The open-transactions read -/

/-- One row of the scan loop. -/
def scanRow (st : ℕ → TxnScan) (e : LedgerEntry) : Except LedgerError (ℕ → TxnScan) :=
  match e.payload.txnOf? with
  | none => .ok st
  | some t => do
    let x ← txnRow (st t) e.payload
    return Function.update st t x

/-- The scan loop of `ledger_open_edit_txns`. -/
def scanEditTxns (entries : List LedgerEntry) : Except LedgerError (ℕ → TxnScan) :=
  entries.foldlM scanRow fun _ => {}

/-- The keys of the `prepared` map, in its order. -/
def preparedIds (entries : List LedgerEntry) : List ℕ :=
  (entries.filterMap (·.payload.preparedId?)).toFinset.sort (· ≤ ·)

/-- `ledger_open_edit_txns`. -/
def ledgerOpenEditTxns (entries : List LedgerEntry) : Except LedgerError (List EditTxnOpenRow) := do
  let st ← scanEditTxns entries
  let openIds := (preparedIds entries).filter fun t => (st t).phase ≠ some .terminal
  let out ← openIds.mapM fun t => assembleTxn t (st t)
  return out.insertionSort (·.txnId ≤ ·.txnId)

/-- The edit rows of one transaction. -/
def txnRows (entries : List LedgerEntry) (t : ℕ) : List LedgerEntry :=
  entries.filter fun e => e.payload.txnOf? = some t

/-- The scan of one transaction by itself. -/
def scanTxn (entries : List LedgerEntry) (t : ℕ) : Except LedgerError TxnScan :=
  (txnRows entries t).foldlM (fun x e => txnRow x e.payload) {}

/-- The read's own checks on the rows of one transaction: every row is well formed and in order,
and, when the transaction is open, its progress rows match its files. -/
def checkTxn (entries : List LedgerEntry) (t : ℕ) : Except LedgerError Unit := do
  let x ← scanTxn entries t
  if x.phase = some .prepared then
    let _ ← assembleTxn t x

/-- The rows of a transaction are well formed. -/
def TxnAccepted (entries : List LedgerEntry) (t : ℕ) : Prop := checkTxn entries t = .ok ()

/-! ## Each transaction by itself -/

theorem mapM_ok_iff {α β : Type} {f : α → Except LedgerError β} {l : List α} :
    (∃ out, l.mapM f = .ok out) ↔ ∀ x ∈ l, ∃ y, f x = .ok y := by
  induction l with
  | nil => simp [pure, Except.pure]
  | cons a l ih =>
    rw [List.mapM_cons]
    simp only [bind_eq_ok, pure, Except.pure, List.forall_mem_cons, ← ih]
    constructor
    · rintro ⟨out, y, hy, ys, hys, -⟩
      exact ⟨⟨y, hy⟩, ys, hys⟩
    · rintro ⟨⟨y, hy⟩, ys, hys⟩
      exact ⟨y :: ys, y, hy, ys, hys, rfl⟩

variable {st : ℕ → TxnScan}

/-- **The scan runs each transaction by itself**: it accepts a stream exactly when it accepts the
rows of every transaction alone, and holds under each what the rows of that one give. -/
theorem scan_iff {entries : List LedgerEntry} {st' : ℕ → TxnScan} :
    entries.foldlM scanRow st = .ok st' ↔
      ∀ t, (txnRows entries t).foldlM (fun x e => txnRow x e.payload) (st t) = .ok (st' t) := by
  induction entries generalizing st with
  | nil =>
    simp only [List.foldlM_nil, txnRows, List.filter_nil, pure, Except.pure, Except.ok.injEq]
    exact funext_iff
  | cons e entries ih =>
    rw [List.foldlM_cons]
    cases ht : e.payload.txnOf? with
    | none =>
      -- not an edit row: the scan passes over it, and it is no transaction's row
      have hscan : scanRow st e = .ok st := by simp [scanRow, ht]
      have hrows : ∀ t, txnRows (e :: entries) t = txnRows entries t := by simp [txnRows, ht]
      simp only [hscan, hrows]
      exact ih
    | some t₀ =>
      have hrows : ∀ t, txnRows (e :: entries) t =
          if t₀ = t then e :: txnRows entries t else txnRows entries t := by
        intro t
        by_cases h : t₀ = t <;> simp [txnRows, ht, h]
      simp only [bind_eq_ok, scanRow, ht, ih, pure, Except.pure, Except.ok.injEq]
      constructor
      · rintro ⟨_, ⟨x, hx, rfl⟩, hall⟩ t
        rw [hrows]
        split
        · rename_i h
          subst h
          rw [List.foldlM_cons, bind_eq_ok]
          exact ⟨x, hx, by simpa using hall t₀⟩
        · rename_i h
          simpa [Function.update_of_ne (Ne.symm h)] using hall t
      · intro hall
        have h₀ := hall t₀
        rw [hrows, if_pos rfl, List.foldlM_cons, bind_eq_ok] at h₀
        obtain ⟨x, hx, hrest⟩ := h₀
        refine ⟨_, ⟨x, hx, rfl⟩, fun t => ?_⟩
        by_cases h : t₀ = t
        · subst h
          simpa using hrest
        · have := hall t
          rw [hrows, if_neg h] at this
          simpa [Function.update_of_ne (Ne.symm h)] using this

theorem scanEditTxns_eq_ok {entries : List LedgerEntry} :
    scanEditTxns entries = .ok st ↔ ∀ t, scanTxn entries t = .ok (st t) := scan_iff

/-! ## The phase of an accepted transaction -/

/-- The phase says which rows of the transaction were seen. -/
structure PhaseTells (x : TxnScan) (seen : List LedgerEntry) (t : ℕ) : Prop where
  opened : x.phase.isSome = true ↔ ∃ e ∈ seen, e.payload.preparedId? = some t
  closed : x.phase = some .terminal ↔ ∃ e ∈ seen, e.payload.terminalId? = some t

variable {x y : TxnScan} {e : LedgerEntry} {t : ℕ}

/-- What an accepted edit row does to the phase. -/
theorem txnRow_phase (ht : e.payload.txnOf? = some t) (h : txnRow x e.payload = .ok y) :
    (e.payload.preparedId? = some t ∧ e.payload.terminalId? = none ∧ x.phase = none ∧
      y.phase = some .prepared) ∨
    (e.payload.preparedId? = none ∧ e.payload.terminalId? = none ∧ x.phase = some .prepared ∧
      y.phase = some .prepared) ∨
    (e.payload.preparedId? = none ∧ e.payload.terminalId? = some t ∧ x.phase = some .prepared ∧
      y.phase = some .terminal) := by
  obtain ⟨seq, payload, createdMs⟩ := e
  have hclose : ∀ {what : String} {n : ℕ}, closeTxn x n what = .ok y →
      x.phase = some .prepared ∧ y.phase = some .terminal := by
    intro what n hc
    unfold closeTxn at hc
    split at hc
    · cases hc
    · cases hc
    · rename_i hp
      obtain rfl := Except.ok.inj hc
      exact ⟨hp, rfl⟩
  cases payload <;> simp only [LedgerPayload.txnOf?, Option.some.injEq, reduceCtorEq] at ht
  case editTxnPrepared txnId session files strategy =>
    subst ht
    simp only [txnRow, bind_eq_ok, refuseIf_eq_ok] at h
    obtain ⟨_, -, _, hp, h⟩ := h
    obtain rfl := Except.ok.inj h
    exact .inl ⟨rfl, rfl, by simpa using hp, rfl⟩
  case editTxnProgress txnId rowSeq path outcome =>
    subst ht
    simp only [txnRow, bind_eq_ok, refuseIf_eq_ok] at h
    obtain ⟨_, -, _, -, _, -, _, hp, h⟩ := h
    obtain rfl := Except.ok.inj h
    exact .inr (.inl ⟨rfl, rfl, not_not.mp hp, not_not.mp hp⟩)
  case editTxnCommitted txnId committed conflicted skipped =>
    subst ht
    simp only [txnRow, bind_eq_ok] at h
    obtain ⟨_, -, _, -, _, -, h⟩ := h
    exact .inr (.inr ⟨rfl, rfl, hclose h⟩)
  case editTxnRolledBack txnId rolledBack rollbackConflicts =>
    subst ht
    simp only [txnRow, bind_eq_ok] at h
    obtain ⟨_, -, _, -, h⟩ := h
    exact .inr (.inr ⟨rfl, rfl, hclose h⟩)

variable {seen : List LedgerEntry}

/-- One accepted row keeps the phase telling. -/
theorem PhaseTells.concat (h : PhaseTells x seen t) (ht : e.payload.txnOf? = some t)
    (hrow : txnRow x e.payload = .ok y) : PhaseTells y (seen ++ [e]) t := by
  have hopen := h.opened
  have hclosed := h.closed
  constructor
  · simp only [List.mem_append, List.mem_singleton, or_and_right, exists_or, exists_eq_left,
      ← hopen]
    rcases txnRow_phase ht hrow with ⟨hp, -, -, hy⟩ | ⟨-, -, hx, hy⟩ | ⟨-, -, hx, hy⟩
    · simp [hp, hy]
    · simp [hx, hy]
    · simp [hx, hy]
  · simp only [List.mem_append, List.mem_singleton, or_and_right, exists_or, exists_eq_left,
      ← hclosed]
    rcases txnRow_phase ht hrow with ⟨-, hp, hx, hy⟩ | ⟨-, hp, hx, hy⟩ | ⟨-, hp, hx, hy⟩
    · simp [hp, hx, hy]
    · simp [hp, hx, hy]
    · simp [hp, hy]

theorem foldlM_phaseTells {rows : List LedgerEntry} (h : PhaseTells x seen t)
    (hrows : ∀ e ∈ rows, e.payload.txnOf? = some t)
    (hfold : rows.foldlM (fun x e => txnRow x e.payload) x = .ok y) :
    PhaseTells y (seen ++ rows) t := by
  induction rows generalizing x seen with
  | nil =>
    obtain rfl := Except.ok.inj hfold
    simpa using h
  | cons e rows ih =>
    rw [List.foldlM_cons, bind_eq_ok] at hfold
    obtain ⟨z, hz, hfold⟩ := hfold
    have hstep := h.concat (hrows e (by simp)) hz
    simpa using ih hstep (fun e' he' => hrows e' (by simp [he'])) hfold

variable {p : LedgerPayload}

theorem preparedId?_eq_some (h : p.preparedId? = some t) :
    p.txnOf? = some t := by
  cases p <;> simp_all [LedgerPayload.preparedId?, LedgerPayload.txnOf?]

theorem terminalId?_eq_some (h : p.terminalId? = some t) :
    p.txnOf? = some t := by
  cases p <;> simp_all [LedgerPayload.terminalId?, LedgerPayload.txnOf?]

/-- The phase of an accepted transaction tells whether it is open. -/
theorem scanTxn_phase {entries : List LedgerEntry} (h : scanTxn entries t = .ok x) :
    (x.phase = some .prepared ↔ openEditTxn entries t = true) ∧
      (t ∈ preparedIds entries ∧ x.phase ≠ some .terminal ↔ openEditTxn entries t = true) := by
  have htells : PhaseTells x (txnRows entries t) t := by
    have h₀ : PhaseTells {} [] t := ⟨by simp, by simp⟩
    simpa using foldlM_phaseTells h₀ (fun e he => by simpa using (List.mem_filter.mp he).2) h
  have hopened : x.phase.isSome = true ↔ ∃ e ∈ entries, e.payload.preparedId? = some t := by
    rw [htells.opened]
    constructor
    · rintro ⟨e, he, hp⟩
      exact ⟨e, List.mem_of_mem_filter he, hp⟩
    · rintro ⟨e, he, hp⟩
      exact ⟨e, List.mem_filter.mpr ⟨he, by simp [preparedId?_eq_some hp]⟩, hp⟩
  have hclosed : x.phase = some .terminal ↔ ∃ e ∈ entries, e.payload.terminalId? = some t := by
    rw [htells.closed]
    constructor
    · rintro ⟨e, he, hp⟩
      exact ⟨e, List.mem_of_mem_filter he, hp⟩
    · rintro ⟨e, he, hp⟩
      exact ⟨e, List.mem_filter.mpr ⟨he, by simp [terminalId?_eq_some hp]⟩, hp⟩
  have hids : t ∈ preparedIds entries ↔ x.phase.isSome = true := by
    rw [hopened]
    simp [preparedIds]
  have hopen : openEditTxn entries t = true ↔
      x.phase.isSome = true ∧ x.phase ≠ some .terminal := by
    rw [hopened, ne_eq, hclosed]
    simp [openEditTxn]
  refine ⟨?_, by rw [hids, hopen]⟩
  rw [hopen]
  rcases hph : x.phase with _ | _ | _ <;> simp

/-- The open transactions, in the order the read goes through them. -/
def openIds (entries : List LedgerEntry) : List ℕ :=
  (preparedIds entries).filter (openEditTxn entries)

theorem mem_openIds {entries : List LedgerEntry} :
    t ∈ openIds entries ↔ openEditTxn entries t = true := by
  simp only [openIds, List.mem_filter, and_iff_right_iff_imp]
  intro h
  simp only [openEditTxn, Bool.and_eq_true, List.any_eq_true, decide_eq_true_eq] at h
  obtain ⟨e, he, hp⟩ := h.1
  simp only [preparedIds, Finset.mem_sort, List.mem_toFinset, List.mem_filterMap]
  exact ⟨e, he, hp⟩

/-- Two streams with the same open transactions go through them in the same order. -/
theorem openIds_congr {entries entries' : List LedgerEntry}
    (h : ∀ t, openEditTxn entries' t = openEditTxn entries t) :
    openIds entries' = openIds entries := by
  have hsorted : ∀ es, (openIds es).Pairwise (· < ·) := fun es =>
    List.Pairwise.filter _ (Finset.sortedLT_sort _).pairwise
  refine (hsorted _).eq_of_mem_iff (hsorted _) fun t => ?_
  rw [mem_openIds, mem_openIds, h]

/-- What the read does with an accepted scan. -/
theorem ledgerOpenEditTxns_of_scan {entries : List LedgerEntry} (h : ∀ t, scanTxn entries t = .ok (st t)) :
    ledgerOpenEditTxns entries = do
      let out ← (openIds entries).mapM fun t => assembleTxn t (st t)
      return out.insertionSort (·.txnId ≤ ·.txnId) := by
  have hfilter : ((preparedIds entries).filter fun t => (st t).phase ≠ some .terminal) =
      openIds entries := by
    refine List.filter_congr fun t ht => ?_
    have := (scanTxn_phase (h t)).2
    simp only [ht, true_and] at this
    rw [Bool.eq_iff_iff, ← this]
    simp
  rw [ledgerOpenEditTxns, scanEditTxns_eq_ok.mpr h]
  simp only [bind, Except.bind, hfilter]

/-- **The read accepts a stream exactly when it accepts every transaction of it.** -/
theorem ledgerOpenEditTxns_ok_iff {entries : List LedgerEntry} :
    (∃ out, ledgerOpenEditTxns entries = .ok out) ↔ ∀ t, TxnAccepted entries t := by
  constructor
  · rintro ⟨out, hout⟩ t
    have hscan : ∃ st, scanEditTxns entries = .ok st := by
      rw [ledgerOpenEditTxns, bind_eq_ok] at hout
      exact ⟨_, hout.choose_spec.1⟩
    obtain ⟨st, hst⟩ := hscan
    rw [scanEditTxns_eq_ok] at hst
    rw [ledgerOpenEditTxns_of_scan hst, bind_eq_ok] at hout
    obtain ⟨rows, hrows, -⟩ := hout
    have hall := mapM_ok_iff.mp ⟨rows, hrows⟩
    rw [TxnAccepted, checkTxn, hst t]
    simp only [bind, Except.bind]
    split
    · rename_i hp
      obtain ⟨row, hrow⟩ := hall t (mem_openIds.mpr ((scanTxn_phase (hst t)).1.mp hp))
      simp [hrow, pure, Except.pure]
    · rfl
  · intro h
    have hscan : ∀ t, ∃ x, scanTxn entries t = .ok x ∧
        (x.phase = some .prepared → ∃ row, assembleTxn t x = .ok row) := by
      intro t
      have ht := h t
      rw [TxnAccepted, checkTxn, bind_eq_ok] at ht
      obtain ⟨x, hx, ht⟩ := ht
      refine ⟨x, hx, fun hp => ?_⟩
      rw [if_pos hp, bind_eq_ok] at ht
      exact ⟨_, ht.choose_spec.1⟩
    choose st hst hrow using hscan
    rw [ledgerOpenEditTxns_of_scan hst]
    have hall : ∀ t ∈ openIds entries, ∃ row, assembleTxn t (st t) = .ok row := fun t ht =>
      hrow t ((scanTxn_phase (hst t)).1.mpr (mem_openIds.mp ht))
    obtain ⟨rows, hrows⟩ := mapM_ok_iff.mpr hall
    exact ⟨_, bind_eq_ok.mpr ⟨rows, hrows, rfl⟩⟩

/-! ## Dropping the transactions that are not open -/

section Kept

variable {entries : List LedgerEntry} {keep : LedgerEntry → Bool}
  (hkeep : ∀ e ∈ entries, ∀ t, e.payload.txnOf? = some t → keep e = openEditTxn entries t)
include hkeep

/-- Of an open transaction every row is kept, of any other none. -/
theorem txnRows_filter (t : ℕ) :
    txnRows (entries.filter keep) t = if openEditTxn entries t then txnRows entries t else [] := by
  rw [txnRows, List.filter_filter]
  split
  · rename_i h
    refine List.filter_congr fun e he => ?_
    by_cases ht : e.payload.txnOf? = some t
    · simp [ht, hkeep e he t ht, h]
    · simp [ht]
  · rename_i h
    refine List.filter_eq_nil_iff.mpr fun e he => ?_
    by_cases ht : e.payload.txnOf? = some t
    · simp [ht, hkeep e he t ht, h]
    · simp [ht]

theorem openEditTxn_filter (t : ℕ) :
    openEditTxn (entries.filter keep) t = openEditTxn entries t := by
  have hcommon : ∀ es, openEditTxn es t =
      ((txnRows es t).any (fun e => e.payload.preparedId? = some t) &&
        !(txnRows es t).any (fun e => e.payload.terminalId? = some t)) := by
    intro es
    have hany : ∀ f : LedgerPayload → Option ℕ, (∀ p, f p = some t → p.txnOf? = some t) →
        (es.any fun e => f e.payload = some t) =
          ((txnRows es t).any fun e => f e.payload = some t) := by
      intro f hf
      rw [Bool.eq_iff_iff, List.any_eq_true, List.any_eq_true]
      constructor
      · rintro ⟨e, he, h⟩
        exact ⟨e, List.mem_filter.mpr ⟨he, by simp [hf _ (by simpa using h)]⟩, h⟩
      · rintro ⟨e, he, h⟩
        exact ⟨e, List.mem_of_mem_filter he, h⟩
    rw [openEditTxn, hany _ fun _ => preparedId?_eq_some, hany _ fun _ => terminalId?_eq_some]
  have hentries := hcommon entries
  rw [hcommon, txnRows_filter hkeep]
  split
  · exact hentries.symm
  · rename_i h
    simp [h]

theorem scanTxn_filter (t : ℕ) :
    scanTxn (entries.filter keep) t = if openEditTxn entries t then scanTxn entries t else .ok {} := by
  rw [scanTxn, txnRows_filter hkeep]
  split
  · rfl
  · rfl

/-- After the drop the read accepts exactly when it accepts every open transaction. -/
theorem txnAccepted_filter :
    (∀ t, TxnAccepted (entries.filter keep) t) ↔
      ∀ t, openEditTxn entries t = true → TxnAccepted entries t := by
  refine forall_congr' fun t => ?_
  rw [TxnAccepted, TxnAccepted, checkTxn, checkTxn, scanTxn_filter hkeep]
  by_cases h : openEditTxn entries t = true
  · simp [h]
  · simp [h, bind, Except.bind, pure, Except.pure]

/-- What the read accepts it reads the same after the drop. -/
theorem ledgerOpenEditTxns_filter {out : List EditTxnOpenRow}
    (h : ledgerOpenEditTxns entries = .ok out) :
    ledgerOpenEditTxns (entries.filter keep) = .ok out := by
  have hscan : ∃ st, scanEditTxns entries = .ok st := by
    rw [ledgerOpenEditTxns, bind_eq_ok] at h
    exact ⟨_, h.choose_spec.1⟩
  obtain ⟨st, hst⟩ := hscan
  rw [scanEditTxns_eq_ok] at hst
  let st' : ℕ → TxnScan := fun t => if openEditTxn entries t then st t else {}
  have hst' : ∀ t, scanTxn (entries.filter keep) t = .ok (st' t) := by
    intro t
    rw [scanTxn_filter hkeep]
    by_cases ho : openEditTxn entries t = true <;> simp [st', ho, hst]
  rw [ledgerOpenEditTxns_of_scan hst', openIds_congr (openEditTxn_filter hkeep)]
  rw [ledgerOpenEditTxns_of_scan hst, bind_eq_ok] at h
  obtain ⟨rows, hrows, hout⟩ := h
  refine bind_eq_ok.mpr ⟨rows, ?_, hout⟩
  rw [← hrows]
  have hmap : ∀ l : List ℕ, (∀ t ∈ l, openEditTxn entries t = true) →
      (l.mapM fun t => assembleTxn t (st' t)) = l.mapM fun t => assembleTxn t (st t) := by
    intro l hl
    induction l with
    | nil => rfl
    | cons t l ih =>
      have ht : st' t = st t := by simp [st', hl t (by simp)]
      rw [List.mapM_cons, List.mapM_cons, ht, ih fun u hu => hl u (by simp [hu])]
  exact hmap _ fun t ht => mem_openIds.mp ht

end Kept

end TypedLedger
