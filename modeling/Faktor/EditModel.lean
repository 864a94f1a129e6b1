/-
# Multi-file edits as journaled transactions

An edit stages every file (reads it, checks its digest, applies the operations to a copy), journals a
`prepared` row, and then replaces one file after another by compare-and-swap on its content's digest, each
followed by a `progress` row; a terminal row ends the transaction.  Recovery takes up the transactions that
have no terminal row.

* `applyOp` : one operation on a text, by byte offsets;
* `stageOne`, `beginMultiFileEdit`, `commitStaged` : the edit;
* `recoverOne`, `recoverEditTransactions` : the recovery.
-/
import Mathlib
import Faktor.TextBytes
import Faktor.CrashPrograms

namespace EditTxn

open TextBytes Crash

/-! ## Operations on a text -/

/-- `EditOp`; the offsets are bytes. -/
inductive EditOp
  | range (start stop : ℕ) (replacement : Text)
  | searchReplace (before after : Text)
  | boundedRegion (anchor : Text) (regionStart regionEnd : ℕ) (replacement : Text)
  deriving DecidableEq, Repr

/-- Why an edit, its commit or its recovery is refused. -/
inductive EditError
  | malformedRange | splitsCodepoint | pastEnd | notFound | ambiguousSearch (count : ℕ)
  | ambiguousAnchor (count : ℕ)
  | foreignWorkspace | oversized (path : String) | unreadable (path : String)
  | changedSinceRead (path : String) | notUtf8 (path : String)
  | op (path : String) (index : ℕ) (error : EditError)
  | introducesParseErrors (path : String)
  | noFiles | tooManyFiles | badSession | badPath (path : String) | duplicatePath (path : String)
  | oversizedRecord | stageBudget | journal
  | emptyPrepared | listedTwice (index : ℕ) (path : String) | badProgress (seq : ℕ) | duplicateResume (txn : ℕ) | needsRequests (txn : ℕ)
  | ambiguousFile (path : String) | missingRequest (index : ℕ) | requestPath (index : ℕ)
  | requestDigest (index : ℕ) | beforeContentMissing (path : String) | beforeContentDigest (path : String)
  deriving DecidableEq, Repr

/-- The text before and after a byte offset, when the offset is at a character boundary. -/
def splitAtByte : Text → ℕ → Option (Text × Text)
  | text, 0 => some ([], text)
  | [], _ + 1 => none
  | c :: rest, n + 1 =>
    if c.utf8Size ≤ n + 1 then (splitAtByte rest (n + 1 - c.utf8Size)).map fun (a, b) => (c :: a, b)
    else none

/-- `str::match_indices`: the offsets of the matches, from left to right and not overlapping; `skip` counts
the characters of the last match that are still to pass. -/
def matchIndices (pattern : Text) : ℕ → ℕ → Text → List ℕ
  | _, offset, [] => if pattern = [] then [offset] else []
  | skip + 1, offset, c :: rest => matchIndices pattern skip (offset + c.utf8Size) rest
  | 0, offset, c :: rest =>
    if pattern.isPrefixOf (c :: rest) then
      offset :: matchIndices pattern (pattern.length - 1) (offset + c.utf8Size) rest
    else matchIndices pattern 0 (offset + c.utf8Size) rest

/-- `String::replace_range`, after the checks on the two offsets. -/
def replaceRange (buf : Text) (start stop : ℕ) (replacement : Text) : Except EditError Text :=
  if stop < start then .error .malformedRange
  else
    match splitAtByte buf start, splitAtByte buf stop with
    | some (before, _), some (_, after) =>
      if byteLen buf < stop then .error .pastEnd else .ok (before ++ replacement ++ after)
    | _, _ => .error .splitsCodepoint

/-- `base + offset` on `usize`; a release build wraps around. -/
def wrappingAdd (base offset : ℕ) : ℕ := (base + offset) % 2 ^ 64

/-- `apply_op`. -/
def applyOp (buf : Text) : EditOp → Except EditError Text
  | .range start stop replacement => replaceRange buf start stop replacement
  | .searchReplace before after =>
    match matchIndices before 0 0 buf with
    | [] => .error .notFound
    | [start] => replaceRange buf start (start + byteLen before) after
    | found => .error (.ambiguousSearch found.length)
  | .boundedRegion anchor regionStart regionEnd replacement =>
    match matchIndices anchor 0 0 buf with
    | [base] => replaceRange buf (wrappingAdd base regionStart) (wrappingAdd base regionEnd) replacement
    | found => .error (.ambiguousAnchor found.length)

/-- The operations from number `i` on; an error carries the number of its operation. -/
def applyOpsFrom : ℕ → Text → List EditOp → Except (ℕ × EditError) Text
  | _, buf, [] => .ok buf
  | i, buf, op :: rest =>
    match applyOp buf op with
    | .error err => .error (i, err)
    | .ok buf => applyOpsFrom (i + 1) buf rest

/-- The operations of a request, one after another. -/
def applyOps (buf : Text) (ops : List EditOp) : Except (ℕ × EditError) Text := applyOpsFrom 1 buf ops

/-- The first entry that stands in the list, or among those seen before it, already. -/
def firstRepeat {κ : Type} [DecidableEq κ] : List κ → ℕ → List κ → Option (ℕ × κ)
  | _, _, [] => none
  | seen, i, k :: rest => if k ∈ seen then some (i, k) else firstRepeat (k :: seen) (i + 1) rest

/-! ## Files, requests and the journal -/

/-- The content of a file: a text in UTF-8, or bytes that are not one. -/
inductive Content
  | utf8 (text : Text)
  | raw (bytes : List UInt8)
  deriving DecidableEq, Repr

def Content.len : Content → ℕ
  | utf8 text => byteLen text
  | raw bytes => bytes.length

def maxFileBytes : ℕ := 16 * 1024 * 1024
def maxTxnFiles : ℕ := 2000
def maxTxnPayloadBytes : ℕ := 64 * 1024
def maxTxnPathBytes : ℕ := 4096

variable {D : Type} [DecidableEq D]

/-- `EditRequest`. -/
structure EditRequest (D : Type) where
  path : String
  expectedHash : D
  ops : List EditOp

inductive RepairMode
  | rollback | allowModelRepair
  deriving DecidableEq, Repr

inductive EditTxnStrategy
  | rollForward | rollBack
  deriving DecidableEq, Repr

/-- `EditTxnFileRef`. -/
structure EditTxnFileRef (D : Type) where
  path : String
  baseDigest : D
  baseLen : ℕ

inductive TxnFileOutcome
  | committed | conflicted
  deriving DecidableEq, Repr

/-- `TxnProgressRow`. -/
structure TxnProgressRow where
  seq : ℕ
  path : String
  outcome : TxnFileOutcome
  deriving DecidableEq, Repr

/-- `OpenEditTxn`. -/
structure OpenEditTxn (D : Type) where
  txnId : ℕ
  strategy : EditTxnStrategy
  files : List (EditTxnFileRef D)
  progress : List TxnProgressRow

/-- A row of the journal. -/
inductive Row (D : Type)
  | prepared (txn : ℕ) (session : String) (files : List (EditTxnFileRef D)) (strategy : EditTxnStrategy)
  | progress (txn : ℕ) (row : TxnProgressRow)
  | committed (txn : ℕ) (committed conflicted skipped : List String)
  | rolledBack (txn : ℕ) (rolledBack rollbackConflicts : List String)

/-- The transaction that a terminal row ends. -/
def Row.terminal? : Row D → Option ℕ
  | .committed txn _ _ _ => some txn
  | .rolledBack txn _ _ => some txn
  | _ => none

/-- The transaction that a `prepared` row begins. -/
def Row.prepared? : Row D → Option ℕ
  | .prepared txn _ _ _ => some txn
  | _ => none

/-- The progress rows of a transaction. -/
def progressOf (rows : List (Row D)) (txn : ℕ) : List TxnProgressRow :=
  rows.filterMap fun
    | .progress t row => if t = txn then some row else none
    | _ => none

/-- The transaction of a `prepared` row, with its progress in the order of the files. -/
def openTxn? (rows : List (Row D)) : Row D → Option (OpenEditTxn D)
  | .prepared txn _ files strategy =>
    if txn ∈ rows.filterMap Row.terminal? then none
    else some ⟨txn, strategy, files,
      (progressOf rows txn).insertionSort fun a b => a.seq ≤ b.seq⟩
  | _ => none

/-- `open_transactions`: the prepared transactions without a terminal row. -/
def openTransactions (rows : List (Row D)) : List (OpenEditTxn D) := rows.filterMap (openTxn? rows)

/-! ## The operations of the engine -/

/-- What the engine calls: a check of the workspace and its identity, the clock of the stage budget, a read,
a compare-and-swap on the content's digest, the journal, and the source of before-content. -/
inductive Op (D : Type)
  | verify
  | budgetSpent
  | read (path : String)
  | cas (path : String) (expected : D) (new : Content)
  | record (row : Row D)
  | openTxns
  | beforeContent (txn : ℕ) (path : String)

/-- The answers; `none` and `false` are failures. -/
def Ret : Op D → Type
  | .verify => Bool
  | .budgetSpent => Bool
  | .read _ => Option Content
  | .cas _ _ _ => Option D
  | .record _ => Bool
  | .openTxns => Option (List (OpenEditTxn D))
  | .beforeContent _ _ => Option Content

/-- A part of the engine. -/
abbrev Edit (D α : Type) := Fallible (Op D) Ret EditError α

/-- What the engine works with: the digest of a content, the parse check (`check_syntax`: the original
parses and the edited text does not), and the journal's bound on a record. -/
structure EditEngine (D : Type) where
  digest : Content → D
  suspicious : String → Text → Text → Bool
  entryPayloadCap : ℕ

/-- `require_owned_workspace`, `verify_identity`. -/
def verify : Edit D Unit := do
  match ← Fallible.call (.verify : Op D) with
  | true => pure ()
  | false => Fallible.fail .foreignWorkspace

/-- A row of the journal; without it the transaction stays as it is. -/
def record (row : Row D) : Edit D Unit := do
  match ← Fallible.call (.record row : Op D) with
  | true => pure ()
  | false => Fallible.fail .journal

/-- A read under the edit bound, with the digest of the whole file. -/
def readWhole (e : EditEngine D) (path : String) : Edit D (Content × D) := do
  match ← Fallible.call (.read path : Op D) with
  | none => Fallible.fail (.unreadable path)
  | some content =>
    if maxFileBytes < content.len then Fallible.fail (.oversized path)
    else pure (content, e.digest content)

/-! ## Staging -/

/-- `StagedEdit`. -/
structure StagedEdit (D : Type) where
  rel : String
  expectedHash : D
  baseLen : ℕ
  original : Content
  edited : Text
  opsApplied : ℕ
  suspicious : Bool

/-- What `stage_one` makes of the content it read. -/
def stageContent (e : EditEngine D) (req : EditRequest D) (mode : RepairMode) (content : Content) :
    Except EditError (StagedEdit D) :=
  if e.digest content ≠ req.expectedHash then .error (.changedSinceRead req.path)
  else
    match content with
    | .raw _ => .error (.notUtf8 req.path)
    | .utf8 original =>
      match applyOps original req.ops with
      | .error (i, err) => .error (.op req.path i err)
      | .ok edited =>
        let suspicious := e.suspicious req.path original edited
        if suspicious = true ∧ mode = .rollback then .error (.introducesParseErrors req.path)
        else .ok ⟨req.path, e.digest content, content.len, content, edited, req.ops.length, suspicious⟩

theorem stageContent_eq_ok {e : EditEngine D} {req : EditRequest D} {mode : RepairMode}
    {content : Content} {s : StagedEdit D} (h : stageContent e req mode content = .ok s) :
    ∃ text edited, content = .utf8 text ∧ e.digest content = req.expectedHash ∧
      applyOps text req.ops = .ok edited ∧
      s = ⟨req.path, e.digest content, content.len, content, edited, req.ops.length,
        e.suspicious req.path text edited⟩ := by
  unfold stageContent at h
  split at h
  · cases h
  rename_i hdigest
  cases content with
  | raw bytes => cases h
  | utf8 text =>
    dsimp only at h
    split at h
    · cases h
    rename_i edited hops
    split at h
    · cases h
    · exact ⟨text, edited, rfl, not_not.mp hdigest, hops, (Except.ok.inj h).symm⟩

/-- `stage_one`. -/
def stageOne (e : EditEngine D) (req : EditRequest D) (mode : RepairMode) : Edit D (StagedEdit D) := do
  verify
  let (content, _) ← readWhole e req.path
  Fallible.lift (stageContent e req mode content)

/-- The stage budget. -/
def budget : Edit D Unit := do
  match ← Fallible.call (.budgetSpent : Op D) with
  | true => Fallible.fail .stageBudget
  | false => pure ()

/-- The loop of `stage_batch`. -/
def stageAll (e : EditEngine D) (mode : RepairMode) : List (EditRequest D) → Edit D (List (StagedEdit D))
  | [] => pure []
  | req :: rest => do
    budget
    let staged ← stageOne e req mode
    budget
    let others ← stageAll e mode rest
    pure (staged :: others)

/-- `stage_batch`. -/
def stageBatch (e : EditEngine D) (reqs : List (EditRequest D)) (mode : RepairMode) :
    Edit D (List (StagedEdit D)) := do
  verify
  stageAll e mode reqs

/-! ## Begin -/

/-- The checks of `begin_multi_file_edit` on the requests. -/
def checkPaths : List String → List (EditRequest D) → Except EditError Unit
  | _, [] => .ok ()
  | seen, req :: rest =>
    if req.path.utf8ByteSize = 0 ∨ maxTxnPathBytes < req.path.utf8ByteSize then .error (.badPath req.path)
    else if req.path ∈ seen then .error (.duplicatePath req.path)
    else checkPaths (req.path :: seen) rest

/-- The bound checks of `begin_multi_file_edit`. -/
def checkBegin (e : EditEngine D) (reqs : List (EditRequest D)) (session : String) :
    Except EditError Unit :=
  if reqs.isEmpty then .error .noFiles
  else if maxTxnFiles < reqs.length then .error .tooManyFiles
  else if session.utf8ByteSize = 0 ∨ 128 < session.utf8ByteSize then .error .badSession
  else
    match checkPaths [] reqs with
    | .error err => .error err
    | .ok () =>
      if min e.entryPayloadCap maxTxnPayloadBytes < 224 + (reqs.map fun r => r.path.utf8ByteSize + 152).sum
      then .error .oversizedRecord
      else .ok ()

/-- `PreparedEdit`. -/
structure PreparedEdit (D : Type) where
  txnId : ℕ
  strategy : EditTxnStrategy
  files : List (StagedEdit D)

/-- The file as the `prepared` row names it. -/
def StagedEdit.fileRef (s : StagedEdit D) : EditTxnFileRef D := ⟨s.rel, s.expectedHash, s.baseLen⟩

/-- `begin_multi_file_edit`. -/
def beginMultiFileEdit (e : EditEngine D) (reqs : List (EditRequest D)) (mode : RepairMode)
    (strategy : EditTxnStrategy) (txn : ℕ) (session : String) : Edit D (PreparedEdit D) := do
  verify
  Fallible.lift (checkBegin e reqs session)
  let staged ← stageBatch e reqs mode
  record (.prepared txn session (staged.map StagedEdit.fileRef) strategy)
  pure ⟨txn, strategy, staged⟩

/-! ## Commit -/

/-- `CommitRun`; of a committed file its path and its digest. -/
structure CommitRun (D : Type) where
  committed : List (String × D)
  conflicted : List String
  skipped : List String
  rolledBack : List String
  rollbackConflicts : List String
  opsAppliedTotal : ℕ

def CommitRun.empty : CommitRun D := ⟨[], [], [], [], [], 0⟩

/-- The restore phase of a rolled-back commit: each file we wrote is put back, if it still has our
content. -/
def restoreWritten : List (StagedEdit D × D) → CommitRun D → Edit D (CommitRun D)
  | [], run => pure run
  | (s, ourDigest) :: rest, run => do
    match ← Fallible.call (.cas s.rel ourDigest s.original : Op D) with
    | some _ => restoreWritten rest { run with rolledBack := run.rolledBack ++ [s.rel] }
    | none => restoreWritten rest { run with rollbackConflicts := run.rollbackConflicts ++ [s.rel] }

/-- The end of a commit whose file `i` conflicted. -/
def commitConflict (txn : ℕ) (strategy : EditTxnStrategy) (written : List (StagedEdit D × D)) (i : ℕ)
    (staged : StagedEdit D) (run : CommitRun D) : Edit D (CommitRun D) := do
  record (.progress txn ⟨i, staged.rel, .conflicted⟩)
  match strategy with
  | .rollBack =>
    let run ← restoreWritten written.reverse run
    record (.rolledBack txn run.rolledBack run.rollbackConflicts)
    pure run
  | .rollForward =>
    record (.committed txn (run.committed.map Prod.fst) run.conflicted run.skipped)
    pure run

/-- The loop of `commit_staged` from file `i` on: the first conflict ends it. -/
def commitLoop (txn : ℕ) (strategy : EditTxnStrategy) :
    ℕ → List (StagedEdit D) → List (StagedEdit D × D) → CommitRun D → Edit D (CommitRun D)
  | _, [], _, run => do
    record (.committed txn (run.committed.map Prod.fst) [] [])
    pure run
  | i, staged :: rest, written, run => do
    match ← Fallible.call (.cas staged.rel staged.expectedHash (.utf8 staged.edited) : Op D) with
    | some newHash =>
      record (.progress txn ⟨i, staged.rel, .committed⟩)
      commitLoop txn strategy (i + 1) rest (written ++ [(staged, newHash)])
        { run with
          committed := run.committed ++ [(staged.rel, newHash)]
          opsAppliedTotal := run.opsAppliedTotal + staged.opsApplied }
    | none =>
      commitConflict txn strategy written i staged
        { run with conflicted := run.conflicted ++ [staged.rel], skipped := rest.map StagedEdit.rel }

/-- `commit_prepared`. -/
def commitPrepared (prepared : PreparedEdit D) : Edit D (CommitRun D) := do
  verify
  verify
  commitLoop prepared.txnId prepared.strategy 0 prepared.files [] CommitRun.empty

/-! ## Recovery -/

/-- `EditTxnResume`: the requests of a transaction, issued again. -/
structure EditTxnResume (D : Type) where
  txnId : ℕ
  reqs : List (EditRequest D)

/-- `RecoveryTxnOutcome`. -/
structure RecoveryTxnOutcome where
  txnId : ℕ
  strategy : EditTxnStrategy
  committed : List String
  conflicted : List String
  skipped : List String
  rolledBack : List String
  rollbackConflicts : List String
  wrote : List String
  deriving DecidableEq, Repr

/-- The progress rows of `validate_open_txn`. -/
def checkProgress (files : List (EditTxnFileRef D)) : List ℕ → List TxnProgressRow → Except EditError Unit
  | _, [] => .ok ()
  | seen, row :: rest =>
    match files[row.seq]? with
    | none => .error (.badProgress row.seq)
    | some file =>
      if file.path ≠ row.path ∨ row.seq ∈ seen then .error (.badProgress row.seq)
      else checkProgress files (row.seq :: seen) rest

/-- `validate_open_txn`. -/
def validateOpenTxn (txn : OpenEditTxn D) : Except EditError Unit :=
  if txn.files.isEmpty then .error .emptyPrepared
  else
    match firstRepeat [] 0 (txn.files.map EditTxnFileRef.path) with
    | some (i, path) => .error (.listedTwice i path)
    | none => checkProgress txn.files [] txn.progress

/-- `JustWritten`: a file this recovery wrote. -/
structure JustWritten (D : Type) where
  idx : ℕ
  newHash : D
  original : Content

/-- What the loop of `recover_one` carries. -/
structure Replay (D : Type) where
  outcome : RecoveryTxnOutcome
  preRun : List ℕ
  thisRun : List (JustWritten D)
  replayStop : Bool

/-- The request of file `i`, checked against its prepared row. -/
def resumedRequest (resume : Option (EditTxnResume D)) (i : ℕ) (f : EditTxnFileRef D) :
    Except EditError (EditRequest D) :=
  match (resume.elim [] EditTxnResume.reqs)[i]? with
  | none => .error (.missingRequest i)
  | some req =>
    if req.path ≠ f.path then .error (.requestPath i)
    else if req.expectedHash ≠ f.baseDigest then .error (.requestDigest i)
    else .ok req

theorem resumedRequest_eq_ok {resume : Option (EditTxnResume D)} {i : ℕ} {f : EditTxnFileRef D}
    {req : EditRequest D} (h : resumedRequest resume i f = .ok req) :
    ∃ r ∈ resume, r.reqs[i]? = some req ∧ req.path = f.path ∧ req.expectedHash = f.baseDigest := by
  unfold resumedRequest at h
  cases resume with
  | none => simp at h
  | some r =>
    simp only [Option.elim_some] at h
    split at h
    · cases h
    rename_i req' hget
    split at h
    · cases h
    rename_i hpath
    split at h
    · cases h
    rename_i hhash
    obtain rfl := Except.ok.inj h
    exact ⟨r, rfl, hget, not_not.mp hpath, not_not.mp hhash⟩

/-- The replay of file `i`, which is still at its base: it is staged again and written. -/
def replayFile (e : EditEngine D) (mode : RepairMode) (txn : OpenEditTxn D)
    (resume : Option (EditTxnResume D)) (i : ℕ) (f : EditTxnFileRef D) (s : Replay D) :
    Edit D (Replay D) := do
  let req ← Fallible.lift (resumedRequest resume i f)
  let staged ← stageOne e req mode
  match ← Fallible.call (.cas staged.rel staged.expectedHash (.utf8 staged.edited) : Op D) with
  | some newHash =>
    record (.progress txn.txnId ⟨i, f.path, .committed⟩)
    pure { s with
      outcome := { s.outcome with
        committed := s.outcome.committed ++ [f.path], wrote := s.outcome.wrote ++ [f.path] }
      thisRun := s.thisRun ++ [⟨i, newHash, staged.original⟩] }
  | none =>
    record (.progress txn.txnId ⟨i, f.path, .conflicted⟩)
    pure { s with
      outcome := { s.outcome with conflicted := s.outcome.conflicted ++ [f.path] }
      replayStop := decide (txn.strategy = .rollBack) }

/-- A conflict was journaled before the crash. -/
def OpenEditTxn.hasConflictPre (txn : OpenEditTxn D) : Bool :=
  txn.progress.any (·.outcome = .conflicted)

/-- The transaction already owes a restore. -/
def OpenEditTxn.rollbackPending (txn : OpenEditTxn D) : Bool :=
  decide (txn.strategy = .rollBack) && txn.hasConflictPre

/-- What the progress rows say of file `i`. -/
def OpenEditTxn.outcomeOf (txn : OpenEditTxn D) (i : ℕ) : Option TxnFileOutcome :=
  (txn.progress.find? (·.seq = i)).map TxnProgressRow.outcome

/-- File `i` in the loop of `recover_one`. -/
def recoverFile (e : EditEngine D) (mode : RepairMode) (txn : OpenEditTxn D)
    (resume : Option (EditTxnResume D)) (i : ℕ) (f : EditTxnFileRef D) (s : Replay D) :
    Edit D (Replay D) :=
  match txn.outcomeOf i with
  | some .committed =>
    pure { s with
      outcome := { s.outcome with committed := s.outcome.committed ++ [f.path] }
      preRun := s.preRun ++ [i] }
  | some .conflicted =>
    pure { s with outcome := { s.outcome with conflicted := s.outcome.conflicted ++ [f.path] } }
  | none =>
    if s.replayStop then
      pure { s with outcome := { s.outcome with skipped := s.outcome.skipped ++ [f.path] } }
    else do
      let (_, currentHash) ← readWhole e f.path
      if currentHash ≠ f.baseDigest then Fallible.fail (.ambiguousFile f.path)
      else if txn.rollbackPending then
        pure { s with outcome := { s.outcome with skipped := s.outcome.skipped ++ [f.path] } }
      else replayFile e mode txn resume i f s

/-- The loop of `recover_one` over the files from `i` on. -/
def recoverLoop (e : EditEngine D) (mode : RepairMode) (txn : OpenEditTxn D)
    (resume : Option (EditTxnResume D)) : ℕ → List (EditTxnFileRef D) → Replay D → Edit D (Replay D)
  | _, [], s => pure s
  | i, f :: rest, s => do
    let s ← recoverFile e mode txn resume i f s
    recoverLoop e mode txn resume (i + 1) rest s

/-- A file put back, or refused because it changed again. -/
def RecoveryTxnOutcome.restored (o : RecoveryTxnOutcome) (path : String) (done : Bool) :
    RecoveryTxnOutcome :=
  if done then { o with rolledBack := o.rolledBack ++ [path] }
  else { o with rollbackConflicts := o.rollbackConflicts ++ [path] }

/-- The content that we wrote over a base, from the request of file `idx`. -/
def targetOf (resume : EditTxnResume D) (idx : ℕ) (f : EditTxnFileRef D) (base : Content) :
    Except EditError Text :=
  match resume.reqs[idx]? with
  | none => .error (.missingRequest idx)
  | some req =>
    match base with
    | .raw _ => .error (.notUtf8 f.path)
    | .utf8 text =>
      match applyOps text req.ops with
      | .error (i, err) => .error (.op f.path i err)
      | .ok target => .ok target

omit [DecidableEq D] in
theorem targetOf_eq_ok {resume : EditTxnResume D} {idx : ℕ} {f : EditTxnFileRef D} {base : Content}
    {target : Text} (h : targetOf resume idx f base = .ok target) :
    ∃ req text, resume.reqs[idx]? = some req ∧ base = .utf8 text ∧ applyOps text req.ops = .ok target := by
  unfold targetOf at h
  cases hget : resume.reqs[idx]? with
  | none => simp [hget] at h
  | some req =>
    cases base with
    | raw bytes => simp [hget] at h
    | utf8 text =>
      cases hops : applyOps text req.ops with
      | error err => simp [hget, hops] at h
      | ok result =>
        simp only [hget, hops, Except.ok.injEq] at h
        exact ⟨req, text, rfl, rfl, h ▸ hops⟩

/-- The restore of file `idx`, committed before the crash. -/
def restorePreRun (e : EditEngine D) (txn : OpenEditTxn D) (resume : Option (EditTxnResume D)) (idx : ℕ)
    (f : EditTxnFileRef D) (o : RecoveryTxnOutcome) : Edit D RecoveryTxnOutcome := do
  let (_, currentHash) ← readWhole e f.path
  if currentHash = f.baseDigest then pure (o.restored f.path true)
  else
    match resume with
    | none => Fallible.fail (.needsRequests txn.txnId)
    | some resume => do
      match ← Fallible.call (.beforeContent txn.txnId f.path : Op D) with
      | none => Fallible.fail (.beforeContentMissing f.path)
      | some base =>
        if e.digest base ≠ f.baseDigest then Fallible.fail (.beforeContentDigest f.path)
        else do
          let target ← Fallible.lift (targetOf resume idx f base)
          let done ← Fallible.call (.cas f.path (e.digest (.utf8 target)) base : Op D)
          pure (o.restored f.path (@Option.isSome D done))

/-- The loop of `recovery_rollback` over the committed files, newest first. -/
def rollbackLoop (e : EditEngine D) (txn : OpenEditTxn D) (resume : Option (EditTxnResume D)) :
    List (ℕ × Option (JustWritten D)) → RecoveryTxnOutcome → Edit D RecoveryTxnOutcome
  | [], o => pure o
  | (idx, written) :: rest, o => do
    match txn.files[idx]? with
    | none => Fallible.fail (.missingRequest idx)
    | some f =>
      match written with
      | some jw => do
        let done ← Fallible.call (.cas f.path jw.newHash jw.original : Op D)
        rollbackLoop e txn resume rest (o.restored f.path (@Option.isSome D done))
      | none => do
        let o ← restorePreRun e txn resume idx f o
        rollbackLoop e txn resume rest o

/-- The committed files, of this run and before it, in descending order. -/
def committedDescending (s : Replay D) : List (ℕ × Option (JustWritten D)) :=
  (s.thisRun.map (fun jw : JustWritten D => (jw.idx, some jw)) ++ s.preRun.map (fun idx => (idx, none))).insertionSort
    fun a b => b.1 ≤ a.1

/-- The terminal phase of `recover_one`. -/
def finishRecovery (e : EditEngine D) (txn : OpenEditTxn D) (resume : Option (EditTxnResume D))
    (s : Replay D) : Edit D RecoveryTxnOutcome :=
  if txn.strategy = .rollBack ∧ (txn.hasConflictPre || s.replayStop) = true then do
    let o ← rollbackLoop e txn resume (committedDescending s) s.outcome
    record (.rolledBack txn.txnId o.rolledBack o.rollbackConflicts)
    pure { o with committed := [] }
  else do
    record (.committed txn.txnId s.outcome.committed s.outcome.conflicted s.outcome.skipped)
    pure s.outcome

/-- `recover_one`. -/
def recoverOne (e : EditEngine D) (resumes : List (EditTxnResume D)) (mode : RepairMode)
    (txn : OpenEditTxn D) : Edit D RecoveryTxnOutcome := do
  Fallible.lift (validateOpenTxn txn)
  let resume := resumes.find? (·.txnId = txn.txnId)
  if resume.isNone ∧ txn.progress.length < txn.files.length then Fallible.fail (.needsRequests txn.txnId)
  else do
    let s ← recoverLoop e mode txn resume 0 txn.files
      ⟨⟨txn.txnId, txn.strategy, [], [], [], [], [], []⟩, [], [], false⟩
    finishRecovery e txn resume s

/-- The loop of `recover_edit_transactions`. -/
def recoverAll (e : EditEngine D) (resumes : List (EditTxnResume D)) (mode : RepairMode) :
    List (OpenEditTxn D) → Edit D (List RecoveryTxnOutcome)
  | [] => pure []
  | txn :: rest => do
    let o ← recoverOne e resumes mode txn
    let others ← recoverAll e resumes mode rest
    pure (o :: others)

/-- `recover_edit_transactions`. -/
def recoverEditTransactions (e : EditEngine D) (resumes : List (EditTxnResume D)) (mode : RepairMode) :
    Edit D (List RecoveryTxnOutcome) := do
  verify
  verify
  match firstRepeat [] 0 (resumes.map EditTxnResume.txnId) with
  | some (_, txn) => Fallible.fail (.duplicateResume txn)
  | none =>
    match ← Fallible.call (.openTxns : Op D) with
    | none => Fallible.fail .journal
    | some opened => recoverAll e resumes mode opened

end EditTxn
