/-
# The ledger of requests and decisions

A file of entries, each chained to the one before by its digest, with two copies of its last position
(the committed head and the anchor) and the largest time that was ever observed.  Every operation
replays the whole file; a writer appends a line, then the head, then the anchor, and can die in between.

* `ApprovalLedger.record` : one entry of the file, checked and taken up;
* `Disk.load`, `Disk.begin` : the ledger as a reader and as a writer see it;
* `Disk.append` : what a writer leaves;
* `Disk.effectiveNow` : the observed time, never below the largest one.
-/
import Faktor.ApprovalModel

namespace Approval

/-! ## Entries -/

structure LedgerEntry where
  seq : ℕ
  recordedAtMs : ℕ
  prevDigest : String
  body : LedgerBody
  digest : String
  deriving DecidableEq, Repr

/-- A replayed ledger. -/
structure ApprovalLedger where
  entries : List LedgerEntry
  requests : KeyTable ApprovalRequest.id
  decisions : KeyTable fun d : ApprovalDecision => d.requestId

def ApprovalLedger.empty : ApprovalLedger where
  entries := []
  requests := KeyTable.empty
  decisions := KeyTable.empty

variable {Key : Type} (p : Primitives Key)

namespace ApprovalLedger

/-- The digest that the next entry names. -/
def tail (ledger : ApprovalLedger) : String :=
  (ledger.entries.getLast?.map (·.digest)).getD (String.ofList (List.replicate 64 '0'))

/-- The position and the digest of the last entry. -/
def position (ledger : ApprovalLedger) : Option (ℕ × String) :=
  ledger.entries.getLast?.map fun entry => (entry.seq, entry.digest)

/-- The decision is about the request as it is recorded, and made in its lifetime. -/
def binds (request : ApprovalRequest) (decision : ApprovalDecision) : Bool :=
  p.requestDigest request = decision.requestDigest
    && request.createdAtMs ≤ decision.decidedAtMs && decision.decidedAtMs ≤ request.expiresAtMs

/-- One entry of the file: `load_inner`'s loop. -/
def record (ledger : ApprovalLedger) (entry : LedgerEntry) : Except ApprovalError ApprovalLedger :=
  if entry.seq ≠ ledger.entries.length + 1 ∨ entry.prevDigest ≠ ledger.tail
      ∨ p.entryDigest entry.prevDigest entry.seq entry.recordedAtMs entry.body ≠ entry.digest then
    .error .store
  else
    match entry.body with
    | .requested request =>
      if !request.validate p then .error .invalid
      else
        match ledger.requests.insert? request with
        | none => .error .store
        | some requests => .ok { ledger with entries := ledger.entries ++ [entry], requests := requests }
    | .decided decision =>
      match ledger.requests.get? decision.requestId with
      | none => .error .store
      | some request => do
        decision.validate p
        if !binds p request decision || decision.principal.id = request.requester.id then
          .error .store
        else
          match ledger.decisions.insert? decision with
          | none => .error .store
          | some decisions =>
            .ok { ledger with entries := ledger.entries ++ [entry], decisions := decisions }

end ApprovalLedger

/-! ## The files -/

/-- A line of the file; a writer that dies in the middle of a line leaves no entry. -/
inductive Line
  | entry (entry : LedgerEntry)
  | torn
  deriving DecidableEq, Repr

/-- The data directory.  No lines is no file. -/
structure Disk where
  lines : List Line
  head : Option (ℕ × String)
  anchor : Option (ℕ × String)
  /-- `max_seen_wall_ms`. -/
  clock : ℕ
  operators : List RegisteredOperator
  deriving DecidableEq, Repr

/-- Where a writer dies. -/
inductive Crash
  | never
  | inLine
  | beforeHead
  | beforeAnchor
  deriving DecidableEq, Repr

/-- The lines of the file, replayed. -/
def replay : ApprovalLedger → List Line → Except ApprovalError ApprovalLedger
  | ledger, [] => .ok ledger
  | _, .torn :: _ => .error .store
  | ledger, .entry entry :: rest => do
    let ledger ← ledger.record p entry
    replay ledger rest

namespace Disk

variable (disk : Disk)

/-- `verify_anchor`: a writer brings an anchor up to a tail that the head confirms. -/
def verifyAnchor (ledger : ApprovalLedger) (heal : Bool) : Except ApprovalError Disk :=
  match disk.anchor with
  | none => if ledger.entries = [] then .ok disk else .error .anchorDegraded
  | some (seq, digest) =>
    if seq = 0 ∨ !isHex 64 digest then .error .anchorDegraded
    else if (ledger.entries[seq - 1]?.map (·.digest)) ≠ some digest then .error .ledgerRollback
    else if seq < ledger.entries.length then
      if heal ∧ disk.head = ledger.position then .ok { disk with anchor := ledger.position }
      else .error .anchorDegraded
    else .ok disk

/-- `verify_committed_head`. -/
def verifyCommittedHead (ledger : ApprovalLedger) : Except ApprovalError Unit :=
  match disk.head with
  | none => .ok ()
  | some (seq, digest) =>
    if seq = 0 ∨ !isHex 64 digest then .error .store
    else if (ledger.entries[seq - 1]?.map fun entry => (entry.seq, entry.digest)) = some (seq, digest)
    then .ok ()
    else .error .store

/-- `load_inner`. -/
def loadInner (heal : Bool) : Except ApprovalError ApprovalLedger × Disk :=
  if disk.lines = [] then
    match disk.verifyAnchor .empty false with
    | .error e => (.error e, disk)
    | .ok disk => (.ok .empty, disk)
  else
    match replay p .empty disk.lines with
    | .error e => (.error e, disk)
    | .ok ledger =>
      match disk.verifyAnchor ledger heal with
      | .error e => (.error e, disk)
      | .ok disk =>
        match disk.verifyCommittedHead ledger with
        | .error e => (.error e, disk)
        | .ok () => (.ok ledger, disk)

/-- `ApprovalLedger::load`. -/
def load : Except ApprovalError ApprovalLedger := (disk.loadInner p false).1

/-- `ApprovalLedger::begin`. -/
def begin : Except ApprovalError ApprovalLedger × Disk := disk.loadInner p true

/-- The checks of `LedgerTransaction::append`: whether the body is new. -/
def appendCheck (ledger : ApprovalLedger) (body : LedgerBody) (now : ℕ) : Except ApprovalError Bool :=
  if now = 0 then .error .invalid
  else
    match body with
    | .requested request =>
      if !request.validate p || request.createdAtMs ≠ now then .error .invalid
      else
        match ledger.requests.get? request.id with
        | some existing => if existing = request then .ok false else .error .conflict
        | none =>
          let openRequests := (ledger.requests.rows.filter fun request =>
            (ledger.decisions.get? request.id).isNone && now ≤ request.expiresAtMs).length
          if maxOpenApprovals ≤ openRequests then .error (.pendingLimit openRequests) else .ok true
    | .decided decision =>
      match ledger.requests.get? decision.requestId with
      | none => .error (.notFound decision.requestId)
      | some request => do
        decision.validate p
        if !ApprovalLedger.binds p request decision then .error .invalid
        else if decision.principal.id = request.requester.id then
          .error (.selfApproval decision.principal.id)
        else
          match ledger.decisions.get? decision.requestId with
          | some existing => if existing = decision then .ok false else .error .conflict
          | none => .ok true

/-- The entry that an append writes. -/
def nextEntry (ledger : ApprovalLedger) (body : LedgerBody) (now : ℕ) : LedgerEntry :=
  let seq := ledger.entries.length + 1
  { seq := seq, recordedAtMs := now, prevDigest := ledger.tail, body := body
    digest := p.entryDigest ledger.tail seq now body }

/-- The files that an append leaves. -/
def write (entry : LedgerEntry) : Crash → Disk
  | .inLine => { disk with lines := disk.lines ++ [.torn] }
  | .beforeHead => { disk with lines := disk.lines ++ [.entry entry] }
  | .beforeAnchor =>
    { disk with lines := disk.lines ++ [.entry entry], head := some (entry.seq, entry.digest) }
  | .never =>
    { disk with
      lines := disk.lines ++ [.entry entry]
      head := some (entry.seq, entry.digest)
      anchor := some (entry.seq, entry.digest) }

/-- `LedgerTransaction::append`: an append that a crash interrupts returns nothing. -/
def append (ledger : ApprovalLedger) (body : LedgerBody) (now : ℕ) (crash : Crash) :
    Except ApprovalError Unit × Disk :=
  match appendCheck p ledger body now with
  | .error e => (.error e, disk)
  | .ok false => (.ok (), disk)
  | .ok true =>
    (if crash = .never then .ok () else .error .store, disk.write (nextEntry p ledger body now) crash)

/-- `MonotonicClock::effective_now`: the time that a call goes by. -/
def effectiveNow (observed : ℕ) : ℕ := max observed disk.clock

/-- `observe_locked`: the time is kept. -/
def observe (observed : ℕ) : Disk := { disk with clock := disk.effectiveNow observed }

end Disk

end Approval
