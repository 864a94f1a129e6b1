/-
# Tournaments: settlement, comparison and the durable fold

A tournament runs one goal with several candidates.  Each candidate is settled once with its evidence; the
comparison ranks those that are done, verified and reviewed, proposes the first and discards the others.
Each step leaves a row in the session's ledger, and a tournament is reconstructed by folding the rows.

* `Tournament.new`, `Tournament.settleCandidate` : the tournament and its settlements;
* `Tournament.ranking`, `Tournament.decide`, `Tournament.abort` : the comparison;
* `CandidateSettlement.toRow`, `CandidateSettlement.fromRow` : the rows;
* `reopen` : the fold.
-/
import Mathlib
import Faktor.TextBytes

namespace Tournaments

open TextBytes

/-! ## Data -/

def minCandidates : ℕ := 2
def maxCandidates : ℕ := 4
def maxCriteria : ℕ := 16
def maxCriterionBytes : ℕ := 512
def maxGoalBytes : ℕ := 512
def maxIdBytes : ℕ := 64
def maxRationaleBytes : ℕ := 1024

/-- `Criterion`; the row of a criterion and a check derived from it have the same two fields. -/
structure Criterion where
  id : Text
  spec : Text
  deriving DecidableEq, Repr

/-- `ReviewRank`, ascending. -/
inductive ReviewRank
  | block | concern | clean
  deriving DecidableEq, Repr

/-- `ReviewRank::tag`. -/
def ReviewRank.tag : ReviewRank → Text
  | .block => "block".toList
  | .concern => "concern".toList
  | .clean => "clean".toList

/-- `ReviewRank::from_tag`. -/
def ReviewRank.fromTag (tag : Text) : Option ReviewRank :=
  if tag = "block".toList then some .block
  else if tag = "concern".toList then some .concern
  else if tag = "clean".toList then some .clean
  else none

structure ReviewVerdict where
  rank : ReviewRank
  reviewer : Text
  deriving DecidableEq, Repr

inductive CandidateState
  | running | done | failed | cancelled | discarded
  deriving DecidableEq, Repr

/-- `CandidateState::tag`. -/
def CandidateState.tag : CandidateState → Text
  | .running => "running".toList
  | .done => "done".toList
  | .failed => "failed".toList
  | .cancelled => "cancelled".toList
  | .discarded => "discarded".toList

/-- The id of a verification record; zero is none. -/
abbrev VerificationRecordId : Type := {raw : ℕ // raw ≠ 0}

structure Candidate where
  childId : Text
  worktree : Text
  baseRevision : Text
  state : CandidateState
  verification : Option VerificationRecordId
  verificationPass : Option Bool
  review : Option ReviewVerdict
  costMicro : ℕ
  wallMs : ℕ
  settled : Bool
  deriving DecidableEq, Repr

/-- `Candidate::fresh`. -/
def Candidate.fresh (childId : Text) : Candidate where
  childId := childId
  worktree := []
  baseRevision := []
  state := .running
  verification := none
  verificationPass := none
  review := none
  costMicro := 0
  wallMs := 0
  settled := false

/-- `TournamentState`. -/
inductive TournamentState
  | opened | deciding | decided | aborted
  deriving DecidableEq, Repr

/-- `TournamentState::is_terminal`. -/
def TournamentState.isTerminal (s : TournamentState) : Bool := s = .decided || s = .aborted

structure Tournament where
  id : Text
  runFamily : Text
  goal : Text
  criteria : List Criterion
  candidates : List Candidate
  winner : Option Text
  state : TournamentState
  deriving DecidableEq, Repr

structure CandidateSettlement where
  childId : Text
  worktree : Text
  baseRevision : Text
  state : CandidateState
  verification : Option VerificationRecordId
  verificationPass : Option Bool
  checks : List Criterion
  review : Option ReviewVerdict
  costMicro : ℕ
  wallMs : ℕ
  reason : Text
  deriving DecidableEq, Repr

/-- `TournamentDecision`. -/
structure TournamentDecision where
  tournamentId : Text
  winner : Candidate
  rationale : Text
  discarded : List (Text × Text)
  deriving DecidableEq, Repr

/-- `TournamentError`, with what its texts name. -/
inductive TournamentError
  | invalidCandidateCount (requested min max : ℕ)
  | invalidCriteriaCount (got max : ℕ)
  | invalidCriterion (id : Text)
  | duplicateCriterion (id : Text)
  | invalidId (detail : String)
  | oversized (detail : String)
  | unknownCandidate (id : Text)
  | duplicateSettlement (id : Text)
  | illegalSettlementState (state : CandidateState)
  | verificationSpecDrift
  | reviewNotIndependent (reviewer : Text)
  | notOpen (state : TournamentState)
  | noEligibleWinner (detail : String)
  deriving DecidableEq, Repr

/-! ## A new tournament -/

/-- `check_id`. -/
def checkId (value : Text) (what : String) : Except TournamentError Unit :=
  if value = [] ∨ maxIdBytes < byteLen value then .error (.invalidId (what ++ " must be 1..=64 bytes"))
  else if value.any (fun c => 127 < c.toNat) ∨ '/' ∈ value ∨ '\\' ∈ value then
    .error (.invalidId (what ++ " must be ASCII without '/' or '\\\\'"))
  else .ok ()

/-- The criteria in order; `seen` are the ids before them. -/
def checkCriteria (seen : List Text) : List Criterion → Except TournamentError Unit
  | [] => .ok ()
  | c :: rest => do
    checkId c.id "criterion id"
    if trim c.spec = [] ∨ maxCriterionBytes < byteLen c.spec then .error (.invalidCriterion c.id)
    else if c.id ∈ seen then .error (.duplicateCriterion c.id)
    else checkCriteria (seen ++ [c.id]) rest

/-- The id of candidate `i`. -/
def childId (i : ℕ) : Text := "child-".toList ++ Nat.toDigits 10 i

namespace Tournament

/-- `Tournament::new`. -/
def new (id runFamily goal : Text) (criteria : List Criterion) (n : ℕ) : Except TournamentError Tournament := do
  checkId id "tournament id"
  checkId runFamily "tournament run family"
  if trim goal = [] ∨ maxGoalBytes < byteLen goal then
    .error (.oversized "tournament goal must be 1..=512 bytes")
  else if ¬ (minCandidates ≤ n ∧ n ≤ maxCandidates) then
    .error (.invalidCandidateCount n minCandidates maxCandidates)
  else if criteria = [] ∨ maxCriteria < criteria.length then
    .error (.invalidCriteriaCount criteria.length maxCriteria)
  else do
    checkCriteria [] criteria
    return { id, runFamily, goal, criteria
             candidates := (List.range n).map fun i => Candidate.fresh (childId i)
             winner := none
             state := .opened }

/-- `check_specs`; two check sets are the same bytes exactly when they are the same. -/
def checkSpecs (t : Tournament) : List Criterion := t.criteria

/-! ## Settlements -/

/-- A reviewer who is none of the candidates. -/
def independent (t : Tournament) (settlement : CandidateSettlement) (review : ReviewVerdict) : Bool :=
  !(trim review.reviewer = [] || maxIdBytes < byteLen review.reviewer ||
    t.candidates.any (fun c => c.childId = review.reviewer) || review.reviewer = settlement.childId)

end Tournament

/-- The candidate with the evidence of its settlement. -/
def Candidate.settle (c : Candidate) (s : CandidateSettlement) : Candidate :=
  { c with
    worktree := s.worktree
    baseRevision := s.baseRevision
    state := s.state
    verification := s.verification
    verificationPass := s.verificationPass
    review := s.review
    costMicro := s.costMicro
    wallMs := s.wallMs
    settled := true }

/-- The first candidate of the settlement's id is settled, once. -/
def settleIn (s : CandidateSettlement) : List Candidate → Except TournamentError (List Candidate)
  | [] => .error (.unknownCandidate s.childId)
  | c :: rest =>
    if c.childId = s.childId then
      if c.settled then .error (.duplicateSettlement s.childId) else .ok (c.settle s :: rest)
    else do
      let rest ← settleIn s rest
      return c :: rest

namespace Tournament

/-- `settle_candidate`. -/
def settleCandidate (t : Tournament) (s : CandidateSettlement) : Except TournamentError Tournament :=
  if t.state ≠ .opened then .error (.notOpen t.state)
  else if s.checks ≠ t.checkSpecs then .error .verificationSpecDrift
  else if s.state = .running ∨ s.state = .discarded then .error (.illegalSettlementState s.state)
  else
    match s.review with
    | some review =>
      if t.independent s review then do
        let candidates ← settleIn s t.candidates
        return { t with candidates }
      else .error (.reviewNotIndependent review.reviewer)
    | none => do
      let candidates ← settleIn s t.candidates
      return { t with candidates }

/-- Settlements one after another. -/
def settleAll (t : Tournament) : List CandidateSettlement → Except TournamentError Tournament
  | [] => .ok t
  | s :: rest => do
    let t ← t.settleCandidate s
    t.settleAll rest

end Tournament

/-! ## The comparison -/

/-- `review_rank_of`. -/
def reviewRankOf (c : Candidate) : ℕ :=
  match c.review.map ReviewVerdict.rank with
  | some .clean => 2
  | some .concern => 1
  | some .block => 0
  | none => 0

/-- The candidates that `ranking` keeps. -/
def Candidate.ranked (c : Candidate) : Bool :=
  c.state = .done && c.verificationPass = some true && c.review.isSome

/-- The comparison of the sort: review rank, then lower cost, then ordinal. -/
def Precedes (x y : Candidate × ℕ) : Prop :=
  reviewRankOf y.1 < reviewRankOf x.1 ∨
    reviewRankOf y.1 = reviewRankOf x.1 ∧
      (x.1.costMicro < y.1.costMicro ∨ x.1.costMicro = y.1.costMicro ∧ x.2 ≤ y.2)

instance : DecidableRel Precedes := fun _ _ => inferInstanceAs (Decidable (_ ∨ _))

/-- `discard_reason`. -/
def discardReason (c : Candidate) (ordinal : ℕ) : Text :=
  let ordinalText := "(ordinal ".toList ++ Nat.toDigits 10 ordinal ++ ")".toList
  if c.state = .discarded then "candidate was already discarded ".toList ++ ordinalText
  else if c.state ≠ .done then "candidate ended ".toList ++ c.state.tag ++ " ".toList ++ ordinalText
  else
    match c.verificationPass, c.review with
    | some false, _ => "verification failed ".toList ++ ordinalText
    | none, _ => "no verification verdict ".toList ++ ordinalText
    | some true, none => "no independent review ".toList ++ ordinalText
    | some true, some review =>
      "lost the deterministic comparison (review ".toList ++ review.rank.tag ++ ", cost_micro ".toList
        ++ Nat.toDigits 10 c.costMicro ++ ", ordinal ".toList ++ Nat.toDigits 10 ordinal ++ ")".toList

/-- The audit text of a decision, cut to its bound. -/
def rationaleOf (winner : Candidate) (ordinal : ℕ) (discarded : List (Text × Text)) : Text :=
  let rank := match winner.review with
    | some review => review.rank.tag
    | none => "none".toList
  let losers := discarded.map fun (id, why) => id ++ " (".toList ++ why ++ ")".toList
  takeBytes maxRationaleBytes
    ("winner ".toList ++ winner.childId ++ " (verification=pass, review=".toList ++ rank ++ ", cost_micro=".toList
      ++ Nat.toDigits 10 winner.costMicro ++ ", ordinal=".toList ++ Nat.toDigits 10 ordinal
      ++ "); losers discarded: ".toList ++ ("; ".toList).intercalate losers)

namespace Tournament

/-- `ranking`, each candidate with its ordinal. -/
def ranking (t : Tournament) : List (Candidate × ℕ) :=
  (t.candidates.zipIdx.filter fun x => x.1.ranked).insertionSort Precedes

/-- `decide`. -/
def decide (t : Tournament) : Except TournamentError (TournamentDecision × Tournament) :=
  if t.state ≠ .opened then .error (.notOpen t.state)
  else
    match t.ranking with
    | [] => .error (.noEligibleWinner
        "no candidate is Done with a passing verification and an independent review")
    | (winner, _) :: _ =>
      let winnerIdx := t.candidates.findIdx fun c => c.childId = winner.childId
      let discarded := (t.candidates.zipIdx.filter fun x => x.2 ≠ winnerIdx).map fun x =>
        (x.1.childId, discardReason x.1 x.2)
      .ok ({ tournamentId := t.id, winner, rationale := rationaleOf winner winnerIdx discarded, discarded },
        { t with
          candidates := t.candidates.zipIdx.map fun x =>
            if x.2 = winnerIdx then x.1 else { x.1 with state := .discarded }
          winner := some winner.childId
          state := .decided })

/-- Every candidate is discarded and there is no winner. -/
def discardAll (t : Tournament) : Tournament :=
  { t with
    state := .aborted
    winner := none
    candidates := t.candidates.map fun c => { c with state := .discarded } }

/-- `abort`. -/
def abort (t : Tournament) : Except TournamentError Tournament :=
  if t.state.isTerminal then .error (.notOpen t.state) else .ok t.discardAll

end Tournament

/-! ## Rows -/

/-- `TournamentCandidateRow`. -/
structure CandidateRow where
  childId : Text
  worktree : Text
  baseRevision : Text
  deriving DecidableEq, Repr

/-- `TournamentSettlementRow`. -/
structure SettlementRow where
  childId : Text
  worktree : Text
  baseRevision : Text
  state : Text
  verification : Option ℕ
  verificationPass : Option Bool
  checks : List Criterion
  review : Option Text
  reviewer : Option Text
  costMicro : ℕ
  wallMs : ℕ
  reason : Text
  deriving DecidableEq, Repr

/-- `LedgerPayload`; the rows that are not about tournaments are one kind. -/
inductive LedgerPayload
  | tournamentStarted (tournamentId runFamily goal : Text) (criteria : List Criterion)
      (candidates : List CandidateRow)
  | candidateSettled (tournamentId : Text) (settlement : SettlementRow)
  | tournamentDecided (tournamentId : Text) (winner : Option Text) (outcome rationale : Text)
  | other
  deriving DecidableEq, Repr

/-- What is wrong with a row. -/
inductive Corruption
  | duplicateStarted | settledBeforeStarted | settledAfterDecision | decidedBeforeStarted | duplicateDecided
  | noWinner | unknownWinner (id : Text)
  | settlementState (tag : Text) | verificationId | reviewRank (tag : Text) | partialReview
  | refused (error : TournamentError)
  deriving DecidableEq, Repr

def outcomeDecided : Text := "decided".toList
def outcomeAborted : Text := "aborted".toList

/-- `to_row`. -/
def CandidateSettlement.toRow (s : CandidateSettlement) : SettlementRow where
  childId := s.childId
  worktree := s.worktree
  baseRevision := s.baseRevision
  state := s.state.tag
  verification := s.verification.map Subtype.val
  verificationPass := s.verificationPass
  checks := s.checks
  review := s.review.map fun r => r.rank.tag
  reviewer := s.review.map ReviewVerdict.reviewer
  costMicro := s.costMicro
  wallMs := s.wallMs
  reason := s.reason

/-- The state that a settlement row names. -/
def stateOfTag (tag : Text) : Except Corruption CandidateState :=
  if tag = CandidateState.done.tag then .ok .done
  else if tag = CandidateState.failed.tag then .ok .failed
  else if tag = CandidateState.cancelled.tag then .ok .cancelled
  else .error (.settlementState tag)

/-- The verification record that a settlement row names. -/
def verificationOfRaw : Option ℕ → Except Corruption (Option VerificationRecordId)
  | none => .ok none
  | some raw => if h : raw ≠ 0 then .ok (some ⟨raw, h⟩) else .error .verificationId

/-- The review that a settlement row names. -/
def reviewOfTags : Option Text → Option Text → Except Corruption (Option ReviewVerdict)
  | some tag, some reviewer =>
    match ReviewRank.fromTag tag with
    | some rank => .ok (some { rank, reviewer })
    | none => .error (.reviewRank tag)
  | none, none => .ok none
  | _, _ => .error .partialReview

/-- `from_row`. -/
def CandidateSettlement.fromRow (row : SettlementRow) : Except Corruption CandidateSettlement := do
  let state ← stateOfTag row.state
  let verification ← verificationOfRaw row.verification
  let review ← reviewOfTags row.review row.reviewer
  return { childId := row.childId
           worktree := row.worktree
           baseRevision := row.baseRevision
           state, verification
           verificationPass := row.verificationPass
           checks := row.checks
           review
           costMicro := row.costMicro
           wallMs := row.wallMs
           reason := row.reason }

namespace Tournament

/-- The row of `persist_started`. -/
def startedRow (t : Tournament) : LedgerPayload :=
  .tournamentStarted t.id t.runFamily t.goal t.criteria
    (t.candidates.map fun c => ⟨c.childId, c.worktree, c.baseRevision⟩)

/-- The row of `persist_settlement`. -/
def settledRow (t : Tournament) (s : CandidateSettlement) : LedgerPayload := .candidateSettled t.id s.toRow

/-- The row of `persist_decision`. -/
def decidedRow (t : Tournament) (outcome rationale : Text) : LedgerPayload :=
  .tournamentDecided t.id t.winner outcome rationale

end Tournament

/-! ## The fold -/

/-- The tournament of a started row. -/
def startedTournament (id runFamily goal : Text) (criteria : List Criterion) (candidates : List CandidateRow) :
    Tournament where
  id := id
  runFamily := runFamily
  goal := goal
  criteria := criteria
  candidates := candidates.map fun c =>
    { Candidate.fresh c.childId with worktree := c.worktree, baseRevision := c.baseRevision }
  winner := none
  state := .opened

/-- A settlement row of a tournament. -/
def foldSettled (t : Tournament) (row : SettlementRow) : Except Corruption Tournament :=
  if t.state ≠ .opened then .error .settledAfterDecision
  else do
    let settlement ← CandidateSettlement.fromRow row
    match t.settleCandidate settlement with
    | .ok t => .ok t
    | .error e => .error (.refused e)

/-- A decision row of a tournament. -/
def foldDecided (t : Tournament) (winner : Option Text) (outcome : Text) : Except Corruption Tournament :=
  if t.state ≠ .opened then .error .duplicateDecided
  else if outcome = outcomeAborted then .ok t.discardAll
  else
    match winner with
    | none => .error .noWinner
    | some winnerId =>
      if ¬ t.candidates.any (fun c => c.childId = winnerId) then .error (.unknownWinner winnerId)
      else .ok { t with
        candidates := t.candidates.map fun c => if c.childId ≠ winnerId then { c with state := .discarded } else c
        winner := some winnerId
        state := .decided }

/-- The tournaments by id; `update` replaces the one of an id. -/
def update (t : Tournament) (byId : List Tournament) : List Tournament :=
  byId.map fun u => if u.id = t.id then t else u

/-- One row of the ledger. -/
def foldRow (byId : List Tournament) : LedgerPayload → Except (Text × Corruption) (List Tournament)
  | .tournamentStarted id runFamily goal criteria candidates =>
    if byId.any (fun t => t.id = id) then .error (id, .duplicateStarted)
    else .ok (byId ++ [startedTournament id runFamily goal criteria candidates])
  | .candidateSettled id row =>
    match byId.find? fun t => t.id = id with
    | none => .error (id, .settledBeforeStarted)
    | some t =>
      match foldSettled t row with
      | .ok t => .ok (update t byId)
      | .error e => .error (id, e)
  | .tournamentDecided id winner outcome _ =>
    match byId.find? fun t => t.id = id with
    | none => .error (id, .decidedBeforeStarted)
    | some t =>
      match foldDecided t winner outcome with
      | .ok t => .ok (update t byId)
      | .error e => .error (id, e)
  | .other => .ok byId

/-- The rows of the ledger, page after page. -/
def foldRows : List Tournament → List LedgerPayload → Except (Text × Corruption) (List Tournament)
  | byId, [] => .ok byId
  | byId, row :: rows => do
    let byId ← foldRow byId row
    foldRows byId rows

/-- `reopen` : the tournaments in the order of their ids. -/
def reopen (rows : List LedgerPayload) : Except (Text × Corruption) (List Tournament) := do
  let byId ← foldRows [] rows
  return byId.insertionSort fun t u => t.id ≤ u.id

end Tournaments
