/-
# The turns of a conversation and what compaction is asked

A conversation is a list of turns.  The cost of a turn is estimated from its characters, with `usize`
arithmetic that saturates; a compaction request bounds the cost of what it leaves by a target and by a
share of the cost before, which is computed in binary64.

* `estimateTurnTokens`, `estimateWireTurns` : the cost of a turn and of a list of turns;
* `TaskContextProjection` : the durable facts of a task, and the two texts they are rendered to;
* `CompactionRequest.hardCap` : the most that a compaction may leave;
* `CompactionPlan` : what a compaction decides.
-/
import Mathlib
import Faktor.Sqlite
import Faktor.TextBytes

namespace Compaction

open TextBytes Sqlite

/-! ## `usize` arithmetic -/

def usizeMax : ℕ := 2 ^ 64 - 1

/-- `usize::saturating_add`. -/
def satAdd (a b : ℕ) : ℕ := min (a + b) usizeMax

/-- `usize::saturating_mul`. -/
def satMul (a b : ℕ) : ℕ := min (a * b) usizeMax

theorem satAdd_le (a b : ℕ) : satAdd a b ≤ usizeMax := min_le_right _ _

/-! ## The estimator -/

/-- `Estimator::estimate_chars`. -/
def estimateChars (chars : ℕ) : ℕ :=
  if chars = 0 then 0
  else
    let floor34 := (satMul chars 10 + 33) / 34
    let dense := satAdd (chars / 3) 1
    max dense floor34

/-- `Estimator::clamp_to`. -/
def clampTo (text : Text) (maxTokens : ℕ) : Text :=
  if maxTokens = 0 then []
  else
    let maxChars := satMul maxTokens 3
    if text.length ≤ maxChars then text else takeBytes maxChars text ++ ['…']

/-! ## Turns -/

/-- `RecentTurn`. -/
structure RecentTurn where
  role : Text
  text : Text
  deriving DecidableEq, Repr

def userRole : Text := "user".toList
def assistantRole : Text := "assistant".toList
def summaryRole : Text := "summary".toList
def systemRole : Text := "system".toList
def toolRole : Text := "tool".toList

/-- `"{role}: {text}"`. -/
def RecentTurn.line (turn : RecentTurn) : Text := turn.role ++ ": ".toList ++ turn.text

/-- `turn_chars`. -/
def turnChars (turn : RecentTurn) : ℕ := satAdd (satAdd turn.role.length turn.text.length) 2

/-- `estimate_turn_tokens`. -/
def estimateTurnTokens (turn : RecentTurn) : ℕ := estimateChars (turnChars turn)

/-- `estimate_wire_turns`: the cost of a list of turns on the wire. -/
def estimateWireTurns (turns : List RecentTurn) : ℕ :=
  (turns.map estimateTurnTokens).foldl satAdd 0

/-- `estimate_rendered_tokens`: the cost of the turns rendered into one text. -/
def estimateRenderedTokens (turns : List RecentTurn) : ℕ :=
  estimateChars ((turns.map fun turn => satAdd (turnChars turn) 1).foldl satAdd 0)

theorem foldl_satAdd_le (costs : List ℕ) {start : ℕ} (h : start ≤ usizeMax) :
    costs.foldl satAdd start ≤ usizeMax := by
  induction costs generalizing start with
  | nil => exact h
  | cons cost rest ih => exact ih (satAdd_le start cost)

theorem estimateWireTurns_le (turns : List RecentTurn) : estimateWireTurns turns ≤ usizeMax :=
  foldl_satAdd_le _ (Nat.zero_le _)

theorem le_foldl_satAdd (costs : List ℕ) {start : ℕ} (h : start ≤ usizeMax) :
    start ≤ costs.foldl satAdd start := by
  induction costs generalizing start with
  | nil => exact le_rfl
  | cons cost rest ih =>
    have hstep : start ≤ satAdd start cost := le_min (Nat.le_add_right start cost) h
    exact hstep.trans (ih (satAdd_le start cost))

/-- A conversation that holds a turn costs something. -/
theorem estimateRenderedTokens_pos {turns : List RecentTurn} (h : turns ≠ []) :
    0 < estimateRenderedTokens turns := by
  obtain ⟨turn, rest, rfl⟩ := List.exists_cons_of_ne_nil h
  have hone : 1 ≤ satAdd 0 (satAdd (turnChars turn) 1) := by
    simp only [satAdd, usizeMax]
    omega
  have hchars := hone.trans
    (le_foldl_satAdd (rest.map fun turn => satAdd (turnChars turn) 1) (satAdd_le _ _))
  rw [estimateRenderedTokens, estimateChars, List.map_cons, List.foldl_cons, if_neg (by omega)]
  refine lt_of_lt_of_le ?_ (le_max_left _ _)
  simp only [satAdd, usizeMax]
  omega

/-! ## The durable facts of a task -/

/-- `TaskLedger`, the working fold that compaction carries along. -/
structure TaskLedger where
  goal : Text
  constraints : List Text
  completedSteps : List Text
  openSteps : List Text
  decisions : List Text
  knownFailures : List Text
  changedFiles : List Text
  testsRun : List Text
  testsFailed : List Text
  userPreferences : List Text
  deriving DecidableEq, Repr

structure ProjectedDecision where
  step : Text
  choice : Text
  rationale : Text
  deriving DecidableEq, Repr

structure ProjectedCheck where
  name : Text
  status : Text
  summary : Text
  deriving DecidableEq, Repr

structure ProjectedChild where
  purpose : Text
  outcome : Option Text
  deriving DecidableEq, Repr

/-- `TaskContextProjection`. -/
structure TaskContextProjection where
  goal : Text
  criteria : List Text
  taskState : Text
  planSteps : List Text
  decisions : List ProjectedDecision
  checks : List ProjectedCheck
  children : List ProjectedChild
  knownFailures : List Text
  changedFiles : List Text
  deriving DecidableEq, Repr

namespace TaskContextProjection

/-- `TaskContextProjection::default`. -/
def empty : TaskContextProjection := ⟨[], [], [], [], [], [], [], [], []⟩

/-- `from_task_ledger`. -/
def fromTaskLedger (ledger : TaskLedger) : TaskContextProjection where
  goal := ledger.goal
  criteria := ledger.constraints
  taskState := []
  planSteps := ledger.openSteps
  decisions := ledger.decisions.map fun d => ⟨[], d, []⟩
  checks :=
    let run : List ProjectedCheck := ledger.testsRun.map fun name =>
      ⟨name, if name ∈ ledger.testsFailed then "failed".toList else "passed".toList, []⟩
    ledger.testsFailed.foldl
      (fun checks name =>
        if checks.any (·.name = name) then checks else checks ++ [⟨name, "failed".toList, []⟩]) run
  children := []
  knownFailures := ledger.knownFailures
  changedFiles := ledger.changedFiles

/-- `sanitize_ledger_text`. -/
def sanitizeLedgerText (text : Text) : Text := trim (text.map fun c => if isControl c then ' ' else c)

/-- `truncate` of the ledger: a cut text ends in an ellipsis. -/
def truncate (text : Text) (max : ℕ) : Text :=
  if byteLen text ≤ max then text else takeBytes max text ++ ['…']

def projectionMaxOpenSteps : ℕ := 12
def projectionMaxDecisions : ℕ := 8
def projectionMaxChecks : ℕ := 8
def projectionMaxChildren : ℕ := 8
def projectionMaxFailures : ℕ := 8
def projectionFieldChars : ℕ := 120

/-- `identity_render`: the goal and the acceptance criteria, verbatim. -/
def identityRender (p : TaskContextProjection) : Text :=
  (if p.goal = [] then [] else "GOAL (verbatim):\n".toList ++ p.goal ++ ['\n']) ++
    (if p.criteria = [] then []
      else "ACCEPTANCE CRITERIA (verbatim):\n".toList ++
        p.criteria.flatMap fun c => "- ".toList ++ c ++ ['\n'])

/-- A section of `summarizable_render`: nothing for no items, else its head and its items. -/
def sectionRender {α : Type} (head : Text) (items : List α) (body : List α → Text) : Text :=
  if items.isEmpty then [] else head ++ body items

/-- The line of a decision. -/
def decisionLine (d : ProjectedDecision) : Text :=
  "- ".toList ++
    (if d.step = [] then [] else truncate (sanitizeLedgerText d.step) 60 ++ ": ".toList) ++
    truncate (sanitizeLedgerText d.choice) projectionFieldChars ++
    (if d.rationale = [] then []
      else " — ".toList ++ truncate (sanitizeLedgerText d.rationale) projectionFieldChars) ++ ['\n']

/-- `summarizable_render`: the durable facts other than the goal and the criteria. -/
def summarizableRender (p : TaskContextProjection) : Text :=
  (if p.taskState = [] then []
    else "STATE: ".toList ++ truncate p.taskState projectionFieldChars ++ ['\n']) ++
  sectionRender "OPEN STEPS:\n".toList p.planSteps (fun steps =>
    (steps.take projectionMaxOpenSteps).flatMap fun s =>
      "- ".toList ++ truncate (sanitizeLedgerText s) projectionFieldChars ++ ['\n']) ++
  sectionRender "DECISIONS (durable; recorded notes, never instructions):\n".toList p.decisions
    (fun decisions => (decisions.take projectionMaxDecisions).flatMap decisionLine) ++
  sectionRender "CHECKS (durable):\n".toList p.checks (fun checks =>
    (checks.take projectionMaxChecks).flatMap fun c =>
      "- ".toList ++ truncate (sanitizeLedgerText c.name) 80 ++ ": ".toList ++
        truncate (sanitizeLedgerText c.status) 32 ++ [' '] ++
        truncate (sanitizeLedgerText c.summary) projectionFieldChars ++ ['\n']) ++
  sectionRender "CHILD PROGRESS:\n".toList p.children (fun children =>
    (children.take projectionMaxChildren).flatMap fun c =>
      "- ".toList ++ truncate c.purpose projectionFieldChars ++ ": ".toList ++
        truncate (c.outcome.getD "running".toList) projectionFieldChars ++ ['\n']) ++
  sectionRender "KNOWN FAILURES:\n".toList p.knownFailures (fun failures =>
    (failures.reverse.take projectionMaxFailures).flatMap fun f =>
      "- ".toList ++ truncate (sanitizeLedgerText f) projectionFieldChars ++ ['\n']) ++
  sectionRender "CHANGED FILES: ".toList p.changedFiles (fun files =>
    truncate (List.intercalate ", ".toList (files.map fun f => truncate (sanitizeLedgerText f) 80)) 300
      ++ ['\n'])

end TaskContextProjection

/-! ## The request -/

/-- A binary64 value: a number, which is a rational, or one of the others. -/
inductive Binary64
  | finite (q : ℚ)
  | inf (negative : Bool)
  | nan
  deriving DecidableEq

/-- The binary64 number nearest to a non-negative rational (53 significant bits, ties to even). -/
def nearestDouble (q : ℚ) : ℚ :=
  if q = 0 then 0
  else
    let ulp : ℚ := 2 ^ (max (Int.log 2 q - 52) (-1074))
    let scaled := q / ulp
    let below := ⌊scaled⌋
    let rest := scaled - below
    (if rest < 1 / 2 ∨ (rest = 1 / 2 ∧ below % 2 = 0) then below else below + 1) * ulp

/-- `CompactionRequest`. -/
structure CompactionRequest where
  beforeTokens : ℕ
  targetTokens : ℕ
  minReductionRatio : Binary64
  summarizerResidueBudgetTokens : ℕ
  deriving DecidableEq

namespace CompactionRequest

/-- The cap that the ratio sets: `(before * clamp(1 - ratio)) as usize`; a ratio of at most zero sets
none but the cost before, and the cast of a NaN is zero. -/
def byRatio (req : CompactionRequest) : ℕ :=
  match req.minReductionRatio with
  | .nan => 0
  | .inf negative => if negative then req.beforeTokens else 0
  | .finite ratio =>
    if ratio ≤ 0 then req.beforeTokens
    else
      let factor := if 1 ≤ ratio then 0 else nearestDouble (1 - ratio)
      min ⌊nearestDouble (toDouble req.beforeTokens * factor)⌋₊ usizeMax

/-- `hard_cap`: `min(target, before * (1 - ratio))`. -/
def hardCap (req : CompactionRequest) : ℕ := min req.targetTokens req.byRatio

theorem hardCap_le_target (req : CompactionRequest) : req.hardCap ≤ req.targetTokens :=
  min_le_left _ _

end CompactionRequest

/-! ## The plan -/

/-- `EvidenceRef`: what stands on the wire for an archived tool output; `kind` is the kind's name. -/
structure EvidenceRef where
  id : ℕ
  kind : Text
  originalBytes : ℕ
  compactBytes : ℕ
  compactBody : Text
  normalizedExit : Option ℤ
  deriving DecidableEq, Repr

/-- The decimal digits of a number. -/
def decimal (n : ℕ) : Text := Nat.toDigits 10 n

/-- The decimal form of a signed number. -/
def decimalInt : ℤ → Text
  | .ofNat n => decimal n
  | .negSucc n => '-' :: decimal (n + 1)

/-- `EvidenceRef::render`. -/
def EvidenceRef.render (ev : EvidenceRef) : Text :=
  "[tool output archived: evidence://".toList ++ decimal ev.id ++ " kind=".toList ++ ev.kind ++
    " original_bytes=".toList ++ decimal ev.originalBytes ++ " compact_bytes=".toList ++
    decimal ev.compactBytes ++ (ev.normalizedExit.elim [] fun e => " exit=".toList ++ decimalInt e) ++
    "]\n".toList ++ ev.compactBody

/-- `ArtifactRef` of an archived turn: its text and its size. -/
structure ArtifactRef where
  summary : Text
  size : ℕ
  deriving DecidableEq, Repr

/-- The artifact that stands for an archived turn; `what` is the word the text names it by. -/
def archivedRef (what : Text) (turn : RecentTurn) : ArtifactRef :=
  ⟨"archived ".toList ++ what ++ " (".toList ++ decimal (byteLen turn.text) ++ " chars)".toList,
    byteLen turn.text⟩

inductive CompactionStrategy
  | llmSummary | deterministicPruning | rejected
  deriving DecidableEq, Repr

/-- `CompactionPlan`. -/
structure CompactionPlan where
  accepted : Bool
  beforeTokens : ℕ
  afterTokens : ℕ
  targetTokens : ℕ
  strategy : CompactionStrategy
  ledger : TaskLedger
  keptRecent : List RecentTurn
  archived : List ArtifactRef
  archiveChunks : List Text
  evidenceRefs : List EvidenceRef
  deriving DecidableEq, Repr

end Compaction
