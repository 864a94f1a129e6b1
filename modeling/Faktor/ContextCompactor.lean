/-
# The compactor

A compaction first moves large tool outputs behind evidence references and drops exact duplicates, then
splits what an earlier compaction wrote (summaries, archive pointers) from the conversation proper, the
residue.  A summary by the model replaces the residue when the result meets the cap; otherwise the newest
turns that fit are kept and the others archived.

* `Compactor.prepareHistory`, `partitionPriorMetadata` : what is compacted;
* `fillChunks`, `archiveDigest` : the text of the archived turns, and the pointer to it;
* `compactSummaryText` : what becomes of the model's summary;
* `Pruning.keepPass`, `Pruning.keepLoop` : the turns kept under a budget, and the budget lowered;
* `Compactor.compactProjected` : the whole compaction.
-/
import Mathlib
import Faktor.KeepFirst
import Faktor.ContextModel

namespace Compaction

open TextBytes

/-! ## The history that is compacted -/

/-- `TOOL_OUTPUT_EVIDENCE_THRESHOLD_BYTES`. -/
def toolOutputEvidenceThresholdBytes : ℕ := 16 * 1024

/-- `is_evidence_eligible`. -/
def isEvidenceEligible (turn : RecentTurn) : Bool :=
  toolOutputEvidenceThresholdBytes < byteLen turn.text && asciiLower turn.role == toolRole

/-- The evidence archive: its answer to a tool output, after the outputs handed to it before.  It may
refuse. -/
abbrev EvidenceArchive := List Text → Text → Option EvidenceRef

/-- `Compactor`: an optional summarizer, which sees the residue and the durable facts, and an archive. -/
structure Compactor where
  summarizer : Option (List RecentTurn → Text → Text)
  evidence : EvidenceArchive

/-- The first loop of `prepare_history`: an eligible output that the archive takes is replaced by its
reference, any other turn stays as it is.  References are listed once an id. -/
def extractEvidence (archive : EvidenceArchive) :
    List Text → List ℕ → List RecentTurn → List RecentTurn × List EvidenceRef
  | _, _, [] => ([], [])
  | earlier, seenRefs, turn :: rest =>
    if isEvidenceEligible turn then
      let earlier' := earlier ++ [turn.text]
      match archive earlier turn.text with
      | some ev =>
        if ev.id ∈ seenRefs then
          let (prepared, refs) := extractEvidence archive earlier' seenRefs rest
          (⟨turn.role, ev.render⟩ :: prepared, refs)
        else
          let (prepared, refs) := extractEvidence archive earlier' (ev.id :: seenRefs) rest
          (⟨turn.role, ev.render⟩ :: prepared, ev :: refs)
      | none =>
        let (prepared, refs) := extractEvidence archive earlier' seenRefs rest
        (turn :: prepared, refs)
    else
      let (prepared, refs) := extractEvidence archive earlier seenRefs rest
      (turn :: prepared, refs)

/-- `dedupe_exact_rows`. -/
def dedupeExactRows (turns : List RecentTurn) : List RecentTurn := keepFirst [] turns

/-- `prepare_history`. -/
def Compactor.prepareHistory (c : Compactor) (history : List RecentTurn) :
    List RecentTurn × List EvidenceRef :=
  let (prepared, refs) := extractEvidence c.evidence [] [] history
  (dedupeExactRows prepared, refs)

/-! ## What an earlier compaction wrote -/

def archivePointerLead : Text := "[Earlier context archived:".toList

/-- `is_digest_marker`. -/
def isDigestMarker (turn : RecentTurn) : Bool := archivePointerLead.isPrefixOf turn.text

/-- A prior summary. -/
def isSummary (turn : RecentTurn) : Bool := turn.role = summaryRole

/-- An archive pointer: an assistant turn with the marker's text. -/
def isArchivePointer (turn : RecentTurn) : Bool :=
  !isSummary turn && (decide (turn.role = assistantRole) && isDigestMarker turn)

/-- `partition_prior_metadata`. -/
structure Partition where
  residue : List RecentTurn
  carriedSummary : Option RecentTurn
  olderSummaries : List RecentTurn
  priorDigest : Option RecentTurn
  deriving DecidableEq, Repr

/-- `partition_prior_metadata`: the newest summary is carried, the older ones are superseded; of the
archive pointers only the newest matters. -/
def partitionPriorMetadata (turns : List RecentTurn) : Partition where
  residue := turns.filter fun turn => !isSummary turn && !isArchivePointer turn
  carriedSummary := (turns.filter isSummary).getLast?
  olderSummaries := (turns.filter isSummary).dropLast
  priorDigest := (turns.filter isArchivePointer).getLast?

/-- The active instruction: the newest user turn. -/
def newestUser (turns : List RecentTurn) : Option RecentTurn :=
  turns.reverse.find? (·.role = userRole)

/-- The user turns of a history, in order. -/
def userTurns (turns : List RecentTurn) : List RecentTurn := turns.filter (·.role = userRole)

theorem newestUser_eq_getLast? (turns : List RecentTurn) :
    newestUser turns = (userTurns turns).getLast? := by
  rw [newestUser, userTurns, ← List.head?_filter, List.filter_reverse, List.head?_reverse]

theorem newestUser_mem {turns : List RecentTurn} {user : RecentTurn} (h : newestUser turns = some user) :
    user ∈ turns ∧ user.role = userRole := by
  rw [newestUser_eq_getLast?] at h
  obtain ⟨hmem, hrole⟩ := List.mem_filter.mp (List.mem_of_getLast? h)
  exact ⟨hmem, of_decide_eq_true hrole⟩

/-! ## The archive -/

/-- `ARCHIVE_CHUNK_BYTES`. -/
def archiveChunkBytes : ℕ := 512 * 1024

/-- One turn of `fill_chunks`: its line joins the last chunk when both stay under the bound. -/
def pushLine (chunkMax : ℕ) (chunks : List Text) (turn : RecentTurn) : List Text :=
  match chunks.getLast? with
  | some last =>
    if last ≠ [] ∧ byteLen last + byteLen turn.line < chunkMax then
      chunks.dropLast ++ [last ++ turn.line ++ ['\n']]
    else chunks ++ [turn.line ++ ['\n']]
  | none => chunks ++ [turn.line ++ ['\n']]

/-- `fill_chunks`. -/
def fillChunks (evicted : List RecentTurn) (chunkMax : ℕ) : List Text :=
  evicted.foldl (pushLine chunkMax) []

def digestMaxChars : ℕ := 600
def digestMaxLines : ℕ := 8

/-- `truncate`. -/
def truncate (text : Text) (max : ℕ) : Text := if byteLen text ≤ max then text else takeBytes max text

/-- The digest of the sampled lines: a line that does not fit is cut, and ends the digest. -/
def digestLines : Text → List Text → Text
  | digest, [] => digest
  | digest, line :: rest =>
    let remaining := digestMaxChars - byteLen digest
    if remaining = 0 then digest
    else if remaining < byteLen line then digest ++ truncate line remaining ++ ['\n']
    else digestLines (digest ++ line ++ ['\n']) rest

/-- `archive_digest`: the newest lines of the archive, oldest of them first. -/
def archiveDigest (chunks : List Text) : Text :=
  let newestFirst := (chunks.reverse.flatMap fun chunk => (textLines chunk).reverse).take digestMaxLines
  digestLines [] newestFirst.reverse

/-- `ARTIFACT_PLACEHOLDER`. -/
def artifactPlaceholder : Text := "<artifact://hash>".toList

/-- `digest_marker`. -/
def digestMarker (digest : Text) : Text :=
  archivePointerLead ++ [' '] ++ truncate digest digestMaxChars ++ ['…'] ++ artifactPlaceholder ++ [']']

/-- The archive pointer of the new chunks or, when nothing is archived, the prior one. -/
def digestTurn (chunks : List Text) (priorDigest : Option RecentTurn) : Option RecentTurn :=
  let digest := archiveDigest chunks
  if digest ≠ [] then some ⟨assistantRole, digestMarker digest⟩ else priorDigest

/-- `synthesized_turns`. -/
def synthesizedTurns (identity durableFacts : Text) : List RecentTurn :=
  (if identity = [] then []
    else [⟨systemRole, "TASK IDENTITY (verbatim):\n".toList ++ identity⟩]) ++
  (if durableFacts = [] then []
    else [⟨systemRole, "DURABLE TASK PROJECTION:\n".toList ++ durableFacts⟩])

/-! ## The model's summary -/

def summaryMaxOutputTokens : ℕ := 1024
def summaryMinOutputTokens : ℕ := 64

/-- `summary_budget_tokens`. -/
def summaryBudgetTokens (req : CompactionRequest) : ℕ :=
  let hard := req.hardCap
  min (min (max (hard / 8) (min summaryMinOutputTokens hard)) summaryMaxOutputTokens) hard

namespace Summary

/-- `normalize`: the words of a line, joined by single spaces. -/
def normalize (line : Text) : Text := List.intercalate [' '] (words line)

/-- `trim_start_matches("- ")`. -/
def stripBullets : Text → Text
  | '-' :: ' ' :: rest => stripBullets rest
  | line => line

/-- The value of a line without its bullets. -/
def valueKey (line : Text) : Text := normalize (stripBullets (trimStart line))

/-- `fact_id`: the id of an `F:id` or `[id]` line. -/
def factId (line : Text) : Option Text := do
  let trimmed := trim (stripBullets (trimStart line))
  let rest ← (stripPrefix "F:".toList trimmed).or
    ((stripPrefix ['['] trimmed).bind (beforeFirst ']'))
  let name := ((words rest).head?.getD []).rdropWhile (· = ':')
  if name = [] ∨ 64 < byteLen name then none else some (asciiLower name)

/-- What the loop of `compact_summary_text` carries: the keys and the ids seen, and the text. -/
structure State where
  seenLines : List Text
  seenIds : List Text
  out : Text

attribute [local instance] lawfulBEq_text in
/-- One line of the summary. -/
def step (durable durableValues : List Text) (s : State) (line₀ : Text) : State :=
  let line := trimEnd line₀
  let key := normalize line
  if trim line = [] then s
  else if (12 ≤ byteLen key ∧ key ∈ durable) ∨ (valueKey line ≠ [] ∧ valueKey line ∈ durableValues) then s
  else if key ∈ s.seenLines then s
  else
    let s := { s with seenLines := key :: s.seenLines }
    let out := if s.out = [] then line else s.out ++ ['\n'] ++ line
    match factId line with
    | some name =>
      if name ∈ s.seenIds then s else { s with seenIds := name :: s.seenIds, out := out }
    | none => { s with out := out }

end Summary

/-- `compact_summary_text`: the lines of a summary that say something new, within the budget. -/
def compactSummaryText (summary durableRender : Text) (budgetTokens : ℕ) : Text :=
  let durable := ((textLines durableRender).map Summary.normalize).filter fun l => 12 ≤ byteLen l
  let durableValues := ((textLines durableRender).map Summary.valueKey).filter (· ≠ [])
  let final := (textLines summary).foldl (Summary.step durable durableValues) ⟨[], [], []⟩
  clampTo final.out (budgetTokens - 1)

/-! ## Deterministic pruning -/

/-- What `deterministic_core` works on: the residue, the summaries to archive and the one to carry, the
prior pointer, the synthesized turns, the cap, and the cost reserved before any turn is kept. -/
structure Pruning where
  residue : List RecentTurn
  archivedSummaries : List RecentTurn
  carried : Option RecentTurn
  priorDigest : Option RecentTurn
  synthesized : List RecentTurn
  cap : ℕ
  reserved : ℕ

/-- `KeptPlan`. -/
structure KeptPlan where
  wire : List RecentTurn
  archived : List ArtifactRef
  chunks : List Text
  after : ℕ
  accepted : Bool

/-- One pass of the keep loop: its plan, and what decides whether another pass follows. -/
structure KeepPass where
  plan : KeptPlan
  keptNothing : Bool
  digestDone : Bool
  overage : ℕ

namespace Pruning

/-- The scan of a pass over the residue, newest turn first: the turns kept and the turns evicted.  The
first turn that does not fit evicts itself and every older one. -/
def keepScan (keepCap : ℕ) : List RecentTurn → ℕ → Bool → List RecentTurn × List RecentTurn
  | [], _, _ => ([], [])
  | turn :: older, used, keepGoing =>
    let t := estimateTurnTokens turn
    if !keepGoing || decide (keepCap < satAdd used t) then
      let (kept, evicted) := keepScan keepCap older used false
      (kept, turn :: evicted)
    else
      let (kept, evicted) := keepScan keepCap older (satAdd used t) keepGoing
      (turn :: kept, evicted)

/-- The scan splits the turns it goes through: the newer ones are kept, the older ones evicted. -/
theorem keepScan_append (keepCap : ℕ) (newestFirst : List RecentTurn) (used : ℕ) (keepGoing : Bool) :
    (keepScan keepCap newestFirst used keepGoing).1 ++ (keepScan keepCap newestFirst used keepGoing).2
      = newestFirst ∧
    (keepGoing = false → (keepScan keepCap newestFirst used keepGoing).1 = []) := by
  induction newestFirst generalizing used keepGoing with
  | nil => exact ⟨rfl, fun _ => rfl⟩
  | cons turn older ih =>
    rw [keepScan]
    by_cases hfit : (!keepGoing || decide (keepCap < satAdd used (estimateTurnTokens turn))) = true
    · obtain ⟨happend, hnone⟩ := ih used false
      rw [if_pos hfit]
      rw [hnone rfl, List.nil_append] at happend
      exact ⟨by simp only [hnone rfl, happend, List.nil_append], fun _ => hnone rfl⟩
    · obtain ⟨happend, -⟩ := ih (satAdd used (estimateTurnTokens turn)) keepGoing
      rw [if_neg hfit]
      refine ⟨by simp only [List.cons_append, happend], fun hstop => ?_⟩
      exact absurd (by simp [hstop]) hfit

/-- The turns a pass keeps, oldest first. -/
def kept (p : Pruning) (keepCap : ℕ) : List RecentTurn :=
  (keepScan keepCap p.residue.reverse p.reserved (decide (p.reserved < keepCap))).1.reverse

/-- The turns a pass evicts, newest first. -/
def evicted (p : Pruning) (keepCap : ℕ) : List RecentTurn :=
  (keepScan keepCap p.residue.reverse p.reserved (decide (p.reserved < keepCap))).2

/-- The evicted turns are the oldest of the residue, and the kept ones the newest. -/
theorem evicted_append_kept (p : Pruning) (keepCap : ℕ) :
    (p.evicted keepCap).reverse ++ p.kept keepCap = p.residue := by
  rw [kept, evicted, ← List.reverse_append, (keepScan_append _ _ _ _).1, List.reverse_reverse]

theorem evicted_reverse_prefix (p : Pruning) (keepCap : ℕ) :
    (p.evicted keepCap).reverse <+: p.residue :=
  ⟨p.kept keepCap, p.evicted_append_kept keepCap⟩

/-- The chunks of a pass: the archived summaries, then the evicted turns. -/
def chunks (p : Pruning) (keepCap : ℕ) : List Text :=
  fillChunks (p.archivedSummaries.reverse ++ (p.evicted keepCap).reverse) archiveChunkBytes

/-- The wire of a pass without its archive pointer. -/
def bareWire (p : Pruning) (keepCap : ℕ) : List RecentTurn :=
  p.synthesized ++ p.carried.toList ++ p.kept keepCap

/-- The archive pointer of a pass. -/
def pointer (p : Pruning) (keepCap : ℕ) : Option RecentTurn := digestTurn (p.chunks keepCap) p.priorDigest

/-- The wire of a pass: the pointer stands first, when the cap has room for it. -/
def wire (p : Pruning) (keepCap : ℕ) : List RecentTurn :=
  match p.pointer keepCap with
  | some digest =>
    if estimateWireTurns (digest :: p.bareWire keepCap) ≤ p.cap then digest :: p.bareWire keepCap
    else p.bareWire keepCap
  | none => p.bareWire keepCap

/-- The wire carries the newest user turn of the residue. -/
def newestUserPresent (p : Pruning) (wire : List RecentTurn) : Bool :=
  match newestUser p.residue with
  | some user => wire.any fun w => decide (w.role = userRole) && decide (w.text = user.text)
  | none => true

/-- One pass of the keep loop. -/
def keepPass (p : Pruning) (keepCap : ℕ) : KeepPass :=
  let bare := p.bareWire keepCap
  let wire := p.wire keepCap
  let after := estimateWireTurns wire
  let overage := estimateWireTurns bare - p.cap
  { plan :=
      { wire := wire
        archived := (p.evicted keepCap).map (archivedRef "turn".toList) ++
          p.archivedSummaries.map (archivedRef "summary".toList)
        chunks := p.chunks keepCap
        after := after
        accepted := decide (after ≤ p.cap) && p.newestUserPresent wire }
    keptNothing := (p.kept keepCap).isEmpty
    digestDone :=
      match p.pointer keepCap with
      | some digest => decide (estimateWireTurns (digest :: bare) ≤ p.cap)
      | none => true
    overage :=
      match p.pointer keepCap with
      | some digest => max overage (estimateWireTurns (digest :: bare) - p.cap)
      | none => overage }

/-- The keep loop with so many passes left after the next one: a pass that leaves no room for the pointer
is run again under a budget lowered by what was over. -/
def keepLoop (p : Pruning) : ℕ → ℕ → KeptPlan
  | 0, keepCap => (p.keepPass keepCap).plan
  | left + 1, keepCap =>
    let pass := p.keepPass keepCap
    if (pass.plan.accepted && pass.digestDone) || pass.keptNothing then pass.plan
    else
      let nextKeepCap := keepCap - max pass.overage 1
      if nextKeepCap ≤ p.reserved then pass.plan else p.keepLoop left nextKeepCap

/-- The plan of the loop is the plan of one of its passes. -/
theorem exists_keepLoop_eq_keepPass (p : Pruning) (left keepCap : ℕ) :
    ∃ keepCap', p.keepLoop left keepCap = (p.keepPass keepCap').plan := by
  induction left generalizing keepCap with
  | zero => exact ⟨keepCap, rfl⟩
  | succ left ih =>
    rw [keepLoop]
    dsimp only
    split
    · exact ⟨keepCap, rfl⟩
    · split
      · exact ⟨keepCap, rfl⟩
      · exact ih _

/-- The wire of a pass is its bare wire, with the archive pointer before it or without. -/
theorem wire_eq (p : Pruning) (keepCap : ℕ) :
    p.wire keepCap = p.bareWire keepCap ∨
      ∃ digest, p.pointer keepCap = some digest ∧ p.wire keepCap = digest :: p.bareWire keepCap := by
  rw [wire]
  cases hpointer : p.pointer keepCap with
  | none => exact Or.inl rfl
  | some digest =>
    dsimp only
    split
    · exact Or.inr ⟨digest, rfl, rfl⟩
    · exact Or.inl rfl

end Pruning

/-- The start of `deterministic_core`: under a cap that the synthesized turns fill, the carried summary is
archived. -/
def pruning (parts : Partition) (synthesized : List RecentTurn) (req : CompactionRequest) : Pruning :=
  let cap := req.hardCap
  let synthesizedTokens := estimateWireTurns synthesized
  let dropCarried := decide (cap ≤ synthesizedTokens) && parts.carriedSummary.isSome
  { residue := parts.residue
    archivedSummaries :=
      if dropCarried then parts.olderSummaries ++ parts.carriedSummary.toList else parts.olderSummaries
    carried := if dropCarried then none else parts.carriedSummary
    priorDigest := parts.priorDigest
    synthesized := synthesized
    cap := cap
    reserved :=
      if dropCarried then synthesizedTokens
      else satAdd synthesizedTokens (parts.carriedSummary.elim 0 estimateTurnTokens) }

/-- `deterministic_core`. -/
def deterministicCore (parts : Partition) (synthesized : List RecentTurn) (workingLedger : TaskLedger)
    (req : CompactionRequest) (evidenceRefs : List EvidenceRef) : CompactionPlan :=
  let kept := (pruning parts synthesized req).keepLoop 3 req.hardCap
  { accepted := kept.accepted
    beforeTokens := req.beforeTokens
    afterTokens := kept.after
    targetTokens := req.targetTokens
    strategy := if kept.accepted then .deterministicPruning else .rejected
    ledger := workingLedger
    keptRecent := kept.wire
    archived := kept.archived
    archiveChunks := kept.chunks
    evidenceRefs := evidenceRefs }

/-! ## The whole compaction -/

/-- The model returned the residue itself. -/
def echoesTranscript (residue : List RecentTurn) (summary : Text) : Bool :=
  residue.any fun turn => decide (64 < byteLen turn.text) && hasInfix turn.line summary

/-- The turns that a summary archives, as they are chunked. -/
def Partition.summarized (parts : Partition) : List RecentTurn :=
  parts.olderSummaries ++ parts.carriedSummary.toList ++ parts.residue

/-- The wire of the summary branch: the archive pointer, the synthesized turns, the summary, and the
active instruction. -/
def summaryWire (parts : Partition) (synthesized : List RecentTurn) (summary : Text) : List RecentTurn :=
  (digestTurn (fillChunks parts.summarized archiveChunkBytes) parts.priorDigest).toList ++ synthesized ++
    [⟨summaryRole, summary⟩] ++ (newestUser parts.residue).toList

/-- The plan of the summary branch. -/
def summaryPlan (parts : Partition) (synthesized : List RecentTurn) (summary : Text)
    (workingLedger : TaskLedger) (req : CompactionRequest) (evidenceRefs : List EvidenceRef) :
    CompactionPlan where
  accepted := true
  beforeTokens := req.beforeTokens
  afterTokens := estimateWireTurns (summaryWire parts synthesized summary)
  targetTokens := req.targetTokens
  strategy := .llmSummary
  ledger := workingLedger
  keptRecent := summaryWire parts synthesized summary
  archived :=
    (parts.residue ++ parts.olderSummaries ++ parts.carriedSummary.toList).map (archivedRef "turn".toList)
  archiveChunks := fillChunks parts.summarized archiveChunkBytes
  evidenceRefs := evidenceRefs

/-- `compact_projected`. -/
def Compactor.compactProjected (c : Compactor) (history : List RecentTurn)
    (projection : TaskContextProjection) (workingLedger : TaskLedger) (req : CompactionRequest) :
    CompactionPlan :=
  let (prepared, evidenceRefs) := c.prepareHistory history
  let parts := partitionPriorMetadata prepared
  let identity := projection.identityRender
  let durableFacts := projection.summarizableRender
  let synthesized := synthesizedTurns identity durableFacts
  let pruned := deterministicCore parts synthesized workingLedger req evidenceRefs
  match c.summarizer with
  | some summarize =>
    if req.summarizerResidueBudgetTokens < estimateRenderedTokens parts.residue then
      let summary := compactSummaryText (summarize parts.residue durableFacts)
        (identity ++ ['\n'] ++ durableFacts) (summaryBudgetTokens req)
      if trim summary ≠ [] ∧ echoesTranscript parts.residue summary = false ∧
          estimateWireTurns (summaryWire parts synthesized summary) ≤ req.hardCap then
        summaryPlan parts synthesized summary workingLedger req evidenceRefs
      else { pruned with strategy := .rejected }
    else pruned
  | none => pruned

/-- The parts of the prepared history. -/
def Compactor.parts (c : Compactor) (history : List RecentTurn) : Partition :=
  partitionPriorMetadata (c.prepareHistory history).1

/-- The turns synthesized from the durable facts. -/
def TaskContextProjection.synthesized (p : TaskContextProjection) : List RecentTurn :=
  synthesizedTurns p.identityRender p.summarizableRender

/-- The plan made of one pass of the keep loop. -/
def passPlan (parts : Partition) (synthesized : List RecentTurn) (ledger : TaskLedger)
    (req : CompactionRequest) (evidenceRefs : List EvidenceRef) (keepCap : ℕ)
    (strategy : CompactionStrategy) : CompactionPlan :=
  let kept := ((pruning parts synthesized req).keepPass keepCap).plan
  { accepted := kept.accepted
    beforeTokens := req.beforeTokens
    afterTokens := kept.after
    targetTokens := req.targetTokens
    strategy := strategy
    ledger := ledger
    keptRecent := kept.wire
    archived := kept.archived
    archiveChunks := kept.chunks
    evidenceRefs := evidenceRefs }

/-- A pass is accepted within the cap, with the newest user turn on its wire. -/
theorem passPlan_accepted {parts : Partition} {synthesized : List RecentTurn} {ledger : TaskLedger}
    {req : CompactionRequest} {refs : List EvidenceRef} {keepCap : ℕ} {strategy : CompactionStrategy} :
    (passPlan parts synthesized ledger req refs keepCap strategy).accepted = true ↔
      (passPlan parts synthesized ledger req refs keepCap strategy).afterTokens ≤ req.hardCap ∧
      (pruning parts synthesized req).newestUserPresent
        ((pruning parts synthesized req).wire keepCap) = true := by
  simp only [passPlan, Pruning.keepPass, Bool.and_eq_true, decide_eq_true_eq]
  exact Iff.rfl

/-- Deterministic pruning returns the plan of one of its passes. -/
theorem exists_deterministicCore_eq (parts : Partition) (synthesized : List RecentTurn)
    (ledger : TaskLedger) (req : CompactionRequest) (evidenceRefs : List EvidenceRef) :
    ∃ keepCap strategy, strategy ≠ .llmSummary ∧
      deterministicCore parts synthesized ledger req evidenceRefs
        = passPlan parts synthesized ledger req evidenceRefs keepCap strategy := by
  obtain ⟨keepCap, hkept⟩ :=
    Pruning.exists_keepLoop_eq_keepPass (pruning parts synthesized req) 3 req.hardCap
  refine ⟨keepCap, if ((pruning parts synthesized req).keepPass keepCap).plan.accepted
    then .deterministicPruning else .rejected, ?_, ?_⟩
  · split <;> decide
  · rw [deterministicCore, hkept, passPlan]

/-- The summary that the summary branch puts on the wire, from what the model wrote. -/
def summaryText (projection : TaskContextProjection) (req : CompactionRequest) (written : Text) : Text :=
  compactSummaryText written
    (projection.identityRender ++ ['\n'] ++ projection.summarizableRender) (summaryBudgetTokens req)

section

variable (c : Compactor) (history : List RecentTurn) (projection : TaskContextProjection)
  (ledger : TaskLedger) (req : CompactionRequest)
include c history projection ledger req

/-- The compaction over the parts of its prepared history. -/
theorem Compactor.compactProjected_eq :
    c.compactProjected history projection ledger req =
      let parts := c.parts history
      let refs := (c.prepareHistory history).2
      let pruned := deterministicCore parts projection.synthesized ledger req refs
      match c.summarizer with
      | some summarize =>
        if req.summarizerResidueBudgetTokens < estimateRenderedTokens parts.residue then
          let summary := summaryText projection req (summarize parts.residue projection.summarizableRender)
          if trim summary ≠ [] ∧ echoesTranscript parts.residue summary = false ∧
              estimateWireTurns (summaryWire parts projection.synthesized summary) ≤ req.hardCap then
            summaryPlan parts projection.synthesized summary ledger req refs
          else { pruned with strategy := .rejected }
        else pruned
      | none => pruned := rfl

/-- **What a compaction returns**: the plan of the summary branch, which meets the cap, or the plan of one
pass of the keep loop. -/
theorem Compactor.compactProjected_cases :
    (∃ summary, estimateWireTurns (summaryWire (c.parts history) projection.synthesized summary) ≤ req.hardCap ∧
      c.compactProjected history projection ledger req
        = summaryPlan (c.parts history) projection.synthesized summary ledger req
            (c.prepareHistory history).2) ∨
    ∃ keepCap strategy, strategy ≠ .llmSummary ∧
      c.compactProjected history projection ledger req
        = passPlan (c.parts history) projection.synthesized ledger req (c.prepareHistory history).2
            keepCap strategy := by
  obtain ⟨keepCap, strategy, hstrategy, hcore⟩ := exists_deterministicCore_eq (c.parts history)
    projection.synthesized ledger req (c.prepareHistory history).2
  rw [compactProjected_eq]
  cases c.summarizer with
  | none => exact Or.inr ⟨keepCap, strategy, hstrategy, hcore⟩
  | some summarize =>
    dsimp only
    split
    · split
      · rename_i hmeets
        exact Or.inl ⟨_, hmeets.2.2, rfl⟩
      · exact Or.inr ⟨keepCap, .rejected, by decide, by rw [hcore, passPlan, passPlan]⟩
    · exact Or.inr ⟨keepCap, strategy, hstrategy, hcore⟩

end

/-- `compact`, the entry point that reads the facts from the working fold. -/
def Compactor.compact (c : Compactor) (history : List RecentTurn) (ledger : TaskLedger)
    (req : CompactionRequest) : CompactionPlan :=
  c.compactProjected history (.fromTaskLedger ledger) ledger req

/-- `would_compact_again`. -/
def wouldCompactAgain (plan : CompactionPlan) (req : CompactionRequest) : Bool :=
  if !plan.accepted then true
  else
    let newReq : CompactionRequest := { req with beforeTokens := plan.afterTokens }
    decide (max newReq.hardCap (min newReq.targetTokens plan.afterTokens) < plan.afterTokens) &&
      decide (req.targetTokens < plan.afterTokens)

end Compaction
