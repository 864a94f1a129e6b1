/-
# The archive pointer across compactions

A plan carries one archive pointer at most: the pointer to what the compaction archives or, when it archives
nothing, the newest pointer of the history, verbatim.  Deterministic pruning leaves it out when the cap has
no room for it beside the turns kept; the summary branch always carries it.

* `archiveDigest_eq_nil_iff` : a digest is empty only for an archive without chunks;
* `priorDigest_eq` : the prior pointer is the last pointer of the history that was new;
* `pointer_guarantee` : the pointers on the wire of a plan;
* `pointer_superseded` : a second compaction that archives takes the first one's pointer off the wire.
-/
import Faktor.ContextArchive

namespace Compaction

open TextBytes

/-! ## The digest of an archive -/

theorem digestLines_ne_nil {digest : Text} (h : digest ≠ []) (lines : List Text) :
    digestLines digest lines ≠ [] := by
  induction lines generalizing digest with
  | nil => exact h
  | cons line rest ih =>
    rw [digestLines]
    split_ifs
    · exact h
    · simp [h]
    · exact ih (by simp)

theorem digestLines_eq_nil_iff (lines : List Text) : digestLines [] lines = [] ↔ lines = [] := by
  cases lines with
  | nil => exact iff_of_true rfl rfl
  | cons line rest =>
    refine iff_of_false ?_ (List.cons_ne_nil _ _)
    rw [digestLines]
    split_ifs with hroom hlong
    · exact absurd hroom (by decide)
    · simp
    · exact digestLines_ne_nil (by simp) rest

theorem textLines_eq_nil_iff (text : Text) : textLines text = [] ↔ text = [] := by
  rw [textLines, List.map_eq_nil_iff]
  cases text with
  | nil => exact iff_of_true rfl rfl
  | cons c rest =>
    refine iff_of_false ?_ (List.cons_ne_nil _ _)
    rw [splitInclusive]
    split
    · simp
    · split
      · simp
      · simp

/-- A digest is empty only for an archive of empty chunks. -/
theorem archiveDigest_eq_nil_iff (chunks : List Text) :
    archiveDigest chunks = [] ↔ ∀ chunk ∈ chunks, chunk = [] := by
  unfold archiveDigest
  simp only
  rw [digestLines_eq_nil_iff, List.reverse_eq_nil_iff, List.take_eq_nil_iff,
    or_iff_right (by decide), List.flatMap_eq_nil_iff]
  simp only [List.mem_reverse, List.reverse_eq_nil_iff, textLines_eq_nil_iff]

variable {turns : List RecentTurn}

/-- The chunks of an archive are not empty. -/
theorem ArchivedAs.ne_nil {chunkMax : ℕ} {chunks : List Text}
    (h : ArchivedAs chunkMax chunks turns) {chunk : Text} (hchunk : chunk ∈ chunks) : chunk ≠ [] := by
  obtain ⟨groups, -, rfl, hgroups⟩ := h
  obtain ⟨group, hgroup, rfl⟩ := List.mem_map.mp hchunk
  obtain ⟨turn, rest, rfl⟩ := List.exists_cons_of_ne_nil (hgroups group hgroup).1
  simp [renderTurns]

/-- The pointer of an archive: to the archive or, when there is none, the prior one. -/
theorem digestTurn_archived {chunkMax : ℕ} {chunks : List Text}
    (h : ArchivedAs chunkMax chunks turns) (prior : Option RecentTurn) :
    digestTurn chunks prior =
      if chunks = [] then prior else some ⟨assistantRole, digestMarker (archiveDigest chunks)⟩ := by
  have hdigest : archiveDigest chunks = [] ↔ chunks = [] := by
    rw [archiveDigest_eq_nil_iff]
    constructor
    · intro hall
      rw [List.eq_nil_iff_forall_not_mem]
      exact fun chunk hchunk => h.ne_nil hchunk (hall chunk hchunk)
    · rintro rfl chunk hchunk
      cases hchunk
  rw [digestTurn]
  simp only [ne_eq, ite_not, hdigest]

/-! ## The prior pointer -/

/-- The archive pointers of a history, in order. -/
def archivePointers (turns : List RecentTurn) : List RecentTurn := turns.filter isArchivePointer

/-- The prior pointer is the last pointer of the history that was new. -/
theorem priorDigest_eq (c : Compactor) (history : List RecentTurn) :
    (c.parts history).priorDigest = (keepFirst [] (archivePointers history)).getLast? := by
  have hkept : archivePointers (extractEvidence c.evidence [] [] history).1 = archivePointers history := by
    refine filter_extractEvidence (fun turn helig text => ?_) _ _ _ _
    have hrole : turn.role ≠ assistantRole := by
      intro hrole
      have htool := asciiLower_role helig
      rw [hrole] at htool
      exact absurd htool (by decide +kernel)
    simp [isArchivePointer, hrole]
  have hprepared : archivePointers (c.prepareHistory history).1 = keepFirst [] (archivePointers history) := by
    rw [← hkept]
    exact filter_keepFirst _ _ _
  rw [Compactor.parts, partitionPriorMetadata, ← hprepared]
  rfl

/-! ## The pointers of a plan -/

theorem not_isArchivePointer_of_role {turn : RecentTurn} (h : turn.role ≠ assistantRole) :
    isArchivePointer turn = false := by
  simp [isArchivePointer, h]

variable {projection : TaskContextProjection}

theorem not_isArchivePointer_synthesized {turn : RecentTurn}
    (h : turn ∈ projection.synthesized) : isArchivePointer turn = false := by
  refine not_isArchivePointer_of_role ?_
  have hrole : turn.role = systemRole := by
    simp only [TaskContextProjection.synthesized, synthesizedTurns, List.mem_append] at h
    rcases h with h | h
    · split_ifs at h
      · cases h
      · rw [List.mem_singleton.mp h]
    · split_ifs at h
      · cases h
      · rw [List.mem_singleton.mp h]
  rw [hrole]
  decide

/-- The turns of a pass other than its pointer are no pointers. -/
theorem archivePointers_bareWire (prepared : List RecentTurn) (projection : TaskContextProjection)
    (req : CompactionRequest) (keepCap : ℕ) :
    archivePointers ((pruning (partitionPriorMetadata prepared) projection.synthesized req).bareWire keepCap)
      = [] := by
  rw [archivePointers, List.filter_eq_nil_iff]
  intro turn hturn
  rw [Bool.not_eq_true]
  simp only [Pruning.bareWire, List.mem_append, Option.mem_toList] at hturn
  rcases hturn with (hsynthesized | hcarried) | hkept
  · exact not_isArchivePointer_synthesized hsynthesized
  · -- the carried summary
    have hsome : (partitionPriorMetadata prepared).carriedSummary = some turn := by
      rw [pruning] at hcarried
      dsimp only at hcarried
      split at hcarried
      · cases hcarried
      · exact hcarried
    have hsummary : isSummary turn = true := (List.mem_filter.mp (List.mem_of_getLast? hsome)).2
    simp [isArchivePointer, hsummary]
  · have hresidue : turn ∈ (partitionPriorMetadata prepared).residue := by
      have hall := Pruning.evicted_append_kept
        (pruning (partitionPriorMetadata prepared) projection.synthesized req) keepCap
      have hmem : turn ∈ ((pruning (partitionPriorMetadata prepared) projection.synthesized req).evicted
          keepCap).reverse ++
            (pruning (partitionPriorMetadata prepared) projection.synthesized req).kept keepCap :=
        List.mem_append_right _ hkept
      rwa [hall] at hmem
    have hrest := (List.mem_filter.mp hresidue).2
    rw [Bool.and_eq_true, Bool.not_eq_true', Bool.not_eq_true'] at hrest
    exact hrest.2

/-- The pointer that a plan has for the wire: to what it archives or, when it archives nothing, the last
pointer of the history that was new. -/
def planPointer (history : List RecentTurn) (plan : CompactionPlan) : Option RecentTurn :=
  if plan.archiveChunks = [] then (keepFirst [] (archivePointers history)).getLast?
  else some ⟨assistantRole, digestMarker (archiveDigest plan.archiveChunks)⟩

theorem archivePointers_summaryWire {c : Compactor} {history : List RecentTurn} {summary : Text} :
    archivePointers (summaryWire (c.parts history) projection.synthesized summary) =
      (digestTurn (fillChunks (c.parts history).summarized archiveChunkBytes)
        (c.parts history).priorDigest).toList := by
  have hpointer : archivePointers (digestTurn (fillChunks (c.parts history).summarized archiveChunkBytes)
      (c.parts history).priorDigest).toList =
      (digestTurn (fillChunks (c.parts history).summarized archiveChunkBytes)
        (c.parts history).priorDigest).toList := by
    rw [archivePointers, List.filter_eq_self]
    exact fun turn hturn => isArchivePointer_digestTurn (Option.mem_toList.mp hturn)
  have hrest : archivePointers (projection.synthesized ++ [⟨summaryRole, summary⟩] ++
      (newestUser (c.parts history).residue).toList) = [] := by
    rw [archivePointers, List.filter_eq_nil_iff]
    intro turn hturn
    rw [Bool.not_eq_true]
    simp only [List.mem_append, List.mem_singleton, Option.mem_toList] at hturn
    rcases hturn with (hsynthesized | rfl) | hnewest
    · exact not_isArchivePointer_synthesized hsynthesized
    · exact not_isArchivePointer_of_role (by decide : summaryRole ≠ assistantRole)
    · refine not_isArchivePointer_of_role ?_
      rw [(newestUser_mem hnewest).2]
      decide
  have hwire : summaryWire (c.parts history) projection.synthesized summary =
      (digestTurn (fillChunks (c.parts history).summarized archiveChunkBytes)
        (c.parts history).priorDigest).toList ++ (projection.synthesized ++ [⟨summaryRole, summary⟩] ++
          (newestUser (c.parts history).residue).toList) := by
    simp [summaryWire]
  rw [hwire, archivePointers, List.filter_append]
  show archivePointers _ ++ archivePointers _ = _
  rw [hpointer, hrest, List.append_nil]

/-- **The archive pointers on the wire of a plan**: the pointer to what the compaction archives or, when it
archives nothing, the newest one before; none only when there is no such pointer or, in deterministic
pruning, the cap has no room for it. -/
theorem pointer_guarantee (c : Compactor) (history : List RecentTurn) (projection : TaskContextProjection)
    (ledger : TaskLedger) (req : CompactionRequest) :
    let plan := c.compactProjected history projection ledger req
    archivePointers plan.keptRecent = (planPointer history plan).toList ∨
      plan.strategy ≠ .llmSummary ∧ archivePointers plan.keptRecent = [] ∧
        ∃ pointer, planPointer history plan = some pointer ∧
          req.hardCap < estimateWireTurns (pointer :: plan.keptRecent) := by
  intro plan
  obtain ⟨kept, archived, hplaced⟩ := exists_placed c history projection ledger req
  have hdigest : digestTurn plan.archiveChunks (c.parts history).priorDigest = planPointer history plan := by
    rw [digestTurn_archived hplaced.chunks, priorDigest_eq]
    rfl
  rw [← hdigest]
  rcases c.compactProjected_cases history projection ledger req with
    ⟨summary, -, hplan⟩ | ⟨keepCap, strategy, hstrategy, hplan⟩
  · left
    have hkept : plan.keptRecent = summaryWire (c.parts history) projection.synthesized summary :=
      congrArg CompactionPlan.keptRecent hplan
    have hchunks : plan.archiveChunks = fillChunks (c.parts history).summarized archiveChunkBytes :=
      congrArg CompactionPlan.archiveChunks hplan
    rw [hkept, hchunks, archivePointers_summaryWire]
  · let p := pruning (c.parts history) projection.synthesized req
    have hkept : plan.keptRecent = p.wire keepCap := congrArg CompactionPlan.keptRecent hplan
    have hpointer : digestTurn plan.archiveChunks (c.parts history).priorDigest = p.pointer keepCap := by
      rw [congrArg CompactionPlan.archiveChunks hplan]
      rfl
    have hbare : archivePointers (p.bareWire keepCap) = [] := archivePointers_bareWire _ _ _ _
    rw [hkept, hpointer, Pruning.wire]
    cases hsome : p.pointer keepCap with
    | none =>
      left
      exact hbare
    | some digest =>
      dsimp only
      split
      · left
        have hmarker : isArchivePointer digest = true := isArchivePointer_digestTurn hsome
        rw [archivePointers, List.filter_cons_of_pos hmarker]
        show digest :: archivePointers _ = _
        rw [hbare]
        rfl
      · rename_i hroom
        right
        refine ⟨?_, hbare, digest, rfl, Nat.lt_of_not_le hroom⟩
        rw [congrArg CompactionPlan.strategy hplan]
        exact hstrategy

/-- The first turns of a conversation. -/
def firstTurns : List RecentTurn := [⟨userRole, "a".toList⟩]

/-- A second compaction that archives takes the first one's pointer off the wire, and archives it nowhere. -/
theorem pointer_superseded :
    let first := terse.compactProjected firstTurns .empty emptyLedger ample
    let second := terse.compactProjected (first.keptRecent ++ [⟨userRole, "b".toList⟩]) .empty emptyLedger
      ample
    second.accepted = true ∧ ∃ pointer ∈ archivePointers first.keptRecent, pointer ∉ second.keptRecent ∧
      ∀ chunk ∈ second.archiveChunks, hasInfix pointer.text chunk = false := by
  decide +kernel

end Compaction
