/-
# Nothing is lost: the turns kept and the turns archived

A compaction puts every turn of its prepared history, archive pointers apart, either on the wire or whole
into a chunk of the archive; only the summary branch does both, with the active instruction.  A chunk over
its bound holds one turn.  The archive is in the order of the history when no prior summary stands after
another turn; archived summaries are otherwise moved before the residue, and pruning reverses them.

* `archivedAs_fillChunks` : the chunks hold the rendered turns, whole and in order;
* `exists_placed` : every turn is in exactly one place;
* `complete_iff_summaryOnlyFirst` : the shapes of history whose archive is always in their order.
-/
import Mathlib
import Faktor.ContextInstruction

namespace Compaction

open TextBytes

/-! ## Chunks -/

/-- The rendering of turns, a line each. -/
def renderTurns (turns : List RecentTurn) : Text := turns.flatMap fun turn => turn.line ++ ['\n']

theorem renderTurns_append (a b : List RecentTurn) :
    renderTurns (a ++ b) = renderTurns a ++ renderTurns b := by
  simp [renderTurns]

theorem renderTurns_singleton (turn : RecentTurn) : renderTurns [turn] = turn.line ++ ['\n'] := by
  simp [renderTurns]

/-- The chunks hold the turns, whole and in order: each is the rendering of some of them, and one over the
bound is the rendering of a single turn. -/
def ArchivedAs (chunkMax : ℕ) (chunks : List Text) (turns : List RecentTurn) : Prop :=
  ∃ groups : List (List RecentTurn), groups.flatten = turns ∧ chunks = groups.map renderTurns ∧
    ∀ group ∈ groups, group ≠ [] ∧ (group.length = 1 ∨ byteLen (renderTurns group) ≤ chunkMax)

variable {chunkMax : ℕ} {chunks : List Text} {turns : List RecentTurn}

theorem ArchivedAs.flatten (h : ArchivedAs chunkMax chunks turns) : chunks.flatten = renderTurns turns := by
  obtain ⟨groups, rfl, rfl, -⟩ := h
  induction groups with
  | nil => rfl
  | cons group rest ih => rw [List.map_cons, List.flatten_cons, List.flatten_cons, renderTurns_append, ih]

/-- A turn that does not join the last chunk opens a new one. -/
theorem ArchivedAs.open (h : ArchivedAs chunkMax chunks turns) (turn : RecentTurn) :
    ArchivedAs chunkMax (chunks ++ [turn.line ++ ['\n']]) (turns ++ [turn]) := by
  obtain ⟨groups, rfl, rfl, hgroups⟩ := h
  refine ⟨groups ++ [[turn]], by simp, by simp [renderTurns_singleton], fun group hgroup => ?_⟩
  rcases List.mem_append.mp hgroup with hold | hnew
  · exact hgroups group hold
  · rw [List.mem_singleton.mp hnew]
    exact ⟨List.cons_ne_nil _ _, Or.inl rfl⟩

variable {turn : RecentTurn}

/-- A turn that joins the last chunk leaves it within the bound. -/
theorem ArchivedAs.join {last : Text} (h : ArchivedAs chunkMax (chunks ++ [last]) turns)
    (hroom : byteLen last + byteLen turn.line < chunkMax) :
    ArchivedAs chunkMax (chunks ++ [last ++ turn.line ++ ['\n']]) (turns ++ [turn]) := by
  obtain ⟨groups, rfl, hchunks, hgroups⟩ := h
  rcases List.eq_nil_or_concat' groups with rfl | ⟨init, group, rfl⟩
  · simp at hchunks
  rw [List.map_append, List.map_singleton] at hchunks
  obtain ⟨rfl, hlast⟩ := List.append_inj' hchunks rfl
  obtain rfl : last = renderTurns group := (List.cons.inj hlast).1
  refine ⟨init ++ [group ++ [turn]], by simp, by simp [renderTurns_append, renderTurns_singleton], ?_⟩
  intro g hg
  rcases List.mem_append.mp hg with hold | hnew
  · exact hgroups g (List.mem_append_left _ hold)
  · rw [List.mem_singleton.mp hnew]
    refine ⟨by simp, Or.inr ?_⟩
    rw [renderTurns_append, renderTurns_singleton, byteLen_append, byteLen_append]
    have hnewline : byteLen ['\n'] = 1 := by decide
    omega

theorem ArchivedAs.pushLine (h : ArchivedAs chunkMax chunks turns) (turn : RecentTurn) :
    ArchivedAs chunkMax (pushLine chunkMax chunks turn) (turns ++ [turn]) := by
  rcases List.eq_nil_or_concat' chunks with rfl | ⟨init, last, rfl⟩
  · exact h.open turn
  rw [Compaction.pushLine, List.getLast?_concat]
  dsimp only
  split
  · rename_i hroom
    rw [List.dropLast_concat]
    exact h.join hroom.2
  · exact h.open turn

/-- **The chunks of `fill_chunks`** hold the evicted turns, whole and in order. -/
theorem archivedAs_fillChunks (turns : List RecentTurn) (chunkMax : ℕ) :
    ArchivedAs chunkMax (fillChunks turns chunkMax) turns := by
  have hfold : ∀ (rest done : List RecentTurn) (chunks : List Text), ArchivedAs chunkMax chunks done →
      ArchivedAs chunkMax (rest.foldl (pushLine chunkMax) chunks) (done ++ rest) := by
    intro rest
    induction rest with
    | nil =>
      intro done chunks h
      rw [List.append_nil]
      exact h
    | cons turn rest ih =>
      intro done chunks h
      rw [List.foldl_cons, List.append_cons]
      exact ih _ _ (h.pushLine turn)
  exact hfold turns [] [] ⟨[], rfl, rfl, fun group hgroup => absurd hgroup List.not_mem_nil⟩

/-! ## The parts of a history -/

/-- The turns of a history other than its archive pointers. -/
def content (prepared : List RecentTurn) : List RecentTurn :=
  prepared.filter fun turn => !isArchivePointer turn

variable {prepared : List RecentTurn}

theorem nodup_content (h : prepared.Nodup) : (content prepared).Nodup :=
  h.filter _

theorem nodup_prepareHistory (c : Compactor) (history : List RecentTurn) :
    (c.prepareHistory history).1.Nodup :=
  nodup_keepFirst _ _

/-- The residue is the content without the summaries. -/
theorem residue_eq_filter (prepared : List RecentTurn) :
    (partitionPriorMetadata prepared).residue = (content prepared).filter fun turn => !isSummary turn := by
  rw [partitionPriorMetadata, content, List.filter_filter]

/-- The summaries, the older ones and then the carried one. -/
theorem older_append_carried (prepared : List RecentTurn) :
    (partitionPriorMetadata prepared).olderSummaries ++ (partitionPriorMetadata prepared).carriedSummary.toList
      = (content prepared).filter isSummary := by
  have hsummaries : (content prepared).filter isSummary = prepared.filter isSummary := by
    rw [content, List.filter_filter]
    refine List.filter_congr fun turn _ => ?_
    cases hsummary : isSummary turn with
    | false => rfl
    | true => simp [isArchivePointer, hsummary]
  rw [hsummaries, partitionPriorMetadata]
  rcases List.eq_nil_or_concat' (prepared.filter isSummary) with hnil | ⟨init, last, hlast⟩
  · rw [hnil]
    rfl
  · rw [hlast, List.dropLast_concat, List.getLast?_concat]
    rfl

/-- Summaries and residue are the content, each turn once. -/
theorem summaries_append_residue_perm (prepared : List RecentTurn) :
    ((partitionPriorMetadata prepared).olderSummaries ++
      (partitionPriorMetadata prepared).carriedSummary.toList ++
      (partitionPriorMetadata prepared).residue).Perm (content prepared) := by
  rw [older_append_carried, residue_eq_filter]
  exact List.filter_append_perm _ _

theorem newestUser_content (prepared : List RecentTurn) :
    newestUser (partitionPriorMetadata prepared).residue = newestUser prepared := by
  rw [newestUser_eq_getLast?, newestUser_eq_getLast?, userTurns_residue]

/-! ## Every turn is in one place -/

/-- Where the turns of a prepared history are in a plan: `kept` are those on the wire, which otherwise
holds what the compaction wrote, and `archived` those in the chunks. -/
structure Placed (prepared synthesized : List RecentTurn) (plan : CompactionPlan)
    (kept archived : List RecentTurn) : Prop where
  wire : ∃ pointer written, pointer.length ≤ 1 ∧ (∀ turn ∈ pointer, isArchivePointer turn = true) ∧
    (written = [] ∨ plan.strategy = .llmSummary ∧ ∃ summary, written = [⟨summaryRole, summary⟩]) ∧
    plan.keptRecent = pointer ++ synthesized ++ written ++ kept
  chunks : ArchivedAs archiveChunkBytes plan.archiveChunks archived
  known : (∀ turn ∈ kept, turn ∈ content prepared) ∧ ∀ turn ∈ archived, turn ∈ content prepared
  single : kept.Nodup ∧ archived.Nodup
  once : ∀ turn ∈ content prepared, Xor (turn ∈ kept) (turn ∈ archived) ∨
    (plan.strategy = .llmSummary ∧ newestUser prepared = some turn ∧ turn ∈ kept ∧ turn ∈ archived)

/-- Lists that together are the content, without duplicates, hold each of its turns once. -/
theorem xor_mem_of_perm {kept archived all : List RecentTurn} (hperm : (kept ++ archived).Perm all)
    (hnodup : all.Nodup) (h : turn ∈ all) : Xor (turn ∈ kept) (turn ∈ archived) := by
  have hdisjoint := List.disjoint_of_nodup_append (hperm.nodup_iff.mpr hnodup)
  rcases List.mem_append.mp (hperm.mem_iff.mpr h) with hkept | harchived
  · exact Or.inl ⟨hkept, fun h => hdisjoint hkept h⟩
  · exact Or.inr ⟨harchived, fun h => hdisjoint h harchived⟩

theorem isArchivePointer_digestTurn {digest : RecentTurn}
    (h : digestTurn chunks (partitionPriorMetadata prepared).priorDigest = some digest) :
    isArchivePointer digest = true := by
  rw [digestTurn] at h
  split at h
  · obtain rfl := Option.some.inj h
    have hlead : isDigestMarker ⟨assistantRole, digestMarker (archiveDigest chunks)⟩ = true := by
      rw [isDigestMarker, List.isPrefixOf_iff_prefix]
      simp only [digestMarker, List.append_assoc]
      exact List.prefix_append _ _
    have hrole : isSummary ⟨assistantRole, digestMarker (archiveDigest chunks)⟩ = false :=
      decide_eq_false (by decide : assistantRole ≠ summaryRole)
    simp [isArchivePointer, hlead, hrole]
  · exact (List.mem_filter.mp (List.mem_of_getLast? h)).2

/-- What the pruning carries and what it archives are the summaries. -/
theorem pruning_summaries_perm (prepared synthesized : List RecentTurn) (req : CompactionRequest) :
    ((pruning (partitionPriorMetadata prepared) synthesized req).carried.toList ++
      (pruning (partitionPriorMetadata prepared) synthesized req).archivedSummaries).Perm
      ((content prepared).filter isSummary) := by
  rw [← older_append_carried, pruning]
  dsimp only
  split
  · rfl
  · exact List.perm_append_comm

/-- What a pass keeps on the wire. -/
theorem passPlan_keptRecent (parts : Partition) (synthesized : List RecentTurn) (ledger : TaskLedger)
    (req : CompactionRequest) (refs : List EvidenceRef) (keepCap : ℕ) (strategy : CompactionStrategy) :
    (passPlan parts synthesized ledger req refs keepCap strategy).keptRecent =
      (pruning parts synthesized req).wire keepCap := rfl

variable {synthesized : List RecentTurn}

/-- **A pass places every turn once.** -/
theorem placed_passPlan (hnodup : prepared.Nodup) (ledger : TaskLedger) (req : CompactionRequest)
    (refs : List EvidenceRef) (keepCap : ℕ) (strategy : CompactionStrategy) :
    let p := pruning (partitionPriorMetadata prepared) synthesized req
    Placed prepared synthesized
      (passPlan (partitionPriorMetadata prepared) synthesized ledger req refs keepCap strategy)
      (p.carried.toList ++ p.kept keepCap) (p.archivedSummaries.reverse ++ (p.evicted keepCap).reverse) := by
  intro p
  have hcontent : (content prepared).Nodup := nodup_content hnodup
  have hperm : ((p.carried.toList ++ p.kept keepCap) ++
      (p.archivedSummaries.reverse ++ (p.evicted keepCap).reverse)).Perm (content prepared) := by
    have hsummaries : (p.carried.toList ++ p.archivedSummaries.reverse).Perm
        ((content prepared).filter isSummary) :=
      ((List.reverse_perm _).append_left _).trans (pruning_summaries_perm prepared synthesized req)
    have hresidue : (p.kept keepCap ++ (p.evicted keepCap).reverse).Perm
        ((content prepared).filter fun turn => !isSummary turn) := by
      rw [← residue_eq_filter]
      exact List.perm_append_comm.trans (p.evicted_append_kept keepCap ▸ List.Perm.refl _)
    have hmiddle : ((p.carried.toList ++ p.kept keepCap) ++
        (p.archivedSummaries.reverse ++ (p.evicted keepCap).reverse)).Perm
        ((p.carried.toList ++ p.archivedSummaries.reverse) ++
          (p.kept keepCap ++ (p.evicted keepCap).reverse)) := by
      simp only [List.append_assoc]
      refine List.Perm.append_left _ ?_
      rw [← List.append_assoc, ← List.append_assoc]
      exact List.perm_append_comm.append_right _
    exact hmiddle.trans ((hsummaries.append hresidue).trans (List.filter_append_perm _ _))
  have hall := (hperm.nodup_iff.mpr hcontent)
  refine ⟨?_, archivedAs_fillChunks _ _, ⟨fun turn h => ?_, fun turn h => ?_⟩,
    ⟨hall.of_append_left, hall.of_append_right⟩, fun turn h => Or.inl (xor_mem_of_perm hperm hcontent h)⟩
  · rcases p.wire_eq keepCap with hwire | ⟨digest, hdigest, hwire⟩
    · refine ⟨[], [], by simp, by simp, Or.inl rfl, ?_⟩
      rw [passPlan_keptRecent, hwire, Pruning.bareWire]
      simp [p, pruning]
    · refine ⟨[digest], [], by simp, ?_, Or.inl rfl, ?_⟩
      · intro turn hturn
        rw [List.mem_singleton.mp hturn]
        exact isArchivePointer_digestTurn hdigest
      · rw [passPlan_keptRecent, hwire, Pruning.bareWire]
        simp [p, pruning]
  · exact hperm.mem_iff.mp (List.mem_append_left _ h)
  · exact hperm.mem_iff.mp (List.mem_append_right _ h)

/-- **The summary branch places every turn once**, the active instruction apart. -/
theorem placed_summaryPlan (hnodup : prepared.Nodup) (synthesized : List RecentTurn) (summary : Text)
    (ledger : TaskLedger) (req : CompactionRequest) (refs : List EvidenceRef) :
    Placed prepared synthesized
      (summaryPlan (partitionPriorMetadata prepared) synthesized summary ledger req refs)
      (newestUser prepared).toList (partitionPriorMetadata prepared).summarized := by
  have hcontent : (content prepared).Nodup := nodup_content hnodup
  have hperm := summaries_append_residue_perm prepared
  have harchived : ∀ turn, turn ∈ (partitionPriorMetadata prepared).summarized ↔ turn ∈ content prepared :=
    fun turn => hperm.mem_iff
  refine ⟨?_, archivedAs_fillChunks _ _, ⟨fun turn h => ?_, fun turn h => (harchived turn).mp h⟩,
    ⟨?_, hperm.nodup_iff.mpr hcontent⟩, fun turn h => ?_⟩
  · refine ⟨(digestTurn (fillChunks (partitionPriorMetadata prepared).summarized archiveChunkBytes)
      (partitionPriorMetadata prepared).priorDigest).toList, [⟨summaryRole, summary⟩], ?_, ?_,
      Or.inr ⟨rfl, summary, rfl⟩, ?_⟩
    · exact Option.length_toList_le
    · intro turn hturn
      exact isArchivePointer_digestTurn (Option.mem_toList.mp hturn)
    · simp only [summaryPlan, summaryWire, newestUser_content]
  · rw [Option.mem_toList, ← newestUser_content] at h
    have hresidue := (newestUser_mem h).1
    rw [residue_eq_filter] at hresidue
    exact List.mem_of_mem_filter hresidue
  · cases newestUser prepared <;> simp
  · by_cases hactive : newestUser prepared = some turn
    · exact Or.inr ⟨rfl, hactive, Option.mem_toList.mpr hactive, (harchived turn).mpr h⟩
    · exact Or.inl (Or.inr ⟨(harchived turn).mpr h, fun hkept => hactive (Option.mem_toList.mp hkept)⟩)

/-- **Every turn is in one place**, kept or archived, whatever is compacted. -/
theorem exists_placed (c : Compactor) (history : List RecentTurn) (projection : TaskContextProjection)
    (ledger : TaskLedger) (req : CompactionRequest) :
    ∃ kept archived, Placed (c.prepareHistory history).1 projection.synthesized
      (c.compactProjected history projection ledger req) kept archived := by
  have hnodup := nodup_prepareHistory c history
  rcases c.compactProjected_cases history projection ledger req with
    ⟨summary, -, hplan⟩ | ⟨keepCap, strategy, -, hplan⟩
  · rw [hplan]
    exact ⟨_, _, placed_summaryPlan hnodup _ _ _ _ _⟩
  · rw [hplan]
    exact ⟨_, _, placed_passPlan hnodup _ _ _ _ _⟩

/-! ## The order of the archive -/

/-- The plan keeps or archives every turn, and its chunks render the archived turns oldest first. -/
def Complete (prepared synthesized : List RecentTurn) (plan : CompactionPlan) : Prop :=
  ∃ kept archived, Placed prepared synthesized plan kept archived ∧ archived.Sublist (content prepared)

/-- What a turn is to a compaction. -/
inductive TurnKind
  | pointer | summary | residue
  deriving DecidableEq, Repr

def kindOf (turn : RecentTurn) : TurnKind :=
  if isSummary turn then .summary else if isArchivePointer turn then .pointer else .residue

/-- Archive pointers apart, no turn but the first is a prior summary. -/
def SummaryOnlyFirst (kinds : List TurnKind) : Prop :=
  TurnKind.summary ∉ (kinds.filter (· ≠ .pointer)).tail

instance (kinds : List TurnKind) : Decidable (SummaryOnlyFirst kinds) := by
  unfold SummaryOnlyFirst
  infer_instance

theorem kindOf_eq_summary : kindOf turn = .summary ↔ isSummary turn = true := by
  rw [kindOf]
  split
  · simp_all
  · split <;> simp_all

theorem kindOf_ne_pointer (turn : RecentTurn) :
    decide (kindOf turn ≠ .pointer) = !isArchivePointer turn := by
  rw [kindOf]
  cases hsummary : isSummary turn with
  | true => simp [isArchivePointer, hsummary]
  | false =>
    cases isArchivePointer turn with
    | true => rfl
    | false => rfl

theorem summaryOnlyFirst_iff :
    SummaryOnlyFirst (prepared.map kindOf) ↔ ∀ turn ∈ (content prepared).tail, isSummary turn = false := by
  have hkinds : (prepared.map kindOf).filter (· ≠ .pointer) = (content prepared).map kindOf := by
    rw [List.filter_map, content]
    congr 1
    exact List.filter_congr fun turn _ => kindOf_ne_pointer turn
  rw [SummaryOnlyFirst, hkinds, ← List.map_tail, List.mem_map, not_exists]
  refine forall_congr' fun turn => ?_
  rw [not_and, kindOf_eq_summary, Bool.not_eq_true]

section
variable {α : Type*} {p : α → Bool}

variable {l : List α}

/-- A list without duplicates that is its own reverse has at most one element. -/
theorem length_le_one_of_reverse_eq (hnodup : l.Nodup) (h : l.reverse = l) : l.length ≤ 1 := by
  cases l with
  | nil => exact Nat.zero_le 1
  | cons a rest =>
    rcases List.eq_nil_or_concat' rest with rfl | ⟨init, b, rfl⟩
    · exact le_rfl
    · rw [List.reverse_cons, List.reverse_concat, List.cons_append] at h
      have hb : b = a := (List.cons.inj h).1
      exact absurd (hb ▸ List.mem_append_right init List.mem_cons_self) (List.nodup_cons.mp hnodup).1

theorem filter_not_eq_self (h : ∀ a ∈ l, p a = false) :
    l.filter p = [] ∧ l.filter (fun a => !p a) = l := by
  constructor
  · exact List.filter_eq_nil_iff.mpr fun a ha => by rw [h a ha]; decide
  · exact List.filter_eq_self.mpr fun a ha => by rw [h a ha]; rfl

/-- Moving the elements with a property to the front, reversed, changes nothing exactly when no element but
the first has it. -/
theorem reverse_filter_append_eq_self_iff (hnodup : l.Nodup) :
    (l.filter p).reverse ++ l.filter (fun a => !p a) = l ↔ ∀ a ∈ l.tail, p a = false := by
  constructor
  · intro h
    have hreverse : (l.filter p).reverse = l.filter p := by
      have hfilter := congrArg (List.filter p) h
      rw [List.filter_append, ← List.filter_reverse, List.filter_filter, List.filter_filter] at hfilter
      simpa using hfilter
    have hone := length_le_one_of_reverse_eq (hnodup.filter p) hreverse
    have hrest : ∀ a ∈ l.filter (fun a => !p a), p a = false := fun a ha => by
      simpa using (List.mem_filter.mp ha).2
    rw [hreverse] at h
    cases hfirst : l.filter p with
    | nil =>
      rw [hfirst, List.nil_append] at h
      intro a ha
      exact hrest a (by rw [h]; exact List.mem_of_mem_tail ha)
    | cons b others =>
      rw [hfirst, List.length_cons] at hone
      obtain rfl : others = [] := List.eq_nil_of_length_eq_zero (by omega)
      rw [hfirst, List.singleton_append] at h
      intro a ha
      rw [← h, List.tail_cons] at ha
      exact hrest a ha
  · intro h
    cases l with
    | nil => rfl
    | cons b rest =>
      obtain ⟨hnone, hall⟩ := filter_not_eq_self h
      rw [List.tail_cons] at hnone hall
      cases hb : p b with
      | true => simp [hb, hnone, hall]
      | false => simp [hb, hnone, hall]

end

/-- The order of pruning is the order of the history when no summary stands after another turn. -/
theorem content_eq_of_summaryOnlyFirst (hnodup : prepared.Nodup)
    (h : SummaryOnlyFirst (prepared.map kindOf)) :
    ((content prepared).filter isSummary).reverse ++ (partitionPriorMetadata prepared).residue
        = content prepared ∧
      (partitionPriorMetadata prepared).summarized = content prepared := by
  have hfirst := summaryOnlyFirst_iff.mp h
  have hcontent : (content prepared).Nodup := nodup_content hnodup
  have horder := (reverse_filter_append_eq_self_iff hcontent).mpr hfirst
  have hreverse : ((content prepared).filter isSummary).reverse = (content prepared).filter isSummary := by
    cases hc : content prepared with
    | nil => rfl
    | cons turn rest =>
      rw [hc] at hfirst
      have hnone := (filter_not_eq_self hfirst).1
      rw [List.tail_cons] at hnone
      rw [List.filter_cons, hnone]
      split <;> rfl
  rw [← residue_eq_filter] at horder
  refine ⟨horder, ?_⟩
  rw [Partition.summarized, older_append_carried, ← hreverse]
  exact horder

/-- The summaries that pruning archives are among the prior ones, in their order. -/
theorem archivedSummaries_sublist (prepared synthesized : List RecentTurn) (req : CompactionRequest) :
    (pruning (partitionPriorMetadata prepared) synthesized req).archivedSummaries.Sublist
      ((content prepared).filter isSummary) := by
  rw [← older_append_carried, pruning]
  dsimp only
  split
  · exact List.Sublist.refl _
  · exact List.sublist_append_left _ _

/-- A history whose only summary stands first is archived in its order. -/
theorem complete_of_summaryOnlyFirst (c : Compactor) (history : List RecentTurn)
    (projection : TaskContextProjection) (ledger : TaskLedger) (req : CompactionRequest)
    (h : SummaryOnlyFirst ((c.prepareHistory history).1.map kindOf)) :
    Complete (c.prepareHistory history).1 projection.synthesized
      (c.compactProjected history projection ledger req) := by
  have hnodup := nodup_prepareHistory c history
  obtain ⟨hpruned, hsummarized⟩ := content_eq_of_summaryOnlyFirst hnodup h
  rcases c.compactProjected_cases history projection ledger req with
    ⟨summary, -, hplan⟩ | ⟨keepCap, strategy, -, hplan⟩
  · rw [hplan]
    exact ⟨_, _, placed_summaryPlan hnodup _ _ _ _ _, hsummarized ▸ List.Sublist.refl _⟩
  · rw [hplan]
    refine ⟨_, _, placed_passPlan hnodup _ _ _ _ _, ?_⟩
    conv_rhs => rw [← hpruned]
    exact (archivedSummaries_sublist _ _ _).reverse.append
      (Pruning.evicted_reverse_prefix (pruning _ _ req) keepCap).sublist

/-! ## Histories that are archived out of order -/

/-- A turn whose line tells its role and its text, and which is one line. -/
def Plain (turn : RecentTurn) : Prop := ':' ∉ turn.role ∧ '\n' ∉ turn.line

/-- What stands before the first separator, and what after it. -/
theorem append_separator_inj {α : Type*} {c : α} {a a' b b' : List α} (ha : c ∉ a) (ha' : c ∉ a')
    (h : a ++ c :: b = a' ++ c :: b') : a = a' ∧ b = b' := by
  induction a generalizing a' with
  | nil =>
    cases a' with
    | nil => exact ⟨rfl, (List.cons.inj h).2⟩
    | cons x a' => exact absurd ((List.cons.inj h).1 ▸ List.mem_cons_self) ha'
  | cons x a ih =>
    cases a' with
    | nil => exact absurd ((List.cons.inj h).1 ▸ List.mem_cons_self) ha
    | cons y a' =>
      obtain ⟨hxy, hrest⟩ := List.cons.inj h
      obtain ⟨haa', hbb'⟩ := ih (fun hc => ha (List.mem_cons_of_mem x hc))
        (fun hc => ha' (List.mem_cons_of_mem y hc)) hrest
      exact ⟨by rw [hxy, haa'], hbb'⟩

theorem line_inj {turn' : RecentTurn} (h : Plain turn) (h' : Plain turn') (hline : turn.line = turn'.line) :
    turn = turn' := by
  have hcolon : ∀ t : RecentTurn, t.line = t.role ++ ':' :: (' ' :: t.text) := fun t => by
    rw [RecentTurn.line, show ": ".toList = [':', ' '] from rfl, List.append_assoc]
    rfl
  rw [hcolon, hcolon] at hline
  obtain ⟨hrole, htext⟩ := append_separator_inj h.1 h'.1 hline
  cases turn
  cases turn'
  rw [RecentTurn.mk.injEq]
  exact ⟨hrole, (List.cons.inj htext).2⟩

/-- Plain turns can be read back from their rendering. -/
theorem renderTurns_inj {a b : List RecentTurn} (ha : ∀ turn ∈ a, Plain turn) (hb : ∀ turn ∈ b, Plain turn)
    (h : renderTurns a = renderTurns b) : a = b := by
  have hcons : ∀ (turn : RecentTurn) (rest : List RecentTurn),
      renderTurns (turn :: rest) = turn.line ++ '\n' :: renderTurns rest := fun turn rest => by
    rw [renderTurns, List.flatMap_cons, List.append_assoc]
    rfl
  induction a generalizing b with
  | nil =>
    cases b with
    | nil => rfl
    | cons turn rest =>
      rw [hcons] at h
      simp [renderTurns] at h
  | cons turn rest ih =>
    cases b with
    | nil =>
      rw [hcons] at h
      simp [renderTurns] at h
    | cons turn' rest' =>
      rw [hcons, hcons] at h
      have hturn := ha turn List.mem_cons_self
      have hturn' := hb turn' List.mem_cons_self
      obtain ⟨hline, hrest⟩ := append_separator_inj hturn.2 hturn'.2 h
      rw [line_inj hturn hturn' hline, ih (fun t ht => ha t (List.mem_cons_of_mem turn ht))
        (fun t ht => hb t (List.mem_cons_of_mem turn' ht)) hrest]

/-- A turn of a kind, told apart from others by its number. -/
def sampleTurn (kind : TurnKind) (number : ℕ) : RecentTurn :=
  match kind with
  | .pointer => ⟨assistantRole, archivePointerLead ++ List.replicate number 'x'⟩
  | .summary => ⟨summaryRole, List.replicate number 'x'⟩
  | .residue => ⟨userRole, List.replicate number 'x'⟩

/-- A history of the given kinds, its turns numbered from `first` on. -/
def sampleHistory : ℕ → List TurnKind → List RecentTurn
  | _, [] => []
  | first, kind :: rest => sampleTurn kind first :: sampleHistory (first + 1) rest

theorem kindOf_sampleTurn (kind : TurnKind) (number : ℕ) : kindOf (sampleTurn kind number) = kind := by
  have hroles : assistantRole ≠ summaryRole ∧ userRole ≠ summaryRole ∧ userRole ≠ assistantRole := by decide
  cases kind with
  | pointer =>
    have hlead : archivePointerLead.isPrefixOf (archivePointerLead ++ List.replicate number 'x') = true :=
      List.isPrefixOf_iff_prefix.mpr (List.prefix_append _ _)
    simp [kindOf, isSummary, isArchivePointer, isDigestMarker, sampleTurn, hroles.1, hlead]
  | summary => simp [kindOf, isSummary, sampleTurn]
  | residue => simp [kindOf, isSummary, isArchivePointer, sampleTurn, hroles.2.1, hroles.2.2]

theorem sampleTurn_inj {kind kind' : TurnKind} {i j : ℕ} (h : sampleTurn kind i = sampleTurn kind' j) :
    i = j := by
  obtain rfl : kind = kind' := by rw [← kindOf_sampleTurn kind i, h, kindOf_sampleTurn]
  have hlength := congrArg (fun turn : RecentTurn => turn.text.length) h
  cases kind <;> simpa [sampleTurn] using hlength

theorem mem_sampleHistory {kinds : List TurnKind} {first : ℕ} (h : turn ∈ sampleHistory first kinds) :
    ∃ kind number, first ≤ number ∧ turn = sampleTurn kind number := by
  induction kinds generalizing first with
  | nil => exact absurd h List.not_mem_nil
  | cons kind rest ih =>
    rcases List.mem_cons.mp h with rfl | h
    · exact ⟨kind, first, le_rfl, rfl⟩
    · obtain ⟨kind', number, hle, hturn⟩ := ih h
      exact ⟨kind', number, by omega, hturn⟩

theorem nodup_sampleHistory (first : ℕ) (kinds : List TurnKind) : (sampleHistory first kinds).Nodup := by
  induction kinds generalizing first with
  | nil => exact List.nodup_nil
  | cons kind rest ih =>
    refine List.nodup_cons.mpr ⟨fun h => ?_, ih (first + 1)⟩
    obtain ⟨kind', number, hle, hturn⟩ := mem_sampleHistory h
    have := sampleTurn_inj hturn
    omega

theorem map_kindOf_sampleHistory (first : ℕ) (kinds : List TurnKind) :
    (sampleHistory first kinds).map kindOf = kinds := by
  induction kinds generalizing first with
  | nil => rfl
  | cons kind rest ih => rw [sampleHistory, List.map_cons, kindOf_sampleTurn, ih]

theorem plain_sampleTurn (kind : TurnKind) (number : ℕ) : Plain (sampleTurn kind number) := by
  have htext : ∀ c : Char, c ∈ List.replicate number 'x' → c = 'x' := fun c h => List.eq_of_mem_replicate h
  have hroles : ∀ role ∈ [assistantRole, summaryRole, userRole],
      ':' ∉ role ∧ '\n' ∉ role ++ ": ".toList := by decide
  have hlead : '\n' ∉ archivePointerLead := by decide
  have hnewline : '\n' ∉ List.replicate number 'x' := fun h => absurd (htext _ h) (by decide)
  cases kind with
  | pointer =>
    obtain ⟨hcolon, hrole⟩ := hroles assistantRole (by decide)
    refine ⟨hcolon, fun h => ?_⟩
    rcases List.mem_append.mp h with h | h
    · exact hrole h
    · exact (List.mem_append.mp h).elim hlead hnewline
  | summary =>
    obtain ⟨hcolon, hrole⟩ := hroles summaryRole (by decide)
    exact ⟨hcolon, fun h => (List.mem_append.mp h).elim hrole hnewline⟩
  | residue =>
    obtain ⟨hcolon, hrole⟩ := hroles userRole (by decide)
    exact ⟨hcolon, fun h => (List.mem_append.mp h).elim hrole hnewline⟩

/-- No turn of it is a tool output. -/
theorem not_isEvidenceEligible_sampleTurn (kind : TurnKind) (number : ℕ) :
    isEvidenceEligible (sampleTurn kind number) = false := by
  have hroles : (asciiLower assistantRole == toolRole) = false ∧ (asciiLower summaryRole == toolRole) = false ∧
      (asciiLower userRole == toolRole) = false := by decide +kernel
  cases kind <;> simp [isEvidenceEligible, sampleTurn, hroles]

/-- A compactor without a model, whose archive refuses. -/
def deterministicOnly : Compactor := ⟨none, fun _ _ => none⟩

/-- A request that leaves no room. -/
def noRoom : CompactionRequest := ⟨0, 0, .finite 0, 0⟩

theorem noRoom_hardCap : noRoom.hardCap = 0 := by decide +kernel

/-- Without tool outputs nothing is extracted. -/
theorem extractEvidence_eq_self (archive : EvidenceArchive) (earlier : List Text) (seen : List ℕ)
    {history : List RecentTurn} (h : ∀ turn ∈ history, isEvidenceEligible turn = false) :
    extractEvidence archive earlier seen history = (history, []) := by
  induction history generalizing earlier seen with
  | nil => rfl
  | cons turn rest ih =>
    rw [extractEvidence, h turn List.mem_cons_self,
      ih earlier seen fun t ht => h t (List.mem_cons_of_mem turn ht)]
    rfl

theorem prepareHistory_sampleHistory (c : Compactor) (kinds : List TurnKind) :
    (c.prepareHistory (sampleHistory 0 kinds)).1 = sampleHistory 0 kinds := by
  have hnone : ∀ turn ∈ sampleHistory 0 kinds, isEvidenceEligible turn = false := fun turn h => by
    obtain ⟨kind, number, -, rfl⟩ := mem_sampleHistory h
    exact not_isEvidenceEligible_sampleTurn kind number
  rw [Compactor.prepareHistory, extractEvidence_eq_self _ _ _ hnone]
  exact keepFirst_eq_self (nodup_sampleHistory 0 kinds) fun _ _ => List.not_mem_nil

/-- A turn on the wire costs something. -/
theorem estimateWireTurns_singleton_pos (turn : RecentTurn) : 0 < estimateWireTurns [turn] := by
  have hchars : turnChars turn ≠ 0 := by
    simp only [turnChars, satAdd, usizeMax]
    omega
  have hdense : 0 < satAdd (turnChars turn / 3) 1 := by
    simp only [satAdd, usizeMax]
    omega
  have hturn : 0 < estimateTurnTokens turn := by
    rw [estimateTurnTokens, estimateChars, if_neg hchars]
    exact lt_of_lt_of_le hdense (le_max_left _ _)
  simp only [estimateWireTurns, List.map_cons, List.map_nil, List.foldl_cons, List.foldl_nil, satAdd, usizeMax]
  omega

/-- Without room nothing is kept, and everything archived: the summaries, newest first, and the residue. -/
theorem compactProjected_noRoom (history : List RecentTurn) :
    let plan := deterministicOnly.compactProjected history .empty emptyLedger noRoom
    let prepared := (deterministicOnly.prepareHistory history).1
    plan.keptRecent = [] ∧ plan.strategy ≠ .llmSummary ∧ plan.archiveChunks
      = fillChunks (((content prepared).filter isSummary).reverse ++ (partitionPriorMetadata prepared).residue)
          archiveChunkBytes := by
  intro plan prepared
  set p := pruning (partitionPriorMetadata prepared) [] noRoom with hp
  have hcap : p.cap = 0 := noRoom_hardCap
  have hreserved : p.reserved = 0 ∧ p.carried = none ∧
      p.archivedSummaries = (content prepared).filter isSummary := by
    rw [← older_append_carried, hp, pruning, noRoom_hardCap]
    cases (partitionPriorMetadata prepared).carriedSummary with
    | none => exact ⟨by simp [satAdd, estimateWireTurns], rfl, (List.append_nil _).symm⟩
    | some summary => exact ⟨rfl, rfl, rfl⟩
  obtain ⟨hres, hcarried, harchived⟩ := hreserved
  have hkept : p.kept 0 = [] := by
    rw [Pruning.kept, hres, (Pruning.keepScan_append _ _ _ _).2 (by decide)]
    rfl
  have hevicted : (p.evicted 0).reverse = (partitionPriorMetadata prepared).residue := by
    have hsplit := p.evicted_append_kept 0
    rw [hkept, List.append_nil] at hsplit
    exact hsplit
  have hbare : p.bareWire 0 = [] := by
    rw [Pruning.bareWire, hkept, hcarried]
    rfl
  have hwire : p.wire 0 = [] := by
    rw [Pruning.wire, hbare, hcap]
    cases p.pointer 0 with
    | none => rfl
    | some digest => exact if_neg (not_le.mpr (estimateWireTurns_singleton_pos digest))
  have hplan : plan = deterministicCore (partitionPriorMetadata prepared) [] emptyLedger noRoom
      (deterministicOnly.prepareHistory history).2 := by
    change deterministicOnly.compactProjected history .empty emptyLedger noRoom = _
    rw [Compactor.compactProjected_eq, synthesized_empty]
    rfl
  have hloop : p.keepLoop 3 noRoom.hardCap = (p.keepPass 0).plan := by
    rw [noRoom_hardCap, Pruning.keepLoop]
    refine if_pos ?_
    rw [Bool.or_eq_true]
    right
    change (p.kept 0).isEmpty = true
    rw [hkept]
    rfl
  rw [hplan, deterministicCore, ← hp, hloop]
  refine ⟨hwire, by dsimp only; split <;> decide, ?_⟩
  change p.chunks 0 = _
  rw [Pruning.chunks, hevicted, harchived]

/-- When nothing is kept, a complete plan archives the whole history in its order. -/
theorem Complete.flatten_archiveChunks {plan : CompactionPlan} (h : Complete prepared synthesized plan)
    (hnodup : prepared.Nodup) (hkept : plan.keptRecent = []) (hstrategy : plan.strategy ≠ .llmSummary) :
    plan.archiveChunks.flatten = renderTurns (content prepared) := by
  obtain ⟨kept, archived, hplaced, horder⟩ := h
  obtain ⟨pointer, written, -, -, -, hwire⟩ := hplaced.wire
  rw [hkept] at hwire
  obtain rfl : kept = [] := (List.append_eq_nil_iff.mp hwire.symm).2
  have hall : ∀ turn ∈ content prepared, turn ∈ archived := by
    intro turn hturn
    rcases hplaced.once turn hturn with (⟨hmem, -⟩ | ⟨harchived, -⟩) | ⟨hllm, -⟩
    · exact absurd hmem List.not_mem_nil
    · exact harchived
    · exact absurd hllm hstrategy
  have hcontent : (content prepared).Nodup := nodup_content hnodup
  have hlength : (content prepared).length ≤ archived.length :=
    (hcontent.subperm fun turn hturn => hall turn hturn).length_le
  rw [hplaced.chunks.flatten, horder.eq_of_length_le hlength]

/-- **The archive is in the order of the history**, for all histories of a shape and whatever is asked,
exactly when in that shape no turn but the first is a prior summary; archive pointers do not count.
Whatever the shape, every turn is in exactly one place. -/
theorem complete_iff_summaryOnlyFirst (kinds : List TurnKind) :
    (∀ (c : Compactor) (history : List RecentTurn) (projection : TaskContextProjection)
      (ledger : TaskLedger) (req : CompactionRequest),
      (c.prepareHistory history).1.map kindOf = kinds →
        ∃ kept archived, Placed (c.prepareHistory history).1 projection.synthesized
          (c.compactProjected history projection ledger req) kept archived) ∧
    ((∀ (c : Compactor) (history : List RecentTurn) (projection : TaskContextProjection)
      (ledger : TaskLedger) (req : CompactionRequest),
      (c.prepareHistory history).1.map kindOf = kinds →
        Complete (c.prepareHistory history).1 projection.synthesized
          (c.compactProjected history projection ledger req)) ↔ SummaryOnlyFirst kinds) := by
  refine ⟨fun c history projection ledger req _ => exists_placed c history projection ledger req, ?_⟩
  constructor
  · intro hall
    set history := sampleHistory 0 kinds with hhistory
    have hprepared : (deterministicOnly.prepareHistory history).1 = history :=
      prepareHistory_sampleHistory _ _
    have hkinds : history.map kindOf = kinds := map_kindOf_sampleHistory 0 kinds
    have hnodup : history.Nodup := nodup_sampleHistory 0 kinds
    obtain ⟨hkept, hstrategy, hchunks⟩ := compactProjected_noRoom history
    rw [hprepared] at hchunks
    have hcomplete := hall deterministicOnly history .empty emptyLedger noRoom (by rw [hprepared, hkinds])
    rw [hprepared] at hcomplete
    have hflatten := hcomplete.flatten_archiveChunks hnodup hkept hstrategy
    rw [hchunks, (archivedAs_fillChunks _ _).flatten, residue_eq_filter] at hflatten
    -- the turns can be read back from the text, so the lists agree
    have hplain : ∀ turn ∈ content history, Plain turn := by
      intro turn hturn
      obtain ⟨kind, number, -, rfl⟩ := mem_sampleHistory (List.mem_of_mem_filter hturn)
      exact plain_sampleTurn kind number
    have hsame := renderTurns_inj (fun turn hturn => ?_) hplain hflatten
    · rw [← hkinds]
      exact summaryOnlyFirst_iff.mpr
        ((reverse_filter_append_eq_self_iff (nodup_content hnodup)).mp hsame)
    · refine hplain turn ?_
      rcases List.mem_append.mp hturn with h | h
      · exact List.mem_of_mem_filter (List.mem_reverse.mp h)
      · exact List.mem_of_mem_filter h
  · intro hfirst c history projection ledger req hkinds
    exact complete_of_summaryOnlyFirst c history projection ledger req (hkinds ▸ hfirst)

/-- Three prior summaries and a user turn. -/
def threeSummaries : List RecentTurn :=
  [⟨summaryRole, "one".toList⟩, ⟨summaryRole, "two".toList⟩, ⟨summaryRole, "three".toList⟩,
    ⟨userRole, "do X".toList⟩]

/-- Under a cap of sixty tokens the plan for them archives the second summary before the first. -/
theorem threeSummaries_archived_out_of_order :
    let plan := deterministicOnly.compactProjected threeSummaries .empty emptyLedger ⟨100, 60, .finite 0, 128⟩
    plan.accepted = true ∧ plan.archiveChunks = ["summary: two\nsummary: one\n".toList] ∧
      ¬ Complete (deterministicOnly.prepareHistory threeSummaries).1
        TaskContextProjection.empty.synthesized plan := by
  refine ⟨by decide +kernel, by decide +kernel, ?_⟩
  rintro ⟨kept, archived, hplaced, horder⟩
  have hflatten := hplaced.chunks.flatten
  have hnone : ∀ turns ∈ (content (deterministicOnly.prepareHistory threeSummaries).1).sublists,
      renderTurns turns ≠ "summary: two\nsummary: one\n".toList := by decide +kernel
  refine hnone archived (List.mem_sublists.mpr horder) ?_
  rw [← hflatten]
  decide +kernel

end Compaction
