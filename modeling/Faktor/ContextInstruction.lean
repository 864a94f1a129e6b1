/-
# The active instruction across a compaction

An accepted plan costs what its turns cost, and at most the cap; no further compaction is then wanted.
The plan also carries the newest user turn of the residue.  Exact duplicates collapse to their first
occurrence before, so this is the newest user turn of the history only when no other user turn is new
after the first time it was said.

* `userTurns_prepareHistory` : the user turns that are left are the first occurrences;
* `newestUser_residue` : the residue's newest user turn is the last that was new;
* `accepted_plan_sound_iff` : the histories whose accepted plans always carry the active instruction.
-/
import Mathlib
import Faktor.ContextCompactor

namespace Compaction

open TextBytes

/-! ## The user turns of the residue -/

/-- Evidence extraction leaves the turns of the roles that are not eligible as they are. -/
theorem filter_extractEvidence {p : RecentTurn → Bool}
    (hp : ∀ turn, isEvidenceEligible turn = true → ∀ text, p ⟨turn.role, text⟩ = false)
    (archive : EvidenceArchive) (earlier : List Text) (seen : List ℕ) (history : List RecentTurn) :
    (extractEvidence archive earlier seen history).1.filter p = history.filter p := by
  induction history generalizing earlier seen with
  | nil => rfl
  | cons turn rest ih =>
    rw [extractEvidence]
    by_cases helig : isEvidenceEligible turn = true
    · have hrest := fun earlier seen => ih earlier seen
      rw [if_pos helig]
      have hturn : (turn :: rest).filter p = rest.filter p :=
        List.filter_cons_of_neg (by simpa using hp turn helig turn.text)
      have hout : ∀ text turns, (⟨turn.role, text⟩ :: turns).filter p = List.filter p turns :=
        fun text turns => List.filter_cons_of_neg (by simpa using hp turn helig text)
      dsimp only
      cases archive earlier turn.text with
      | none => rw [hturn, hout turn.text, hrest]
      | some ev =>
        dsimp only
        split
        · rw [hturn, hout, hrest]
        · rw [hturn, hout, hrest]
    · rw [if_neg helig]
      simp only [List.filter_cons] at ih ⊢
      rw [ih]

/-- An eligible turn has a tool's role. -/
theorem asciiLower_role {turn : RecentTurn} (h : isEvidenceEligible turn = true) :
    asciiLower turn.role = toolRole := by
  rw [isEvidenceEligible, Bool.and_eq_true, beq_iff_eq] at h
  exact h.2

/-- The user turns stay as they are. -/
theorem userTurns_extractEvidence (archive : EvidenceArchive) (earlier : List Text) (seen : List ℕ)
    (history : List RecentTurn) :
    userTurns (extractEvidence archive earlier seen history).1 = userTurns history := by
  refine filter_extractEvidence (fun turn helig text => decide_eq_false fun hrole => ?_) _ _ _ _
  have htool := asciiLower_role helig
  rw [show turn.role = userRole from hrole] at htool
  exact absurd htool (by decide +kernel)

/-- The user turns of the prepared history are the first occurrences of the history's. -/
theorem userTurns_prepareHistory (c : Compactor) (history : List RecentTurn) :
    userTurns (c.prepareHistory history).1 = keepFirst [] (userTurns history) := by
  rw [← userTurns_extractEvidence c.evidence [] [] history]
  exact filter_keepFirst _ _ _

/-- Every user turn is residue. -/
theorem userTurns_residue (turns : List RecentTurn) :
    userTurns (partitionPriorMetadata turns).residue = userTurns turns := by
  rw [userTurns, partitionPriorMetadata, List.filter_filter]
  refine List.filter_congr fun turn _ => ?_
  by_cases hrole : turn.role = userRole
  · have hsummary : isSummary turn = false := by
      rw [isSummary, hrole]
      decide
    have hpointer : isArchivePointer turn = false := by
      rw [isArchivePointer, hrole, decide_eq_false (by decide : userRole ≠ assistantRole)]
      simp
    simp [hrole, hsummary, hpointer]
  · simp [hrole]

/-- The residue's newest user turn is the last user turn of the history that was new. -/
theorem newestUser_residue (c : Compactor) (history : List RecentTurn) :
    newestUser (c.parts history).residue = (keepFirst [] (userTurns history)).getLast? := by
  rw [newestUser_eq_getLast?, Compactor.parts, userTurns_residue, userTurns_prepareHistory]

/-! ## What an accepted plan promises -/

/-- The plan carries, as a user turn, the text of the history's last user turn. -/
def CarriesInstruction (history : List RecentTurn) (plan : CompactionPlan) : Prop :=
  ∀ user ∈ newestUser history, ∃ w ∈ plan.keptRecent, w.role = userRole ∧ w.text = user.text

/-- An accepted plan costs what its turns cost, at most the cap, and no further compaction is wanted. -/
def MeetsCap (req : CompactionRequest) (plan : CompactionPlan) : Prop :=
  plan.accepted = true →
    plan.afterTokens = estimateWireTurns plan.keptRecent ∧ plan.afterTokens ≤ req.hardCap ∧
      wouldCompactAgain plan req = false

theorem wouldCompactAgain_of_le_hardCap {plan : CompactionPlan} {req : CompactionRequest}
    (haccepted : plan.accepted = true) (hafter : plan.afterTokens ≤ req.hardCap) :
    wouldCompactAgain plan req = false := by
  have htarget : ¬ req.targetTokens < plan.afterTokens :=
    not_lt.mpr (hafter.trans req.hardCap_le_target)
  simp [wouldCompactAgain, haccepted, htarget]

theorem meetsCap_of_le {plan : CompactionPlan} {req : CompactionRequest}
    (hcost : plan.afterTokens = estimateWireTurns plan.keptRecent)
    (hafter : plan.accepted = true → plan.afterTokens ≤ req.hardCap) : MeetsCap req plan :=
  fun haccepted => ⟨hcost, hafter haccepted, wouldCompactAgain_of_le_hardCap haccepted (hafter haccepted)⟩

/-- **Every accepted plan meets the cap.** -/
theorem compactProjected_meetsCap (c : Compactor) (history : List RecentTurn)
    (projection : TaskContextProjection) (ledger : TaskLedger) (req : CompactionRequest) :
    MeetsCap req (c.compactProjected history projection ledger req) := by
  rcases c.compactProjected_cases history projection ledger req with
    ⟨summary, hcap, hplan⟩ | ⟨keepCap, strategy, -, hplan⟩
  · rw [hplan]
    refine meetsCap_of_le ?_ fun _ => ?_
    · simp only [summaryPlan]
    · simpa only [summaryPlan] using hcap
  · rw [hplan]
    refine meetsCap_of_le ?_ fun haccepted => (passPlan_accepted.mp haccepted).1
    simp only [passPlan, Pruning.keepPass]

/-- An accepted plan carries the residue's newest user turn. -/
theorem exists_mem_keptRecent_of_accepted {c : Compactor} {history : List RecentTurn}
    {projection : TaskContextProjection} {ledger : TaskLedger} {req : CompactionRequest}
    (haccepted : (c.compactProjected history projection ledger req).accepted = true) {user : RecentTurn}
    (huser : newestUser (c.parts history).residue = some user) :
    ∃ w ∈ (c.compactProjected history projection ledger req).keptRecent,
      w.role = userRole ∧ w.text = user.text := by
  rcases c.compactProjected_cases history projection ledger req with
    ⟨summary, -, hplan⟩ | ⟨keepCap, strategy, -, hplan⟩
  · rw [hplan]
    refine ⟨user, ?_, (newestUser_mem huser).2, rfl⟩
    rw [summaryPlan, summaryWire, huser]
    simp
  · rw [hplan] at haccepted ⊢
    have hpresent := (passPlan_accepted.mp haccepted).2
    have hresidue : newestUser (pruning (c.parts history) projection.synthesized req).residue = some user :=
      huser
    rw [Pruning.newestUserPresent, hresidue] at hpresent
    obtain ⟨w, hw, hsame⟩ := List.any_eq_true.mp hpresent
    rw [Bool.and_eq_true, decide_eq_true_eq, decide_eq_true_eq] at hsame
    exact ⟨w, hw, hsame⟩

/-! ## When the instruction is carried -/

/-- Nothing else is new after the last user turn was first said: each user turn from its first occurrence
on is that turn again, or was said before. -/
def LastAskIsNewest (history : List RecentTurn) : Prop :=
  ∀ user ∈ newestUser history, ∀ v ∈ (userTurns history).dropWhile (· ≠ user),
    v = user ∨ v ∈ (userTurns history).takeWhile (· ≠ user)

instance (history : List RecentTurn) : Decidable (LastAskIsNewest history) := by
  unfold LastAskIsNewest
  infer_instance

/-- It says that collapsing duplicates leaves the newest user turn the newest. -/
theorem lastAskIsNewest_iff (c : Compactor) (history : List RecentTurn) :
    LastAskIsNewest history ↔ newestUser (c.parts history).residue = newestUser history := by
  rw [newestUser_residue, LastAskIsNewest, newestUser_eq_getLast?, getLast?_keepFirst]

/-- A compactor whose model always answers with one word, and whose archive refuses. -/
def terse : Compactor := ⟨some fun _ _ => ['x'], fun _ _ => none⟩

/-- A request that no conversation exceeds. -/
def ample : CompactionRequest := ⟨usizeMax, usizeMax, .finite 0, 0⟩

def emptyLedger : TaskLedger := ⟨[], [], [], [], [], [], [], [], [], []⟩

theorem ample_hardCap : ample.hardCap = usizeMax := by decide +kernel

theorem synthesized_empty : TaskContextProjection.empty.synthesized = [] := by decide +kernel

theorem summaryText_terse : summaryText .empty ample ['x'] = ['x'] := by decide +kernel

/-- One word echoes no transcript. -/
theorem echoesTranscript_word (residue : List RecentTurn) : echoesTranscript residue ['x'] = false := by
  rw [echoesTranscript, List.any_eq_false]
  intro turn _
  have hline : ¬ hasInfix turn.line ['x'] = true := by
    intro h
    have hlength := hasInfix_length h
    simp only [RecentTurn.line, List.length_append, List.length_singleton] at hlength
    have : (": ".toList).length = 2 := by decide
    omega
  simp [hline]

/-- Its plan for a conversation is the plan of the summary branch. -/
theorem terse_compactProjected {history : List RecentTurn}
    (hresidue : (terse.parts history).residue ≠ []) :
    terse.compactProjected history .empty emptyLedger ample
      = summaryPlan (terse.parts history) [] ['x'] emptyLedger ample (terse.prepareHistory history).2 := by
  have hbudget : ample.summarizerResidueBudgetTokens < estimateRenderedTokens (terse.parts history).residue :=
    estimateRenderedTokens_pos hresidue
  have hcap : estimateWireTurns (summaryWire (terse.parts history) [] ['x']) ≤ ample.hardCap := by
    rw [ample_hardCap]
    exact estimateWireTurns_le _
  rw [Compactor.compactProjected_eq, show terse.summarizer = some fun _ _ => ['x'] from rfl]
  dsimp only
  rw [if_pos hbudget, summaryText_terse, synthesized_empty,
    if_pos ⟨by decide, echoesTranscript_word _, hcap⟩]

/-- Every user turn on its wire is the newest of the residue. -/
theorem eq_newestUser_of_mem_summaryWire {parts : Partition} {summary : Text} {w : RecentTurn}
    (hprior : ∀ digest ∈ parts.priorDigest, digest.role = assistantRole)
    (hw : w ∈ summaryWire parts [] summary) (hrole : w.role = userRole) :
    newestUser parts.residue = some w := by
  simp only [summaryWire, List.append_nil, List.mem_append, Option.mem_toList, List.mem_singleton] at hw
  rcases hw with (hdigest | rfl) | hnewest
  · -- a pointer is an assistant turn
    have hassistant : w.role = assistantRole := by
      rw [digestTurn] at hdigest
      split at hdigest
      · rw [← Option.some.inj hdigest]
      · exact hprior w hdigest
    exact absurd (hrole.symm.trans hassistant) (by decide)
  · exact absurd hrole (by decide : summaryRole ≠ userRole)
  · exact hnewest

theorem priorDigest_role {turns : List RecentTurn} {digest : RecentTurn}
    (h : digest ∈ (partitionPriorMetadata turns).priorDigest) : digest.role = assistantRole := by
  have hmem := (List.mem_filter.mp (List.mem_of_getLast? h)).2
  simp only [isArchivePointer, Bool.and_eq_true, decide_eq_true_eq] at hmem
  exact hmem.2.1

/-- **The active instruction survives** every accepted compaction of a history exactly when nothing else is
new after it was first said.  The cost of an accepted plan is right, and within the cap, for every
history. -/
theorem accepted_plan_sound_iff (history : List RecentTurn) :
    (∀ (c : Compactor) (projection : TaskContextProjection) (ledger : TaskLedger)
      (req : CompactionRequest), MeetsCap req (c.compactProjected history projection ledger req)) ∧
    ((∀ (c : Compactor) (projection : TaskContextProjection) (ledger : TaskLedger)
      (req : CompactionRequest), (c.compactProjected history projection ledger req).accepted = true →
        CarriesInstruction history (c.compactProjected history projection ledger req)) ↔
      LastAskIsNewest history) := by
  refine ⟨fun c projection ledger req => compactProjected_meetsCap c history projection ledger req, ?_⟩
  constructor
  · intro hall
    rw [lastAskIsNewest_iff terse]
    cases hnewest : newestUser history with
    | none =>
      rw [newestUser_eq_getLast?, List.getLast?_eq_none_iff] at hnewest
      rw [newestUser_residue, hnewest]
      rfl
    | some user =>
      -- the conversation has a user turn, so its residue is not empty
      have hresidue : (terse.parts history).residue ≠ [] := by
        intro hempty
        have husers := userTurns_residue (terse.prepareHistory history).1
        rw [show (partitionPriorMetadata (terse.prepareHistory history).1).residue = [] from hempty,
          userTurns_prepareHistory] at husers
        have hnone := keepFirst_eq_nil.mp husers.symm
        rw [newestUser_eq_getLast?] at hnewest
        exact absurd (hnone user (List.mem_of_getLast? hnewest)) List.not_mem_nil
      have hcarries := hall terse .empty emptyLedger ample
      rw [terse_compactProjected hresidue] at hcarries
      obtain ⟨w, hw, hrole, htext⟩ := hcarries rfl user hnewest
      have hsame : w = user := by
        cases w
        cases user
        simp only at hrole htext
        rw [RecentTurn.mk.injEq]
        exact ⟨hrole.trans (newestUser_mem hnewest).2.symm, htext⟩
      rw [← hsame]
      exact eq_newestUser_of_mem_summaryWire (fun digest => priorDigest_role) hw hrole
  · intro hnews c projection ledger req haccepted user huser
    have hresidue := (lastAskIsNewest_iff c history).mp hnews
    exact exists_mem_keptRecent_of_accepted haccepted (hresidue.trans huser)

/-- A user turn said first at the start and again at the end. -/
def repeatedAsk : List RecentTurn :=
  [⟨userRole, "continue".toList⟩, ⟨assistantRole, "one".toList⟩, ⟨userRole, "do X".toList⟩,
    ⟨assistantRole, "two".toList⟩, ⟨userRole, "continue".toList⟩]

/-- Under a cap of twelve tokens the plan for it is accepted without the active instruction. -/
theorem repeatedAsk_instruction_lost :
    let plan := Compactor.compactProjected ⟨none, fun _ _ => none⟩ repeatedAsk .empty emptyLedger
      ⟨100, 12, .finite 0, 128⟩
    plan.accepted = true ∧
      plan.keptRecent = [⟨userRole, "do X".toList⟩, ⟨assistantRole, "two".toList⟩] ∧
      ¬ CarriesInstruction repeatedAsk plan := by
  refine ⟨by decide +kernel, by decide +kernel, fun hcarries => ?_⟩
  obtain ⟨w, hw, hrole, htext⟩ := hcarries ⟨userRole, "continue".toList⟩ (by decide +kernel)
  have hkept : ∀ w ∈ [(⟨userRole, "do X".toList⟩ : RecentTurn), ⟨assistantRole, "two".toList⟩],
      w.text ≠ "continue".toList := by decide
  have hplan : (Compactor.compactProjected ⟨none, fun _ _ => none⟩ repeatedAsk .empty emptyLedger
      ⟨100, 12, .finite 0, 128⟩).keptRecent
        = [⟨userRole, "do X".toList⟩, ⟨assistantRole, "two".toList⟩] := by decide +kernel
  rw [hplan] at hw
  exact hkept w hw htext

end Compaction
