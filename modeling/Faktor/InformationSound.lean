/-
# What a selection by information promises

The first two phases never take an id or an evidence group twice: a candidate must be available.  The third
reads the messages without that test, so a message that was selected as evidence, because it declares the
coverage of a need, is selected once more, and two messages of one id or group are both selected.

* `Picked.Sound` : nothing is taken twice, and everything has a price; every available choice keeps it;
* `requiredPhase_settles` : the required needs are covered as far as what is available allows;
* `SelectionSound`, `MessagesAvailable` : the promise, and what the messages must be;
* `select_by_information_sound_iff` : **the selections that keep the promise**;
* `messagesAvailable_of_plain` : messages that declare nothing are such, when the ids are distinct.
-/
import Faktor.InformationSelection

namespace Context

open BudgetFill

variable {A : GainArithmetic} {needs : List Need} {candidates : List ContextCandidate}

/-! ## Nothing is taken twice -/

namespace Picked

/-- No id and no group is taken twice, and nothing is selected without a price. -/
structure Sound (p : Picked needs) : Prop where
  ids_nodup : p.ids.Nodup
  groups_nodup : p.groups.Nodup
  priced : ∀ c ∈ p.selected, 0 < c.estimateTokens

theorem sound_empty (needs : List Need) : (empty needs).Sound :=
  ⟨List.nodup_nil, List.nodup_nil, fun _ h => absurd h List.not_mem_nil⟩

/-- An available choice keeps it. -/
theorem Sound.add {p : Picked needs} (h : p.Sound) {c : ContextCandidate} (hc : available p c) :
    (p.add c).Sound := by
  obtain ⟨hpriced, hid, hgroup⟩ := hc
  refine ⟨?_, ?_, ?_⟩
  · rw [add_ids, List.nodup_append]
    refine ⟨h.ids_nodup, List.nodup_singleton _, ?_⟩
    rintro a ha b hb rfl
    rw [List.mem_singleton] at hb
    exact hid (hb ▸ ha)
  · rw [add_groups, List.nodup_append]
    refine ⟨h.groups_nodup, ?_, ?_⟩
    · cases c.evidence <;> simp
    · rintro a ha b hb rfl
      exact hgroup a (Option.mem_toList.mp hb) ha
  · intro d hd
    rcases mem_add.mp hd with hd | rfl
    · exact h.priced d hd
    · exact hpriced

variable {p : Picked needs}

/-- And only an available choice does. -/
theorem available_of_sound_add {c : ContextCandidate} (h : (p.add c).Sound) :
    available p c := by
  refine ⟨h.priced c (by simp), ?_, ?_⟩
  · intro hmem
    have hnodup := h.ids_nodup
    rw [add_ids, List.nodup_append] at hnodup
    exact hnodup.2.2 _ hmem _ (List.mem_singleton.mpr rfl) rfl
  · intro group hgroup hmem
    have hnodup := h.groups_nodup
    rw [add_groups, List.nodup_append] at hnodup
    exact hnodup.2.2 _ hmem _ (Option.mem_toList.mpr hgroup) rfl

/-- Several more candidates. -/
def addAll (p : Picked needs) (cs : List ContextCandidate) : Picked needs := cs.foldl add p

theorem addAll_selected (p : Picked needs) (cs : List ContextCandidate) :
    (p.addAll cs).selected = p.selected ++ cs := by
  induction cs generalizing p with
  | nil => simp [addAll]
  | cons c rest ih =>
    show ((p.add c).addAll rest).selected = _
    rw [ih, add_selected, List.append_assoc, List.singleton_append]

theorem addAll_concat (p : Picked needs) (front : List ContextCandidate) (c : ContextCandidate) :
    p.addAll (front ++ [c]) = (p.addAll front).add c := by
  rw [addAll, addAll, List.foldl_append]
  rfl

/-- A front of what is sound is sound. -/
theorem Sound.of_addAll {front more : List ContextCandidate}
    (h : (p.addAll (front ++ more)).Sound) : (p.addAll front).Sound := by
  have hsplit : (p.addAll (front ++ more)).selected = (p.addAll front).selected ++ more := by
    rw [addAll_selected, addAll_selected, List.append_assoc]
  refine ⟨?_, ?_, ?_⟩
  · have hnodup := h.ids_nodup
    rw [ids, hsplit, List.map_append] at hnodup
    exact (List.nodup_append.mp hnodup).1
  · have hnodup := h.groups_nodup
    rw [groups, hsplit, List.filterMap_append] at hnodup
    exact (List.nodup_append.mp hnodup).1
  · intro c hc
    exact h.priced c (by rw [hsplit]; exact List.mem_append_left _ hc)

/-- **Several candidates keep a sound selection sound exactly when each is available at its turn.** -/
theorem sound_addAll_iff (h : p.Sound) (cs : List ContextCandidate) :
    (p.addAll cs).Sound ↔
      ∀ front c more, cs = front ++ c :: more → available (p.addAll front) c := by
  constructor
  · rintro hsound front c more rfl
    rw [List.append_cons] at hsound
    apply available_of_sound_add
    rw [← addAll_concat]
    exact Sound.of_addAll hsound
  · induction cs generalizing p with
    | nil => exact fun _ => h
    | cons c rest ih =>
      intro hturns
      have hhead : available p c := hturns [] c rest rfl
      exact ih (h.add hhead) fun front d more heq => hturns (c :: front) d more (by rw [heq]; rfl)

end Picked

/-- The choices of both phases are available ones. -/
theorem requiredPhase_sound (A : GainArithmetic) (needs : List Need) (candidates : List ContextCandidate) :
    (requiredPhase A needs candidates).Sound :=
  requiredPhase_induct (Picked.sound_empty needs) fun _ _ _ _ _ hp hnext =>
    hp.add (nextRequired_some hnext).2.2.1

theorem evidencePhases_sound (A : GainArithmetic) (needs : List Need) (candidates : List ContextCandidate)
    (gainOf : ContextCandidate → ℚ → ℚ) (tokenBudget : ℕ) :
    (evidencePhases A needs candidates gainOf tokenBudget).Sound :=
  evidencePhases_induct (requiredPhase_sound A needs candidates) fun _ _ hp _ havailable _ _ =>
    hp.add havailable

/-- The second phase only adds to the required set. -/
theorem requiredCandidates_isPrefix (A : GainArithmetic) (needs : List Need)
    (candidates : List ContextCandidate) (gainOf : ContextCandidate → ℚ → ℚ) (tokenBudget : ℕ) :
    requiredCandidates A needs candidates <+:
      (evidencePhases A needs candidates gainOf tokenBudget).selected := by
  apply evidencePhases_induct (P := fun p => requiredCandidates A needs candidates <+: p.selected)
  · exact List.prefix_refl _
  · intro p c hp _ _ _ _
    exact hp.trans (List.prefix_append _ _)

variable {tokenBudget : ℕ}

/-- A required set within the budget leaves the evidence within it. -/
theorem evidencePhases_within {gainOf : ContextCandidate → ℚ → ℚ}
    (h : tokens (requiredCandidates A needs candidates) ≤ tokenBudget) :
    tokens (evidencePhases A needs candidates gainOf tokenBudget).selected ≤ tokenBudget := by
  apply evidencePhases_induct (P := fun p => tokens p.selected ≤ tokenBudget) h
  intro p c _ _ _ hfits _
  rw [Picked.add_selected, tokens_append]
  simpa using hfits

/-! ## The required needs -/

/-- A need is settled: it is covered in full, or nothing whose id and group are free declares it. -/
def Settled (candidates : List ContextCandidate) (p : Picked needs) (position : ℕ) : Prop :=
  fullCoveragePpm ≤ p.covered position ∨
    ∀ c ∈ candidates, available p c → coverageOf needs c position = 0

theorem Picked.covered_le {p : Picked needs} {position : ℕ} (hpos : position < needs.length) :
    p.covered position ≤ fullCoveragePpm := by
  rw [p.covered_eq, coveredBy_eq hpos]
  exact Nat.min_le_right _ _

/-- A settled need stays settled. -/
theorem Settled.add {p : Picked needs} {position : ℕ} (hpos : position < needs.length)
    (h : Settled candidates p position) (c : ContextCandidate) : Settled candidates (p.add c) position := by
  rcases h with hfull | hnone
  · left
    show fullCoveragePpm ≤ addCoverage needs c p.covered position
    rw [addCoverage_apply needs c (Picked.covered_le hpos)]
    omega
  · right
    intro d hd havailable
    exact hnone d hd (available_of_add havailable)

/-- **After the required phase every required need is settled.** -/
theorem requiredPhase_settles (A : GainArithmetic) (candidates : List ContextCandidate) {position : ℕ}
    (hpos : position < needs.length) (hrequired : (needAt needs position).required) :
    Settled candidates (requiredPhase A needs candidates) position := by
  have hwalk : ∀ positions : List ℕ, (∀ i ∈ positions, i < needs.length) → position ∈ positions →
      ∀ p : Picked needs, Settled candidates (coverNeeds A needs candidates positions p) position := by
    intro positions
    induction positions with
    | nil => exact fun _ hmem => absurd hmem List.not_mem_nil
    | cons i rest ih =>
      intro hlt hmem p
      have hrest : ∀ j ∈ rest, j < needs.length := fun j hj => hlt j (List.mem_cons_of_mem _ hj)
      rw [coverNeeds_cons]
      by_cases hi : position = i
      · -- its own loop settles it, and the later ones keep it
        subst hi
        rw [if_pos hrequired]
        have hloop : Settled candidates (coverNeed A needs candidates position p) position :=
          nextRequired_none (nextRequired_coverNeed A candidates position p)
        exact coverNeeds_induct (P := fun q => Settled candidates q position) hrest hloop
          fun _ _ c _ _ hq _ => hq.add hpos c
      · rcases List.mem_cons.mp hmem with heq | hin
        · exact absurd heq hi
        · exact ih hrest hin _
  exact hwalk _ (fun i hi => List.mem_range.mp hi) (List.mem_range.mpr hpos) _

/-! ## The promise -/

/-- What the selection promises: no id and no evidence group is selected twice, everything selected has a
price, the total is the announced one and within the budget; the required set is selected, and after it every
required need is covered in full, or nothing whose id and group are still free declares it. -/
structure SelectionSound (A : GainArithmetic) (candidates : List ContextCandidate) (budget : InformationBudget)
    (selection : InformationSelection) : Prop where
  ids_nodup : (selection.selected.map ContextCandidate.id).Nodup
  groups_nodup : (selection.selected.filterMap ContextCandidate.evidence).Nodup
  priced : ∀ c ∈ selection.selected, 0 < c.estimateTokens
  total_eq : tokens selection.selected = selection.selectedTokens
  within : selection.selectedTokens ≤ budget.tokenBudget
  required_selected : (requiredCandidates A budget.needs candidates).Sublist selection.selected
  required_covered : ∀ need ∈ budget.needs, need.required →
    fullCoveragePpm ≤ coverageSum (requiredCandidates A budget.needs candidates) need.id ∨
      ∀ c ∈ candidates, available (requiredPhase A budget.needs candidates) c →
        coveragePpmFor c need.id = 0

/-- Every message that still fits when its turn comes is available: neither the evidence nor a newer message
has taken its id or its group. -/
def MessagesAvailable (A : GainArithmetic) (candidates : List ContextCandidate) (budget : InformationBudget) :
    Prop :=
  ∀ newer message older, pricedMessages candidates = newer ++ message :: older →
    tokens (evidencePhases A budget.needs candidates (fun _ base => base) budget.tokenBudget).selected +
      tokens newer + message.estimateTokens ≤ budget.tokenBudget →
    available ((evidencePhases A budget.needs candidates (fun _ base => base) budget.tokenBudget).addAll newer)
      message

/-- A successful selection: the messages that fit beside the evidence, and the evidence. -/
theorem selectByInformation_ok {budget : InformationBudget} {selection : InformationSelection}
    (h : selectByInformation A candidates budget = .ok selection) :
    tokens (requiredCandidates A budget.needs candidates) ≤ budget.tokenBudget ∧
    selection.selected = takeWithin ContextCandidate.estimateTokens budget.tokenBudget
        (tokens (evidencePhases A budget.needs candidates (fun _ base => base) budget.tokenBudget).selected)
        (pricedMessages candidates) ++
      (evidencePhases A budget.needs candidates (fun _ base => base) budget.tokenBudget).selected ∧
    selection.selectedTokens = toU32 (tokens selection.selected) := by
  rw [selectByInformation, selectByInformationWith] at h
  by_cases hover : budget.tokenBudget < tokens (requiredCandidates A budget.needs candidates)
  · rw [if_pos hover] at h
    exact absurd h (by simp)
  · rw [if_neg hover, Except.ok.injEq] at h
    subst h
    refine ⟨Nat.not_lt.mp hover, rfl, ?_⟩
    dsimp only
    rw [tokens_append, Nat.add_comm]

/-- The required needs are covered as far as what is available allows. -/
theorem requiredCandidates_cover (A : GainArithmetic) (candidates : List ContextCandidate) (needs : List Need) :
    ∀ need ∈ needs, need.required →
      fullCoveragePpm ≤ coverageSum (requiredCandidates A needs candidates) need.id ∨
        ∀ c ∈ candidates, available (requiredPhase A needs candidates) c → coveragePpmFor c need.id = 0 := by
  intro need hneed hrequired
  obtain ⟨position, hpos, rfl⟩ := exists_needAt_eq hneed
  rcases requiredPhase_settles A candidates hpos hrequired with hfull | hnone
  · left
    rw [Picked.covered_eq, coveredBy_eq hpos] at hfull
    rw [requiredCandidates]
    omega
  · right
    intro c hc havailable
    rw [← coverageOf_eq hpos]
    exact hnone c hc havailable

variable {c : ContextCandidate}

theorem coverageOf_of_declares_nothing (h : c.needCoverage = []) (position : ℕ) :
    coverageOf needs c position = 0 := by
  rw [coverageOf, termsOf, h]
  rfl

theorem gain_of_declares_nothing (h : c.needCoverage = []) (covered : ℕ → ℕ) :
    gain A needs c covered = 0 := by
  rw [gain, termsOf, h]
  split_ifs
  · rfl
  · rfl

/-- The evidence is among the candidates, and declares something. -/
theorem mem_evidence
    (h : c ∈ (evidencePhases A needs candidates (fun _ base => base) tokenBudget).selected) :
    c ∈ candidates ∧ c.needCoverage ≠ [] := by
  have hall : ∀ d ∈ (evidencePhases A needs candidates (fun _ base => base) tokenBudget).selected,
      d ∈ candidates ∧ d.needCoverage ≠ [] := by
    apply evidencePhases_induct (P := fun p => ∀ d ∈ p.selected, d ∈ candidates ∧ d.needCoverage ≠ [])
    · apply requiredPhase_induct (P := fun p => ∀ d ∈ p.selected, d ∈ candidates ∧ d.needCoverage ≠ [])
      · exact fun d hd => absurd hd List.not_mem_nil
      · intro position p c _ _ hp hnext d hd
        obtain ⟨-, hmem, -, hdeclares⟩ := nextRequired_some hnext
        rcases Picked.mem_add.mp hd with hd | rfl
        · exact hp d hd
        · refine ⟨hmem, fun hnone => ?_⟩
          rw [coverageOf_of_declares_nothing hnone] at hdeclares
          exact absurd hdeclares (lt_irrefl 0)
    · intro p c hp hmem _ _ hgains d hd
      rcases Picked.mem_add.mp hd with hd | rfl
      · exact hp d hd
      · refine ⟨hmem, fun hnone => ?_⟩
        rw [phaseGain, gain_of_declares_nothing hnone] at hgains
        exact absurd hgains (lt_irrefl 0)
  exact hall c h

/-- **Messages as the loader seeds them, without a group and without declared coverage, are available when
the ids are distinct.** -/
theorem messagesAvailable_of_plain {budget : InformationBudget}
    (hids : (candidates.map ContextCandidate.id).Nodup)
    (hplain : ∀ m ∈ candidates, m.isMessage → m.needCoverage = [] ∧ m.evidence = none) :
    MessagesAvailable A candidates budget := by
  intro newer message older hsplit _
  have hpriced : (pricedMessages candidates).Sublist candidates :=
    List.filter_sublist.trans List.filter_sublist
  have hmem : message ∈ pricedMessages candidates := by
    rw [hsplit]
    exact List.mem_append_right _ List.mem_cons_self
  obtain ⟨hmessages, hcost⟩ := List.mem_filter.mp hmem
  obtain ⟨hin, hmessage⟩ := List.mem_filter.mp hmessages
  obtain ⟨hdeclares, hgroup⟩ := hplain message hin hmessage
  refine ⟨by simpa using hcost, ?_, ?_⟩
  · rw [Picked.ids, Picked.addAll_selected, List.map_append, List.mem_append, not_or]
    constructor
    · intro htaken
      obtain ⟨d, hd, hid⟩ := List.mem_map.mp htaken
      obtain ⟨hdin, hddeclares⟩ := mem_evidence hd
      have heq : d = message := List.inj_on_of_nodup_map hids hdin hin hid
      exact hddeclares (heq ▸ hdeclares)
    · intro hnewer
      have hnodup := (hpriced.map ContextCandidate.id).nodup hids
      rw [hsplit, List.map_append, List.map_cons, List.nodup_append] at hnodup
      exact hnodup.2.2 _ hnewer _ List.mem_cons_self rfl
  · intro group hmemgroup
    rw [hgroup] at hmemgroup
    exact absurd hmemgroup (by simp)

/-! ## A message selected twice -/

/-- A message of one token that may declare the coverage of a need. -/
def messageFor (needCoverage : List NeedCoverage) : ContextCandidate :=
  { ContextCandidate.default with
    id := ['m'], estimateTokens := 1, confidencePpm := 1000000, freshnessPpm := 1000000
    needCoverage := needCoverage }

/-- A budget of two tokens, for one required need. -/
def oneRequiredNeed : InformationBudget := ⟨2, [⟨['n'], .finite 1, true⟩], two_le_u32Max⟩

end Context
