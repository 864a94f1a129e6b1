/-
# What a tournament decides, and what the ledger gives back

The settlements of a run are one for each candidate, so that the settled tournament does not depend on their
order.  The comparison proposes the least of the ranked candidates; a blocked one is ranked last, so that it
wins where it stands alone.  The fold of the rows repeats the run.

* `Tournament.settleAll_eq_ok_iff` : what a run of settlements gives;
* `Tournament.decide_best_of_ranked` : the candidate that is proposed;
* `foldRows_slot` : what the fold does to one tournament among many;
* `decide_best_iff` : when the comparison keeps its rule.
-/
import Mathlib
import Faktor.TournamentModel

namespace Tournaments

open TextBytes

/-! ## The runs of settlements -/

theorem ok_bind_iff {E A B : Type} {x : Except E A} {f : A → Except E B} {b : B} :
    (x >>= f) = .ok b ↔ ∃ a, x = .ok a ∧ f a = .ok b := by
  cases x with
  | error e => simp [bind, Except.bind]
  | ok a => simp [bind, Except.bind]

/-- The candidate is settled by a settlement of its id. -/
def Candidate.settleIf (s : CandidateSettlement) (c : Candidate) : Candidate :=
  if c.childId = s.childId then c.settle s else c

/-- The candidate after settlements: settled by the one of its id, if there is one. -/
def Candidate.settledBy (ss : List CandidateSettlement) (c : Candidate) : Candidate :=
  match ss.find? fun s => s.childId = c.childId with
  | some s => c.settle s
  | none => c

@[simp] theorem Candidate.settle_childId (c : Candidate) (s : CandidateSettlement) :
    (c.settle s).childId = c.childId := rfl

@[simp] theorem Candidate.settleIf_childId (s : CandidateSettlement) (c : Candidate) :
    (c.settleIf s).childId = c.childId := by
  unfold settleIf
  split
  · rfl
  · rfl

@[simp] theorem Candidate.settledBy_childId (ss : List CandidateSettlement) (c : Candidate) :
    (c.settledBy ss).childId = c.childId := by
  unfold settledBy
  split
  · rfl
  · rfl

/-- What a settlement must satisfy whatever was settled before. -/
def Tournament.Acceptable (t : Tournament) (s : CandidateSettlement) : Prop :=
  s.checks = t.checkSpecs ∧ s.state ≠ .running ∧ s.state ≠ .discarded ∧
    ∀ review, s.review = some review → t.independent s review = true

/-- A candidate of the settlement's id waits for its settlement. -/
def Awaits (cs : List Candidate) (s : CandidateSettlement) : Prop :=
  ∃ c ∈ cs, c.childId = s.childId ∧ c.settled = false

variable {s : CandidateSettlement} {cs : List Candidate}

theorem settleIn_eq_ok_iff {cs' : List Candidate} (hids : (cs.map Candidate.childId).Nodup) :
    settleIn s cs = .ok cs' ↔ Awaits cs s ∧ cs' = cs.map (Candidate.settleIf s) := by
  induction cs generalizing cs' with
  | nil => simp [settleIn, Awaits]
  | cons c rest ih =>
    obtain ⟨hc, hrest⟩ := List.nodup_cons.mp hids
    have hother : ∀ d ∈ rest, d.childId ≠ c.childId := by
      intro d hd heq
      exact hc (heq ▸ List.mem_map_of_mem hd)
    rw [settleIn]
    by_cases hid : c.childId = s.childId
    · -- the ids are distinct, so the rest stays as it is
      have hsame : rest.map (Candidate.settleIf s) = rest := by
        refine (List.map_congr_left fun d hd => ?_).trans (List.map_id rest)
        rw [Candidate.settleIf, if_neg (fun h => hother d hd (h.trans hid.symm)), id]
      have hawaits : Awaits (c :: rest) s ↔ c.settled = false := by
        constructor
        · rintro ⟨d, hd, heq, hsettled⟩
          rcases List.mem_cons.mp hd with rfl | hd
          · exact hsettled
          · exact absurd (heq.trans hid.symm) (hother d hd)
        · intro h
          exact ⟨c, List.mem_cons_self, hid, h⟩
      rw [if_pos hid, hawaits, List.map_cons, hsame, Candidate.settleIf, if_pos hid]
      cases c.settled with
      | true => simp
      | false => simp [eq_comm]
    · have hawaits : Awaits (c :: rest) s ↔ Awaits rest s := by
        constructor
        · rintro ⟨d, hd, heq, hsettled⟩
          rcases List.mem_cons.mp hd with rfl | hd
          · exact absurd heq hid
          · exact ⟨d, hd, heq, hsettled⟩
        · rintro ⟨d, hd, heq, hsettled⟩
          exact ⟨d, List.mem_cons_of_mem _ hd, heq, hsettled⟩
      rw [if_neg hid, hawaits, List.map_cons, Candidate.settleIf, if_neg hid, ok_bind_iff]
      constructor
      · rintro ⟨rest', hrest', h⟩
        obtain ⟨ha, rfl⟩ := (ih hrest).mp hrest'
        exact ⟨ha, (Except.ok.inj h).symm⟩
      · rintro ⟨ha, rfl⟩
        exact ⟨_, (ih hrest).mpr ⟨ha, rfl⟩, rfl⟩

namespace Tournament

theorem settleCandidate_eq_ok_iff {t t' : Tournament} {s : CandidateSettlement} (hopen : t.state = .opened)
    (hids : (t.candidates.map Candidate.childId).Nodup) :
    t.settleCandidate s = .ok t' ↔ t.Acceptable s ∧ Awaits t.candidates s ∧
      t' = { t with candidates := t.candidates.map (Candidate.settleIf s) } := by
  have hsettle : (do let candidates ← settleIn s t.candidates
                     return { t with candidates } : Except TournamentError Tournament) = .ok t' ↔
      Awaits t.candidates s ∧ t' = { t with candidates := t.candidates.map (Candidate.settleIf s) } := by
    rw [ok_bind_iff]
    constructor
    · rintro ⟨cs, hcs, h⟩
      obtain ⟨ha, rfl⟩ := (settleIn_eq_ok_iff hids).mp hcs
      exact ⟨ha, (Except.ok.inj h).symm⟩
    · rintro ⟨ha, rfl⟩
      exact ⟨_, (settleIn_eq_ok_iff hids).mpr ⟨ha, rfl⟩, rfl⟩
  rw [settleCandidate, if_neg (not_not_intro hopen)]
  by_cases hchecks : s.checks = t.checkSpecs
  · rw [if_neg (not_not_intro hchecks)]
    by_cases hstate : s.state = .running ∨ s.state = .discarded
    · rw [if_pos hstate]
      refine iff_of_false (by simp) ?_
      rintro ⟨⟨-, hr, hd, -⟩, -⟩
      exact hstate.elim hr hd
    · obtain ⟨hr, hd⟩ := not_or.mp hstate
      rw [if_neg hstate]
      cases hreview : s.review with
      | none =>
        rw [hsettle, Acceptable, hreview]
        simp [hchecks, hr, hd]
      | some review =>
        dsimp only
        by_cases hind : t.independent s review = true
        · rw [if_pos hind, hsettle, Acceptable, hreview]
          simp [hchecks, hr, hd, hind]
        · rw [if_neg hind]
          refine iff_of_false (by simp) ?_
          rintro ⟨⟨-, -, -, h⟩, -⟩
          exact hind (h review hreview)
  · rw [if_pos hchecks]
    refine iff_of_false (by simp) ?_
    rintro ⟨⟨h, -⟩, -⟩
    exact hchecks h

variable {f : Candidate → Candidate}

theorem independent_map (t : Tournament) (hf : ∀ c, (f c).childId = c.childId) (s : CandidateSettlement)
    (review : ReviewVerdict) :
    independent { t with candidates := t.candidates.map f } s review = t.independent s review := by
  have hany : (t.candidates.map f).any (fun c => c.childId = review.reviewer) =
      t.candidates.any (fun c => c.childId = review.reviewer) := by
    rw [List.any_map]
    congr 1
    funext c
    show Decidable.decide ((f c).childId = review.reviewer) = _
    rw [hf]
  rw [independent, hany, independent]

/-- Settling one candidate changes nothing about what the others must satisfy. -/
theorem acceptable_map (t : Tournament) (hf : ∀ c, (f c).childId = c.childId) (s : CandidateSettlement) :
    Acceptable { t with candidates := t.candidates.map f } s ↔ t.Acceptable s := by
  simp only [Acceptable, checkSpecs, independent_map t hf]

theorem map_childId_map {cs : List Candidate} (hf : ∀ c, (f c).childId = c.childId) :
    (cs.map f).map Candidate.childId = cs.map Candidate.childId := by
  rw [List.map_map]
  exact List.map_congr_left fun c _ => hf c

end Tournament

theorem awaits_settleIf {s' : CandidateSettlement} :
    Awaits (cs.map (Candidate.settleIf s)) s' ↔ Awaits cs s' ∧ s'.childId ≠ s.childId := by
  constructor
  · rintro ⟨d, hd, hid, hsettled⟩
    obtain ⟨c, hc, rfl⟩ := List.mem_map.mp hd
    by_cases h : c.childId = s.childId
    · rw [Candidate.settleIf, if_pos h] at hsettled
      cases hsettled
    · rw [Candidate.settleIf, if_neg h] at hid hsettled
      exact ⟨⟨c, hc, hid, hsettled⟩, fun heq => h (hid.trans heq)⟩
  · rintro ⟨⟨c, hc, hid, hsettled⟩, hne⟩
    have h : c.childId ≠ s.childId := fun heq => hne (hid.symm.trans heq)
    refine ⟨c.settleIf s, List.mem_map_of_mem hc, ?_⟩
    rw [Candidate.settleIf, if_neg h]
    exact ⟨hid, hsettled⟩

variable {ss : List CandidateSettlement}

theorem Candidate.settledBy_cons (c : Candidate) (hs : s.childId ∉ ss.map CandidateSettlement.childId) :
    (c.settleIf s).settledBy ss = c.settledBy (s :: ss) := by
  by_cases h : c.childId = s.childId
  · have hnone : ss.find? (fun r => r.childId = c.childId) = none := by
      rw [List.find?_eq_none]
      intro r hr heq
      exact hs (h ▸ (of_decide_eq_true heq) ▸ List.mem_map_of_mem hr)
    rw [settleIf, if_pos h, settledBy, settledBy, settle_childId, hnone, List.find?_cons_of_pos (by simp [h])]
  · rw [settleIf, if_neg h, settledBy, settledBy, List.find?_cons_of_neg (by simpa [eq_comm] using h)]

namespace Tournament

/-- **A run of settlements** is one settlement for each of some waiting candidates, and settles each of them
with its own evidence. -/
theorem settleAll_eq_ok_iff {t t' : Tournament} {ss : List CandidateSettlement} (hopen : t.state = .opened)
    (hids : (t.candidates.map Candidate.childId).Nodup) :
    t.settleAll ss = .ok t' ↔ (∀ s ∈ ss, t.Acceptable s ∧ Awaits t.candidates s) ∧
      (ss.map CandidateSettlement.childId).Nodup ∧
      t' = { t with candidates := t.candidates.map (Candidate.settledBy ss) } := by
  induction ss generalizing t with
  | nil =>
    have hsame : t.candidates.map (Candidate.settledBy []) = t.candidates := List.map_id _
    rw [settleAll, hsame]
    simp [eq_comm]
  | cons s ss ih =>
    have hkeeps : ((t.candidates.map (Candidate.settleIf s)).map Candidate.childId).Nodup := by
      rw [map_childId_map (Candidate.settleIf_childId s)]
      exact hids
    have hrun := @ih { t with candidates := t.candidates.map (Candidate.settleIf s) } hopen hkeeps
    rw [settleAll, ok_bind_iff]
    simp only [settleCandidate_eq_ok_iff hopen hids, acceptable_map t (Candidate.settleIf_childId s),
      awaits_settleIf] at hrun ⊢
    rw [List.map_cons, List.nodup_cons, List.forall_mem_cons]
    constructor
    · rintro ⟨_, ⟨hacc, hawaits, rfl⟩, h⟩
      obtain ⟨hall, hnodup, rfl⟩ := hrun.mp h
      have hs : s.childId ∉ ss.map CandidateSettlement.childId := by
        intro hmem
        obtain ⟨s', hs', heq⟩ := List.mem_map.mp hmem
        exact (hall s' hs').2.2 heq
      refine ⟨⟨⟨hacc, hawaits⟩, fun s' hs' => ⟨(hall s' hs').1, (hall s' hs').2.1⟩⟩, ⟨hs, hnodup⟩, ?_⟩
      rw [List.map_map]
      congr 1
      exact List.map_congr_left fun c _ => c.settledBy_cons hs
    · rintro ⟨⟨⟨hacc, hawaits⟩, hall⟩, ⟨hs, hnodup⟩, rfl⟩
      refine ⟨_, ⟨hacc, hawaits, rfl⟩, hrun.mpr ⟨fun s' hs' => ⟨(hall s' hs').1, (hall s' hs').2, ?_⟩, hnodup, ?_⟩⟩
      · exact fun heq => hs (heq ▸ List.mem_map_of_mem hs')
      · rw [List.map_map]
        congr 1
        exact (List.map_congr_left fun c _ => c.settledBy_cons hs).symm

end Tournament

/-- Among distinct keys, the one that `find?` gives is the one that there is. -/
theorem find?_key_iff {A B : Type} [DecidableEq B] {key : A → B} {l : List A} (hkeys : (l.map key).Nodup)
    {k : B} {a : A} : (l.find? fun x => key x = k) = some a ↔ a ∈ l ∧ key a = k := by
  induction l with
  | nil => simp
  | cons x l ih =>
    obtain ⟨hx, hl⟩ := List.nodup_cons.mp hkeys
    by_cases h : key x = k
    · rw [List.find?_cons_of_pos (by simp [h])]
      constructor
      · intro heq
        obtain rfl := Option.some.inj heq
        exact ⟨List.mem_cons_self, h⟩
      · rintro ⟨ha, hka⟩
        rcases List.mem_cons.mp ha with rfl | ha
        · rfl
        · exact absurd (List.mem_map_of_mem ha) (by rw [h.trans hka.symm] at hx; exact hx)
    · rw [List.find?_cons_of_neg (by simp [h]), ih hl, List.mem_cons]
      constructor
      · rintro ⟨ha, hka⟩
        exact ⟨Or.inr ha, hka⟩
      · rintro ⟨rfl | ha, hka⟩
        · exact absurd hka h
        · exact ⟨ha, hka⟩

variable {ss' : List CandidateSettlement}

/-- The order of the settlements does not matter. -/
theorem Candidate.settledBy_perm (h : ss.Perm ss') (hnodup : (ss.map CandidateSettlement.childId).Nodup)
    (c : Candidate) : c.settledBy ss = c.settledBy ss' := by
  have hfind : (ss.find? fun s => s.childId = c.childId) = ss'.find? fun s => s.childId = c.childId := by
    apply Option.ext
    intro s
    rw [find?_key_iff hnodup, find?_key_iff (((h.map _).nodup_iff).mp hnodup), h.mem_iff]
  rw [settledBy, settledBy, hfind]

variable {t t' : Tournament}

theorem Tournament.settleAll_perm (hopen : t.state = .opened)
    (hids : (t.candidates.map Candidate.childId).Nodup) (h : t.settleAll ss = .ok t') (hperm : ss'.Perm ss) :
    t.settleAll ss' = .ok t' := by
  obtain ⟨hall, hnodup, rfl⟩ := (settleAll_eq_ok_iff hopen hids).mp h
  refine (settleAll_eq_ok_iff hopen hids).mpr ⟨fun s hs => hall s (hperm.mem_iff.mp hs), ?_, ?_⟩
  · exact ((hperm.map _).nodup_iff).mpr hnodup
  · congr 1
    exact List.map_congr_left fun c _ => c.settledBy_perm hperm.symm hnodup

/-! ## The comparison -/

/-- A tournament before its settlements. -/
structure Tournament.Fresh (t : Tournament) : Prop where
  opened : t.state = .opened
  winner : t.winner = none
  ids : (t.candidates.map Candidate.childId).Nodup
  fresh : ∀ c ∈ t.candidates, c = Candidate.fresh c.childId

variable {id : Text}

theorem Tournament.new_fresh {runFamily goal : Text} {criteria : List Criterion} {n : ℕ}
    (h : Tournament.new id runFamily goal criteria n = .ok t) : t.Fresh := by
  rw [Tournament.new, ok_bind_iff] at h
  obtain ⟨_, -, h⟩ := h
  obtain ⟨_, -, h⟩ := ok_bind_iff.mp h
  rcases ite_eq_iff.mp h with ⟨-, h⟩ | ⟨-, h⟩
  · cases h
  rcases ite_eq_iff.mp h with ⟨-, h⟩ | ⟨hn, h⟩
  · cases h
  rcases ite_eq_iff.mp h with ⟨-, h⟩ | ⟨-, h⟩
  · cases h
  obtain ⟨_, -, h⟩ := ok_bind_iff.mp h
  obtain rfl := Except.ok.inj h
  obtain ⟨hlow, hhigh⟩ := not_not.mp hn
  refine ⟨rfl, rfl, ?_, ?_⟩
  · show (((List.range n).map fun i => Candidate.fresh (childId i)).map Candidate.childId).Nodup
    unfold minCandidates at hlow
    unfold maxCandidates at hhigh
    interval_cases n
    · decide
    · decide
    · decide
  · intro c hc
    obtain ⟨i, -, rfl⟩ := List.mem_map.mp hc
    rfl

variable {t₀ : Tournament}

/-- Settlements leave the id, the state and the ids of the candidates. -/
theorem Tournament.Fresh.settleAll_frame (hfresh : t₀.Fresh) (h : t₀.settleAll ss = .ok t) :
    t.id = t₀.id ∧ t.state = .opened ∧ (t.candidates.map Candidate.childId).Nodup := by
  obtain ⟨-, -, rfl⟩ := (settleAll_eq_ok_iff hfresh.opened hfresh.ids).mp h
  refine ⟨rfl, hfresh.opened, ?_⟩
  show ((t₀.candidates.map _).map Candidate.childId).Nodup
  rw [map_childId_map (Candidate.settledBy_childId ss)]
  exact hfresh.ids

instance : Std.Total Precedes where
  total x y := by
    unfold Precedes
    omega

instance : IsTrans (Candidate × ℕ) Precedes where
  trans x y z hxy hyz := by
    unfold Precedes at *
    omega

variable {x : Candidate × ℕ}

theorem ranking_cons {rest : List (Candidate × ℕ)} (h : t.ranking = x :: rest) :
    (t.candidates[x.2]? = some x.1 ∧ x.1.ranked = true) ∧
      ∀ j c, t.candidates[j]? = some c → c.ranked = true → Precedes x (c, j) := by
  have hmem : ∀ y, y ∈ t.ranking ↔ t.candidates[y.2]? = some y.1 ∧ y.1.ranked = true := by
    intro y
    rw [Tournament.ranking, List.mem_insertionSort, List.mem_filter, List.mem_zipIdx_iff_getElem?]
  have hsorted : t.ranking.Pairwise Precedes := List.pairwise_insertionSort _ _
  refine ⟨(hmem x).mp (h ▸ List.mem_cons_self), fun j c hj hc => ?_⟩
  rw [h] at hsorted
  have hin := (hmem (c, j)).mpr ⟨hj, hc⟩
  rw [h] at hin
  rcases List.mem_cons.mp hin with heq | hin
  · rw [heq]
    exact (total_of Precedes x x).elim id id
  · exact (List.pairwise_cons.mp hsorted).1 _ hin

theorem ranking_eq_nil (h : t.ranking = []) : ∀ c ∈ t.candidates, c.ranked ≠ true := by
  intro c hc hranked
  obtain ⟨i, hi⟩ := List.mem_iff_getElem?.mp hc
  have hin : (c, i) ∈ t.ranking := by
    rw [Tournament.ranking, List.mem_insertionSort, List.mem_filter, List.mem_zipIdx_iff_getElem?]
    exact ⟨hi, hranked⟩
  rw [h] at hin
  cases hin

variable {i : ℕ} {c : Candidate}

/-- Distinct ids: an id names one position. -/
theorem position_inj {j : ℕ} {d : Candidate} (hids : (cs.map Candidate.childId).Nodup)
    (hi : cs[i]? = some c) (hj : cs[j]? = some d) (heq : c.childId = d.childId) : i = j := by
  have hlt : i < (cs.map Candidate.childId).length := by
    rw [List.length_map]
    exact (List.getElem?_eq_some_iff.mp hi).1
  apply (List.getElem?_inj hlt hids).mp
  rw [List.getElem?_map, List.getElem?_map, hi, hj, Option.map_some, Option.map_some, heq]

theorem findIdx_childId (hids : (cs.map Candidate.childId).Nodup) (hi : cs[i]? = some c) :
    (cs.findIdx fun d => d.childId = c.childId) = i := by
  obtain ⟨hlt, hc⟩ := List.getElem?_eq_some_iff.mp hi
  refine (List.findIdx_eq hlt).mpr ⟨by simp [hc], fun j hj => decide_eq_false fun heq => ?_⟩
  have hj' := position_inj hids (List.getElem?_eq_getElem (hj.trans hlt)) hi heq
  omega

/-- Every candidate but the one of an id is discarded. -/
def discardOthers (winnerId : Text) (c : Candidate) : Candidate :=
  if c.childId ≠ winnerId then { c with state := .discarded } else c

theorem zipIdx_map_eq_discardOthers (hids : (cs.map Candidate.childId).Nodup) (hi : cs[i]? = some c) :
    (cs.zipIdx.map fun x => if x.2 = i then x.1 else { x.1 with state := .discarded }) =
      cs.map (discardOthers c.childId) := by
  apply List.ext_getElem?
  intro j
  rw [List.getElem?_map, List.getElem?_map, List.getElem?_zipIdx]
  cases hj : cs[j]? with
  | none => rfl
  | some d =>
    simp only [Option.map_some, zero_add, discardOthers]
    congr 1
    by_cases hji : j = i
    · subst hji
      obtain rfl := Option.some.inj (hi.symm.trans hj)
      rw [if_pos rfl, if_neg (not_not_intro rfl)]
    · rw [if_neg hji, if_pos fun heq => hji (position_inj hids hj hi heq)]

namespace Tournament

variable {t : Tournament}

/-- **The proposal**: the least of the ranked candidates, and every other candidate is discarded. -/
theorem decide_best_of_ranked {t' : Tournament} {decision : TournamentDecision}
    (hids : (t.candidates.map Candidate.childId).Nodup) (h : t.decide = .ok (decision, t')) :
    ∃ i, t.candidates[i]? = some decision.winner ∧ decision.winner.ranked = true ∧
      (∀ j c, t.candidates[j]? = some c → c.ranked = true → Precedes (decision.winner, i) (c, j)) ∧
      t' = { t with
        candidates := t.candidates.map (discardOthers decision.winner.childId)
        winner := some decision.winner.childId
        state := .decided } := by
  rw [decide] at h
  rcases ite_eq_iff.mp h with ⟨-, h⟩ | ⟨-, h⟩
  · cases h
  cases hranking : t.ranking with
  | nil =>
    rw [hranking] at h
    cases h
  | cons x rest =>
    obtain ⟨winner, i⟩ := x
    obtain ⟨⟨hi, hranked⟩, hleast⟩ := ranking_cons hranking
    rw [hranking] at h
    obtain ⟨rfl, rfl⟩ := Prod.mk.inj (Except.ok.inj h)
    refine ⟨i, hi, hranked, hleast, ?_⟩
    dsimp only at hi ⊢
    rw [findIdx_childId hids hi, zipIdx_map_eq_discardOthers hids hi]

theorem decide_error {e : TournamentError} (hopen : t.state = .opened) (h : t.decide = .error e) :
    ∀ c ∈ t.candidates, c.ranked ≠ true := by
  rw [decide, if_neg (not_not_intro hopen)] at h
  cases hranking : t.ranking with
  | nil => exact ranking_eq_nil hranking
  | cons x rest =>
    rw [hranking] at h
    cases h

end Tournament

/-! ## The fold -/

theorem reviewRank_fromTag_tag (rank : ReviewRank) : ReviewRank.fromTag rank.tag = some rank := by
  cases rank with
  | block => decide
  | concern => decide
  | clean => decide

/-- The row of a settlement names the settlement. -/
theorem fromRow_toRow (hr : s.state ≠ .running) (hd : s.state ≠ .discarded) :
    CandidateSettlement.fromRow s.toRow = .ok s := by
  have hstate : stateOfTag s.state.tag = .ok s.state := by
    cases h : s.state with
    | running => exact absurd h hr
    | discarded => exact absurd h hd
    | done => decide
    | failed => decide
    | cancelled => decide
  have hverification : verificationOfRaw (s.verification.map Subtype.val) = .ok s.verification := by
    cases s.verification with
    | none => rfl
    | some record => exact dif_pos record.property
  have hreview : reviewOfTags (s.review.map fun r => r.rank.tag) (s.review.map ReviewVerdict.reviewer) =
      .ok s.review := by
    cases s.review with
    | none => rfl
    | some review =>
      simp only [Option.map_some, reviewOfTags, reviewRank_fromTag_tag]
  show (do
    let state ← stateOfTag s.state.tag
    let verification ← verificationOfRaw (s.verification.map Subtype.val)
    let review ← reviewOfTags (s.review.map fun r => r.rank.tag) (s.review.map ReviewVerdict.reviewer)
    return { s with state, verification, review }) = Except.ok s
  rw [hstate, hverification, hreview]
  rfl

/-- The tournament that a row is about. -/
def LedgerPayload.tournamentId : LedgerPayload → Option Text
  | .tournamentStarted id _ _ _ _ => some id
  | .candidateSettled id _ => some id
  | .tournamentDecided id _ _ _ => some id
  | .other => none

/-- The fold as one tournament sees it: the rows that are about it. -/
def foldSlot : Option Tournament → LedgerPayload → Except Corruption (Option Tournament)
  | none, .tournamentStarted id runFamily goal criteria candidates =>
    .ok (some (startedTournament id runFamily goal criteria candidates))
  | some _, .tournamentStarted _ _ _ _ _ => .error .duplicateStarted
  | none, .candidateSettled _ _ => .error .settledBeforeStarted
  | some t, .candidateSettled _ row => do
    let t ← foldSettled t row
    return some t
  | none, .tournamentDecided _ _ _ _ => .error .decidedBeforeStarted
  | some t, .tournamentDecided _ winner outcome _ => do
    let t ← foldDecided t winner outcome
    return some t
  | slot, .other => .ok slot

/-- The tournament of an id. -/
def slotOf (byId : List Tournament) (id : Text) : Option Tournament := byId.find? fun t => t.id = id

theorem settleCandidate_id (h : t.settleCandidate s = .ok t') :
    t'.id = t.id := by
  have hsettle : ∀ {cs : Except TournamentError (List Candidate)},
      (do let candidates ← cs
          return { t with candidates } : Except TournamentError Tournament) = .ok t' → t'.id = t.id := by
    intro cs h
    obtain ⟨_, -, h⟩ := ok_bind_iff.mp h
    rw [← Except.ok.inj h]
  rw [Tournament.settleCandidate] at h
  rcases ite_eq_iff.mp h with ⟨-, h⟩ | ⟨-, h⟩
  · cases h
  rcases ite_eq_iff.mp h with ⟨-, h⟩ | ⟨-, h⟩
  · cases h
  rcases ite_eq_iff.mp h with ⟨-, h⟩ | ⟨-, h⟩
  · cases h
  cases hreview : s.review with
  | none =>
    rw [hreview] at h
    exact hsettle h
  | some review =>
    rw [hreview] at h
    rcases ite_eq_iff.mp h with ⟨-, h⟩ | ⟨-, h⟩
    · exact hsettle h
    · cases h

theorem foldSettled_id {row : SettlementRow} (h : foldSettled t row = .ok t') :
    t'.id = t.id := by
  rw [foldSettled] at h
  rcases ite_eq_iff.mp h with ⟨-, h⟩ | ⟨-, h⟩
  · cases h
  obtain ⟨s, -, h⟩ := ok_bind_iff.mp h
  cases hs : t.settleCandidate s with
  | ok u =>
    rw [hs] at h
    rw [← Except.ok.inj h]
    exact settleCandidate_id hs
  | error e =>
    rw [hs] at h
    cases h

variable {outcome : Text}

theorem foldDecided_id {winner : Option Text} (h : foldDecided t winner outcome = .ok t') : t'.id = t.id := by
  unfold foldDecided at h
  rcases ite_eq_iff.mp h with ⟨-, h⟩ | ⟨-, h⟩
  · cases h
  rcases ite_eq_iff.mp h with ⟨-, h⟩ | ⟨-, h⟩
  · rw [← Except.ok.inj h]
    rfl
  cases winner with
  | none => cases h
  | some winnerId =>
    rcases ite_eq_iff.mp h with ⟨-, h⟩ | ⟨-, h⟩
    · cases h
    · rw [← Except.ok.inj h]

variable {byId : List Tournament}

theorem slotOf_id (h : slotOf byId id = some t) : t.id = id := by
  rw [slotOf] at h
  simpa using List.find?_some h

theorem slotOf_update_self {u : Tournament} (h : slotOf byId t.id = some u) :
    slotOf (update t byId) t.id = some t := by
  induction byId with
  | nil => cases h
  | cons v byId ih =>
    unfold slotOf update at *
    rw [List.map_cons]
    by_cases hv : v.id = t.id
    · rw [if_pos hv, List.find?_cons_of_pos (by simp)]
    · rw [List.find?_cons_of_neg (by simp [hv])] at h
      rw [if_neg hv, List.find?_cons_of_neg (by simp [hv])]
      exact ih h

theorem slotOf_update_other (h : id ≠ t.id) :
    slotOf (update t byId) id = slotOf byId id := by
  induction byId with
  | nil => rfl
  | cons v byId ih =>
    unfold slotOf update at *
    rw [List.map_cons]
    by_cases hv : v.id = t.id
    · rw [if_pos hv, List.find?_cons_of_neg (by simpa using h.symm),
        List.find?_cons_of_neg (by simpa [hv] using h.symm)]
      exact ih
    · rw [if_neg hv, List.find?_cons, List.find?_cons, ih]

theorem map_id_update (byId : List Tournament) (t : Tournament) :
    (update t byId).map Tournament.id = byId.map Tournament.id := by
  rw [update, List.map_map]
  refine List.map_congr_left fun u _ => ?_
  show (if u.id = t.id then t else u).id = u.id
  split
  · rename_i h
    exact h.symm
  · rfl

variable {byId' : List Tournament} {row : LedgerPayload}

/-- **What a row can do**: it starts a tournament of a new id, it changes the tournament that it is about, or it
is about none. -/
theorem foldRow_cases (h : foldRow byId row = .ok byId') :
    (∃ t, row.tournamentId = some t.id ∧ slotOf byId t.id = none ∧ foldSlot none row = .ok (some t) ∧
      byId' = byId ++ [t]) ∨
    (∃ u t, row.tournamentId = some u.id ∧ slotOf byId u.id = some u ∧ foldSlot (some u) row = .ok (some t) ∧
      t.id = u.id ∧ byId' = update t byId) ∨
    (row.tournamentId = none ∧ byId' = byId) := by
  cases row with
  | tournamentStarted id runFamily goal criteria candidates =>
    rw [foldRow] at h
    rcases ite_eq_iff.mp h with ⟨-, h⟩ | ⟨habsent, h⟩
    · cases h
    refine Or.inl ⟨startedTournament id runFamily goal criteria candidates, rfl, ?_, rfl, (Except.ok.inj h).symm⟩
    rw [slotOf, List.find?_eq_none]
    intro t ht heq
    exact habsent (List.any_eq_true.mpr ⟨t, ht, heq⟩)
  | candidateSettled id settled =>
    cases hu : slotOf byId id with
    | none =>
      rw [foldRow, show (byId.find? fun t => t.id = id) = none from hu] at h
      cases h
    | some u =>
      have hid : u.id = id := slotOf_id hu
      subst hid
      rw [foldRow, show (byId.find? fun t => t.id = u.id) = some u from hu] at h
      cases hfold : foldSettled u settled with
      | error e =>
        simp only [hfold] at h
        cases h
      | ok t =>
        simp only [hfold] at h
        refine Or.inr (Or.inl ⟨u, t, rfl, hu, ?_, foldSettled_id hfold, (Except.ok.inj h).symm⟩)
        rw [foldSlot, hfold]
        rfl
  | tournamentDecided id winner outcome rationale =>
    cases hu : slotOf byId id with
    | none =>
      rw [foldRow, show (byId.find? fun t => t.id = id) = none from hu] at h
      cases h
    | some u =>
      have hid : u.id = id := slotOf_id hu
      subst hid
      rw [foldRow, show (byId.find? fun t => t.id = u.id) = some u from hu] at h
      cases hfold : foldDecided u winner outcome with
      | error e =>
        simp only [hfold] at h
        cases h
      | ok t =>
        simp only [hfold] at h
        refine Or.inr (Or.inl ⟨u, t, rfl, hu, ?_, foldDecided_id hfold, (Except.ok.inj h).symm⟩)
        rw [foldSlot, hfold]
        rfl
  | other => exact Or.inr (Or.inr ⟨rfl, (Except.ok.inj h).symm⟩)

theorem slotOf_append (byId : List Tournament) (t : Tournament) (id : Text) :
    slotOf (byId ++ [t]) id = (slotOf byId id).or (if t.id = id then some t else none) := by
  rw [slotOf, List.find?_append]
  congr 1
  by_cases h : t.id = id
  · rw [if_pos h, List.find?_cons_of_pos (by simp [h])]
  · rw [if_neg h, List.find?_cons_of_neg (by simp [h])]
    rfl

/-- One row: the tournament it is about takes it, every other one stays. -/
theorem foldRow_slot (h : foldRow byId row = .ok byId') (id : Text) :
    (row.tournamentId = some id → foldSlot (slotOf byId id) row = .ok (slotOf byId' id)) ∧
      (row.tournamentId ≠ some id → slotOf byId' id = slotOf byId id) := by
  obtain ⟨t, hrow, hnone, hfold, rfl⟩ | ⟨u, t, hrow, hsome, hfold, hid, rfl⟩ | ⟨hrow, rfl⟩ := foldRow_cases h
  · rw [slotOf_append]
    constructor
    · intro hmine
      obtain rfl := Option.some.inj (hrow.symm.trans hmine)
      rw [hnone, hfold, if_pos rfl]
      rfl
    · intro hother
      rw [if_neg fun heq => hother (hrow.trans (congrArg some heq)), Option.or_none]
  · constructor
    · intro hmine
      obtain rfl := Option.some.inj (hrow.symm.trans hmine)
      rw [hsome, hfold, ← hid, slotOf_update_self (u := u) (hid ▸ hsome)]
    · intro hother
      exact slotOf_update_other fun heq => hother (hrow.trans (congrArg some (hid ▸ heq.symm)))
  · exact ⟨fun hmine => absurd (hrow.symm.trans hmine) (by simp), fun _ => rfl⟩

variable {rows : List LedgerPayload}

/-- The rows of a ledger, seen by one tournament. -/
theorem foldRows_slot (h : foldRows byId rows = .ok byId') (id : Text) :
    (rows.filter fun row => row.tournamentId = some id).foldlM foldSlot (slotOf byId id) =
      .ok (slotOf byId' id) := by
  induction rows generalizing byId with
  | nil =>
    rw [← Except.ok.inj h]
    rfl
  | cons row rows ih =>
    obtain ⟨middle, hrow, hrest⟩ := ok_bind_iff.mp h
    obtain ⟨hmine, hother⟩ := foldRow_slot hrow id
    by_cases hid : row.tournamentId = some id
    · rw [List.filter_cons_of_pos (by simp [hid]), List.foldlM_cons, hmine hid]
      exact ih hrest
    · rw [List.filter_cons_of_neg (by simp [hid]), ← hother hid]
      exact ih hrest

theorem foldRows_ids (h : foldRows byId rows = .ok byId') (hids : (byId.map Tournament.id).Nodup) :
    (byId'.map Tournament.id).Nodup := by
  induction rows generalizing byId with
  | nil =>
    rw [← Except.ok.inj h]
    exact hids
  | cons row rows ih =>
    obtain ⟨middle, hrow, hrest⟩ := ok_bind_iff.mp h
    refine ih hrest ?_
    obtain ⟨t, -, hnone, -, rfl⟩ | ⟨u, t, -, -, -, -, rfl⟩ | ⟨-, rfl⟩ := foldRow_cases hrow
    · rw [List.map_append, List.map_singleton]
      refine List.nodup_append_comm.mp (List.nodup_cons.mpr ⟨fun hmem => ?_, hids⟩)
      obtain ⟨u, hu, heq⟩ := List.mem_map.mp hmem
      exact absurd (List.find?_eq_none.mp hnone u hu) (by simp [heq])
    · rw [map_id_update]
      exact hids
    · exact hids

variable {slot slot' : Option Tournament}

theorem foldRow_alone (hrow : row.tournamentId = some id) (hslot : ∀ t, slot = some t → t.id = id)
    (h : foldSlot slot row = .ok slot') :
    foldRow slot.toList row = .ok slot'.toList ∧ ∀ t, slot' = some t → t.id = id := by
  -- what becomes of the one tournament
  have hreplace : ∀ {t u : Tournament}, slot = some u → t.id = u.id →
      update t slot.toList = [t] ∧ t.id = id := by
    intro t u hu hid
    rw [hu, update, Option.toList_some, List.map_singleton, if_pos hid.symm]
    exact ⟨rfl, hid.trans (hslot u hu)⟩
  cases row with
  | other => cases hrow
  | tournamentStarted rowId runFamily goal criteria candidates =>
    obtain rfl := Option.some.inj hrow
    cases slot with
    | some u => cases h
    | none =>
      obtain rfl := Except.ok.inj h
      refine ⟨rfl, fun t ht => ?_⟩
      rw [← Option.some.inj ht]
      rfl
  | candidateSettled rowId settled =>
    obtain rfl := Option.some.inj hrow
    cases slot with
    | none => cases h
    | some u =>
      obtain ⟨t, hfold, ht⟩ := ok_bind_iff.mp h
      obtain rfl := Except.ok.inj ht
      obtain ⟨hupdate, hid⟩ := hreplace rfl (foldSettled_id hfold)
      rw [foldRow, Option.toList_some, List.find?_cons_of_pos (by simpa using hslot u rfl)]
      simp only [hfold]
      refine ⟨congrArg Except.ok hupdate, fun v hv => ?_⟩
      rw [← Option.some.inj hv]
      exact hid
  | tournamentDecided rowId winner outcome rationale =>
    obtain rfl := Option.some.inj hrow
    cases slot with
    | none => cases h
    | some u =>
      obtain ⟨t, hfold, ht⟩ := ok_bind_iff.mp h
      obtain rfl := Except.ok.inj ht
      obtain ⟨hupdate, hid⟩ := hreplace rfl (foldDecided_id hfold)
      rw [foldRow, Option.toList_some, List.find?_cons_of_pos (by simpa using hslot u rfl)]
      simp only [hfold]
      refine ⟨congrArg Except.ok hupdate, fun v hv => ?_⟩
      rw [← Option.some.inj hv]
      exact hid

/-- The rows of one tournament alone are folded as the tournament sees them. -/
theorem foldRows_alone (hrows : ∀ row ∈ rows, row.tournamentId = some id)
    (hslot : ∀ t, slot = some t → t.id = id) (h : rows.foldlM foldSlot slot = .ok slot') :
    foldRows slot.toList rows = .ok slot'.toList := by
  induction rows generalizing slot with
  | nil =>
    rw [← Except.ok.inj h]
    rfl
  | cons row rows ih =>
    obtain ⟨hrow, hrest⟩ := List.forall_mem_cons.mp hrows
    rw [List.foldlM_cons] at h
    obtain ⟨middle, hmiddle, hlast⟩ := ok_bind_iff.mp h
    obtain ⟨hfold, hid⟩ := foldRow_alone hrow hslot hmiddle
    exact ok_bind_iff.mpr ⟨_, hfold, ih hrest hid hlast⟩

/-- **The history of a tournament**: its start, the settlements in their order, and the decision. -/
def Tournament.history (t : Tournament) (ss : List CandidateSettlement) (last : Tournament)
    (outcome rationale : Text) : List LedgerPayload :=
  t.startedRow :: ss.map t.settledRow ++ [last.decidedRow outcome rationale]

/-- The fold gives a tournament back: alone from its rows, and from every ledger that holds just these rows
of it. -/
def FoldsTo (history : List LedgerPayload) (last : Tournament) : Prop :=
  reopen history = .ok [last] ∧
    ∀ rows ts, (rows.filter fun row => row.tournamentId = some last.id) = history → reopen rows = .ok ts →
      ∀ t, t ∈ ts ∧ t.id = last.id ↔ t = last

variable {last : Tournament}

theorem foldsTo_of_slot {history : List LedgerPayload}
    (hrows : ∀ row ∈ history, row.tournamentId = some last.id)
    (h : history.foldlM foldSlot none = .ok (some last)) : FoldsTo history last := by
  constructor
  · have halone : foldRows (none : Option Tournament).toList history = .ok (some last).toList :=
      foldRows_alone hrows (by simp) h
    exact ok_bind_iff.mpr ⟨_, halone, rfl⟩
  · intro rows ts hfilter hreopen t
    obtain ⟨byId, hbyId, hts⟩ := ok_bind_iff.mp hreopen
    obtain rfl := Except.ok.inj hts
    have hslot := foldRows_slot hbyId last.id
    have hids : (byId.map Tournament.id).Nodup := foldRows_ids hbyId List.nodup_nil
    rw [hfilter, show slotOf [] last.id = none from rfl, h] at hslot
    rw [List.mem_insertionSort, ← find?_key_iff hids]
    show slotOf byId last.id = some t ↔ _
    rw [← Except.ok.inj hslot, Option.some.injEq, eq_comm]

/-- The settlements of a run, as the fold takes them. -/
theorem foldlM_settledRow (hopen : t.state = .opened) (hids : (t.candidates.map Candidate.childId).Nodup)
    (h : t.settleAll ss = .ok t') :
    (ss.map fun s => LedgerPayload.candidateSettled id s.toRow).foldlM foldSlot (some t) = .ok (some t') := by
  induction ss generalizing t with
  | nil =>
    rw [← Except.ok.inj h]
    rfl
  | cons s ss ih =>
    obtain ⟨middle, hs, hss⟩ := ok_bind_iff.mp h
    obtain ⟨⟨-, hr, hd, -⟩, -, hmiddle⟩ := (Tournament.settleCandidate_eq_ok_iff hopen hids).mp hs
    have hsettled : foldSettled t s.toRow = .ok middle := by
      rw [foldSettled, if_neg (not_not_intro hopen), fromRow_toRow hr hd]
      refine ok_bind_iff.mpr ⟨s, rfl, ?_⟩
      rw [hs]
    have hrow : foldSlot (some t) (.candidateSettled id s.toRow) = .ok (some middle) :=
      ok_bind_iff.mpr ⟨middle, hsettled, rfl⟩
    rw [List.map_cons, List.foldlM_cons, hrow]
    refine ih ?_ ?_ hss
    · rw [hmiddle]
      exact hopen
    · rw [hmiddle]
      show ((t.candidates.map _).map Candidate.childId).Nodup
      rw [Tournament.map_childId_map (Candidate.settleIf_childId s)]
      exact hids

theorem Tournament.Fresh.startedTournament_eq (hfresh : t.Fresh) :
    foldSlot none t.startedRow = .ok (some t) := by
  have hcandidates : (t.candidates.map fun c => (⟨c.childId, c.worktree, c.baseRevision⟩ : CandidateRow)).map
      (fun r => { Candidate.fresh r.childId with worktree := r.worktree, baseRevision := r.baseRevision }) =
      t.candidates := by
    rw [List.map_map]
    refine (List.map_congr_left fun c hc => ?_).trans (List.map_id _)
    rw [hfresh.fresh c hc]
    rfl
  show Except.ok (some { t with candidates := _, winner := none, state := .opened }) = _
  rw [hcandidates, ← hfresh.opened, ← hfresh.winner]

/-- The history of a run gives back what the decision row makes of the settled tournament. -/
theorem history_foldsTo {rationale : Text} (hfresh : t₀.Fresh) (h : t₀.settleAll ss = .ok t)
    (hid : last.id = t₀.id) (hlast : foldDecided t last.winner outcome = .ok last) :
    FoldsTo (t₀.history ss last outcome rationale) last := by
  apply foldsTo_of_slot
  · intro row hrow
    rcases List.mem_append.mp hrow with hrow | hrow
    · rcases List.mem_cons.mp hrow with rfl | hrow
      · exact congrArg some hid.symm
      · obtain ⟨s, -, rfl⟩ := List.mem_map.mp hrow
        exact congrArg some hid.symm
    · rw [List.mem_singleton.mp hrow]
      rfl
  · rw [Tournament.history, List.foldlM_append, List.foldlM_cons, hfresh.startedTournament_eq]
    have hrun : (ss.map t₀.settledRow).foldlM foldSlot (some t₀) = .ok (some t) :=
      foldlM_settledRow hfresh.opened hfresh.ids h
    have hdecision : foldSlot (some t) (last.decidedRow outcome rationale) = .ok (some last) :=
      ok_bind_iff.mpr ⟨last, hlast, rfl⟩
    refine ok_bind_iff.mpr ⟨some t, hrun, ?_⟩
    rw [List.foldlM_cons, hdecision]
    rfl

/-! ## The rule of the comparison -/

namespace Tournament

/-- Done, verified, and reviewed by a party outside the tournament without a block. -/
def Eligible (t : Tournament) (c : Candidate) : Prop :=
  c.state = .done ∧ c.verificationPass = some true ∧
    ∃ review, c.review = some review ∧ review.rank ≠ .block ∧ ∀ d ∈ t.candidates, d.childId ≠ review.reviewer

/-- The best eligible candidate and its ordinal. -/
def Best (t : Tournament) (i : ℕ) (c : Candidate) : Prop :=
  t.candidates[i]? = some c ∧ t.Eligible c ∧
    ∀ j d, t.candidates[j]? = some d → t.Eligible d → Precedes (c, i) (d, j)

/-- `decide` proposes the best eligible candidate and discards the others; it refuses only where none is
eligible. -/
def ProposesBest (t : Tournament) : Prop :=
  (∀ decision decided, t.decide = .ok (decision, decided) →
    (∃ i, t.Best i decision.winner) ∧ decided.winner = some decision.winner.childId ∧
      decided.state = .decided ∧ decided.candidates = t.candidates.map (discardOthers decision.winner.childId)) ∧
  ∀ e, t.decide = .error e → ∀ c ∈ t.candidates, ¬ t.Eligible c

/-- The settlements in any order give the same tournament, hence the same decision. -/
def OrderFree (t₀ : Tournament) (ss : List CandidateSettlement) (t : Tournament) : Prop :=
  ∀ ss', ss'.Perm ss → t₀.settleAll ss' = .ok t

/-- The persisted rows of the run and of its decision, or of its abort, give the same tournament back. -/
def FoldsBack (t₀ : Tournament) (ss : List CandidateSettlement) (t : Tournament) : Prop :=
  (∀ decision decided, t.decide = .ok (decision, decided) →
    FoldsTo (t₀.history ss decided outcomeDecided decision.rationale) decided) ∧
  ∀ aborted rationale, t.abort = .ok aborted → FoldsTo (t₀.history ss aborted outcomeAborted rationale) aborted

end Tournament

/-- The evidence of a settlement that the comparison ranks. -/
def CandidateSettlement.Ranked (s : CandidateSettlement) : Prop :=
  s.state = .done ∧ s.verificationPass = some true ∧ s.review ≠ none

/-- A review that blocks. -/
def CandidateSettlement.Blocked (s : CandidateSettlement) : Prop := s.review.map ReviewVerdict.rank = some .block

/-- The evidence of a settlement stands on its candidate, and only there. -/
theorem exists_settled_iff (hfresh : t₀.Fresh) (h : t₀.settleAll ss = .ok t) {P : Candidate → Prop}
    {Q : CandidateSettlement → Prop} (hnone : ∀ id, ¬ P (Candidate.fresh id))
    (hsettle : ∀ c s, P (Candidate.settle c s) ↔ Q s) :
    (∃ c ∈ t.candidates, P c) ↔ ∃ s ∈ ss, Q s := by
  obtain ⟨hall, hnodup, rfl⟩ := (Tournament.settleAll_eq_ok_iff hfresh.opened hfresh.ids).mp h
  constructor
  · rintro ⟨_, hmem, hP⟩
    obtain ⟨c, hc, rfl⟩ := List.mem_map.mp hmem
    unfold Candidate.settledBy at hP
    split at hP
    · rename_i s hs
      exact ⟨s, List.mem_of_find?_eq_some hs, (hsettle c s).mp hP⟩
    · rw [hfresh.fresh c hc] at hP
      exact absurd hP (hnone _)
  · rintro ⟨s, hs, hQ⟩
    obtain ⟨c, hc, hid, -⟩ := (hall s hs).2
    refine ⟨c.settledBy ss, List.mem_map_of_mem hc, ?_⟩
    have hfind : (ss.find? fun s => s.childId = c.childId) = some s := (find?_key_iff hnodup).mpr ⟨hs, hid.symm⟩
    rw [Candidate.settledBy, hfind]
    exact (hsettle c s).mpr hQ

theorem Candidate.ranked_iff (c : Candidate) :
    c.ranked = true ↔ c.state = .done ∧ c.verificationPass = some true ∧ c.review ≠ none := by
  simp [ranked, and_assoc, Option.isSome_iff_ne_none]

/-- Every review that was accepted comes from outside. -/
theorem eligible_iff (hfresh : t₀.Fresh) (h : t₀.settleAll ss = .ok t) (hc : c ∈ t.candidates) :
    t.Eligible c ↔ c.ranked = true ∧ c.review.map ReviewVerdict.rank ≠ some .block := by
  obtain ⟨hall, -, rfl⟩ := (Tournament.settleAll_eq_ok_iff hfresh.opened hfresh.ids).mp h
  rw [Candidate.ranked_iff]
  constructor
  · rintro ⟨hdone, hpass, review, hreview, hrank, -⟩
    rw [hreview]
    exact ⟨⟨hdone, hpass, by simp⟩, by simpa using hrank⟩
  · rintro ⟨⟨hdone, hpass, hsome⟩, hrank⟩
    obtain ⟨review, hreview⟩ := Option.ne_none_iff_exists'.mp hsome
    rw [hreview] at hrank
    refine ⟨hdone, hpass, review, hreview, by simpa using hrank, ?_⟩
    -- the review is that of the candidate's settlement, which was checked
    obtain ⟨c, hmem, rfl⟩ := List.mem_map.mp hc
    unfold Candidate.settledBy at hreview
    split at hreview
    · rename_i s hs
      have hind := (hall s (List.mem_of_find?_eq_some hs)).1.2.2.2 review hreview
      rintro _ hother heq
      obtain ⟨d, hd, rfl⟩ := List.mem_map.mp hother
      rw [Candidate.settledBy_childId] at heq
      have hany : t₀.candidates.any (fun c => c.childId = review.reviewer) = true :=
        List.any_eq_true.mpr ⟨d, hd, decide_eq_true heq⟩
      rw [Tournament.independent, hany] at hind
      simp at hind
    · rw [hfresh.fresh c hmem] at hreview
      cases hreview

/-- A candidate that precedes an unblocked one is not blocked. -/
theorem not_blocked_of_precedes {y : Candidate × ℕ} (h : Precedes x y) (hy : y.1.review ≠ none)
    (hrank : y.1.review.map ReviewVerdict.rank ≠ some .block) :
    x.1.review.map ReviewVerdict.rank ≠ some .block := by
  intro hx
  have hzero : reviewRankOf x.1 = 0 := by
    rw [reviewRankOf, hx]
  have hpos : 0 < reviewRankOf y.1 := by
    obtain ⟨review, hreview⟩ := Option.ne_none_iff_exists'.mp hy
    rw [hreview, Option.map_some] at hrank
    rw [reviewRankOf, hreview, Option.map_some]
    cases hr : review.rank with
    | block => exact absurd (congrArg some hr) hrank
    | concern => decide
    | clean => decide
  unfold Precedes at h
  omega

theorem proposesBest_iff (hfresh : t₀.Fresh) (h : t₀.settleAll ss = .ok t) :
    t.ProposesBest ↔ ((∃ c ∈ t.candidates, c.ranked = true) → ∃ c ∈ t.candidates, t.Eligible c) := by
  obtain ⟨-, hopen, hids⟩ := hfresh.settleAll_frame h
  constructor
  · rintro ⟨hok, -⟩ ⟨c, hc, hranked⟩
    cases hdecide : t.decide with
    | error e => exact absurd hranked (Tournament.decide_error hopen hdecide c hc)
    | ok result =>
      obtain ⟨⟨i, hi, heligible, -⟩, -⟩ := hok result.1 result.2 hdecide
      exact ⟨_, List.mem_of_getElem? hi, heligible⟩
  · intro hsome
    constructor
    · intro decision decided hdecide
      obtain ⟨i, hi, hranked, hleast, rfl⟩ := Tournament.decide_best_of_ranked hids hdecide
      have hwinner := List.mem_of_getElem? hi
      obtain ⟨c, hc, heligible⟩ := hsome ⟨_, hwinner, hranked⟩
      obtain ⟨hc', hrank⟩ := (eligible_iff hfresh h hc).mp heligible
      obtain ⟨j, hj⟩ := List.mem_iff_getElem?.mp hc
      have hunblocked := not_blocked_of_precedes (hleast j c hj hc') (c.ranked_iff.mp hc').2.2 hrank
      refine ⟨⟨i, hi, (eligible_iff hfresh h hwinner).mpr ⟨hranked, hunblocked⟩, ?_⟩, rfl, rfl, rfl⟩
      intro k d hk hd
      exact hleast k d hk ((eligible_iff hfresh h (List.mem_of_getElem? hk)).mp hd).1
    · intro e he c hc heligible
      exact Tournament.decide_error hopen he c hc ((eligible_iff hfresh h hc).mp heligible).1

theorem foldsBack (hfresh : t₀.Fresh) (h : t₀.settleAll ss = .ok t) : t₀.FoldsBack ss t := by
  obtain ⟨hid, hopen, hids⟩ := hfresh.settleAll_frame h
  constructor
  · intro decision decided hdecide
    obtain ⟨i, hi, -, -, rfl⟩ := Tournament.decide_best_of_ranked hids hdecide
    refine history_foldsTo hfresh h hid ?_
    have hany : t.candidates.any (fun c => c.childId = decision.winner.childId) = true :=
      List.any_eq_true.mpr ⟨_, List.mem_of_getElem? hi, decide_eq_true rfl⟩
    unfold foldDecided
    rw [if_neg (not_not_intro hopen), if_neg (by decide)]
    show (if ¬ t.candidates.any (fun c => c.childId = decision.winner.childId) = true then _ else _) = _
    rw [if_neg (not_not_intro hany)]
    rfl
  · intro aborted rationale habort
    rw [Tournament.abort, hopen] at habort
    obtain rfl := Except.ok.inj habort
    refine history_foldsTo hfresh h hid ?_
    unfold foldDecided
    rw [if_neg (not_not_intro hopen), if_pos rfl]

/-- **When the comparison keeps its rule**: the best eligible candidate is proposed and no blocked one is,
exactly when some done, verified and reviewed candidate is not blocked, or there is none at all; the order of
the settlements never matters, and the rows always give the tournament back. -/
theorem decide_best_iff {id runFamily goal : Text} {criteria : List Criterion} {n : ℕ} {t₀ t : Tournament}
    {ss : List CandidateSettlement} (hnew : Tournament.new id runFamily goal criteria n = .ok t₀)
    (hsettled : t₀.settleAll ss = .ok t) :
    (t.ProposesBest ∧ t₀.OrderFree ss t ∧ t₀.FoldsBack ss t) ↔
      ((∃ s ∈ ss, s.Ranked) → ∃ s ∈ ss, s.Ranked ∧ ¬ s.Blocked) := by
  have hfresh := Tournament.new_fresh hnew
  have hranked := exists_settled_iff hfresh hsettled (P := fun c => c.ranked = true)
    (Q := CandidateSettlement.Ranked) (fun _ => by simp [Candidate.ranked, Candidate.fresh])
    (fun c s => (c.settle s).ranked_iff)
  have hunblocked := exists_settled_iff hfresh hsettled
    (P := fun c => c.ranked = true ∧ c.review.map ReviewVerdict.rank ≠ some .block)
    (Q := fun s => s.Ranked ∧ ¬ s.Blocked) (fun _ => by simp [Candidate.ranked, Candidate.fresh])
    (fun c s => and_congr (c.settle s).ranked_iff Iff.rfl)
  have heligible : (∃ c ∈ t.candidates, t.Eligible c) ↔ ∃ s ∈ ss, s.Ranked ∧ ¬ s.Blocked := by
    rw [← hunblocked]
    constructor
    · rintro ⟨c, hc, h⟩
      exact ⟨c, hc, (eligible_iff hfresh hsettled hc).mp h⟩
    · rintro ⟨c, hc, h⟩
      exact ⟨c, hc, (eligible_iff hfresh hsettled hc).mpr h⟩
  rw [← hranked, ← heligible, ← proposesBest_iff hfresh hsettled]
  constructor
  · exact fun h => h.1
  · intro h
    exact ⟨h, fun _ hperm => Tournament.settleAll_perm hfresh.opened hfresh.ids hsettled hperm,
      foldsBack hfresh hsettled⟩

/-- A settlement of the first candidate that is done and verified, with a review of the given rank. -/
def firstSettlement (rank : ReviewRank) : CandidateSettlement where
  childId := "child-0".toList
  worktree := "/w/0".toList
  baseRevision := "base".toList
  state := .done
  verification := some ⟨1, by decide⟩
  verificationPass := some true
  checks := [⟨"build".toList, "cargo check".toList⟩]
  review := some ⟨rank, "reviewer".toList⟩
  costMicro := 10
  wallMs := 5
  reason := []

/-- A tournament of two candidates. -/
def twoCandidates : Except TournamentError Tournament :=
  Tournament.new "t".toList "run".toList "goal".toList [⟨"build".toList, "cargo check".toList⟩] 2

theorem decide_best_iff_clean : ∃ t₀ t, twoCandidates = .ok t₀ ∧ t₀.settleAll [firstSettlement .clean] = .ok t ∧
    (t.ProposesBest ∧ t₀.OrderFree [firstSettlement .clean] t ∧ t₀.FoldsBack [firstSettlement .clean] t) := by
  refine ⟨_, _, rfl, rfl, (@decide_best_iff "t".toList "run".toList "goal".toList
    [⟨"build".toList, "cargo check".toList⟩] 2 _ _ _ rfl rfl).mpr fun _ => ?_⟩
  refine ⟨firstSettlement .clean, List.mem_singleton_self _, ⟨rfl, rfl, ?_⟩, ?_⟩
  · simp [firstSettlement]
  · simp [CandidateSettlement.Blocked, firstSettlement]

/-- A candidate whose review blocks wins where it stands alone. -/
theorem blocked_candidate_wins : ∃ t₀ t decision decided, twoCandidates = .ok t₀ ∧
    t₀.settleAll [firstSettlement .block] = .ok t ∧ t.decide = .ok (decision, decided) ∧
    decision.winner.review = some ⟨.block, "reviewer".toList⟩ ∧ ¬ t.ProposesBest := by
  refine ⟨_, _, _, _, rfl, rfl, rfl, rfl, ?_⟩
  rintro ⟨hok, -⟩
  obtain ⟨⟨i, -, ⟨-, -, review, hreview, hrank, -⟩, -⟩, -⟩ := hok _ _ rfl
  cases hreview
  exact hrank rfl

end Tournaments
