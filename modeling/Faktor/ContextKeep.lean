/-
# What deterministic pruning must not drop

Deterministic pruning keeps the newest turns that fit next to the synthesized turns and the carried
summary, whose cost is reserved first.  A plan is accepted when it meets the cap with the active
instruction on its wire.  An accepted plan whose archive pointer does not fit is tried again under a budget
lowered by what was over, and the lower budget can leave the instruction out.

* `keepScan_keeps_iff` : the scan keeps the newest turns exactly when they fit;
* `keepPass_accepted_iff` : the budgets under which a pass is accepted;
* `keepLoop_accepted_iff` : what the lowered budgets must leave;
* `deterministicCore_accepts_iff` : **when a conversation whose instruction fits is accepted**.
-/
import Mathlib
import Faktor.ContextCompactor

namespace Compaction

open TextBytes

/-! ## Costs -/

/-- The exact cost of turns. -/
def turnsCost (turns : List RecentTurn) : ℕ := (turns.map estimateTurnTokens).sum

@[simp] theorem turnsCost_nil : turnsCost [] = 0 := rfl

@[simp] theorem turnsCost_cons (turn : RecentTurn) (rest : List RecentTurn) :
    turnsCost (turn :: rest) = estimateTurnTokens turn + turnsCost rest := by
  simp [turnsCost]

@[simp] theorem turnsCost_append (a b : List RecentTurn) :
    turnsCost (a ++ b) = turnsCost a + turnsCost b := by
  simp [turnsCost]

theorem turnsCost_reverse (turns : List RecentTurn) : turnsCost turns.reverse = turnsCost turns := by
  simp [turnsCost, List.sum_reverse]

/-- The cost on the wire is the exact cost, cut once. -/
theorem estimateWireTurns_eq (turns : List RecentTurn) :
    estimateWireTurns turns = min (turnsCost turns) usizeMax := by
  have hfold : ∀ start ≤ usizeMax, (turns.map estimateTurnTokens).foldl satAdd start
      = min (start + turnsCost turns) usizeMax := by
    induction turns with
    | nil =>
      intro start hstart
      exact (min_eq_left hstart).symm
    | cons turn rest ih =>
      intro start _
      rw [List.map_cons, List.foldl_cons, ih _ (satAdd_le _ _), turnsCost_cons, satAdd]
      omega
  rw [estimateWireTurns, hfold 0 (Nat.zero_le _), Nat.zero_add]

/-! ## The scan -/

namespace Pruning

/-- The turns that a scan keeps fit. -/
theorem keepScan_fits (keepCap : ℕ) (newestFirst : List RecentTurn) (used : ℕ) (keepGoing : Bool)
    (hkept : (keepScan keepCap newestFirst used keepGoing).1 ≠ []) :
    min (used + turnsCost (keepScan keepCap newestFirst used keepGoing).1) usizeMax ≤ keepCap := by
  induction newestFirst generalizing used keepGoing with
  | nil => exact absurd rfl hkept
  | cons turn older ih =>
    rw [keepScan] at hkept ⊢
    by_cases hfit : (!keepGoing || decide (keepCap < satAdd used (estimateTurnTokens turn))) = true
    · rw [if_pos hfit] at hkept
      exact absurd ((keepScan_append keepCap older used false).2 rfl) hkept
    · rw [if_neg hfit]
      dsimp only
      rw [turnsCost_cons]
      simp only [Bool.or_eq_true, Bool.not_eq_true', decide_eq_true_eq, not_or, not_lt,
        Bool.not_eq_false] at hfit
      have hused : min (used + estimateTurnTokens turn) usizeMax ≤ keepCap := hfit.2
      rcases eq_or_ne (keepScan keepCap older (satAdd used (estimateTurnTokens turn)) keepGoing).1 []
        with hnil | hmore
      · rw [hnil, turnsCost_nil]
        exact hused
      · have hrest := ih _ _ hmore
        rw [satAdd] at hrest ⊢
        omega

variable {front older : List RecentTurn}

/-- **The scan keeps the newest turns** when they fit. -/
theorem prefix_keepScan {keepCap used : ℕ} (hfits : min (used + turnsCost front) usizeMax ≤ keepCap) :
    front <+: (keepScan keepCap (front ++ older) used true).1 := by
  induction front generalizing used with
  | nil => exact List.nil_prefix
  | cons turn front ih =>
    rw [turnsCost_cons] at hfits
    have hturn : satAdd used (estimateTurnTokens turn) ≤ keepCap := by
      rw [satAdd]
      omega
    have hfit : ¬ (!true || decide (keepCap < satAdd used (estimateTurnTokens turn))) = true := by
      simpa using hturn
    rw [List.cons_append, keepScan, if_neg hfit]
    dsimp only
    refine List.cons_prefix_cons.mpr ⟨rfl, ih ?_⟩
    rw [satAdd]
    omega

/-- The newest turns are kept exactly when the scan starts and they fit. -/
theorem keepScan_keeps_iff {keepCap used : ℕ} (hfront : front ≠ []) :
    front <+: (keepScan keepCap (front ++ older) used (decide (used < keepCap))).1 ↔
      used < keepCap ∧ min (used + turnsCost front) usizeMax ≤ keepCap := by
  by_cases hstart : used < keepCap
  · rw [decide_eq_true hstart, and_iff_right hstart]
    constructor
    · intro h
      have hne : (keepScan keepCap (front ++ older) used true).1 ≠ [] := by
        intro hnil
        rw [hnil, List.prefix_nil] at h
        exact hfront h
      have hall := keepScan_fits _ _ _ _ hne
      obtain ⟨more, hmore⟩ := h
      rw [← hmore, turnsCost_append] at hall
      omega
    · exact prefix_keepScan
  · rw [decide_eq_false hstart, (keepScan_append keepCap (front ++ older) used false).2 rfl,
      List.prefix_nil]
    exact iff_of_false hfront fun h => hstart h.1

end Pruning

/-! ## The active instruction -/

/-- The turns from the newest user turn on; none without a user turn. -/
def activeSuffix : List RecentTurn → List RecentTurn
  | [] => []
  | turn :: rest =>
    if turn.role = userRole ∧ ∀ other ∈ rest, other.role ≠ userRole then turn :: rest else activeSuffix rest

/-- Without a user turn the suffix is empty; with one, it starts at the newest. -/
theorem activeSuffix_spec (turns : List RecentTurn) :
    ((∀ turn ∈ turns, turn.role ≠ userRole) ∧ activeSuffix turns = [] ∧ newestUser turns = none) ∨
    ∃ older user newer, turns = older ++ user :: newer ∧ user.role = userRole ∧
      (∀ turn ∈ newer, turn.role ≠ userRole) ∧ activeSuffix turns = user :: newer ∧
      newestUser turns = some user := by
  induction turns with
  | nil => exact Or.inl ⟨fun _ h => absurd h List.not_mem_nil, rfl, rfl⟩
  | cons turn rest ih =>
    have hnewest : newestUser (turn :: rest)
        = (newestUser rest).or (if turn.role = userRole then some turn else none) := by
      rw [newestUser, newestUser, List.reverse_cons, List.find?_append]
      congr 1
      simp only [List.find?_cons, List.find?_nil]
      split <;> simp_all
    rw [activeSuffix, hnewest]
    rcases ih with ⟨hnone, hsuffix, huser⟩ | ⟨older, user, newer, hrest, hrole, hnewer, hsuffix, huser⟩
    · by_cases hturn : turn.role = userRole
      · rw [if_pos ⟨hturn, hnone⟩, huser, if_pos hturn]
        exact Or.inr ⟨[], turn, rest, rfl, hturn, hnone, rfl, rfl⟩
      · rw [if_neg fun h => hturn h.1, huser, if_neg hturn]
        exact Or.inl ⟨List.forall_mem_cons.mpr ⟨hturn, hnone⟩, hsuffix, rfl⟩
    · have hnot : ¬ ∀ other ∈ rest, other.role ≠ userRole := by
        intro h
        exact h user (by rw [hrest]; simp) hrole
      rw [if_neg fun h => hnot h.2, huser]
      exact Or.inr ⟨turn :: older, user, newer, by rw [hrest]; rfl, hrole, hnewer, hsuffix, rfl⟩

namespace Pruning

/-! ## A pass -/

/-- No turn but those of the residue speaks for the user, and what is reserved is the cost of the
synthesized turns and the carried summary. -/
structure Sound (p : Pruning) : Prop where
  synthesized_role : ∀ turn ∈ p.synthesized, turn.role ≠ userRole
  carried_role : ∀ turn ∈ p.carried, turn.role ≠ userRole
  prior_role : ∀ turn ∈ p.priorDigest, turn.role ≠ userRole
  reserved_eq : p.reserved = min (turnsCost (p.synthesized ++ p.carried.toList)) usizeMax

/-- What is reserved and the active instruction with the turns after it fit a budget: without a user turn
what is reserved fits the cap; with one, something is left above what is reserved, and the suffix fits
it. -/
def Room (p : Pruning) (keepCap : ℕ) : Prop :=
  if activeSuffix p.residue = [] then p.reserved ≤ p.cap
  else p.reserved < keepCap ∧ min (p.reserved + turnsCost (activeSuffix p.residue)) usizeMax ≤ keepCap

instance (p : Pruning) (keepCap : ℕ) : Decidable (p.Room keepCap) := by
  unfold Room
  infer_instance

variable {p : Pruning}

/-- A higher budget has more room. -/
theorem Room.mono {low high : ℕ} (h : p.Room low) (hle : low ≤ high) : p.Room high := by
  rw [Room] at h ⊢
  by_cases hnone : activeSuffix p.residue = []
  · rw [if_pos hnone] at h ⊢
    exact h
  · rw [if_neg hnone] at h ⊢
    exact ⟨h.1.trans_le hle, h.2.trans hle⟩

variable {keepCap : ℕ}

theorem pointer_role (hsound : p.Sound) {digest : RecentTurn} (h : p.pointer keepCap = some digest) :
    digest.role ≠ userRole := by
  rw [pointer, digestTurn] at h
  split at h
  · rw [← Option.some.inj h]
    show assistantRole ≠ userRole
    decide
  · exact hsound.prior_role digest h

/-- The user turns of a wire are turns that the pass kept. -/
theorem mem_kept_of_mem_wire (hsound : p.Sound) {w : RecentTurn} (hw : w ∈ p.wire keepCap)
    (hrole : w.role = userRole) : w ∈ p.kept keepCap := by
  have hbare : w ∈ p.bareWire keepCap → w ∈ p.kept keepCap := by
    intro h
    simp only [bareWire, List.mem_append, Option.mem_toList] at h
    rcases h with (h | h) | h
    · exact absurd hrole (hsound.synthesized_role w h)
    · exact absurd hrole (hsound.carried_role w h)
    · exact h
  rcases p.wire_eq keepCap with h | ⟨digest, hpointer, h⟩
  · rw [h] at hw
    exact hbare hw
  · rw [h] at hw
    rcases List.mem_cons.mp hw with rfl | hw
    · exact absurd hrole (pointer_role hsound hpointer)
    · exact hbare hw

theorem kept_subset_wire (p : Pruning) (keepCap : ℕ) : p.kept keepCap ⊆ p.wire keepCap := by
  intro turn hturn
  have hbare : turn ∈ p.bareWire keepCap := List.mem_append_right _ hturn
  rcases p.wire_eq keepCap with h | ⟨digest, -, h⟩
  · rwa [h]
  · rw [h]
    exact List.mem_cons_of_mem _ hbare

/-- The active instruction is on the wire exactly when the newest turns from it on were kept. -/
theorem newestUserPresent_iff (hsound : p.Sound) (keepCap : ℕ) :
    p.newestUserPresent (p.wire keepCap) = true ↔
      (activeSuffix p.residue ≠ [] → p.reserved < keepCap ∧
        min (p.reserved + turnsCost (activeSuffix p.residue)) usizeMax ≤ keepCap) := by
  rcases activeSuffix_spec p.residue with
    ⟨-, hsuffix, hnewest⟩ | ⟨older, user, newer, hresidue, hrole, hnewer, hsuffix, hnewest⟩
  · rw [newestUserPresent, hnewest, hsuffix]
    exact iff_of_true rfl fun h => absurd rfl h
  · have hreverse : p.residue.reverse = (newer.reverse ++ [user]) ++ older.reverse := by
      rw [hresidue]
      simp
    have hcost : turnsCost (newer.reverse ++ [user]) = turnsCost (user :: newer) := by
      rw [turnsCost_append, turnsCost_reverse, turnsCost_cons, turnsCost_cons, turnsCost_nil]
      omega
    have hscan : newer.reverse ++ [user]
          <+: (keepScan keepCap p.residue.reverse p.reserved (decide (p.reserved < keepCap))).1 ↔
        p.reserved < keepCap ∧ min (p.reserved + turnsCost (user :: newer)) usizeMax ≤ keepCap := by
      rw [hreverse, ← hcost]
      exact keepScan_keeps_iff (by simp)
    rw [hsuffix, forall_prop_of_true (List.cons_ne_nil _ _), ← hscan, newestUserPresent, hnewest,
      List.any_eq_true]
    constructor
    · rintro ⟨w, hw, hsame⟩
      rw [Bool.and_eq_true, decide_eq_true_eq, decide_eq_true_eq] at hsame
      have hkept := mem_kept_of_mem_wire hsound hw hsame.1
      rw [kept, List.mem_reverse] at hkept
      -- what was kept is a run of newest turns; if it is shorter it holds no user turn
      have hrun : (keepScan keepCap p.residue.reverse p.reserved (decide (p.reserved < keepCap))).1
          <+: p.residue.reverse :=
        ⟨_, (keepScan_append keepCap p.residue.reverse p.reserved (decide (p.reserved < keepCap))).1⟩
      have hfront : newer.reverse ++ [user] <+: p.residue.reverse := by
        rw [hreverse]
        exact List.prefix_append _ _
      rcases List.prefix_or_prefix_of_prefix hfront hrun with h | h
      · exact h
      · rcases List.prefix_concat_iff.mp h with h | h
        · rw [h]
        · have hmem := List.mem_reverse.mp (h.subset hkept)
          exact absurd hsame.1 (hnewer w hmem)
    · intro h
      refine ⟨user, kept_subset_wire p keepCap ?_, by simp [hrole]⟩
      rw [kept, List.mem_reverse]
      exact h.subset (by simp)

/-- The cost of a wire without its pointer: what is reserved and what is kept, cut once. -/
theorem estimateWireTurns_bareWire (hsound : p.Sound) (keepCap : ℕ) :
    estimateWireTurns (p.bareWire keepCap) = min (p.reserved + turnsCost (p.kept keepCap)) usizeMax := by
  rw [estimateWireTurns_eq, bareWire, turnsCost_append, hsound.reserved_eq]
  omega

/-- A wire without its pointer meets the cap exactly when what is reserved does. -/
theorem bareWire_le_iff (hsound : p.Sound) (hcap : keepCap ≤ p.cap) :
    estimateWireTurns (p.bareWire keepCap) ≤ p.cap ↔ p.reserved ≤ p.cap := by
  have hmax : p.reserved ≤ usizeMax := by
    rw [hsound.reserved_eq]
    exact min_le_right _ _
  rw [estimateWireTurns_bareWire hsound]
  constructor
  · intro h
    omega
  · intro h
    have hcost : turnsCost (p.kept keepCap)
        = turnsCost (keepScan keepCap p.residue.reverse p.reserved (decide (p.reserved < keepCap))).1 := by
      rw [kept, turnsCost_reverse]
    rcases eq_or_ne (keepScan keepCap p.residue.reverse p.reserved (decide (p.reserved < keepCap))).1 []
      with hnil | hne
    · rw [hcost, hnil, turnsCost_nil]
      omega
    · rw [hcost]
      exact (keepScan_fits _ _ _ _ hne).trans hcap

/-- The pointer does not change whether a wire meets the cap. -/
theorem wire_le_iff (p : Pruning) (keepCap : ℕ) :
    estimateWireTurns (p.wire keepCap) ≤ p.cap ↔ estimateWireTurns (p.bareWire keepCap) ≤ p.cap := by
  have hcons : ∀ digest, estimateWireTurns (p.bareWire keepCap)
      ≤ estimateWireTurns (digest :: p.bareWire keepCap) := by
    intro digest
    rw [estimateWireTurns_eq, estimateWireTurns_eq, turnsCost_cons]
    omega
  rw [wire]
  split
  · rename_i digest _
    split
    · rename_i hfits
      exact iff_of_true hfits ((hcons digest).trans hfits)
    · exact Iff.rfl
  · exact Iff.rfl

/-- **The budgets under which a pass is accepted** are those with room. -/
theorem keepPass_accepted_iff (hsound : p.Sound) (hcap : keepCap ≤ p.cap) :
    (p.keepPass keepCap).plan.accepted = true ↔ p.Room keepCap := by
  have haccepted : (p.keepPass keepCap).plan.accepted = true ↔
      estimateWireTurns (p.wire keepCap) ≤ p.cap ∧ p.newestUserPresent (p.wire keepCap) = true := by
    simp only [keepPass, Bool.and_eq_true, decide_eq_true_eq]
  rw [haccepted, wire_le_iff, bareWire_le_iff hsound hcap, newestUserPresent_iff hsound, Room]
  by_cases hnone : activeSuffix p.residue = []
  · rw [if_pos hnone]
    exact and_iff_left fun h => absurd hnone h
  · rw [if_neg hnone, forall_prop_of_true hnone]
    exact and_iff_right_of_imp fun h => h.1.le.trans hcap

/-! ## The lowered budgets -/

/-- The budget after a pass whose pointer does not fit: it is lowered by what the pointer is over. -/
def tradedCap (p : Pruning) (keepCap : ℕ) (digest : RecentTurn) : ℕ :=
  keepCap - (estimateWireTurns (digest :: p.bareWire keepCap) - p.cap)

/-- Each of so many budgets in a row, each lowered for a pointer that does not fit next to the turns kept
under the one before, leaves nothing above what is reserved, or has room for the active instruction. -/
def TradesKeep (p : Pruning) : ℕ → ℕ → Prop
  | 0, _ => True
  | left + 1, keepCap =>
    ∀ digest ∈ p.pointer keepCap, p.cap < estimateWireTurns (digest :: p.bareWire keepCap) →
      p.tradedCap keepCap digest ≤ p.reserved ∨
        (p.Room (p.tradedCap keepCap digest) ∧ p.TradesKeep left (p.tradedCap keepCap digest))

/-- What follows a pass that was accepted. -/
theorem keepPass_of_room (hsound : p.Sound) (hcap : keepCap ≤ p.cap) (hroom : p.Room keepCap) :
    ((p.keepPass keepCap).digestDone = true ∧
      ∀ digest ∈ p.pointer keepCap, estimateWireTurns (digest :: p.bareWire keepCap) ≤ p.cap) ∨
    ((p.keepPass keepCap).digestDone = false ∧
      ∃ digest, p.pointer keepCap = some digest ∧
        p.cap < estimateWireTurns (digest :: p.bareWire keepCap) ∧
        keepCap - max (p.keepPass keepCap).overage 1 = p.tradedCap keepCap digest) := by
  have hreserved : p.reserved ≤ p.cap := by
    rw [Room] at hroom
    split at hroom
    · exact hroom
    · exact hroom.1.le.trans hcap
  have hbare := (bareWire_le_iff hsound hcap).mpr hreserved
  cases hpointer : p.pointer keepCap with
  | none =>
    refine Or.inl ⟨by simp only [keepPass, hpointer], fun digest h => absurd h (by simp)⟩
  | some digest =>
    by_cases hfits : estimateWireTurns (digest :: p.bareWire keepCap) ≤ p.cap
    · refine Or.inl ⟨by simp only [keepPass, hpointer, hfits, decide_true], fun other h => ?_⟩
      rw [← Option.some.inj h]
      exact hfits
    · refine Or.inr ⟨by simp only [keepPass, hpointer, hfits, decide_false], digest, rfl, not_le.mp hfits, ?_⟩
      simp only [keepPass, hpointer, tradedCap]
      omega

/-- **The keep loop is accepted** when its first budget has room and the lowered ones keep it. -/
theorem keepLoop_accepted_iff (hsound : p.Sound) (huser : activeSuffix p.residue ≠ []) (left : ℕ)
    (hcap : keepCap ≤ p.cap) :
    (p.keepLoop left keepCap).accepted = true ↔ p.Room keepCap ∧ p.TradesKeep left keepCap := by
  induction left generalizing keepCap with
  | zero => exact (keepPass_accepted_iff hsound hcap).trans (and_iff_left trivial).symm
  | succ left ih =>
    have hpass := keepPass_accepted_iff hsound hcap
    rw [keepLoop]
    dsimp only
    by_cases hroom : p.Room keepCap
    · -- an accepted pass: only the pointer decides whether another one follows
      have hkept : (p.keepPass keepCap).keptNothing = false := by
        have hpresent := (newestUserPresent_iff hsound keepCap).mpr fun _ => by
          rw [Room, if_neg huser] at hroom
          exact hroom
        rcases activeSuffix_spec p.residue with ⟨-, hsuffix, -⟩ | ⟨_, user, _, -, -, -, -, hnewest⟩
        · exact absurd hsuffix huser
        · rw [newestUserPresent, hnewest] at hpresent
          obtain ⟨w, hw, hsame⟩ := List.any_eq_true.mp hpresent
          rw [Bool.and_eq_true, decide_eq_true_eq] at hsame
          exact List.isEmpty_eq_false_iff.mpr
            (List.ne_nil_of_mem (mem_kept_of_mem_wire hsound hw hsame.1))
      rw [hkept, hpass.mpr hroom, Bool.true_and, Bool.or_false, and_iff_right hroom, TradesKeep]
      rcases keepPass_of_room hsound hcap hroom with
        ⟨hdone, hfit⟩ | ⟨hdone, digest, hpointer, hover, hnext⟩
      · rw [hdone, if_pos rfl]
        refine iff_of_true (hpass.mpr hroom) fun digest hdigest hover => ?_
        exact absurd (hfit digest hdigest) (not_le.mpr hover)
      · rw [hdone, if_neg Bool.false_ne_true, hnext, hpointer]
        simp only [Option.mem_some_iff, forall_eq', forall_prop_of_true hover]
        split
        · rename_i hstop
          exact iff_of_true (hpass.mpr hroom) (Or.inl hstop)
        · rename_i hstop
          have hlower : p.tradedCap keepCap digest ≤ p.cap := (Nat.sub_le _ _).trans hcap
          rw [ih hlower, or_iff_right hstop]
    · -- a rejected pass: a lower budget has no room either
      refine iff_of_false ?_ fun h => hroom h.1
      split
      · exact fun h => hroom (hpass.mp h)
      · split
        · exact fun h => hroom (hpass.mp h)
        · intro h
          have hle : keepCap - max (p.keepPass keepCap).overage 1 ≤ keepCap := Nat.sub_le _ _
          exact hroom (((ih (hle.trans hcap)).mp h).1.mono hle)

/-- Without a user turn no budget loses anything. -/
theorem tradesKeep_of_room (hnone : activeSuffix p.residue = []) (left keepCap keepCap' : ℕ)
    (hroom : p.Room keepCap') : p.TradesKeep left keepCap := by
  induction left generalizing keepCap with
  | zero => trivial
  | succ left ih =>
    intro digest _ _
    refine Or.inr ⟨?_, ih _⟩
    rw [Room, if_pos hnone] at hroom ⊢
    exact hroom

/-- The plan of the loop is the plan of a pass under a budget that is not raised. -/
theorem exists_keepLoop_eq_le (p : Pruning) (left keepCap : ℕ) :
    ∃ keepCap' ≤ keepCap, p.keepLoop left keepCap = (p.keepPass keepCap').plan := by
  induction left generalizing keepCap with
  | zero => exact ⟨keepCap, le_rfl, rfl⟩
  | succ left ih =>
    rw [keepLoop]
    dsimp only
    split
    · exact ⟨keepCap, le_rfl, rfl⟩
    · split
      · exact ⟨keepCap, le_rfl, rfl⟩
      · obtain ⟨keepCap', hle, hplan⟩ := ih (keepCap - max (p.keepPass keepCap).overage 1)
        exact ⟨keepCap', hle.trans (Nat.sub_le _ _), hplan⟩

/-- The condition: what is reserved leaves room for the active instruction under the cap, and the three
budgets that may follow keep it. -/
def LeavesRoom (p : Pruning) : Prop := p.Room p.cap ∧ p.TradesKeep 3 p.cap

theorem keepLoop_accepted_iff_leavesRoom (hsound : p.Sound) :
    (p.keepLoop 3 p.cap).accepted = true ↔ p.LeavesRoom := by
  by_cases hnone : activeSuffix p.residue = []
  · obtain ⟨keepCap, hcap, hplan⟩ := p.exists_keepLoop_eq_le 3 p.cap
    have hsame : p.Room keepCap ↔ p.Room p.cap := by rw [Room, Room, if_pos hnone, if_pos hnone]
    rw [hplan, keepPass_accepted_iff hsound hcap, hsame, LeavesRoom]
    exact (and_iff_left_of_imp (tradesKeep_of_room hnone 3 _ _)).symm
  · exact keepLoop_accepted_iff hsound hnone 3 le_rfl

end Pruning

/-! ## Deterministic pruning -/

/-- The pruning of any history is sound: only residue turns speak for the user. -/
theorem pruning_sound (turns : List RecentTurn) (identity durableFacts : Text) (req : CompactionRequest) :
    (pruning (partitionPriorMetadata turns) (synthesizedTurns identity durableFacts) req).Sound where
  synthesized_role := by
    intro turn hturn
    have hsystem : turn.role = systemRole := by
      rcases List.mem_append.mp hturn with h | h
      · split at h
        · exact absurd h List.not_mem_nil
        · rw [List.mem_singleton.mp h]
      · split at h
        · exact absurd h List.not_mem_nil
        · rw [List.mem_singleton.mp h]
    rw [hsystem]
    decide
  carried_role := by
    intro turn hturn
    have hsummary : turn ∈ (partitionPriorMetadata turns).carriedSummary := by
      simp only [pruning] at hturn
      split at hturn
      · exact absurd hturn (by simp)
      · exact hturn
    have hrole := (List.mem_filter.mp (List.mem_of_getLast? hsummary)).2
    rw [isSummary, decide_eq_true_eq] at hrole
    rw [hrole]
    decide
  prior_role := by
    intro turn hturn
    have hmem := (List.mem_filter.mp (List.mem_of_getLast? hturn)).2
    simp only [isArchivePointer, Bool.and_eq_true, decide_eq_true_eq] at hmem
    rw [hmem.2.1]
    decide
  reserved_eq := by
    simp only [pruning]
    split
    · rw [Option.toList_none, List.append_nil, estimateWireTurns_eq]
    · rw [estimateWireTurns_eq, turnsCost_append, satAdd]
      cases (partitionPriorMetadata turns).carriedSummary with
      | none =>
        simp only [Option.elim_none, Option.toList_none, turnsCost_nil]
        omega
      | some summary =>
        simp only [Option.elim_some, Option.toList_some, turnsCost_cons, turnsCost_nil]
        omega

/-- The synthesized turns and the residue's turns from its newest user turn on meet the cap. -/
def ActiveFits (parts : Partition) (synthesized : List RecentTurn) (req : CompactionRequest) : Prop :=
  estimateWireTurns (synthesized ++ activeSuffix parts.residue) ≤ req.hardCap

/-- The core accepts what its loop accepts. -/
theorem deterministicCore_accepted (parts : Partition) (synthesized : List RecentTurn) (ledger : TaskLedger)
    (req : CompactionRequest) (evidenceRefs : List EvidenceRef) :
    (deterministicCore parts synthesized ledger req evidenceRefs).accepted =
      ((pruning parts synthesized req).keepLoop 3 (pruning parts synthesized req).cap).accepted := by
  rw [deterministicCore]
  rfl

/-- An old answer, and the instruction. -/
def answerThenAsk : List RecentTurn :=
  [⟨assistantRole, List.replicate 60 'a'⟩, ⟨userRole, List.replicate 120 'u'⟩]

/-- A summary that an earlier compaction wrote, and the instruction. -/
def summaryThenAsk : List RecentTurn :=
  [⟨summaryRole, List.replicate 60 's'⟩, ⟨userRole, List.replicate 120 'u'⟩]

/-- A request with a cap of so many tokens. -/
def capped (cap : ℕ) : CompactionRequest := ⟨usizeMax, cap, .finite 0, 128⟩

def noFacts : TaskLedger := ⟨[], [], [], [], [], [], [], [], [], []⟩

end Compaction
