/-
# The materialized head over appends, refreshes and compactions

One handle of a session works on the typed ledger: it appends entries, brings the materialized
head current, and compacts, and it can crash between any two of the writes.  The question is
whether the head always is the fold of everything ever appended, although compaction deletes
entries and a refresh only folds what it finds above the head's checkpoint.

* `Resumable` : the stored head covers the history, and the next sequence number is above it;
* `ensureHead_eq_fold` : what a refresh of a resumable ledger returns;
* `step_resumable` : the steps that keep a ledger resumable.  A compaction writes the sequence
  number of the newest *surviving* entry next to the head; when an earlier compaction deleted
  newer ones, that number is below the head's own checkpoint, and the next entry is appended
  under a number the head already covers.
-/
import Faktor.Trace
import Faktor.CheckpointFold
import Faktor.LedgerModel

namespace TypedLedger

variable (bytes : JsonBytes)

/-! ## The ledger as a checkpointed fold -/

/-- `fold_entries` as a fold with checkpoints. -/
def ledgerFold : CheckpointFold LedgerEntry LedgerHead where
  key := (·.seq)
  step := foldEntry
  init := {}
  checkpoint := (·.checkpointSeq)
  checkpoint_init := rfl
  checkpoint_step _ _ := rfl

/-- Every entry the session ever appended, in order. -/
abbrev History := List LedgerEntry

theorem ledgerMaxSeq_eq_top (s : LedgerStore) : s.ledgerMaxSeq = ledgerFold.top s.entries := rfl

theorem ledgerEntries_eq_after (s : LedgerStore) (c : ℕ) :
    s.ledgerEntries (some c) = ledgerFold.after c s.entries := rfl

theorem cursor_eq_some_or_none (s : LedgerStore) :
    s.cursor = some s.baseHead.checkpointSeq ∨ (s.cursor = none ∧ s.baseHead = {}) := by
  unfold LedgerStore.cursor LedgerStore.baseHead
  cases s.head with
  | none => exact .inr ⟨rfl, rfl⟩
  | some row => exact .inl rfl

/-! ## Resumable ledgers -/

/-- What the stored head and the surviving entries must keep of the history. -/
structure Resumable (history : History) (s : LedgerStore) : Prop where
  increasing : ledgerFold.Increasing history
  positive : ∀ e ∈ history, 0 < e.seq
  sublist : s.entries.Sublist history
  covers : ledgerFold.Covers history s.entries s.baseHead
  highWater : ledgerFold.top history ≤ max s.ledgerMaxSeq s.checkpointColumn

namespace Resumable

variable {history : History} {s : LedgerStore}

theorem empty : Resumable [] ⟨[], none⟩ where
  increasing := List.Pairwise.nil
  positive := by simp
  sublist := List.Sublist.refl _
  covers := CheckpointFold.covers_init (by simp) rfl
  highWater := Nat.zero_le _

theorem entries_increasing (h : Resumable history s) : ledgerFold.Increasing s.entries :=
  h.increasing.sublist h.sublist

/-- A cursor that stands at the checkpoint of a head: there is none for the empty head. -/
def AtCheckpoint (cursor : Option ℕ) (head : LedgerHead) : Prop :=
  cursor = some head.checkpointSeq ∨ (cursor = none ∧ head = {})

/-- The entries read at a head's cursor are those above its checkpoint. -/
theorem ledgerEntries_eq (h : Resumable history s) {cursor : Option ℕ} {head : LedgerHead}
    (hcursor : AtCheckpoint cursor head) :
    s.ledgerEntries cursor = ledgerFold.after head.checkpointSeq s.entries := by
  rcases hcursor with hc | ⟨hc, hb⟩
  · rw [hc, ledgerEntries_eq_after]
  · -- with no cursor the whole stream is read: every sequence number is positive
    have hall : ledgerFold.after 0 s.entries = s.entries := by
      rw [CheckpointFold.after, List.filter_eq_self]
      intro e he
      exact decide_eq_true (h.positive e (h.sublist.subset he))
    rw [hc, hb]
    exact hall.symm

/-- Reading at the cursor of a covering head and folding gives the fold of the history. -/
theorem foldEntries_of_covers (h : Resumable history s) {cursor : Option ℕ} {head : LedgerHead}
    (hcursor : AtCheckpoint cursor head) (hc : ledgerFold.Covers history s.entries head) :
    foldEntries head (s.ledgerEntries cursor) = foldEntries {} history := by
  rw [h.ledgerEntries_eq hcursor]
  exact hc.resume h.increasing

theorem stale_cursor (s : LedgerStore) :
    stale s.cursor s.ledgerMaxSeq = true ↔ s.baseHead.checkpointSeq < s.ledgerMaxSeq := by
  rcases cursor_eq_some_or_none s with hc | ⟨hc, hb⟩
  · simp [hc, stale]
  · simp [hc, hb, stale]

/-- What a refresh folds is the whole history. -/
theorem foldEntries_cursor (h : Resumable history s) :
    foldEntries s.baseHead (s.ledgerEntries s.cursor) = foldEntries {} history :=
  h.foldEntries_of_covers (cursor_eq_some_or_none s) h.covers

theorem baseHead_of_not_stale (h : Resumable history s)
    (hs : stale s.cursor s.ledgerMaxSeq = false) : s.baseHead = foldEntries {} history := by
  have hle : s.ledgerMaxSeq ≤ s.baseHead.checkpointSeq := by
    have := mt (stale_cursor s).mpr (by simp [hs])
    omega
  exact h.covers.eq_project h.increasing hle

end Resumable

/-- `head_to_value` hands back the head it is given. -/
theorem headToValue_eq_ok {head value : LedgerHead} :
    headToValue bytes head = .ok value ↔
      value = head ∧ bytes.head head ≤ maxLedgerHeadBytes := by
  unfold headToValue
  split
  · simp only [reduceCtorEq, false_iff, not_and]
    intro _
    omega
  · simp only [Except.ok.injEq]
    constructor
    · rintro rfl
      exact ⟨rfl, by omega⟩
    · exact fun h => h.1.symm

/-- The two outcomes of a refresh that returns a head: it stores the fold of the whole history,
or finds it stored. -/
theorem ensureHead_cases {history : History} {s s' : LedgerStore}
    {r : Except LedgerError LedgerHead} (h : Resumable history s)
    (hr : ledgerEnsureHead bytes s = (r, s')) :
    (r = .ok (foldEntries {} history) ∧ s' = s ∧ s.baseHead = foldEntries {} history) ∨
    (r = .ok (foldEntries {} history) ∧
      s' = s.putLedgerHead (foldEntries {} history) (foldEntries {} history).checkpointSeq) ∨
    ((∃ e, r = .error e) ∧ s' = s ∧
      maxLedgerHeadBytes < bytes.head (foldEntries {} history)) := by
  unfold ledgerEnsureHead at hr
  split at hr
  · rw [h.foldEntries_cursor] at hr
    dsimp only at hr
    split at hr
    · rename_i e he
      obtain ⟨rfl, rfl⟩ := Prod.mk.injEq .. ▸ hr
      refine .inr (.inr ⟨⟨e, rfl⟩, rfl, ?_⟩)
      by_contra hle
      rw [(headToValue_eq_ok bytes).mpr ⟨rfl, Nat.le_of_not_lt hle⟩] at he
      cases he
    · rename_i value hv
      obtain ⟨rfl, -⟩ := (headToValue_eq_ok bytes).mp hv
      obtain ⟨rfl, rfl⟩ := Prod.mk.injEq .. ▸ hr
      exact .inr (.inl ⟨rfl, rfl⟩)
  · rename_i hs
    have hb := h.baseHead_of_not_stale (by simpa using hs)
    obtain ⟨rfl, rfl⟩ := Prod.mk.injEq .. ▸ hr
    exact .inl ⟨by rw [hb], rfl, hb⟩

namespace Resumable

variable {history : History} {s : LedgerStore}

section

variable (h : Resumable history s)
include h

/-- Appending above the high water mark keeps a ledger resumable. -/
theorem append (payload : LedgerPayload) (now : ℤ) {seq : ℕ}
    (hseq : max s.ledgerMaxSeq s.checkpointColumn < seq) :
    Resumable (history ++ [⟨seq, payload, now⟩])
      { s with entries := s.entries ++ [⟨seq, payload, now⟩] } := by
  have htop : ledgerFold.top history < ledgerFold.key ⟨seq, payload, now⟩ :=
    h.highWater.trans_lt hseq
  have hmax : (⟨s.entries ++ [⟨seq, payload, now⟩], s.head⟩ : LedgerStore).ledgerMaxSeq =
      max s.ledgerMaxSeq seq := ledgerFold.top_concat _ _
  constructor
  case increasing => exact h.increasing.concat htop
  case positive =>
    intro e he
    rcases List.mem_append.mp he with he | he
    · exact h.positive e he
    · rw [List.mem_singleton.mp he]
      exact Nat.zero_lt_of_lt hseq
  case sublist => exact h.sublist.append (List.Sublist.refl _)
  case covers => exact h.covers.concat h.increasing htop
  case highWater =>
    rw [ledgerFold.top_concat, hmax]
    exact le_max_of_le_left (max_le (le_max_of_le_right htop.le) (le_max_right _ _))

/-- Storing a head that covers the history, with its own checkpoint in the column, keeps a
ledger resumable. -/
theorem putLedgerHead {head : LedgerHead} (hc : ledgerFold.Covers history s.entries head) :
    Resumable history (s.putLedgerHead head head.checkpointSeq) where
  increasing := h.increasing
  positive := h.positive
  sublist := h.sublist
  covers := hc
  highWater := hc.top_le

/-- The fold of the whole history covers it. -/
theorem covers_fold :
    ledgerFold.Covers history s.entries (foldEntries {} history) :=
  CheckpointFold.covers_all h.increasing fun _ he => h.sublist.subset he

theorem ensureHead : Resumable history (ledgerEnsureHead bytes s).2 := by
  cases hr : ledgerEnsureHead bytes s with
  | mk r s' =>
    rcases ensureHead_cases bytes h hr with ⟨-, rfl, -⟩ | ⟨-, rfl⟩ | ⟨-, rfl, -⟩
    · exact h
    · exact h.putLedgerHead h.covers_fold
    · exact h

/-- A compaction that stores a covering head, and deletes nothing above its checkpoint, keeps a
ledger resumable when its column and the entries it leaves reach the end of the history. -/
theorem compactLedger {head : LedgerHead} {last : ℕ} {pinned : List ℕ}
    (hc : ledgerFold.Covers history s.entries head) (hlast : last ≤ head.checkpointSeq)
    (hnew : head.checkpointSeq ≤ max s.ledgerMaxSeq last) :
    Resumable history (s.compactLedger (last + 1) pinned head last) := by
  have hcovers : ledgerFold.Covers history
      (s.compactLedger (last + 1) pinned head last).entries head := by
    refine hc.filter fun e _ hp => ?_
    have hle : e.seq < last + 1 := by
      simp only [Bool.not_eq_false', Bool.and_eq_true, decide_eq_true_eq] at hp
      exact hp.1
    show e.seq ≤ head.checkpointSeq
    omega
  constructor
  case increasing => exact h.increasing
  case positive => exact h.positive
  case sublist => exact List.filter_sublist.trans h.sublist
  case covers => exact hcovers
  case highWater =>
    -- the newest entry survives, or the column is its number
    refine ledgerFold.top_le fun e he => ?_
    show e.seq ≤ _
    by_cases hle : e.seq ≤ last
    · exact le_max_of_le_right hle
    · have hmax : e.seq ≤ s.ledgerMaxSeq := by
        have htop := (ledgerFold.le_top he).trans hc.top_le
        have : e.seq ≤ max s.ledgerMaxSeq head.checkpointSeq := htop
        omega
      have hne : s.entries ≠ [] := by
        intro hnil
        have : s.ledgerMaxSeq = 0 := by rw [ledgerMaxSeq_eq_top, hnil]; rfl
        omega
      obtain ⟨x, hx, hxt⟩ := ledgerFold.exists_key_eq_top hne
      have hxmax : x.seq = s.ledgerMaxSeq := hxt
      have hkept : x ∈ (s.compactLedger (last + 1) pinned head last).entries := by
        refine List.mem_filter.mpr ⟨hx, ?_⟩
        have : ¬ x.seq < last + 1 := by omega
        simp [this]
      exact le_max_of_le_left (hmax.trans (hxmax ▸ ledgerFold.le_top hkept))

end

end Resumable

/-! ## Runs of one handle -/

/-- What one handle can do to the ledger.  A crash before the first write of a call, or during
one of its transactions, leaves nothing behind; `compactCrashed` is a compaction that crashed
between its refresh of the head and its own transaction. -/
inductive LedgerEvent
  | append (payload : LedgerPayload) (now : ℤ)
  | ensureHead
  | compact
  | compactCrashed
  deriving DecidableEq, Repr

/-- The tables, and every entry ever appended. -/
structure LedgerRun where
  store : LedgerStore
  history : History
  deriving DecidableEq, Repr

namespace LedgerRun

/-- A new session. -/
def initial : LedgerRun := ⟨⟨[], none⟩, []⟩

/-- One event.  A refused append leaves everything as it is. -/
def step (w : LedgerRun) : LedgerEvent → Option LedgerRun
  | .append payload now =>
    match w.store.appendEntry bytes payload now with
    | .ok (seq, store) => some ⟨store, w.history ++ [⟨seq, payload, now⟩]⟩
    | .error _ => some w
  | .ensureHead => some { w with store := (ledgerEnsureHead bytes w.store).2 }
  | .compact => some { w with store := (compactTypedLedger bytes w.store).2 }
  | .compactCrashed =>
    if w.store.entries = [] then some w
    else some { w with store := (ledgerEnsureHead bytes w.store).2 }

/-- A compaction finds the newest surviving entry at or above the stored head's checkpoint. -/
def NewestKept (w : LedgerRun) : LedgerEvent → Prop
  | .compact => w.store.entries = [] ∨ w.store.baseHead.checkpointSeq ≤ w.store.ledgerMaxSeq
  | _ => True

instance (w : LedgerRun) (e : LedgerEvent) : Decidable (NewestKept w e) := by
  cases e <;> unfold NewestKept <;> infer_instance

end LedgerRun

/-- What a successful append does. -/
theorem appendEntry_eq_ok {s s' : LedgerStore} {payload : LedgerPayload} {now : ℤ} {seq : ℕ}
    (h : s.appendEntry bytes payload now = .ok (seq, s')) :
    seq = max s.ledgerMaxSeq s.checkpointColumn + 1 ∧
      s' = { s with entries := s.entries ++ [⟨seq, payload, now⟩] } := by
  unfold LedgerStore.appendEntry checkPayloadBytes LedgerStore.appendLedgerEntry at h
  split at h
  · cases h
  · simp only [bind, Except.bind] at h
    split at h
    · simp only [Except.ok.injEq, Prod.mk.injEq] at h
      obtain ⟨rfl, rfl⟩ := h
      exact ⟨rfl, rfl⟩
    · cases h

/-- A compaction of a resumable ledger whose newest entry survives keeps it resumable. -/
theorem Resumable.compactTypedLedger {history : History} {s : LedgerStore}
    (h : Resumable history s)
    (hnew : s.entries = [] ∨ s.baseHead.checkpointSeq ≤ s.ledgerMaxSeq) :
    Resumable history (compactTypedLedger bytes s).2 := by
  unfold TypedLedger.compactTypedLedger
  split
  · exact h
  · rename_i last hlast
    have hmax : last.seq = s.ledgerMaxSeq := h.entries_increasing.getLast_key hlast
    have hne : s.entries ≠ [] := by
      intro hnil
      simp [hnil] at hlast
    replace hnew := hnew.resolve_left hne
    have hens := h.ensureHead bytes
    split
    · rename_i e s₁ hr
      rwa [hr] at hens
    · rename_i refreshed s₁ hr
      rw [hr] at hens
      -- after the refresh the head is the fold of the whole history, so nothing is left to fold
      have hfold : refreshed = foldEntries {} history ∧ s₁.entries = s.entries := by
        rcases ensureHead_cases bytes h hr with ⟨hok, rfl, -⟩ | ⟨hok, rfl⟩ | ⟨⟨e, hok⟩, -, -⟩
        · exact ⟨by simpa using hok, rfl⟩
        · exact ⟨by simpa using hok, rfl⟩
        · cases hok
      obtain ⟨rfl, hents⟩ := hfold
      have hcp : (foldEntries {} history).checkpointSeq = ledgerFold.top history :=
        CheckpointFold.checkpoint_project h.increasing
      have hlt : ¬ (foldEntries {} history).checkpointSeq < last.seq := by
        have := ledgerFold.le_top (h.sublist.subset (List.mem_of_getLast? hlast))
        have : last.seq ≤ ledgerFold.top history := this
        omega
      simp only [hlt, if_false]
      split
      · exact hens
      · rename_i value hv
        obtain ⟨rfl, -⟩ := (headToValue_eq_ok bytes).mp hv
        refine hens.compactLedger hens.covers_fold (by omega) ?_
        have htop : ledgerFold.top history ≤ max s.ledgerMaxSeq s.baseHead.checkpointSeq :=
          h.covers.top_le
        have hs₁ : s₁.ledgerMaxSeq = s.ledgerMaxSeq := by
          rw [ledgerMaxSeq_eq_top, ledgerMaxSeq_eq_top, hents]
        omega

namespace LedgerRun

/-- **Every step keeps a ledger resumable**, compactions when the newest entry survives. -/
theorem step_resumable (w : LedgerRun) (e : LedgerEvent) (w' : LedgerRun)
    (h : Resumable w.history w.store) (hkept : NewestKept w e) (hs : step bytes w e = some w') :
    Resumable w'.history w'.store := by
  cases e with
  | append payload now =>
    simp only [step] at hs
    split at hs
    · rename_i seq store hok
      obtain ⟨rfl, rfl⟩ := appendEntry_eq_ok bytes hok
      obtain rfl := Option.some.inj hs
      exact h.append payload now (Nat.lt_succ_self _)
    · obtain rfl := Option.some.inj hs
      exact h
  | ensureHead =>
    obtain rfl := Option.some.inj hs
    exact h.ensureHead bytes
  | compact =>
    obtain rfl := Option.some.inj hs
    exact h.compactTypedLedger bytes hkept
  | compactCrashed =>
    simp only [step] at hs
    split at hs
    · obtain rfl := Option.some.inj hs
      exact h
    · obtain rfl := Option.some.inj hs
      exact h.ensureHead bytes

/-- What a reader of the ledger relies on: a refresh returns the fold of everything ever
appended (or refuses it as too large), and the next entry comes after everything the head and
the history hold. -/
def Faithful (w : LedgerRun) : Prop :=
  (bytes.head (foldEntries {} w.history) ≤ maxLedgerHeadBytes →
    (ledgerEnsureHead bytes w.store).1 = .ok (foldEntries {} w.history)) ∧
  (∀ head, (ledgerEnsureHead bytes w.store).1 = .ok head → head = foldEntries {} w.history) ∧
  (∀ payload now seq store, w.store.appendEntry bytes payload now = .ok (seq, store) →
    w.store.baseHead.checkpointSeq < seq ∧ ∀ e ∈ w.history, e.seq < seq)

/-- A resumable ledger is faithful. -/
theorem faithful_of_resumable {w : LedgerRun} (h : Resumable w.history w.store) :
    w.Faithful bytes := by
  have happend : ∀ payload now seq store,
      w.store.appendEntry bytes payload now = .ok (seq, store) →
        ledgerFold.top w.history < seq := by
    intro payload now seq store hok
    obtain ⟨rfl, -⟩ := appendEntry_eq_ok bytes hok
    exact Nat.lt_succ_of_le h.highWater
  cases hr : ledgerEnsureHead bytes w.store with
  | mk r s' =>
    have hcases := ensureHead_cases bytes h hr
    refine ⟨fun hfits => ?_, fun head hok => ?_, fun payload now seq store hok => ⟨?_, ?_⟩⟩
    · rw [hr]
      rcases hcases with ⟨hok, -, -⟩ | ⟨hok, -⟩ | ⟨-, -, hbig⟩
      · exact hok
      · exact hok
      · omega
    · rw [hr] at hok
      rcases hcases with ⟨hok', -, -⟩ | ⟨hok', -⟩ | ⟨⟨e, hok'⟩, -, -⟩ <;>
        simp_all
    · exact (h.covers.checkpoint_le h.increasing).trans_lt (happend payload now seq store hok)
    · intro e he
      exact (ledgerFold.le_top he).trans_lt (happend payload now seq store hok)

/-- **The head is the fold of the whole stream.**  In every run in which each compaction finds
the newest entry at or above the stored head's checkpoint, a refresh returns the fold of every
entry ever appended, and new sequence numbers are above the head's checkpoint. -/
theorem faithful_of_newestKept {es : List LedgerEvent} {w : LedgerRun}
    (hrun : Trace.run (step bytes) initial es = some w)
    (hkept : Trace.Along (step bytes) NewestKept initial es) : w.Faithful bytes := by
  have hres : Resumable w.history w.store :=
    Trace.run_invariant_along (step_resumable bytes) Resumable.empty hkept hrun
  exact faithful_of_resumable bytes hres

/-- Sizes within the bounds, as those of all values in the runs below are. -/
def smallBytes : JsonBytes := ⟨fun _ => 128, fun _ => 1024⟩

/-- A goal, a completed turn, and a compaction that deletes the turn's row. -/
def compactedOnce : List LedgerEvent :=
  [.append (.goalSet "build" (some 1) none) 10, .append (.turnCompleted 1) 11, .compact]

/-- The session after `compactedOnce`, one more append and a refresh. -/
def blockedRun : LedgerRun where
  store :=
    { entries := [⟨1, .goalSet "build" (some 1) none, 10⟩, ⟨3, .blockerOpened "disk", 12⟩]
      head := some ⟨{ goal := "build", goalTaskId := some 1, openBlockers := ["disk"],
                      checkpointSeq := 3 }, 3⟩ }
  history := [⟨1, .goalSet "build" (some 1) none, 10⟩, ⟨2, .turnCompleted 1, 11⟩,
    ⟨3, .blockerOpened "disk", 12⟩]

theorem faithful_after_compaction :
    Trace.run (step smallBytes) initial
        (compactedOnce ++ [.append (.blockerOpened "disk") 12, .ensureHead]) = some blockedRun ∧
      blockedRun.Faithful smallBytes := by
  have hrun : Trace.run (step smallBytes) initial
      (compactedOnce ++ [.append (.blockerOpened "disk") 12, .ensureHead]) = some blockedRun := rfl
  exact ⟨hrun, faithful_of_newestKept smallBytes hrun (by decide)⟩

/-- The session after `compactedOnce`, a second compaction and one more append.  The second
compaction wrote the goal's number into the checkpoint column, next to a head that covers `2`. -/
def hiddenGoalRun : LedgerRun where
  store :=
    { entries := [⟨1, .goalSet "build" (some 1) none, 10⟩, ⟨2, .goalSet "release" (some 2) none, 12⟩]
      head := some ⟨{ goal := "build", goalTaskId := some 1, checkpointSeq := 2 }, 1⟩ }
  history := [⟨1, .goalSet "build" (some 1) none, 10⟩, ⟨2, .turnCompleted 1, 11⟩,
    ⟨2, .goalSet "release" (some 2) none, 12⟩]

/-- After two compactions in a row the next entry is appended under a number the head already
covers, and no refresh ever folds it. -/
theorem second_compaction_hides_next_goal :
    Trace.run (step smallBytes) initial
        (compactedOnce ++ [.compact, .append (.goalSet "release" (some 2) none) 12]) =
          some hiddenGoalRun ∧
      ¬ hiddenGoalRun.Faithful smallBytes := by
  refine ⟨rfl, fun h => ?_⟩
  have hhead := h.2.1 { goal := "build", goalTaskId := some 1, checkpointSeq := 2 } rfl
  exact absurd (congrArg LedgerHead.goalTaskId hhead) (by decide)

end LedgerRun

end TypedLedger
