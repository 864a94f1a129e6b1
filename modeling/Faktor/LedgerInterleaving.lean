/-
# Several handles on one typed ledger

Any number of handles of a session append, refresh the head and compact at the same time.  A store
call is atomic; the sequences of calls that make up a refresh (read the greatest number, read the
head, read the entries above its checkpoint, write the folded head) and a compaction (scan the
entries page by page, refresh, catch up, commit) are not, and no lock is held across them.

* `LedgerPhase`, `Handles.step` : where a call in flight stands, and one store call of it;
* `Handles.Orderly` : the condition on a compaction's commit.  A head in flight at another handle
  must already cover what the commit deletes, and the head the commit writes must not be ahead of
  both the entries that survive and the number it puts into the checkpoint column;
* `Handles.faithful_of_orderly` : under it no interleaving loses an entry from the projection.
-/
import Faktor.LedgerHead

namespace TypedLedger

variable (bytes : JsonBytes)

/-! ## Calls in flight -/

/-- The next store call of a call in flight.  A refresh made by a compaction carries the entries
the compaction scanned. -/
inductive LedgerPhase
  | scan (scanned : List LedgerEntry)
  | readMax (task : Option (List LedgerEntry))
  | readHead (task : Option (List LedgerEntry)) (maxSeq : ℕ)
  | readEntries (task : Option (List LedgerEntry)) (base : LedgerHead) (cursor : Option ℕ)
  | putHead (task : Option (List LedgerEntry)) (head : LedgerHead)
  | catchUp (scanned : List LedgerEntry) (head : LedgerHead)
  | commit (scanned : List LedgerEntry) (head : LedgerHead)
  deriving DecidableEq, Repr

/-- The sequence number of the last scanned entry. -/
def lastSeq (scanned : List LedgerEntry) : ℕ := ((scanned.getLast?).map (·.seq)).getD 0

/-- The page size of `all_entries_decoded`. -/
def scanPage : ℕ := 1000

/-- The size check before the commit of a compaction. -/
def beforeCommit (scanned : List LedgerEntry) (head : LedgerHead) : Option LedgerPhase :=
  match headToValue bytes head with
  | .ok value => some (.commit scanned value)
  | .error _ => none

/-- Where a refresh that returns `head` leaves the call: a compaction goes on. -/
def afterRefresh (task : Option (List LedgerEntry)) (head : LedgerHead) : Option LedgerPhase :=
  match task with
  | none => none
  | some scanned =>
    if head.checkpointSeq < lastSeq scanned then some (.catchUp scanned head)
    else beforeCommit bytes scanned head

/-- One store call: the tables and the phase after it, `none` when the call has returned. -/
def LedgerPhase.exec (s : LedgerStore) : LedgerPhase → LedgerStore × Option LedgerPhase
  | .scan scanned =>
    let page := (s.ledgerEntries ((scanned.getLast?).map (·.seq))).take scanPage
    if page = [] then (s, if scanned = [] then none else some (.readMax (some scanned)))
    else (s, some (.scan (scanned ++ page)))
  | .readMax task => (s, some (.readHead task s.ledgerMaxSeq))
  | .readHead task maxSeq =>
    if stale s.cursor maxSeq then (s, some (.readEntries task s.baseHead s.cursor))
    else (s, afterRefresh bytes task s.baseHead)
  | .readEntries task base cursor =>
    match headToValue bytes (foldEntries base (s.ledgerEntries cursor)) with
    | .ok value => (s, some (.putHead task value))
    | .error _ => (s, none)
  | .putHead task head => (s.putLedgerHead head head.checkpointSeq, afterRefresh bytes task head)
  | .catchUp scanned head =>
    (s, beforeCommit bytes scanned
      (foldEntries head (s.ledgerEntries (some head.checkpointSeq))))
  | .commit scanned head =>
    (s.compactLedger (lastSeq scanned + 1) (pinnedSeqs scanned head) head (lastSeq scanned), none)

/-! ## The system -/

/-- What can happen next: an append, a new call, one store call of the `i`-th call, or a crash of
the process, which drops every call in flight. -/
inductive HandlesEvent
  | append (payload : LedgerPayload) (now : ℤ)
  | startRefresh
  | startCompact
  | step (i : ℕ)
  | crash
  deriving DecidableEq, Repr

/-- The ledger with every entry ever appended, and the calls in flight. -/
structure Handles where
  ledger : LedgerRun
  calls : List (Option LedgerPhase)
  deriving DecidableEq, Repr

namespace Handles

/-- A new session. -/
def initial : Handles := ⟨LedgerRun.initial, []⟩

/-- One event. -/
def step (w : Handles) : HandlesEvent → Option Handles
  | .append payload now =>
    (w.ledger.step bytes (.append payload now)).map fun ledger => { w with ledger }
  | .startRefresh => some { w with calls := w.calls ++ [some (.readMax none)] }
  | .startCompact => some { w with calls := w.calls ++ [some (.scan [])] }
  | .step i =>
    match w.calls[i]? with
    | some (some phase) =>
      let (store, phase') := phase.exec bytes w.ledger.store
      some ⟨{ w.ledger with store }, w.calls.set i phase'⟩
    | _ => none
  | .crash => some { w with calls := [] }

/-- Every call has returned. -/
def Quiet (w : Handles) : Prop := ∀ c ∈ w.calls, c = none

end Handles

/-- The head a call in flight has read or folded, and will write or build on. -/
def LedgerPhase.heldHead : LedgerPhase → Option LedgerHead
  | .readEntries _ base _ => some base
  | .putHead _ head => some head
  | .catchUp _ head => some head
  | .commit _ head => some head
  | .scan _ | .readMax _ | .readHead _ _ => none

/-- The entries a commit deletes. -/
def deletedBy (s : LedgerStore) (scanned : List LedgerEntry) (head : LedgerHead) :
    List LedgerEntry :=
  s.entries.filter fun e =>
    e.seq < lastSeq scanned + 1 && !(pinnedSeqs scanned head).contains e.seq

/-- **The condition on a commit**: every head another call holds covers what is deleted, and the
head written is not ahead of both the surviving entries and the column. -/
def CommitOrderly (s : LedgerStore) (others : List (Option LedgerPhase))
    (scanned : List LedgerEntry) (head : LedgerHead) : Prop :=
  (∀ held ∈ others.filterMap (·.bind LedgerPhase.heldHead), ∀ e ∈ deletedBy s scanned head,
    e.seq ≤ held.checkpointSeq) ∧
  head.checkpointSeq ≤ max s.ledgerMaxSeq (lastSeq scanned)

instance (s : LedgerStore) (others : List (Option LedgerPhase)) (scanned : List LedgerEntry)
    (head : LedgerHead) : Decidable (CommitOrderly s others scanned head) :=
  inferInstanceAs (Decidable (_ ∧ _))

namespace Handles

/-- The compaction an event commits: the other calls, the scanned entries and the head. -/
def committing (w : Handles) :
    HandlesEvent → Option (List (Option LedgerPhase) × List LedgerEntry × LedgerHead)
  | .step i =>
    match w.calls[i]? with
    | some (some (.commit scanned head)) => some (w.calls.eraseIdx i, scanned, head)
    | _ => none
  | _ => none

/-- An event that commits a compaction does so in order. -/
def Orderly (w : Handles) (e : HandlesEvent) : Prop :=
  ∀ c ∈ w.committing e, CommitOrderly w.ledger.store c.1 c.2.1 c.2.2

instance (w : Handles) (e : HandlesEvent) : Decidable (Orderly w e) :=
  inferInstanceAs (Decidable (∀ c ∈ w.committing e, _))

end Handles

/-! ## What a call in flight may rely on -/

section Sound

variable {history : History} {s : LedgerStore}

/-- The entries a compaction scanned were appended. -/
def ScannedOf (history : History) (scanned : List LedgerEntry) : Prop :=
  ∀ e ∈ scanned, e ∈ history

/-- The head a call in flight holds covers the history, and its other data are in step with it. -/
def LedgerPhase.Sound (history : History) (s : LedgerStore) : LedgerPhase → Prop
  | .scan scanned => ScannedOf history scanned
  | .readMax task => ∀ scanned ∈ task, ScannedOf history scanned
  | .readHead task _ => ∀ scanned ∈ task, ScannedOf history scanned
  | .readEntries task base cursor =>
    (∀ scanned ∈ task, ScannedOf history scanned) ∧
      ledgerFold.Covers history s.entries base ∧ Resumable.AtCheckpoint cursor base
  | .putHead task head =>
    (∀ scanned ∈ task, ScannedOf history scanned) ∧ ledgerFold.Covers history s.entries head
  | .catchUp scanned head =>
    ScannedOf history scanned ∧ ledgerFold.Covers history s.entries head
  | .commit scanned head =>
    ScannedOf history scanned ∧ ledgerFold.Covers history s.entries head ∧
      lastSeq scanned ≤ head.checkpointSeq

variable {scanned : List LedgerEntry}

theorem lastSeq_le_top (h : ScannedOf history scanned) :
    lastSeq scanned ≤ ledgerFold.top history := by
  unfold lastSeq
  cases hlast : scanned.getLast? with
  | none => exact Nat.zero_le _
  | some e => exact ledgerFold.le_top (h e (List.mem_of_getLast? hlast))

variable {phase : LedgerPhase}

/-- A phase stays sound when the history grows and what its head does not cover is still
stored. -/
theorem LedgerPhase.Sound.mono {history' : History} {s' : LedgerStore}
    (h : phase.Sound history s) (hsub : ∀ e ∈ history, e ∈ history')
    (hheld : ∀ held ∈ phase.heldHead, ledgerFold.Covers history s.entries held →
      ledgerFold.Covers history' s'.entries held) : phase.Sound history' s' := by
  have hscan : ∀ scanned, ScannedOf history scanned → ScannedOf history' scanned :=
    fun scanned hs e he => hsub e (hs e he)
  cases phase with
  | scan scanned => exact hscan _ h
  | readMax task => exact fun x hx => hscan x (h x hx)
  | readHead task maxSeq => exact fun x hx => hscan x (h x hx)
  | readEntries task base cursor =>
    exact ⟨fun x hx => hscan x (h.1 x hx), hheld _ rfl h.2.1, h.2.2⟩
  | putHead task head => exact ⟨fun x hx => hscan x (h.1 x hx), hheld _ rfl h.2⟩
  | catchUp scanned head => exact ⟨hscan _ h.1, hheld _ rfl h.2⟩
  | commit scanned head => exact ⟨hscan _ h.1, hheld _ rfl h.2.1, h.2.2⟩

variable {head : LedgerHead}

/-- A compaction that passes the size check commits a covering head that covers its scan. -/
theorem beforeCommit_sound
    (hscan : ScannedOf history scanned) (hc : ledgerFold.Covers history s.entries head)
    (hlast : lastSeq scanned ≤ head.checkpointSeq)
    (h : beforeCommit bytes scanned head = some phase) : phase.Sound history s := by
  unfold beforeCommit at h
  split at h
  · rename_i value hv
    obtain ⟨rfl, -⟩ := (headToValue_eq_ok bytes).mp hv
    obtain rfl := Option.some.inj h
    exact ⟨hscan, hc, hlast⟩
  · cases h

/-- What follows a refresh that returns a covering head. -/
theorem afterRefresh_sound {task : Option (List LedgerEntry)} (hscan : ∀ scanned ∈ task, ScannedOf history scanned)
    (hc : ledgerFold.Covers history s.entries head)
    (h : afterRefresh bytes task head = some phase) : phase.Sound history s := by
  unfold afterRefresh at h
  split at h
  · cases h
  · rename_i scanned
    have hscan' := hscan scanned rfl
    split at h
    · obtain rfl := Option.some.inj h
      exact ⟨hscan', hc⟩
    · exact beforeCommit_sound bytes hscan' hc (by omega) h

/-- **One store call** of a sound call: the ledger stays resumable and the call sound, a commit
when the head it writes is not ahead of the surviving entries and its column. -/
theorem exec_sound (h : Resumable history s) (hp : phase.Sound history s)
    (hcommit : ∀ scanned head, phase = .commit scanned head →
      head.checkpointSeq ≤ max s.ledgerMaxSeq (lastSeq scanned)) :
    Resumable history (phase.exec bytes s).1 ∧
      ∀ phase' ∈ (phase.exec bytes s).2, phase'.Sound history (phase.exec bytes s).1 := by
  cases phase with
  | scan scanned =>
    simp only [LedgerPhase.exec]
    split
    · refine ⟨h, fun phase' hphase' => ?_⟩
      split at hphase'
      · cases hphase'
      · obtain rfl := Option.some.inj hphase'
        intro x hx
        obtain rfl := Option.some.inj hx
        exact hp
    · refine ⟨h, fun phase' hphase' => ?_⟩
      obtain rfl := Option.some.inj hphase'
      intro e he
      rcases List.mem_append.mp he with he | he
      · exact hp e he
      · have hmem : e ∈ s.entries := by
          have := List.mem_of_mem_take he
          unfold LedgerStore.ledgerEntries at this
          split at this
          · exact List.mem_of_mem_filter this
          · exact this
        exact h.sublist.subset hmem
  | readMax task =>
    refine ⟨h, fun phase' hphase' => ?_⟩
    obtain rfl := Option.some.inj hphase'
    exact hp
  | readHead task maxSeq =>
    simp only [LedgerPhase.exec]
    split
    · refine ⟨h, fun phase' hphase' => ?_⟩
      obtain rfl := Option.some.inj hphase'
      exact ⟨hp, h.covers, cursor_eq_some_or_none s⟩
    · exact ⟨h, fun phase' hphase' => afterRefresh_sound bytes hp h.covers hphase'⟩
  | readEntries task base cursor =>
    obtain ⟨hscan, hc, hcursor⟩ := hp
    simp only [LedgerPhase.exec]
    rw [h.foldEntries_of_covers hcursor hc]
    split
    · rename_i value hv
      obtain ⟨rfl, -⟩ := (headToValue_eq_ok bytes).mp hv
      refine ⟨h, fun phase' hphase' => ?_⟩
      obtain rfl := Option.some.inj hphase'
      exact ⟨hscan, h.covers_fold⟩
    · exact ⟨h, by simp⟩
  | putHead task head =>
    exact ⟨h.putLedgerHead hp.2, fun phase' hphase' => afterRefresh_sound bytes hp.1 hp.2 hphase'⟩
  | catchUp scanned head =>
    obtain ⟨hscan, hc⟩ := hp
    refine ⟨h, fun phase' hphase' => ?_⟩
    simp only [LedgerPhase.exec] at hphase'
    rw [h.foldEntries_of_covers (.inl rfl) hc] at hphase'
    have hcp : (foldEntries {} history).checkpointSeq = ledgerFold.top history :=
      CheckpointFold.checkpoint_project h.increasing
    exact beforeCommit_sound bytes hscan h.covers_fold (hcp ▸ lastSeq_le_top hscan) hphase'
  | commit scanned head =>
    obtain ⟨hscan, hc, hlast⟩ := hp
    exact ⟨h.compactLedger hc hlast (hcommit scanned head rfl), by simp [LedgerPhase.exec]⟩

end Sound

/-- What one store call leaves of the heads the other calls hold. -/
theorem exec_covers {history : History} {s : LedgerStore} {phase : LedgerPhase} {held : LedgerHead}
    (hc : ledgerFold.Covers history s.entries held)
    (hcommit : ∀ scanned head, phase = .commit scanned head →
      ∀ e ∈ deletedBy s scanned head, e.seq ≤ held.checkpointSeq) :
    ledgerFold.Covers history (phase.exec bytes s).1.entries held := by
  have hsame : (phase.exec bytes s).1.entries = s.entries →
      ledgerFold.Covers history (phase.exec bytes s).1.entries held := fun h => by rwa [h]
  cases phase with
  | scan scanned => exact hsame (by simp only [LedgerPhase.exec]; split <;> rfl)
  | readMax task => exact hsame rfl
  | readHead task maxSeq => exact hsame (by simp only [LedgerPhase.exec]; split <;> rfl)
  | readEntries task base cursor => exact hsame (by simp only [LedgerPhase.exec]; split <;> rfl)
  | putHead task head => exact hsame rfl
  | catchUp scanned head => exact hsame rfl
  | commit scanned head =>
    refine hc.filter fun e he hp => hcommit scanned head rfl e ?_
    exact List.mem_filter.mpr ⟨he, by simpa using hp⟩

namespace Handles

/-- The ledger is resumable and every call in flight sound. -/
structure Inv (w : Handles) : Prop where
  resumable : Resumable w.ledger.history w.ledger.store
  sound : ∀ phase, some phase ∈ w.calls → phase.Sound w.ledger.history w.ledger.store

theorem initial_inv : initial.Inv := ⟨Resumable.empty, fun _ h => by cases h⟩

/-- After an append every call in flight is still sound. -/
theorem append_inv {w : Handles} (h : w.Inv) {payload : LedgerPayload} {now : ℤ}
    {ledger : LedgerRun} (hs : w.ledger.step bytes (.append payload now) = some ledger) :
    Inv { w with ledger } := by
  have hres := LedgerRun.step_resumable bytes w.ledger (.append payload now) ledger h.resumable
    trivial hs
  refine ⟨hres, fun phase hphase => ?_⟩
  simp only [LedgerRun.step] at hs
  split at hs
  · rename_i seq store hok
    obtain ⟨rfl, rfl⟩ := appendEntry_eq_ok bytes hok
    obtain rfl := Option.some.inj hs
    have htop : ledgerFold.top w.ledger.history <
        max w.ledger.store.ledgerMaxSeq w.ledger.store.checkpointColumn + 1 :=
      Nat.lt_succ_of_le h.resumable.highWater
    exact (h.sound phase hphase).mono (fun e he => List.mem_append_left _ he)
      fun held _ hc => hc.concat h.resumable.increasing htop
  · obtain rfl := Option.some.inj hs
    exact h.sound phase hphase

/-- A call of the list after one of them has moved: the one that moved, or one of the others. -/
theorem mem_set {calls : List (Option LedgerPhase)} {i : ℕ} {c c' : Option LedgerPhase}
    (h : c ∈ calls.set i c') : c = c' ∨ c ∈ calls.eraseIdx i := by
  obtain ⟨j, hj⟩ := List.mem_iff_getElem?.mp h
  rw [List.getElem?_set] at hj
  by_cases hij : i = j
  · rw [if_pos hij] at hj
    split at hj
    · exact .inl (Option.some.inj hj).symm
    · cases hj
  · rw [if_neg hij] at hj
    exact .inr (List.mem_eraseIdx_iff_getElem?.mpr ⟨j, Ne.symm hij, hj⟩)

/-- **Every event keeps the invariant**, a commit when it is orderly. -/
theorem step_inv (w : Handles) (e : HandlesEvent) (w' : Handles) (h : w.Inv)
    (horderly : w.Orderly e) (hs : step bytes w e = some w') : w'.Inv := by
  cases e with
  | append payload now =>
    simp only [step, Option.map_eq_some_iff] at hs
    obtain ⟨ledger, hledger, rfl⟩ := hs
    exact append_inv bytes h hledger
  | startRefresh =>
    obtain rfl := Option.some.inj hs
    refine ⟨h.resumable, fun phase hphase => ?_⟩
    rcases List.mem_append.mp hphase with hp | hp
    · exact h.sound phase hp
    · obtain rfl := Option.some.inj (List.mem_singleton.mp hp)
      exact fun _ hx => by cases hx
  | startCompact =>
    obtain rfl := Option.some.inj hs
    refine ⟨h.resumable, fun phase hphase => ?_⟩
    rcases List.mem_append.mp hphase with hp | hp
    · exact h.sound phase hp
    · obtain rfl := Option.some.inj (List.mem_singleton.mp hp)
      exact fun _ hx => by cases hx
  | step i =>
    simp only [step] at hs
    split at hs
    · rename_i phase hi
      obtain rfl := Option.some.inj hs
      have hmem : some phase ∈ w.calls := List.mem_of_getElem? hi
      -- what the condition says when this call commits
      have hord : ∀ scanned head, phase = .commit scanned head →
          CommitOrderly w.ledger.store (w.calls.eraseIdx i) scanned head := by
        rintro scanned head rfl
        exact horderly (w.calls.eraseIdx i, scanned, head) (by simp [committing, hi])
      have hexec := exec_sound bytes h.resumable (h.sound phase hmem)
        fun scanned head hph => (hord scanned head hph).2
      refine ⟨hexec.1, fun phase' hphase' => ?_⟩
      rcases mem_set hphase' with hp | hp
      · exact hexec.2 phase' hp.symm
      · have hother : some phase' ∈ w.calls := List.mem_of_mem_eraseIdx hp
        refine (h.sound phase' hother).mono (fun _ he => he) fun held hheld hc => ?_
        refine exec_covers bytes hc fun scanned head hph => ?_
        refine (hord scanned head hph).1 held (List.mem_filterMap.mpr ⟨some phase', hp, ?_⟩)
        simpa using hheld
    · cases hs
  | crash =>
    obtain rfl := Option.some.inj hs
    exact ⟨h.resumable, fun _ hp => by cases hp⟩

/-- **No interleaving of orderly commits loses an entry.**  In every state reached, whether the
handles are quiet or not, a refresh returns the fold of every entry ever appended, and these are in
the order of their numbers. -/
theorem faithful_of_orderly {es : List HandlesEvent} {w : Handles}
    (hrun : Trace.run (step bytes) initial es = some w)
    (horderly : Trace.Along (step bytes) Orderly initial es) :
    w.ledger.Faithful bytes ∧ w.ledger.history.Pairwise (·.seq < ·.seq) := by
  have hinv : w.Inv := Trace.run_invariant_along (step_inv bytes) initial_inv horderly hrun
  exact ⟨LedgerRun.faithful_of_resumable bytes hinv.resumable, hinv.resumable.increasing⟩

/-- A refresh has folded the goal and not written its head yet when another handle bumps the
epoch and starts to compact; the compaction is about to commit. -/
def racing : List HandlesEvent :=
  [.append (.goalSet "build" (some 1) none) 10, .startRefresh, .step 0, .step 0, .step 0,
    .append (.epochBumped none 7) 11, .startCompact, .step 1, .step 1, .step 1, .step 1, .step 1,
    .step 1]

/-- The entries appended in `racing`. -/
def racingHistory : History :=
  [⟨1, .goalSet "build" (some 1) none, 10⟩, ⟨2, .epochBumped none 7, 11⟩]

/-- The session when the refresh writes before the commit. -/
def orderedHandles : Handles where
  ledger :=
    { store :=
        { entries := [⟨1, .goalSet "build" (some 1) none, 10⟩]
          head := some ⟨{ goal := "build", goalTaskId := some 1, epoch := some 7,
                          checkpointSeq := 2 }, 2⟩ }
      history := racingHistory }
  calls := [none, none]

theorem faithful_when_refresh_writes_first :
    Trace.run (step LedgerRun.smallBytes) initial (racing ++ [.step 0, .step 1]) =
        some orderedHandles ∧
      orderedHandles.ledger.Faithful LedgerRun.smallBytes ∧
      orderedHandles.ledger.history.Pairwise (·.seq < ·.seq) := by
  have hrun : Trace.run (step LedgerRun.smallBytes) initial (racing ++ [.step 0, .step 1]) =
      some orderedHandles := rfl
  exact ⟨hrun, faithful_of_orderly LedgerRun.smallBytes hrun (by decide)⟩

/-- The session when the commit comes first: the refresh then puts its older head back, and the
epoch's entry is gone. -/
def overtakenHandles : Handles where
  ledger :=
    { store :=
        { entries := [⟨1, .goalSet "build" (some 1) none, 10⟩]
          head := some ⟨{ goal := "build", goalTaskId := some 1, checkpointSeq := 1 }, 1⟩ }
      history := racingHistory }
  calls := [none, none]

/-- A compaction that commits while another handle holds an older head loses an entry. -/
theorem overtaken_refresh_loses_epoch :
    Trace.run (step LedgerRun.smallBytes) initial (racing ++ [.step 1, .step 0]) =
        some overtakenHandles ∧
      overtakenHandles.Quiet ∧ ¬ overtakenHandles.ledger.Faithful LedgerRun.smallBytes := by
  refine ⟨rfl, by simp [Quiet, overtakenHandles], fun h => ?_⟩
  have hhead := h.2.1 { goal := "build", goalTaskId := some 1, checkpointSeq := 1 } rfl
  exact absurd (congrArg LedgerHead.epoch hhead) (by decide)

end Handles

end TypedLedger
