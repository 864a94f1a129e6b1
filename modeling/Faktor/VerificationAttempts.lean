/-
# Verification attempts are isolated

What a call on the verification tables can do to an attempt, a job and a result (`exec_effect`), and
what follows for every run: one open background job for each check, closed jobs that stay closed,
and attempts that a newer one freezes.

* `attempts_isolated` : all of this, for runs in which the attempt ids of a task stay on one side of
  `2^63`;
* `older_attempt_claimed` : across that bound the newest attempt is not the one with the largest id.
-/
import Faktor.VerificationJobs

namespace Verification

open Sqlite (bind_eq_ok refuseWhen refuseWhen_eq_ok)

/-! ## What one call does -/

/-- What a call may do to a row that is there: only an open job changes, and it stays the same job,
background or inline. -/
def Advance (j j' : JobRow) : Prop :=
  j' = j ∨ (j.state.isOpen = true ∧ j'.key = j.key ∧ j'.inlineStatus = j.inlineStatus)

/-- What one call can do to the store: nothing, add an attempt none of whose background checks is
open elsewhere, move open jobs, or resolve one running job with its result. -/
inductive Effect (s : Store) (c : Call) : Store → Prop
  | same : Effect s c s
  | begun {attempt : VerificationAttemptRow} {changed : List String} {checks : List CheckRow}
      {s' : Store} {rows : List JobRow} (hc : c = .begin attempt changed checks)
      (hattempt : s.attempts.get? attempt.key = none)
      (hattempts : s'.attempts.rows = s.attempts.rows ++ [attempt])
      (hjobs : s'.jobs.rows = s.jobs.rows ++ rows) (hown : ∀ j ∈ rows, j.attempt = attempt.key)
      (hclosed : ∀ j ∈ s.jobs.rows, ∀ j' ∈ rows, openBackground j = true →
        j'.inlineStatus.isNone = true → j.sessionId = j'.sessionId → j.taskId = j'.taskId →
        j.checkId = j'.checkId → j.attemptOpId = j'.attemptOpId)
      (hresults : s'.results = s.results) : Effect s c s'
  | moved {s' : Store} {g : JobRow → JobRow} (hg : ∀ j, Advance j (g j))
      (hattempts : s'.attempts = s.attempts) (hjobs : s'.jobs.rows = s.jobs.rows.map g)
      (hresults : s'.results = s.results) : Effect s c s'
  | resolved {s' : Store} {g : JobRow → JobRow} {j : JobRow} {r : ResultRow}
      (hg : ∀ j, Advance j (g j)) (hj : j ∈ s.jobs.rows) (hopen : openBackground j = true)
      (hclosed : (g j).state.isOpen = false) (hr : r.key = j.key)
      (hattempts : s'.attempts = s.attempts) (hjobs : s'.jobs.rows = s.jobs.rows.map g)
      (hresults : s.results.insert? r = some s'.results) : Effect s c s'

variable {j j' : JobRow}

theorem Advance.key_eq (h : Advance j j') : j'.key = j.key := by
  rcases h with rfl | ⟨-, hkey, -⟩
  · rfl
  · exact hkey

theorem Advance.inlineStatus_eq (h : Advance j j') :
    j'.inlineStatus = j.inlineStatus := by
  rcases h with rfl | ⟨-, -, hinline⟩
  · rfl
  · exact hinline

theorem Advance.trans {j'' : JobRow} (h : Advance j j') (h' : Advance j' j'') :
    Advance j j'' := by
  rcases h with rfl | ⟨hopen, hkey, hinline⟩
  · exact h'
  · exact .inr ⟨hopen, h'.key_eq.trans hkey, h'.inlineStatus_eq.trans hinline⟩

variable {p : JobRow → Bool} {f : JobRow → JobRow}

/-- An `UPDATE` whose condition selects open jobs only. -/
theorem Advance.of_updateWhere (hp : ∀ j, p j = true → j.state.isOpen = true)
    (hkey : ∀ j, (f j).key = j.key) (hinline : ∀ j, (f j).inlineStatus = j.inlineStatus) (j : JobRow) :
    Advance j (if p j then f j else j) := by
  split
  · next h => exact .inr ⟨hp j h, hkey j, hinline j⟩
  · exact .inl rfl

variable {s : Store} {c : Call}

theorem Effect.of_updateWhere {hf : ∀ j, (f j).key = j.key} (hp : ∀ j, p j = true → j.state.isOpen = true)
    (hinline : ∀ j, (f j).inlineStatus = j.inlineStatus) :
    Effect s c { s with jobs := s.jobs.updateWhere p f hf } :=
  .moved (Advance.of_updateWhere hp hf hinline) rfl rfl rfl

theorem Effect.of_insertResult {hf : ∀ j, (f j).key = j.key} {r : ResultRow}
    {results : KeyTable ResultRow.key} (hp : ∀ j, p j = true → j.state.isOpen = true)
    (hinline : ∀ j, (f j).inlineStatus = j.inlineStatus) (hj : j ∈ s.jobs.rows) (hpj : p j = true)
    (hopen : openBackground j = true) (hclosed : (f j).state.isOpen = false) (hr : r.key = j.key)
    (hinsert : s.results.insert? r = some results) :
    Effect s c { s with results := results, jobs := s.jobs.updateWhere p f hf } := by
  refine .resolved (Advance.of_updateWhere hp hf hinline) hj hopen ?_ hr rfl rfl hinsert
  rw [if_pos hpj]
  exact hclosed

variable {key : JobKey}

/-- The rows a claim or a resolve rewrites. -/
theorem isOpen_of_state {state : JobState} (hstate : state.isOpen = true) (j : JobRow)
    (h : (decide (j.key = key) && decide (j.state = state)) = true) : j.state.isOpen = true := by
  rw [Bool.and_eq_true, decide_eq_true_eq, decide_eq_true_eq] at h
  rw [h.2]
  exact hstate

theorem openBackground_iff :
    openBackground j = true ↔ j.inlineStatus = none ∧ j.state.isOpen = true := by
  rw [openBackground, Bool.and_eq_true, Option.isNone_iff_eq_none]

theorem Effect.of_committed {α : Type} {result : Except StoreError (α × Store)}
    (h : ∀ a s', result = .ok (a, s') → Effect s c s') : Effect s c (committed s result) := by
  match result, h with
  | .error e, _ => exact .same
  | .ok (a, s'), h => exact h a s' rfl

/-! ### Beginning an attempt -/

theorem insertRow_eq_ok {α κ : Type} [DecidableEq κ] {key : α → κ} {table : String}
    {t t' : KeyTable key} {a : α} :
    insertRow table t a = .ok t' ↔ t.insert? a = some t' := by
  unfold insertRow
  cases t.insert? a <;> simp

variable {checks : List CheckRow}

/-- The insert loop appends one row for each check. -/
theorem insertChecks_eq_ok {jobs jobs' : KeyTable (VerificationJobRow.key (σ := JobState))}
    (h : insertChecks jobs checks = .ok jobs') :
    ∃ rows, jobs'.rows = jobs.rows ++ rows ∧
      ∀ row ∈ rows, ∃ check ∈ checks, jobRow check = .ok row := by
  induction checks generalizing jobs with
  | nil =>
    obtain rfl := Except.ok.inj h
    exact ⟨[], by simp, by simp⟩
  | cons check rest ih =>
    simp only [insertChecks, bind_eq_ok] at h
    obtain ⟨row, hrow, jobs₁, hinsert, hrest⟩ := h
    obtain ⟨-, hrows₁⟩ := KeyTable.insert?_eq_some.mp (insertRow_eq_ok.mp hinsert)
    obtain ⟨rows, hrows, hall⟩ := ih hrest
    refine ⟨row :: rows, by rw [hrows, hrows₁]; simp, ?_⟩
    intro r hr
    rcases List.mem_cons.mp hr with rfl | hr
    · exact ⟨check, List.mem_cons_self, hrow⟩
    · obtain ⟨c, hc, hcr⟩ := hall r hr
      exact ⟨c, List.mem_cons_of_mem _ hc, hcr⟩

/-- A row is its check, with the states its texts name. -/
theorem jobRow_eq_ok {check : CheckRow} {row : JobRow} (h : jobRow check = .ok row) :
    row.key = check.key ∧ check.inlineStatus.mapM JobState.ofText = some row.inlineStatus := by
  unfold jobRow at h
  split at h
  · next state inline hstate hinline =>
    obtain rfl := Except.ok.inj h
    exact ⟨rfl, hinline⟩
  · cases h

variable {attempt : VerificationAttemptRow} {u : Unit}

/-- Validated checks belong to their attempt. -/
theorem validateChecks_eq_ok {parseArgs : String → Except String (List String)} {checkSeen : List String}
    {ordinalSeen : List ℕ} (h : validateChecks parseArgs attempt checkSeen ordinalSeen checks = .ok u) :
    ∀ check ∈ checks, check.attempt = attempt.key := by
  induction checks generalizing checkSeen ordinalSeen with
  | nil => simp
  | cons check rest ih =>
    simp only [validateChecks, bind_eq_ok] at h
    obtain ⟨⟨⟩, hcheck, hrest⟩ := h
    simp only [validateCheck, bind_eq_ok, refuseWhen_eq_ok, not_not] at hcheck
    obtain ⟨-, hown, -⟩ := hcheck
    intro c hc
    rcases List.mem_cons.mp hc with heq | hc
    · rw [heq]
      exact hown
    · exact ih hrest c hc

theorem forM_eq_ok {ε α : Type} {f : α → Except ε Unit} {l : List α} (h : l.forM f = .ok u) :
    ∀ a ∈ l, f a = .ok () := by
  induction l with
  | nil => simp
  | cons b rest ih =>
    obtain ⟨⟨⟩, hb, hrest⟩ := bind_eq_ok.mp h
    intro a ha
    rcases List.mem_cons.mp ha with rfl | ha
    · exact hb
    · exact ih hrest a ha

variable {s' : Store}

/-- A begin writes nothing or adds the attempt. -/
theorem verificationAttemptBegin_effect {parseArgs : String → Except String (List String)}
    {changed : List String} {fresh : Bool}
    (h : verificationAttemptBegin parseArgs s attempt changed checks = .ok (fresh, s')) :
    Effect s (.begin attempt changed checks) s' ∧ (fresh = true → attempt ∈ s'.attempts.rows) := by
  simp only [verificationAttemptBegin, bind_eq_ok] at h
  obtain ⟨⟨⟩, hvalid, h⟩ := h
  simp only [validateVerificationAttempt, bind_eq_ok] at hvalid
  obtain ⟨-, -, -, -, -, -, -, -, -, -, -, -, hchecks⟩ := hvalid
  by_cases hexists : (s.attempts.get? attempt.key).isSome = true
  · rw [if_pos hexists] at h
    obtain ⟨rfl, rfl⟩ := Prod.mk.inj (Except.ok.inj h)
    exact ⟨.same, by simp⟩
  · rw [if_neg hexists] at h
    simp only [bind_eq_ok, insertRow_eq_ok] at h
    obtain ⟨⟨⟩, hconflicts, -, -, attempts, hattempts, files, -, jobs, hjobs, h⟩ := h
    obtain ⟨-, rfl⟩ := Prod.mk.inj (Except.ok.inj h)
    obtain ⟨rows, hrows, hfrom⟩ := insertChecks_eq_ok hjobs
    obtain ⟨hfree, hattemptRows⟩ := KeyTable.insert?_eq_some.mp hattempts
    have hown : ∀ j ∈ rows, j.attempt = attempt.key := by
      intro j hj
      obtain ⟨check, hcheck, hrow⟩ := hfrom j hj
      have hkey : j.key = check.key := (jobRow_eq_ok hrow).1
      rw [show j.attempt = check.attempt from congrArg Prod.fst hkey]
      exact validateChecks_eq_ok hchecks check hcheck
    refine ⟨.begun rfl hfree hattemptRows hrows hown ?_ rfl, ?_⟩
    · -- an open job of the check in another attempt would have been refused
      intro j hj j' hj' hopen hbackground hsession htask hcheckId
      obtain ⟨check, hcheck, hrow⟩ := hfrom j' hj'
      obtain ⟨hkey, hinline⟩ := jobRow_eq_ok hrow
      have hnone : check.inlineStatus = none := by
        cases hcase : check.inlineStatus with
        | none => rfl
        | some inline =>
          rw [hcase, Option.isNone_iff_eq_none.mp hbackground, Option.mapM_some] at hinline
          cases hof : JobState.ofText inline <;> simp [hof] at hinline
      have hrefused := forM_eq_ok hconflicts check hcheck
      rw [openJobConflict, hnone, if_neg (by simp), refuseWhen_eq_ok, Bool.not_eq_true,
        openElsewhere, List.any_eq_false] at hrefused
      have hown := hown j' hj'
      simp only [VerificationJobRow.attempt, VerificationAttemptRow.key, Prod.mk.injEq] at hown
      have hcid : j'.checkId = check.checkId := congrArg Prod.snd hkey
      by_contra hne
      refine hrefused j hj ?_
      simp only [Bool.and_eq_true, decide_eq_true_eq]
      refine ⟨⟨⟨⟨?_, ?_⟩, ?_⟩, hopen⟩, ?_⟩
      · rw [hsession, hown.1]
      · rw [htask, hown.2.1]
      · rw [hcheckId, hcid]
      · rw [← hown.2.2]
        exact hne
    · intro _
      show attempt ∈ attempts.rows
      rw [hattemptRows]
      simp

/-! ### Claiming, resolving and moving jobs -/

/-- A job that is read is a row of its key, in the row's state. -/
theorem verificationJobGet_eq_some {view : JobView} (h : verificationJobGet s key = .ok (some view)) :
    ∃ j ∈ s.jobs.rows, j.key = key ∧ view.job.state = j.state ∧
      view.job.inlineStatus = j.inlineStatus := by
  unfold verificationJobGet at h
  split at h
  · cases h
  · next j hj =>
    obtain ⟨hmem, hkey⟩ := KeyTable.get?_eq_some.mp hj
    cases hmap : verificationJobMap s j with
    | error e =>
      rw [hmap] at h
      cases h
    | ok v =>
      rw [hmap] at h
      obtain rfl : v = view := Option.some.inj (Except.ok.inj h)
      simp only [verificationJobMap, bind_eq_ok] at hmap
      obtain ⟨-, -, -, -, -, -, -, -, -, -, -, -, hview⟩ := hmap
      obtain rfl := Except.ok.inj hview
      exact ⟨j, hmem, hkey, rfl, rfl⟩

variable {checkId : String} {now : ℤ} {answer : JobAnswer}

/-- A claim answers with a refusal and changes nothing, or moves the queued job of an attempt that
is not superseded. -/
theorem verificationJobClaim_effect {attempt : AttemptKey} {opId : OpId}
    (h : verificationJobClaim s attempt checkId opId now = .ok (answer, s')) :
    Effect s c s' ∧ ∀ view, answer = .ok view → superseded s attempt = none := by
  simp only [verificationJobClaim, bind_eq_ok] at h
  obtain ⟨⟨⟩, -, h⟩ := h
  split at h
  · obtain ⟨rfl, rfl⟩ := Prod.mk.inj (Except.ok.inj h)
    exact ⟨.same, by simp⟩
  · next hnewest =>
    obtain ⟨got, hgot, h⟩ := bind_eq_ok.mp h
    cases got with
    | none =>
      obtain ⟨rfl, rfl⟩ := Prod.mk.inj (Except.ok.inj h)
      exact ⟨.same, by simp⟩
    | some view =>
      dsimp only at h
      split at h
      · obtain ⟨rfl, rfl⟩ := Prod.mk.inj (Except.ok.inj h)
        exact ⟨.same, by simp⟩
      · obtain ⟨rfl, rfl⟩ := Prod.mk.inj (Except.ok.inj h)
        exact ⟨.of_updateWhere (isOpen_of_state rfl) fun _ => rfl, fun _ _ => hnewest⟩

variable {resultJson : Option String}

theorem insertResult_eq_ok {results results' : KeyTable ResultRow.key}
    (h : insertResult results key resultJson now = .ok results') :
    results' = results ∨ ∃ r, r.key = key ∧ results.insert? r = some results' := by
  cases resultJson with
  | none => exact .inl (Except.ok.inj h).symm
  | some result => exact .inr ⟨_, rfl, insertRow_eq_ok.mp h⟩

/-- A resolve answers with a refusal and changes nothing, or closes the running job of an attempt
that is not superseded. -/
theorem verificationJobResolve_effect {attempt : AttemptKey} {state : String} {note : Option String}
    (h : verificationJobResolve s attempt checkId state note resultJson now = .ok (answer, s')) :
    Effect s c s' ∧ ∀ view, answer = .ok view → superseded s attempt = none := by
  simp only [verificationJobResolve] at h
  cases hterminal : (JobState.ofText state).filter fun state => !state.isOpen with
  | none =>
    rw [hterminal] at h
    cases h
  | some terminal =>
    rw [hterminal] at h
    have hclosed : terminal.isOpen = false := by
      have := (Option.filter_eq_some_iff.mp hterminal).2
      simpa using this
    simp only [bind_eq_ok] at h
    obtain ⟨⟨⟩, -, ⟨⟩, -, h⟩ := h
    split at h
    · obtain ⟨rfl, rfl⟩ := Prod.mk.inj (Except.ok.inj h)
      exact ⟨.same, by simp⟩
    · next hnewest =>
      obtain ⟨got, hgot, h⟩ := bind_eq_ok.mp h
      cases got with
      | none =>
        obtain ⟨rfl, rfl⟩ := Prod.mk.inj (Except.ok.inj h)
        exact ⟨.same, by simp⟩
      | some view =>
        obtain ⟨j, hj, hkey, hstate, hinline⟩ := verificationJobGet_eq_some hgot
        dsimp only at h
        split at h
        · obtain ⟨rfl, rfl⟩ := Prod.mk.inj (Except.ok.inj h)
          exact ⟨.same, by simp⟩
        · next hrunning =>
          split at h
          · obtain ⟨rfl, rfl⟩ := Prod.mk.inj (Except.ok.inj h)
            exact ⟨.same, by simp⟩
          · obtain ⟨results, hresults, h⟩ := bind_eq_ok.mp h
            obtain ⟨rfl, rfl⟩ := Prod.mk.inj (Except.ok.inj h)
            refine ⟨?_, fun _ _ => hnewest⟩
            obtain ⟨hbackground, hrunning⟩ := not_or.mp hrunning
            have hjrunning : j.state = .running := hstate ▸ not_not.mp hrunning
            rcases insertResult_eq_ok hresults with rfl | ⟨r, hr, hinsert⟩
            · exact .of_updateWhere (isOpen_of_state rfl) fun _ => rfl
            · refine .of_insertResult (isOpen_of_state rfl) (fun _ => rfl) hj
                (by simp [hkey, hjrunning]) ?_ hclosed (hr.trans hkey.symm) hinsert
              rw [openBackground_iff, ← hinline, hjrunning]
              exact ⟨by simpa using hbackground, rfl⟩

/-- **Every call has one of the effects.** -/
theorem exec_effect (parseArgs : String → Except String (List String)) (s : Store) (c : Call) :
    Effect s c (exec parseArgs s c) := by
  cases c with
  | begin attempt changed checks =>
    exact .of_committed fun fresh s' h => (verificationAttemptBegin_effect h).1
  | claim attempt checkId opId now =>
    exact .of_committed fun answer s' h => (verificationJobClaim_effect h).1
  | resolve attempt checkId state note resultJson now =>
    exact .of_committed fun answer s' h => (verificationJobResolve_effect h).1
  | cancel attempt reason now =>
    refine .of_committed fun n s' h => ?_
    simp only [verificationAttemptCancel, bind_eq_ok] at h
    obtain ⟨⟨⟩, -, h⟩ := h
    obtain ⟨rfl, rfl⟩ := Prod.mk.inj (Except.ok.inj h)
    refine .of_updateWhere ?_ fun _ => rfl
    intro j hj
    rw [Bool.and_eq_true, openBackground_iff] at hj
    exact hj.2.2
  | requeueRunning sessionId now =>
    -- the two updates one after the other
    have horphans : ∀ j : JobRow, (decide (j.sessionId = sessionId) && j.state.isOpen
        && (s.attempts.get? j.attempt).isNone) = true → j.state.isOpen = true := by
      intro j hj
      simp only [Bool.and_eq_true] at hj
      exact hj.1.2
    have hrunning : ∀ j : JobRow,
        (decide (j.sessionId = sessionId) && decide (j.state = .running)) = true →
          j.state.isOpen = true := by
      intro j hj
      simp only [Bool.and_eq_true, decide_eq_true_eq] at hj
      rw [hj.2]
      rfl
    have hfirst := Advance.of_updateWhere (f := fun j => { j with
      state := .unavailable, finishedMs := some now, updatedMs := now, note := some orphanedNote })
      horphans (fun _ => rfl) (fun _ => rfl)
    have hsecond := Advance.of_updateWhere (f := fun j => { j with
      state := .queued, opId := none, note := some requeuedNote, updatedMs := now,
      finishedMs := none }) hrunning (fun _ => rfl) (fun _ => rfl)
    refine .moved (fun j => (hfirst j).trans (hsecond _)) rfl ?_ rfl
    show List.map _ (List.map _ s.jobs.rows) = _
    rw [List.map_map]
    rfl

/-! ## What holds after every run -/

/-- The invariant of the tables. -/
structure Store.Wf (s : Store) : Prop where
  /-- The open background jobs of one check are of one attempt. -/
  oneOpen : ∀ j ∈ s.jobs.rows, ∀ j' ∈ s.jobs.rows, openBackground j = true →
    openBackground j' = true → j.sessionId = j'.sessionId → j.taskId = j'.taskId →
    j.checkId = j'.checkId → j.attemptOpId = j'.attemptOpId
  /-- The foreign key of the results, to a job that is closed. -/
  resultClosed : ∀ r ∈ s.results.rows, ∃ j ∈ s.jobs.rows, j.key = r.key ∧ j.state.isOpen = false

theorem Store.fresh_wf (sessions : List SessionId) : (Store.fresh sessions).Wf where
  oneOpen := by simp [Store.fresh, KeyTable.empty]
  resultClosed := by simp [Store.fresh, KeyTable.empty]

/-- A job that is open after it moved was open before, under the same names. -/
theorem Advance.openBackground (h : Advance j j') (hopen : openBackground j' = true) :
    openBackground j = true := by
  rcases h with rfl | ⟨hj, -, hinline⟩
  · exact hopen
  · rw [openBackground_iff] at hopen ⊢
    exact ⟨hinline ▸ hopen.1, hj⟩

theorem Advance.eq_of_closed (h : Advance j j') (hclosed : j.state.isOpen = false) :
    j' = j := by
  rcases h with rfl | ⟨hopen, -⟩
  · rfl
  · rw [hclosed] at hopen
    cases hopen

/-- The names in the key of a job. -/
theorem names_of_key_eq (h : j'.key = j.key) :
    j'.sessionId = j.sessionId ∧ j'.taskId = j.taskId ∧ j'.attemptOpId = j.attemptOpId ∧
      j'.checkId = j.checkId := by
  simp only [VerificationJobRow.key, VerificationJobRow.attempt, Prod.mk.injEq] at h
  exact ⟨h.1.1, h.1.2.1, h.1.2.2, h.2⟩

variable {g : JobRow → JobRow}

/-- Jobs that only advance keep their part of the invariant. -/
theorem Store.Wf.oneOpen_map (hs : s.Wf) (hg : ∀ j, Advance j (g j)) :
    ∀ j ∈ s.jobs.rows.map g, ∀ j' ∈ s.jobs.rows.map g, openBackground j = true →
      openBackground j' = true → j.sessionId = j'.sessionId → j.taskId = j'.taskId →
      j.checkId = j'.checkId → j.attemptOpId = j'.attemptOpId := by
  intro j hj j' hj' hopen hopen' hsession htask hcheck
  obtain ⟨i, hi, rfl⟩ := List.mem_map.mp hj
  obtain ⟨i', hi', rfl⟩ := List.mem_map.mp hj'
  obtain ⟨h₁, h₂, h₃, h₄⟩ := names_of_key_eq (hg i).key_eq
  obtain ⟨h₁', h₂', h₃', h₄'⟩ := names_of_key_eq (hg i').key_eq
  rw [h₃, h₃']
  refine hs.oneOpen i hi i' hi' ((hg i).openBackground hopen) ((hg i').openBackground hopen') ?_ ?_ ?_
  · rw [← h₁, ← h₁', hsession]
  · rw [← h₂, ← h₂', htask]
  · rw [← h₄, ← h₄', hcheck]

/-- A result of a closed job stays one. -/
theorem Store.Wf.resultClosed_map (hs : s.Wf) (hg : ∀ j, Advance j (g j)) :
    ∀ r ∈ s.results.rows, ∃ j ∈ s.jobs.rows.map g, j.key = r.key ∧ j.state.isOpen = false := by
  intro r hr
  obtain ⟨j, hj, hkey, hclosed⟩ := hs.resultClosed r hr
  refine ⟨j, List.mem_map.mpr ⟨j, hj, (hg j).eq_of_closed hclosed⟩, hkey, hclosed⟩

/-- **Every call keeps the invariant.** -/
theorem Effect.wf (h : Effect s c s') (hs : s.Wf) : s'.Wf := by
  cases h with
  | same => exact hs
  | @begun attempt changed checks _ rows hc hattempt hattempts hjobs hown hclosed hresults =>
    refine ⟨?_, ?_⟩
    · intro j hj j' hj' hopen hopen' hsession htask hcheck
      rw [hjobs, List.mem_append] at hj hj'
      rcases hj with hj | hj <;> rcases hj' with hj' | hj'
      · exact hs.oneOpen j hj j' hj' hopen hopen' hsession htask hcheck
      · exact hclosed j hj j' hj' hopen (by simpa using (openBackground_iff.mp hopen').1) hsession
          htask hcheck
      · exact (hclosed j' hj' j hj hopen' (by simpa using (openBackground_iff.mp hopen).1)
          hsession.symm htask.symm hcheck.symm).symm
      · have := (hown j hj).trans (hown j' hj').symm
        simp only [VerificationJobRow.attempt, Prod.mk.injEq] at this
        exact this.2.2
    · intro r hr
      rw [hresults] at hr
      obtain ⟨j, hj, hkey, hjclosed⟩ := hs.resultClosed r hr
      exact ⟨j, by rw [hjobs]; exact List.mem_append_left _ hj, hkey, hjclosed⟩
  | moved hg hattempts hjobs hresults =>
    refine ⟨?_, ?_⟩
    · rw [hjobs]
      exact hs.oneOpen_map hg
    · rw [hjobs, hresults]
      exact hs.resultClosed_map hg
  | @resolved _ g j r hg hj hopen hclosed hr hattempts hjobs hresults =>
    refine ⟨?_, ?_⟩
    · rw [hjobs]
      exact hs.oneOpen_map hg
    · rw [hjobs, (KeyTable.insert?_eq_some.mp hresults).2]
      intro r' hr'
      rcases List.mem_append.mp hr' with hr' | hr'
      · exact hs.resultClosed_map hg r' hr'
      · rw [List.mem_singleton.mp hr', hr]
        exact ⟨g j, List.mem_map_of_mem hj, (hg j).key_eq, hclosed⟩

/-- A closed job and its result stay as they are. -/
theorem Effect.closed_kept (h : Effect s c s') (hj : s.jobs.get? key = some j)
    (hclosed : j.state.isOpen = false) :
    s'.jobs.get? key = some j ∧ s'.results.get? key = s.results.get? key := by
  obtain ⟨hmem, hkey⟩ := KeyTable.get?_eq_some.mp hj
  cases h with
  | same => exact ⟨hj, rfl⟩
  | begun hc hattempt hattempts hjobs hown hopen hresults =>
    rw [hresults]
    refine ⟨KeyTable.get?_eq_some.mpr ⟨?_, hkey⟩, rfl⟩
    rw [hjobs]
    exact List.mem_append_left _ hmem
  | moved hg hattempts hjobs hresults =>
    rw [hresults]
    refine ⟨KeyTable.get?_eq_some.mpr ⟨?_, hkey⟩, rfl⟩
    rw [hjobs]
    exact List.mem_map.mpr ⟨j, hmem, (hg j).eq_of_closed hclosed⟩
  | @resolved _ g i r hg hi hopen hclosed' hr hattempts hjobs hresults =>
    refine ⟨KeyTable.get?_eq_some.mpr ⟨?_, hkey⟩, ?_⟩
    · rw [hjobs]
      exact List.mem_map.mpr ⟨j, hmem, (hg j).eq_of_closed hclosed⟩
    · -- the result that is inserted is of an open job
      rw [KeyTable.get?_insert hresults, if_neg]
      intro heq
      have hij : i = j := KeyTable.eq_of_key_eq hi hmem (by rw [← hr, heq, hkey])
      rw [hij, openBackground_iff, hclosed] at hopen
      cases hopen.2

/-- An attempt that was begun stays. -/
theorem Effect.attempts_kept (h : Effect s c s') {a : VerificationAttemptRow} (ha : a ∈ s.attempts.rows) :
    a ∈ s'.attempts.rows := by
  cases h with
  | same => exact ha
  | begun hc hattempt hattempts hjobs hown hopen hresults =>
    rw [hattempts]
    exact List.mem_append_left _ ha
  | moved hg hattempts hjobs hresults => exact hattempts ▸ ha
  | resolved hg hj hopen hclosed hr hattempts hjobs hresults => exact hattempts ▸ ha

/-! ## The newest attempt -/

/-- The condition on the calls: a begin names an attempt on the same side of `2^63` as the attempts
that its task has. -/
def OneSided (s : Store) : Call → Prop
  | .begin attempt _ _ => ∀ a ∈ s.attempts.rows, a.sessionId = attempt.sessionId →
      a.taskId = attempt.taskId →
      (a.attemptOpId.toNat < 2 ^ 63 ↔ attempt.attemptOpId.toNat < 2 ^ 63)
  | _ => True

instance (s : Store) : ∀ c, Decidable (OneSided s c)
  | .begin attempt _ _ => inferInstanceAs (Decidable (∀ a ∈ s.attempts.rows,
      a.sessionId = attempt.sessionId → a.taskId = attempt.taskId →
        (a.attemptOpId.toNat < 2 ^ 63 ↔ attempt.attemptOpId.toNat < 2 ^ 63)))
  | .claim _ _ _ _ => .isTrue trivial
  | .resolve _ _ _ _ _ _ => .isTrue trivial
  | .cancel _ _ _ => .isTrue trivial
  | .requeueRunning _ _ => .isTrue trivial

/-- The attempts of a task are on one side of `2^63`. -/
def Store.OneSided (s : Store) : Prop :=
  ∀ a ∈ s.attempts.rows, ∀ b ∈ s.attempts.rows, a.sessionId = b.sessionId → a.taskId = b.taskId →
    (a.attemptOpId.toNat < 2 ^ 63 ↔ b.attemptOpId.toNat < 2 ^ 63)

theorem Effect.oneSided (h : Effect s c s') (hs : s.OneSided) (hcond : Verification.OneSided s c) :
    s'.OneSided := by
  cases h with
  | same => exact hs
  | @begun attempt _ _ _ _ hc hattempt hattempts hjobs hown hopen hresults =>
    subst hc
    intro a ha b hb hsession htask
    rw [hattempts, List.mem_append, List.mem_singleton] at ha hb
    rcases ha with ha | rfl <;> rcases hb with hb | rfl
    · exact hs a ha b hb hsession htask
    · exact hcond a ha hsession htask
    · exact (hcond b hb hsession.symm htask.symm).symm
    · exact Iff.rfl
  | moved hg hattempts hjobs hresults =>
    unfold Store.OneSided
    rw [hattempts]
    exact hs
  | resolved hg hj hopen hclosed hr hattempts hjobs hresults =>
    unfold Store.OneSided
    rw [hattempts]
    exact hs

/-- On one side of `2^63` the signed and the unsigned order agree. -/
theorem toNat_le_of_toInt_le {a b : OpId} (hside : a.toNat < 2 ^ 63 ↔ b.toNat < 2 ^ 63)
    (h : a.toInt ≤ b.toInt) : a.toNat ≤ b.toNat := by
  have ha := a.isLt
  have hb := b.isLt
  rw [BitVec.toInt_eq_toNat_cond, BitVec.toInt_eq_toNat_cond] at h
  split_ifs at h <;> omega

variable {op : OpId}

/-- What the maximum of the column reads back. -/
theorem newestAttemptOp_eq_some {sessionId : SessionId} {taskId : TaskId}
    (h : newestAttemptOp s sessionId taskId = some op) :
    (∃ a ∈ s.attempts.rows, a.sessionId = sessionId ∧ a.taskId = taskId ∧ a.attemptOpId = op) ∧
      ∀ a ∈ s.attempts.rows, a.sessionId = sessionId → a.taskId = taskId →
        a.attemptOpId.toInt ≤ op.toInt := by
  simp only [newestAttemptOp, Option.map_eq_some_iff] at h
  obtain ⟨m, hmax, rfl⟩ := h
  obtain ⟨hmem, hle⟩ := List.max?_eq_some_iff.mp hmax
  obtain ⟨a, ha, rfl⟩ := List.mem_map.mp hmem
  obtain ⟨harow, hatask⟩ := KeyTable.mem_select.mp ha
  rw [Bool.and_eq_true, decide_eq_true_eq, decide_eq_true_eq] at hatask
  rw [BitVec.ofInt_toInt]
  refine ⟨⟨a, harow, hatask.1, hatask.2, rfl⟩, ?_⟩
  intro b hb hsession htask
  refine hle _ (List.mem_map_of_mem (KeyTable.mem_select.mpr ⟨hb, ?_⟩))
  rw [hsession, htask]
  simp

/-- Of a task whose attempts are on one side, an attempt older than one that was begun is
superseded. -/
theorem superseded_of_newer (hs : s.OneSided) {newer : VerificationAttemptRow}
    (hnewer : newer ∈ s.attempts.rows) (hlt : op < newer.attemptOpId) :
    superseded s (newer.sessionId, newer.taskId, op) ≠ none := by
  unfold superseded
  cases hnewest : newestAttemptOp s newer.sessionId newer.taskId with
  | none =>
    simp only [newestAttemptOp, Option.map_eq_none_iff, List.max?_eq_none_iff, List.map_eq_nil_iff]
      at hnewest
    have : newer ∈ s.attempts.select
        (fun a => decide (a.sessionId = newer.sessionId) && decide (a.taskId = newer.taskId)) :=
      KeyTable.mem_select.mpr ⟨hnewer, by simp⟩
    rw [hnewest] at this
    cases this
  | some newest =>
    obtain ⟨⟨a, ha, hsession, htask, rfl⟩, hmax⟩ := newestAttemptOp_eq_some hnewest
    have hle : newer.attemptOpId.toNat ≤ a.attemptOpId.toNat :=
      toNat_le_of_toInt_le (hs newer hnewer a ha hsession.symm htask.symm)
        (hmax newer hnewer rfl rfl)
    have hop : op.toNat < newer.attemptOpId.toNat := hlt
    have : op < a.attemptOpId := BitVec.lt_def.mpr (by omega)
    simp [this]

section Results

variable {parseArgs : String → Except String (List String)}

variable {s s' : Store}

theorem effect_of_step {c : Call} (h : step parseArgs s c = some s') :
    Effect s c s' := by
  obtain rfl := Option.some.inj h
  exact exec_effect parseArgs s c

variable {cs : List Call}

theorem run_wf (hs : s.Wf) (hrun : Trace.run (step parseArgs) s cs = some s') : s'.Wf :=
  Trace.run_invariant (fun _ _ _ hwf h => (effect_of_step h).wf hwf) hs hrun

theorem run_closed_kept {key : JobKey} {j : JobRow} (hj : s.jobs.get? key = some j)
    (hclosed : j.state.isOpen = false) (hrun : Trace.run (step parseArgs) s cs = some s') :
    s'.jobs.get? key = some j ∧ s'.results.get? key = s.results.get? key := by
  have hstep : ∀ (t : Store) (c : Call) (t' : Store),
      t.jobs.get? key = some j ∧ t.results.get? key = s.results.get? key →
      step parseArgs t c = some t' →
      t'.jobs.get? key = some j ∧ t'.results.get? key = s.results.get? key := by
    intro t c t' ht h
    obtain ⟨hjob, hresult⟩ := (effect_of_step h).closed_kept ht.1 hclosed
    exact ⟨hjob, hresult.trans ht.2⟩
  exact Trace.run_invariant hstep ⟨hj, rfl⟩ hrun

theorem run_oneSided (hs : s.OneSided) (hcond : Trace.Along (step parseArgs) OneSided s cs)
    (hrun : Trace.run (step parseArgs) s cs = some s') : s'.OneSided :=
  Trace.run_invariant_along
    (fun _ _ _ hone hc h => (effect_of_step h).oneSided hone hc) hs hcond hrun

theorem run_attempts_kept {a : VerificationAttemptRow} (ha : a ∈ s.attempts.rows)
    (hrun : Trace.run (step parseArgs) s cs = some s') :
    a ∈ s'.attempts.rows := by
  have hstep : ∀ (t : Store) (c : Call) (t' : Store), a ∈ t.attempts.rows →
      step parseArgs t c = some t' → a ∈ t'.attempts.rows :=
    fun _ _ _ hmem h => (effect_of_step h).attempts_kept hmem
  exact Trace.run_invariant hstep ha hrun

/-- Rows of which any two are one row are at most one row. -/
theorem length_select_le_one {α κ : Type} {key : α → κ} {t : KeyTable key} {p : α → Bool}
    (h : ∀ a ∈ t.rows, ∀ b ∈ t.rows, p a = true → p b = true → key a = key b) :
    (t.select p).length ≤ 1 := by
  have hnodup : ((t.select p).map key).Nodup := t.nodup.sublist (List.filter_sublist.map key)
  match hsel : t.select p with
  | [] => simp
  | [a] => simp
  | a :: b :: rest =>
    have ha : a ∈ t.select p := by rw [hsel]; simp
    have hb : b ∈ t.select p := by rw [hsel]; simp
    rw [KeyTable.mem_select] at ha hb
    rw [hsel, List.map_cons, List.map_cons, h a ha.1 b hb.1 ha.2 hb.2] at hnodup
    simp at hnodup

/-- **Attempts are isolated while their ids stay on one side of `2^63`.**  In every state a run of
such calls reaches: at most one background job of a check is open; a closed job keeps its row and
its result whatever follows; a job has a result only when it is closed, and one; and once an
attempt has begun, no claim or resolve of an attempt of the task with a smaller id succeeds. -/
theorem attempts_isolated {sessions : List SessionId} {cs : List Call} {s : Store}
    (hrun : Trace.run (step parseArgs) (.fresh sessions) cs = some s)
    (hcond : Trace.Along (step parseArgs) OneSided (.fresh sessions) cs) :
    (∀ sessionId taskId checkId, (s.jobs.select fun j => j.sessionId = sessionId
      && j.taskId = taskId && j.checkId = checkId && openBackground j).length ≤ 1) ∧
    (∀ key j, s.jobs.get? key = some j → j.state.isOpen = false →
      ∀ cs' s', Trace.run (step parseArgs) s cs' = some s' →
        s'.jobs.get? key = some j ∧ s'.results.get? key = s.results.get? key) ∧
    (∀ key, (∀ r ∈ s.results.rows, r.key = key →
        ∃ j, s.jobs.get? key = some j ∧ j.state.isOpen = false) ∧
      (s.results.select fun r => r.key = key).length ≤ 1) ∧
    (∀ newer changed checks s₁ cs' s',
      verificationAttemptBegin parseArgs s newer changed checks = .ok (true, s₁) →
      OneSided s (.begin newer changed checks) →
      Trace.run (step parseArgs) s₁ cs' = some s' → Trace.Along (step parseArgs) OneSided s₁ cs' →
      ∀ op < newer.attemptOpId, ∀ checkId,
        (∀ opId now view s'', verificationJobClaim s' (newer.sessionId, newer.taskId, op) checkId
          opId now ≠ .ok (.ok view, s'')) ∧
        (∀ state note resultJson now view s'', verificationJobResolve s'
          (newer.sessionId, newer.taskId, op) checkId state note resultJson now
            ≠ .ok (.ok view, s''))) := by
  have hs : s.Wf := run_wf (Store.fresh_wf sessions) hrun
  have hone : s.OneSided := run_oneSided (by simp [Store.OneSided, Store.fresh, KeyTable.empty])
    hcond hrun
  refine ⟨?_, ?_, ?_, ?_⟩
  · intro sessionId taskId checkId
    apply length_select_le_one
    intro j hj j' hj' hp hp'
    simp only [Bool.and_eq_true, decide_eq_true_eq] at hp hp'
    obtain ⟨⟨⟨hsession, htask⟩, hcheck⟩, hopen⟩ := hp
    obtain ⟨⟨⟨hsession', htask'⟩, hcheck'⟩, hopen'⟩ := hp'
    have hop := hs.oneOpen j hj j' hj' hopen hopen' (hsession.trans hsession'.symm)
      (htask.trans htask'.symm) (hcheck.trans hcheck'.symm)
    simp only [VerificationJobRow.key, VerificationJobRow.attempt, hop, hsession, hsession', htask,
      htask', hcheck, hcheck']
  · intro key j hj hclosed cs' s' hrun'
    exact run_closed_kept hj hclosed hrun'
  · intro key
    constructor
    · intro r hr hkey
      obtain ⟨j, hj, hjkey, hclosed⟩ := hs.resultClosed r hr
      exact ⟨j, KeyTable.get?_eq_some.mpr ⟨hj, hjkey.trans hkey⟩, hclosed⟩
    · apply length_select_le_one
      intro r _ r' _ hr hr'
      rw [decide_eq_true_eq] at hr hr'
      rw [hr, hr']
  · intro newer changed checks s₁ cs' s' hbegin hnewer hrun' hcond' op hop checkId
    obtain ⟨heffect, hmem⟩ := verificationAttemptBegin_effect hbegin
    have hone' : s'.OneSided := run_oneSided (heffect.oneSided hone hnewer) hcond' hrun'
    have hrefused := superseded_of_newer hone' (run_attempts_kept (hmem rfl) hrun') hop
    refine ⟨?_, ?_⟩
    · intro opId now view s'' hclaim
      exact hrefused ((verificationJobClaim_effect (c := .requeueRunning 0 0) hclaim).2 view rfl)
    · intro state note resultJson now view s'' hresolve
      exact hrefused ((verificationJobResolve_effect (c := .requeueRunning 0 0) hresolve).2 view rfl)

end Results

/-! ## Attempts on both sides -/

/-- The decoder, at the empty argument list. -/
def noArgs (text : String) : Except String (List String) :=
  if text = "[]" then .ok [] else .error "expected value at line 1 column 1"

def attemptOf (op : OpId) : VerificationAttemptRow where
  sessionId := 1
  taskId := 1
  attemptOpId := op
  taskRevision := 1
  workspaceRoot := "ws"
  environmentFingerprintJson := none
  createdMs := 0

/-- A background check, born queued. -/
def queuedCheck (op : OpId) (checkId : String) : CheckRow where
  sessionId := 1
  taskId := 1
  attemptOpId := op
  checkId := checkId
  ordinal := 0
  taskRevision := 1
  workspaceRoot := "ws"
  kind := "test"
  command := "cargo"
  program := "cargo"
  argsJson := "[]"
  specJson := some "s"
  budgetMs := 1
  inlineStatus := none
  state := "queued"
  note := none
  opId := none
  environmentFingerprintJson := none
  createdMs := 0
  updatedMs := 0
  finishedMs := none

/-- The first attempt of a task, with one check that is still queued. -/
def firstAttempt : List Call := [.begin (attemptOf 5) [] [queuedCheck 5 "build"]]

/-- After a second attempt with a larger id the check of the first one is not claimed. -/
theorem firstAttempt_frozen : ∃ s s₁, Trace.run (step noArgs) (.fresh [1]) firstAttempt = some s ∧
    verificationAttemptBegin noArgs s (attemptOf 6) [] [queuedCheck 6 "lint"] = .ok (true, s₁) ∧
    ∀ view s', verificationJobClaim s₁ (1, 1, 5) "build" 7 0 ≠ .ok (.ok view, s') := by
  refine ⟨_, _, rfl, rfl, ?_⟩
  have hrun : Trace.run (step noArgs) (.fresh [1]) firstAttempt = some _ := rfl
  have hisolated := (attempts_isolated hrun (by decide)).2.2.2 (attemptOf 6) [] [queuedCheck 6 "lint"] _ [] _ rfl (by decide) rfl
      trivial 5 (by decide) "build"
  exact fun view s' => hisolated.1 7 0 view s'

/-- **A second attempt from the other side does not freeze the first**: its id is the larger one
and the smaller one in the column, so the newest attempt is still the first. -/
theorem older_attempt_claimed :
    ∃ s s₁ view s', Trace.run (step noArgs) (.fresh [1]) firstAttempt = some s ∧
      verificationAttemptBegin noArgs s (attemptOf 0x8000000000000001) []
        [queuedCheck 0x8000000000000001 "lint"] = .ok (true, s₁) ∧
      (5 : OpId) < 0x8000000000000001 ∧
      verificationJobClaim s₁ (1, 1, 5) "build" 7 0 = .ok (.ok view, s') :=
  ⟨_, _, _, _, rfl, rfl, by decide, rfl⟩

end Verification
