/-
# An edit that crashes, and the edit that does not

A roll-forward commit stops at its first conflict; the recovery of a crashed commit goes on past a conflict
that the journal holds, and refuses at a file that was changed and has no progress row.  So recovery ends in
what the commit would have left, except that after a journaled conflict it also writes the following files.

* `exec_beginMultiFileEdit`, `exec_commitLoop`, `mem_worlds_commitLoop` : the edit, and where it may crash;
* `exec_recoverOne` : the recovery of a crashed edit;
* `recovery_after_crash` : the two side by side.
-/
import Mathlib
import Faktor.EditSafety

namespace EditTxn

open TextBytes Crash

variable {D : Type} [DecidableEq D] {e : EditEngine D} {reqs : List (EditRequest D)} {mode : RepairMode}

/-! ## The staged files -/

/-- The request staged the file on a content within the edit bound. -/
def StagedBy (e : EditEngine D) (mode : RepairMode) (req : EditRequest D) (s : StagedEdit D) : Prop :=
  ∃ content, content.len ≤ maxFileBytes ∧ stageContent e req mode content = .ok s

theorem StagedBy.spec {req : EditRequest D} {s : StagedEdit D} (h : StagedBy e mode req s) :
    s.rel = req.path ∧ s.expectedHash = req.expectedHash ∧ e.digest s.original = s.expectedHash ∧
      s.original.len ≤ maxFileBytes ∧ stageContent e req mode s.original = .ok s := by
  obtain ⟨content, hlen, hstage⟩ := h
  obtain ⟨text, edited, rfl, hdigest, -, rfl⟩ := stageContent_eq_ok hstage
  exact ⟨rfl, hdigest, rfl, hlen, hstage⟩

/-- What `begin_multi_file_edit` leaves to commit: one staged file for each request, no path twice. -/
structure StagedFiles (e : EditEngine D) (mode : RepairMode) (reqs : List (EditRequest D))
    (files : List (StagedEdit D)) : Prop where
  staged : List.Forall₂ (StagedBy e mode) reqs files
  nonempty : files ≠ []
  paths : (files.map StagedEdit.rel).Nodup

section
variable {w w' : World D}

theorem exec_verify (w : World D) : (verify : Edit D Unit).exec (honest e) w = (.ok (), w) := rfl

theorem exec_budget (w : World D) : (budget : Edit D Unit).exec (honest e) w = (.ok (), w) := rfl

theorem exec_record (row : Row D) (w : World D) :
    (record row).exec (honest e) w = (.ok (), { w with rows := w.rows ++ [row] }) := rfl

theorem exec_lift {α : Type} (r : Except EditError α) (w : World D) :
    (Fallible.lift r : Edit D α).exec (honest e) w = (r, w) := rfl

/-- Why a read of a path fails, or what it gives. -/
def readAnswer (e : EditEngine D) (path : String) : Option Content → Except EditError (Content × D)
  | none => .error (.unreadable path)
  | some content =>
    if maxFileBytes < content.len then .error (.oversized path) else .ok (content, e.digest content)

theorem exec_readWhole (path : String) (w : World D) :
    (readWhole e path).exec (honest e) w = (readAnswer e path (w.files path), w) := by
  rw [readWhole, Fallible.exec_call_bind, honest]
  cases w.files path with
  | none => rfl
  | some content =>
    by_cases hlen : maxFileBytes < content.len
    · simp only [readAnswer, if_pos hlen]
      rfl
    · simp only [readAnswer, if_neg hlen]
      rfl

theorem exec_stageOne (req : EditRequest D) (w : World D) :
    (stageOne e req mode).exec (honest e) w =
      ((readAnswer e req.path (w.files req.path)).bind fun x => stageContent e req mode x.1, w) := by
  refine (Fallible.exec_bind_ok (exec_verify w)).trans ?_
  cases hread : readAnswer e req.path (w.files req.path) with
  | error err => exact Fallible.exec_bind_error ((exec_readWhole req.path w).trans (by rw [hread]))
  | ok x => exact Fallible.exec_bind_ok ((exec_readWhole req.path w).trans (by rw [hread]))

/-- A request whose file stages has staged a content within the bound. -/
theorem stagedBy_of_exec {req : EditRequest D} {s : StagedEdit D}
    (h : (stageOne e req mode).exec (honest e) w = (.ok s, w')) : StagedBy e mode req s ∧ w' = w := by
  rw [exec_stageOne] at h
  obtain ⟨hresult, rfl⟩ := Prod.mk.inj h
  refine ⟨?_, rfl⟩
  cases hfile : w.files req.path with
  | none => simp [hfile, readAnswer, Except.bind] at hresult
  | some content =>
    by_cases hlen : maxFileBytes < content.len
    · simp [hfile, readAnswer, hlen, Except.bind] at hresult
    · refine ⟨content, not_lt.mp hlen, ?_⟩
      simpa [hfile, readAnswer, hlen, Except.bind] using hresult

theorem stagedBy_of_exec_stageAll {staged : List (StagedEdit D)}
    (h : (stageAll e mode reqs).exec (honest e) w = (.ok staged, w')) :
    List.Forall₂ (StagedBy e mode) reqs staged ∧ w' = w := by
  induction reqs generalizing staged w w' with
  | nil =>
    obtain ⟨hstaged, rfl⟩ := Prod.mk.inj h
    obtain rfl := Except.ok.inj hstaged
    exact ⟨.nil, rfl⟩
  | cons req rest ih =>
    replace h := (Fallible.exec_bind_ok (exec_budget w)).symm.trans h
    obtain ⟨s, w₁, hstage, h⟩ := Fallible.exec_bind_eq_ok h
    obtain ⟨hs, hw₁⟩ := stagedBy_of_exec hstage
    rw [hw₁] at h
    replace h := (Fallible.exec_bind_ok (exec_budget w)).symm.trans h
    obtain ⟨others, w₂, hothers, h⟩ := Fallible.exec_bind_eq_ok h
    obtain ⟨hrest, hw₂⟩ := ih hothers
    rw [hw₂] at h
    obtain ⟨hstaged, hw'⟩ := Prod.mk.inj h
    obtain rfl := Except.ok.inj hstaged
    exact ⟨.cons hs hrest, hw'.symm⟩

omit [DecidableEq D] in
theorem paths_of_checkPaths {seen : List String} (h : checkPaths seen reqs = .ok ()) :
    (reqs.map EditRequest.path).Nodup ∧ ∀ path ∈ reqs.map EditRequest.path, path ∉ seen := by
  induction reqs generalizing seen with
  | nil => exact ⟨List.nodup_nil, fun _ h => absurd h List.not_mem_nil⟩
  | cons req rest ih =>
    rw [checkPaths] at h
    split at h
    · cases h
    split at h
    · cases h
    rename_i hseen
    obtain ⟨hnodup, hrest⟩ := ih h
    refine ⟨List.nodup_cons.mpr ⟨fun hmem => ?_, hnodup⟩, fun path hpath => ?_⟩
    · exact hrest _ hmem List.mem_cons_self
    · rcases List.mem_cons.mp hpath with rfl | hpath
      · exact hseen
      · exact fun hold => hrest path hpath (List.mem_cons_of_mem _ hold)

omit [DecidableEq D] in
theorem checkBegin_spec {session : String} (h : checkBegin e reqs session = .ok ()) :
    reqs ≠ [] ∧ (reqs.map EditRequest.path).Nodup := by
  unfold checkBegin at h
  split at h
  · cases h
  rename_i hempty
  split at h
  · cases h
  split at h
  · cases h
  cases hcheck : checkPaths [] reqs with
  | error err =>
    rw [hcheck] at h
    cases h
  | ok _ => exact ⟨fun hnil => hempty (by rw [hnil]; rfl), (paths_of_checkPaths hcheck).1⟩

theorem rels_eq_paths {files : List (StagedEdit D)} (h : List.Forall₂ (StagedBy e mode) reqs files) :
    files.map StagedEdit.rel = reqs.map EditRequest.path := by
  induction h with
  | nil => rfl
  | cons hs _ ih => rw [List.map_cons, List.map_cons, ih, hs.spec.1]

/-- **What `begin_multi_file_edit` leaves**: staged files, and the `prepared` row in the journal. -/
theorem exec_beginMultiFileEdit {strategy : EditTxnStrategy} {txn : ℕ} {session : String}
    {prepared : PreparedEdit D}
    (h : (beginMultiFileEdit e reqs mode strategy txn session).exec (honest e) w = (.ok prepared, w')) :
    StagedFiles e mode reqs prepared.files ∧
      prepared.txnId = txn ∧ prepared.strategy = strategy ∧
      w' = { w with rows :=
        w.rows ++ [.prepared txn session (prepared.files.map StagedEdit.fileRef) strategy] } := by
  replace h := (Fallible.exec_bind_ok (exec_verify w)).symm.trans h
  cases hcheck : checkBegin e reqs session with
  | error err =>
    replace h := (Fallible.exec_bind_error (exec_lift _ w)).symm.trans (hcheck ▸ h)
    cases h
  | ok _ =>
    rw [hcheck] at h
    replace h := (Fallible.exec_bind_ok (exec_lift _ w)).symm.trans h
    obtain ⟨staged, w₁, hstage, h⟩ := Fallible.exec_bind_eq_ok h
    replace hstage := (Fallible.exec_bind_ok (exec_verify w)).symm.trans hstage
    obtain ⟨hstaged, hw₁⟩ := stagedBy_of_exec_stageAll hstage
    rw [hw₁] at h
    obtain ⟨hprepared, hw'⟩ := Prod.mk.inj h
    obtain rfl := Except.ok.inj hprepared
    obtain ⟨hreqs, hpaths⟩ := checkBegin_spec hcheck
    refine ⟨⟨hstaged, ?_, (rels_eq_paths hstaged).symm ▸ hpaths⟩, rfl, rfl, hw'.symm⟩
    rintro rfl
    exact hreqs (List.forall₂_nil_right_iff.mp hstaged)

end

/-! ## The commit -/

/-- The file is as it was staged. -/
def asStaged (e : EditEngine D) (w : World D) (s : StagedEdit D) : Bool :=
  (w.files s.rel).any fun c => e.digest c = s.expectedHash

/-- File `i` written, with its progress row. -/
def writeFile (txn i : ℕ) (s : StagedEdit D) (w : World D) : World D :=
  ⟨Function.update w.files s.rel (some (.utf8 s.edited)), w.rows ++ [.progress txn ⟨i, s.rel, .committed⟩]⟩

/-- The files from number `i` on written, each with its progress row. -/
def writeFiles (txn : ℕ) : ℕ → List (StagedEdit D) → World D → World D
  | _, [], w => w
  | i, s :: rest, w => writeFiles txn (i + 1) rest (writeFile txn i s w)

/-- The files after all of them are written. -/
def writeAll : List (StagedEdit D) → (String → Option Content) → String → Option Content
  | [], files => files
  | s :: rest, files => writeAll rest (Function.update files s.rel (some (.utf8 s.edited)))

/-- The progress rows of files with the same outcome, from number `i` on. -/
def progressRows (outcome : TxnFileOutcome) : ℕ → List (StagedEdit D) → List TxnProgressRow
  | _, [] => []
  | i, s :: rest => ⟨i, s.rel, outcome⟩ :: progressRows outcome (i + 1) rest

section
omit [DecidableEq D]
variable {txn i : ℕ} {s : StagedEdit D} {front back : List (StagedEdit D)} {w : World D}

theorem writeFiles_rows :
    (writeFiles txn i front w).rows = w.rows ++ (progressRows .committed i front).map (Row.progress txn) := by
  induction front generalizing i w with
  | nil => exact (List.append_nil w.rows).symm
  | cons s rest ih => rw [writeFiles, ih, writeFile, progressRows, List.map_cons, List.append_assoc]; rfl

theorem writeFiles_files : (writeFiles txn i front w).files = writeAll front w.files := by
  induction front generalizing i w with
  | nil => rfl
  | cons s rest ih => exact ih

theorem writeAll_append {files : String → Option Content} :
    writeAll (front ++ back) files = writeAll back (writeAll front files) := by
  induction front generalizing files with
  | nil => rfl
  | cons s rest ih => exact ih

theorem writeAll_of_not_mem {files : String → Option Content} {path : String}
    (h : path ∉ front.map StagedEdit.rel) : writeAll front files path = files path := by
  induction front generalizing files with
  | nil => rfl
  | cons s rest ih =>
    rw [List.map_cons, List.mem_cons, not_or] at h
    rw [writeAll, ih h.2, Function.update_of_ne h.1]

end

section
variable {txn i : ℕ} {s : StagedEdit D} {front back files : List (StagedEdit D)} {w w' : World D}

/-- A file that is not among those written is as before. -/
theorem asStaged_congr (h : w'.files s.rel = w.files s.rel) : asStaged e w' s = asStaged e w s := by
  rw [asStaged, asStaged, h]

theorem honest_cas_asStaged (h : asStaged e w s = true) (new : Content) :
    honest e w (.cas s.rel s.expectedHash new) =
      (some (e.digest new), { w with files := Function.update w.files s.rel (some new) }) := by
  obtain ⟨c, hc, hdigest⟩ := (Option.any_eq_true _ _).mp h
  simp only [honest, hc, if_pos (of_decide_eq_true hdigest)]
  rfl

theorem honest_cas_changed (h : asStaged e w s = false) (new : Content) :
    honest e w (.cas s.rel s.expectedHash new) = (none, w) := by
  simp only [honest]
  cases hc : w.files s.rel with
  | none => rfl
  | some c =>
    have hdigest : ¬ e.digest c = s.expectedHash := by simpa [asStaged, hc] using h
    simp only [if_neg hdigest]
    rfl

/-- A file that is as staged is written, and the loop goes on. -/
theorem exec_commitLoop_cons {written : List (StagedEdit D × D)} {run : CommitRun D}
    (h : asStaged e w s = true) :
    (commitLoop txn .rollForward i (s :: files) written run).exec (honest e) w =
      (commitLoop txn .rollForward (i + 1) files (written ++ [(s, e.digest (.utf8 s.edited))])
        { run with
          committed := run.committed ++ [(s.rel, e.digest (.utf8 s.edited))]
          opsAppliedTotal := run.opsAppliedTotal + s.opsApplied }).exec (honest e) (writeFile txn i s w) := by
  rw [commitLoop, Fallible.exec_call_bind, honest_cas_asStaged h]
  exact Fallible.exec_bind_ok (exec_record _ _)

/-- The first file that is not as staged ends the loop. -/
theorem exec_commitLoop_conflict (txn i : ℕ) (files : List (StagedEdit D))
    (written : List (StagedEdit D × D)) (run : CommitRun D) (h : asStaged e w s = false) :
    ∃ w', (commitLoop txn .rollForward i (s :: files) written run).exec (honest e) w =
      (.ok { run with
        conflicted := run.conflicted ++ [s.rel], skipped := files.map StagedEdit.rel }, w') ∧
      w'.files = w.files ∧ txn ∈ w'.rows.filterMap Row.terminal? := by
  rw [commitLoop, Fallible.exec_call_bind, honest_cas_changed h]
  refine ⟨_, (Fallible.exec_bind_ok (exec_record _ _)).trans
    ((Fallible.exec_bind_ok (exec_record _ _)).trans rfl), rfl, ?_⟩
  simp [Row.terminal?]

theorem exec_commitLoop_nil (txn i : ℕ) (written : List (StagedEdit D × D)) (run : CommitRun D)
    (w : World D) :
    ∃ w', (commitLoop txn .rollForward i [] written run).exec (honest e) w = (.ok run, w') ∧
      w'.files = w.files ∧ txn ∈ w'.rows.filterMap Row.terminal? := by
  refine ⟨_, (Fallible.exec_bind_ok (exec_record _ _)).trans rfl, rfl, ?_⟩
  simp [Row.terminal?]

omit [DecidableEq D] in
theorem writeFile_of_ne {path : String} (h : path ≠ s.rel) :
    (writeFile txn i s w).files path = w.files path :=
  Function.update_of_ne h _ _

/-- What is as staged stays so when another file is written. -/
theorem asStaged_writeFile {s' : StagedEdit D} (h : s'.rel ≠ s.rel) :
    asStaged e (writeFile txn i s w) s' = asStaged e w s' :=
  asStaged_congr (writeFile_of_ne h)

omit [DecidableEq D] in
/-- Two tests that agree on a list split it at the same place. -/
theorem takeWhile_congr {κ : Type} {p q : κ → Bool} {l : List κ} (h : ∀ x ∈ l, p x = q x) :
    l.takeWhile p = l.takeWhile q ∧ l.dropWhile p = l.dropWhile q := by
  induction l with
  | nil => exact ⟨rfl, rfl⟩
  | cons x rest ih =>
    obtain ⟨htake, hdrop⟩ := ih fun y hy => h y (List.mem_cons_of_mem _ hy)
    have hx := h x List.mem_cons_self
    by_cases hp : p x = true
    · have hq : q x = true := hx ▸ hp
      rw [List.takeWhile_cons_of_pos hp, List.takeWhile_cons_of_pos hq, List.dropWhile_cons_of_pos hp,
        List.dropWhile_cons_of_pos hq, htake, hdrop]
      exact ⟨rfl, rfl⟩
    · have hq : ¬ q x = true := hx ▸ hp
      rw [List.takeWhile_cons_of_neg hp, List.takeWhile_cons_of_neg hq, List.dropWhile_cons_of_neg hp,
        List.dropWhile_cons_of_neg hq]
      exact ⟨rfl, rfl⟩

/-- **What an uninterrupted commit leaves.** -/
theorem exec_commitLoop (txn : ℕ) (hpaths : (files.map StagedEdit.rel).Nodup)
    (written : List (StagedEdit D × D)) (run : CommitRun D) (hskipped : run.skipped = []) :
    ∃ run' w', (commitLoop txn .rollForward i files written run).exec (honest e) w = (.ok run', w') ∧
      run'.committed.map Prod.fst =
        run.committed.map Prod.fst ++ (files.takeWhile (asStaged e w)).map StagedEdit.rel ∧
      run'.conflicted =
        run.conflicted ++ ((files.dropWhile (asStaged e w)).take 1).map StagedEdit.rel ∧
      run'.skipped = (files.dropWhile (asStaged e w)).tail.map StagedEdit.rel ∧
      w'.files = writeAll (files.takeWhile (asStaged e w)) w.files ∧
      txn ∈ w'.rows.filterMap Row.terminal? := by
  induction files generalizing i w written run with
  | nil =>
    obtain ⟨w', hexec, hfiles, hterminal⟩ := exec_commitLoop_nil (e := e) txn i written run w
    exact ⟨run, w', hexec, by simp, by simp, hskipped, hfiles, hterminal⟩
  | cons s rest ih =>
    obtain ⟨hrel, hrest⟩ := List.nodup_cons.mp hpaths
    by_cases h : asStaged e w s = true
    · -- the rest is judged as before
      have hcongr : ∀ s' ∈ rest, asStaged e (writeFile txn i s w) s' = asStaged e w s' :=
        fun s' hs' => asStaged_writeFile fun heq => hrel (heq ▸ List.mem_map_of_mem hs')
      obtain ⟨htake, hdrop⟩ := takeWhile_congr hcongr
      obtain ⟨run', w', hexec, hcommitted, hconflicted, hskips, hfiles, hterminal⟩ :=
        ih (i := i + 1) (w := writeFile txn i s w) hrest (written ++ [(s, e.digest (.utf8 s.edited))])
          { run with
            committed := run.committed ++ [(s.rel, e.digest (.utf8 s.edited))]
            opsAppliedTotal := run.opsAppliedTotal + s.opsApplied } hskipped
      rw [htake] at hcommitted hfiles
      rw [hdrop] at hconflicted hskips
      rw [List.takeWhile_cons_of_pos h, List.dropWhile_cons_of_pos h]
      refine ⟨run', w', (exec_commitLoop_cons h).trans hexec, ?_, hconflicted, hskips, hfiles, hterminal⟩
      rw [hcommitted, List.map_append, List.append_assoc]
      rfl
    · obtain ⟨w', hexec, hfiles, hterminal⟩ := exec_commitLoop_conflict txn i rest written run (Bool.eq_false_iff.mpr h)
      rw [List.takeWhile_cons_of_neg h, List.dropWhile_cons_of_neg h]
      exact ⟨_, w', hexec, (List.append_nil _).symm, rfl, rfl, hfiles, hterminal⟩

/-- Where a commit of the files, from number `i` on, may crash before its terminal row. -/
inductive CrashPoint (e : EditEngine D) (txn i : ℕ) (files : List (StagedEdit D)) (w : World D) :
    World D → Prop
  | journaled (front back : List (StagedEdit D)) (hfiles : files = front ++ back)
      (hfront : ∀ s ∈ front, asStaged e w s = true) : CrashPoint e txn i files w (writeFiles txn i front w)
  | unjournaled (front back : List (StagedEdit D)) (s : StagedEdit D) (hfiles : files = front ++ s :: back)
      (hfront : ∀ s ∈ front, asStaged e w s = true) :
      CrashPoint e txn i files w
        { writeFiles txn i front w with
          files := Function.update (writeFiles txn i front w).files s.rel (some (.utf8 s.edited)) }
  | conflicted (front back : List (StagedEdit D)) (c : StagedEdit D) (hfiles : files = front ++ c :: back)
      (hfront : ∀ s ∈ front, asStaged e w s = true) (hc : asStaged e w c = false) :
      CrashPoint e txn i files w
        { writeFiles txn i front w with
          rows := (writeFiles txn i front w).rows ++
            [.progress txn ⟨i + front.length, c.rel, .conflicted⟩] }

/-- A crash after the first file was written. -/
theorem CrashPoint.cons (hrel : s.rel ∉ files.map StagedEdit.rel) (h : asStaged e w s = true)
    (hpoint : CrashPoint e txn (i + 1) files (writeFile txn i s w) w') :
    CrashPoint e txn i (s :: files) w w' := by
  have hcongr : ∀ front back, files = front ++ back → (∀ s' ∈ front, asStaged e (writeFile txn i s w) s' = true) →
      ∀ s' ∈ s :: front, asStaged e w s' = true := by
    rintro front back rfl hfront s' hs'
    rcases List.mem_cons.mp hs' with rfl | hs'
    · exact h
    · rw [← hfront s' hs']
      refine (asStaged_writeFile fun heq => hrel ?_).symm
      exact heq ▸ List.mem_map_of_mem (List.mem_append_left _ hs')
  cases hpoint with
  | journaled front back hfiles hfront =>
    exact .journaled (s :: front) back (congrArg (s :: ·) hfiles) (hcongr front back hfiles hfront)
  | unjournaled front back s' hfiles hfront =>
    exact .unjournaled (s :: front) back s' (congrArg (s :: ·) hfiles)
      (hcongr front _ hfiles hfront)
  | conflicted front back c hfiles hfront hc =>
    have hc' : asStaged e w c = false := by
      rw [← hc]
      refine (asStaged_writeFile fun heq => hrel ?_).symm
      exact hfiles ▸ heq ▸ List.mem_map_of_mem (by simp)
    have hpoint : CrashPoint e txn i (s :: files) w _ := CrashPoint.conflicted (i := i) (s :: front) back c
      (congrArg (s :: ·) hfiles) (hcongr front _ hfiles hfront) hc'
    rw [List.length_cons, Nat.add_comm front.length 1, ← Nat.add_assoc] at hpoint
    exact hpoint

/-- **Where a commit may crash.** -/
theorem mem_worlds_commitLoop (hpaths : (files.map StagedEdit.rel).Nodup)
    {written : List (StagedEdit D × D)} {run : CommitRun D}
    (hcrash : w' ∈ (commitLoop txn .rollForward i files written run).worlds (honest e) w) :
    CrashPoint e txn i files w w' ∨
      w' = ((commitLoop txn .rollForward i files written run).exec (honest e) w).2 := by
  induction files generalizing i w written run with
  | nil =>
    rcases List.mem_cons.mp hcrash with rfl | hend
    · exact Or.inl (.journaled [] [] rfl fun _ h => absurd h List.not_mem_nil)
    · exact Or.inr (List.mem_singleton.mp hend)
  | cons s rest ih =>
    obtain ⟨hrel, hrest⟩ := List.nodup_cons.mp hpaths
    have hstart : CrashPoint e txn i (s :: rest) w w :=
      .journaled [] _ rfl fun _ h => absurd h List.not_mem_nil
    rw [commitLoop, Fallible.worlds_call_bind] at hcrash
    rcases List.mem_cons.mp hcrash with rfl | hcrash
    · exact Or.inl hstart
    by_cases h : asStaged e w s = true
    · rw [honest_cas_asStaged h] at hcrash
      rcases List.mem_cons.mp hcrash with rfl | hcrash
      · exact Or.inl (.unjournaled [] rest s rfl fun _ h => absurd h List.not_mem_nil)
      · rw [exec_commitLoop_cons h]
        exact (ih hrest hcrash).imp_left (CrashPoint.cons hrel h)
    · have hchanged := Bool.eq_false_iff.mpr h
      rw [honest_cas_changed hchanged] at hcrash
      rcases List.mem_cons.mp hcrash with rfl | hcrash
      · exact Or.inl hstart
      rcases List.mem_cons.mp hcrash with rfl | hcrash
      · exact Or.inl (.conflicted [] rest s rfl (fun _ h => absurd h List.not_mem_nil) hchanged)
      · rw [commitLoop, Fallible.exec_call_bind, honest_cas_changed hchanged]
        exact Or.inr (List.mem_singleton.mp hcrash)

end

/-! ## The journal after a crash -/

/-- The transaction of a row. -/
def Row.txn : Row D → ℕ
  | .prepared txn _ _ _ => txn
  | .progress txn _ => txn
  | .committed txn _ _ _ => txn
  | .rolledBack txn _ _ => txn

/-- The progress of a transaction whose first files were written, and whose next ones conflicted. -/
def progressAfter (front conf : List (StagedEdit D)) : List TxnProgressRow :=
  progressRows .committed 0 front ++ progressRows .conflicted front.length conf

section
omit [DecidableEq D]
variable {txn i k : ℕ} {outcome : TxnFileOutcome} {front conf back files : List (StagedEdit D)}

theorem mem_progressRows {row : TxnProgressRow} (h : row ∈ progressRows outcome k files) :
    k ≤ row.seq ∧ row.seq < k + files.length ∧ row.outcome = outcome ∧
      row.path ∈ files.map StagedEdit.rel := by
  induction files generalizing k with
  | nil => cases h
  | cons s rest ih =>
    rcases List.mem_cons.mp h with rfl | h
    · exact ⟨le_refl k, by simp, rfl, List.mem_cons_self⟩
    · obtain ⟨hle, hlt, houtcome, hpath⟩ := ih h
      rw [List.length_cons]
      exact ⟨by omega, by omega, houtcome, List.mem_cons_of_mem _ hpath⟩

theorem pairwise_progressRows : (progressRows outcome k files).Pairwise fun a b => a.seq ≤ b.seq := by
  induction files generalizing k with
  | nil => exact List.Pairwise.nil
  | cons s rest ih =>
    refine List.pairwise_cons.mpr ⟨fun row hrow => ?_, ih⟩
    exact (Nat.le_succ k).trans (mem_progressRows hrow).1

theorem pairwise_progressAfter : (progressAfter front conf).Pairwise fun a b => a.seq ≤ b.seq := by
  refine List.pairwise_append.mpr ⟨pairwise_progressRows, pairwise_progressRows, fun a ha b hb => ?_⟩
  have hlt := (mem_progressRows ha).2.1
  have hle := (mem_progressRows hb).1
  omega

/-- What progress rows say of file `i`. -/
theorem find?_progressRows : ((progressRows outcome k files).find? (·.seq = i)).map TxnProgressRow.outcome =
    if k ≤ i ∧ i < k + files.length then some outcome else none := by
  induction files generalizing k with
  | nil =>
    rw [if_neg (by simp)]
    rfl
  | cons s rest ih =>
    rw [progressRows, List.find?_cons]
    by_cases hi : k = i
    · rw [decide_eq_true hi, if_pos (by simp [hi])]
      rfl
    · rw [decide_eq_false hi]
      dsimp only
      rw [ih, List.length_cons]
      refine if_congr ?_ rfl rfl
      omega

/-- The progress rows of files that stand in the list from number `k` on are in order. -/
theorem checkProgress_progressRows {refs : List (EditTxnFileRef D)} {seen : List ℕ}
    (outcome : TxnFileOutcome) (rows : List TxnProgressRow)
    (hrefs : ∀ j s, files[j]? = some s → refs[k + j]? = some s.fileRef) (hseen : ∀ x ∈ seen, x < k) :
    ∃ seen', (∀ x ∈ seen', x < k + files.length) ∧
      checkProgress refs seen (progressRows outcome k files ++ rows) = checkProgress refs seen' rows := by
  induction files generalizing k seen with
  | nil => exact ⟨seen, hseen, rfl⟩
  | cons s rest ih =>
    have hget : refs[k]? = some s.fileRef := hrefs 0 s rfl
    have hnew : k ∉ seen := fun hmem => lt_irrefl _ (hseen _ hmem)
    have hstep : checkProgress refs seen (progressRows outcome k (s :: rest) ++ rows) =
        checkProgress refs (k :: seen) (progressRows outcome (k + 1) rest ++ rows) := by
      rw [progressRows, List.cons_append, checkProgress, hget]
      exact if_neg (by simp [StagedEdit.fileRef, hnew])
    have hseen' : ∀ x ∈ k :: seen, x < k + 1 := by
      intro x hx
      rcases List.mem_cons.mp hx with rfl | hx
      · exact Nat.lt_succ_self x
      · exact (hseen x hx).trans (Nat.lt_succ_self k)
    obtain ⟨seen', hlt, heq⟩ := ih (fun j s hj => by
      rw [Nat.add_assoc, Nat.add_comm 1 j]
      exact hrefs (j + 1) s hj) hseen'
    refine ⟨seen', fun x hx => ?_, hstep.trans heq⟩
    have := hlt x hx
    rw [List.length_cons]
    omega

theorem firstRepeat_eq_none {κ : Type} [DecidableEq κ] {seen l : List κ} {i : ℕ} (hnodup : l.Nodup)
    (hseen : ∀ x ∈ l, x ∉ seen) : firstRepeat seen i l = none := by
  induction l generalizing seen i with
  | nil => rfl
  | cons x rest ih =>
    obtain ⟨hx, hrest⟩ := List.nodup_cons.mp hnodup
    rw [firstRepeat, if_neg (hseen x List.mem_cons_self)]
    refine ih hrest fun y hy hmem => ?_
    rcases List.mem_cons.mp hmem with rfl | hmem
    · exact hx hy
    · exact hseen y (List.mem_cons_of_mem _ hy) hmem

/-- A crashed transaction, as the journal gives it. -/
def crashedTxn (txn : ℕ) (front conf back : List (StagedEdit D)) : OpenEditTxn D :=
  ⟨txn, .rollForward, (front ++ conf ++ back).map StagedEdit.fileRef, progressAfter front conf⟩

theorem checkProgress_progressAfter :
    checkProgress ((front ++ conf ++ back).map StagedEdit.fileRef) [] (progressAfter front conf) =
      .ok () := by
  have hfront : ∀ j s, front[j]? = some s →
      ((front ++ conf ++ back).map StagedEdit.fileRef)[0 + j]? = some s.fileRef := by
    intro j s hj
    obtain ⟨hlt, -⟩ := List.getElem?_eq_some_iff.mp hj
    rw [Nat.zero_add, List.getElem?_map, List.append_assoc, List.getElem?_append_left hlt, hj]
    rfl
  have hconf : ∀ j s, conf[j]? = some s →
      ((front ++ conf ++ back).map StagedEdit.fileRef)[front.length + j]? = some s.fileRef := by
    intro j s hj
    obtain ⟨hlt, -⟩ := List.getElem?_eq_some_iff.mp hj
    rw [List.getElem?_map, List.append_assoc, List.getElem?_append_right (Nat.le_add_right _ _),
      Nat.add_sub_cancel_left, List.getElem?_append_left hlt, hj]
    rfl
  obtain ⟨seen, hseen, hcommitted⟩ := checkProgress_progressRows .committed
    (progressRows .conflicted front.length conf) hfront fun _ h => absurd h List.not_mem_nil
  rw [Nat.zero_add] at hseen
  obtain ⟨seen', -, hconflicted⟩ := checkProgress_progressRows .conflicted [] hconf hseen
  rw [List.append_nil] at hconflicted
  exact hcommitted.trans hconflicted

theorem validateOpenTxn_crashedTxn (hnonempty : front ++ conf ++ back ≠ [])
    (hpaths : ((front ++ conf ++ back).map StagedEdit.rel).Nodup) :
    validateOpenTxn (crashedTxn txn front conf back) = .ok () := by
  have hpaths' : ((crashedTxn txn front conf back).files.map EditTxnFileRef.path) =
      (front ++ conf ++ back).map StagedEdit.rel := by
    rw [crashedTxn, List.map_map]
    rfl
  unfold validateOpenTxn
  rw [if_neg (by simpa [crashedTxn] using hnonempty), hpaths',
    firstRepeat_eq_none hpaths fun _ _ h => absurd h List.not_mem_nil]
  exact checkProgress_progressAfter

/-- What the journal says of file `i` of a crashed transaction. -/
theorem outcomeOf_crashedTxn : (crashedTxn txn front conf back).outcomeOf i =
    if i < front.length then some .committed
    else if i < front.length + conf.length then some .conflicted else none := by
  rw [OpenEditTxn.outcomeOf, crashedTxn, progressAfter, List.find?_append, Option.map_or,
    find?_progressRows, find?_progressRows]
  by_cases hfront : i < front.length
  · simp [hfront]
  · simp [hfront, Nat.not_lt.mp hfront]

end

section
omit [DecidableEq D]

theorem progressOf_append {rows rows' : List (Row D)} {txn : ℕ} :
    progressOf (rows ++ rows') txn = progressOf rows txn ++ progressOf rows' txn :=
  List.filterMap_append

theorem progressOf_others {rows : List (Row D)} {txn : ℕ} (hrows : ∀ row ∈ rows, row.txn ≠ txn) :
    progressOf rows txn = [] := by
  refine List.filterMap_eq_nil_iff.mpr fun row hrow => ?_
  cases row with
  | progress t r => exact if_neg (hrows _ hrow)
  | prepared => rfl
  | committed => rfl
  | rolledBack => rfl

theorem progressOf_map_progress {rows : List TxnProgressRow} {txn : ℕ} :
    progressOf (rows.map (Row.progress (D := D) txn)) txn = rows := by
  rw [progressOf, List.filterMap_map]
  exact (List.filterMap_congr fun row _ => if_pos rfl).trans List.filterMap_some

/-- The journal of a crashed transaction: others' rows, its `prepared` row and its progress. -/
theorem openTransactions_crashed {rows : List (Row D)} {txn : ℕ} {session : String}
    {front conf back : List (StagedEdit D)} (hrows : ∀ row ∈ rows, row.txn ≠ txn) {o : OpenEditTxn D}
    (ho : o ∈ openTransactions (rows ++ [.prepared txn session
      ((front ++ conf ++ back).map StagedEdit.fileRef) .rollForward] ++
      (progressAfter front conf).map (Row.progress txn))) (htxn : o.txnId = txn) :
    o = crashedTxn txn front conf back := by
  obtain ⟨row, hrow, hopen⟩ := List.mem_filterMap.mp ho
  cases row with
  | progress => cases hopen
  | committed => cases hopen
  | rolledBack => cases hopen
  | prepared t session' files strategy =>
    simp only [openTxn?] at hopen
    split at hopen
    · cases hopen
    obtain rfl := Option.some.inj hopen
    obtain rfl : t = txn := htxn
    rw [List.append_assoc, List.mem_append, List.mem_append, List.mem_singleton] at hrow
    rcases hrow with hold | hprepared | hprogress
    · exact absurd rfl (hrows _ hold)
    · obtain ⟨-, -, rfl, rfl⟩ := Row.prepared.inj hprepared
      rw [crashedTxn, progressOf_append, progressOf_append, progressOf_others hrows,
        progressOf_map_progress]
      refine congrArg (OpenEditTxn.mk t .rollForward _) ?_
      exact pairwise_progressAfter.insertionSort_eq
    · obtain ⟨_, -, hrow⟩ := List.mem_map.mp hprogress
      cases hrow

end

/-! ## The recovery -/

/-- Why a file without a progress row that is not as staged stops the recovery. -/
def refusal (e : EditEngine D) (w : World D) (c : StagedEdit D) : EditError :=
  match readAnswer e c.rel (w.files c.rel) with
  | .error err => err
  | .ok _ => .ambiguousFile c.rel

/-- What a recovery of a roll-forward transaction has to report so far. -/
structure Reports (s : Replay D) (committed conflicted : List String) : Prop where
  committed : s.outcome.committed = committed
  conflicted : s.outcome.conflicted = conflicted
  skipped : s.outcome.skipped = []
  goes : s.replayStop = false

section
variable {txn : OpenEditTxn D} {resume : Option (EditTxnResume D)} {i : ℕ} {s : StagedEdit D}
  {front conf back : List (StagedEdit D)} {w : World D} {r : Replay D}
  {committed conflicted : List String} {rest : List (EditTxnFileRef D)}

/-- Files with a committed progress row are done. -/
theorem exec_recoverLoop_committed (hr : Reports r committed conflicted)
    (houtcome : ∀ j, i ≤ j → j < i + front.length → txn.outcomeOf j = some .committed)
    (mode : RepairMode) (resume : Option (EditTxnResume D)) (rest : List (EditTxnFileRef D)) (w : World D) :
    ∃ r', Reports r' (committed ++ front.map StagedEdit.rel) conflicted ∧
      (recoverLoop e mode txn resume i (front.map StagedEdit.fileRef ++ rest) r).exec (honest e) w =
        (recoverLoop e mode txn resume (i + front.length) rest r').exec (honest e) w := by
  induction front generalizing i r committed with
  | nil => exact ⟨r, by simpa using hr, rfl⟩
  | cons s front ih =>
    have hfirst := houtcome i (le_refl i) (by simp)
    have hr' : Reports { r with
        outcome := { r.outcome with committed := r.outcome.committed ++ [s.rel] }
        preRun := r.preRun ++ [i] } (committed ++ [s.rel]) conflicted :=
      ⟨by rw [hr.committed], hr.conflicted, hr.skipped, hr.goes⟩
    obtain ⟨r', hreports, hexec⟩ := ih hr' fun j hle hlt =>
      houtcome j (Nat.le_of_succ_le hle) (by rw [List.length_cons]; omega)
    refine ⟨r', by simpa using hreports, ?_⟩
    rw [List.length_cons, Nat.add_comm front.length 1, ← Nat.add_assoc, ← hexec]
    rw [List.map_cons, List.cons_append, recoverLoop]
    refine Fallible.exec_bind_ok ?_
    rw [recoverFile, hfirst]
    rfl

/-- Files with a conflicted progress row stay conflicted. -/
theorem exec_recoverLoop_conflicted (hr : Reports r committed conflicted)
    (houtcome : ∀ j, i ≤ j → j < i + conf.length → txn.outcomeOf j = some .conflicted)
    (mode : RepairMode) (resume : Option (EditTxnResume D)) (rest : List (EditTxnFileRef D)) (w : World D) :
    ∃ r', Reports r' committed (conflicted ++ conf.map StagedEdit.rel) ∧
      (recoverLoop e mode txn resume i (conf.map StagedEdit.fileRef ++ rest) r).exec (honest e) w =
        (recoverLoop e mode txn resume (i + conf.length) rest r').exec (honest e) w := by
  induction conf generalizing i r conflicted with
  | nil => exact ⟨r, by simpa using hr, rfl⟩
  | cons s conf ih =>
    have hfirst := houtcome i (le_refl i) (by simp)
    have hr' : Reports { r with
        outcome := { r.outcome with conflicted := r.outcome.conflicted ++ [s.rel] } }
        committed (conflicted ++ [s.rel]) :=
      ⟨hr.committed, by rw [hr.conflicted], hr.skipped, hr.goes⟩
    obtain ⟨r', hreports, hexec⟩ := ih hr' fun j hle hlt =>
      houtcome j (Nat.le_of_succ_le hle) (by rw [List.length_cons]; omega)
    refine ⟨r', by simpa using hreports, ?_⟩
    rw [List.length_cons, Nat.add_comm conf.length 1, ← Nat.add_assoc, ← hexec]
    rw [List.map_cons, List.cons_append, recoverLoop]
    refine Fallible.exec_bind_ok ?_
    rw [recoverFile, hfirst]
    rfl

omit [DecidableEq D] in
theorem outcome_wrote {r r' : Replay D} (hr : Reports r committed conflicted)
    (hcommitted : r'.outcome.committed = r.outcome.committed ++ [s.rel])
    (hconflicted : r'.outcome.conflicted = r.outcome.conflicted)
    (hskipped : r'.outcome.skipped = r.outcome.skipped) (hgoes : r'.replayStop = r.replayStop) :
    Reports r' (committed ++ [s.rel]) conflicted :=
  ⟨hcommitted.trans (by rw [hr.committed]), hconflicted.trans hr.conflicted,
    hskipped.trans hr.skipped, hgoes.trans hr.goes⟩

variable {req : EditRequest D}

/-- A file that is as staged has the content that it was staged on. -/
theorem files_of_asStaged (hdigest : Function.Injective e.digest)
    (hs : StagedBy e mode req s) (h : asStaged e w s = true) : w.files s.rel = some s.original := by
  obtain ⟨c, hc, hsame⟩ := (Option.any_eq_true _ _).mp h
  obtain ⟨-, -, horiginal, -, -⟩ := hs.spec
  rw [hc, hdigest ((of_decide_eq_true hsame).trans horiginal.symm)]

/-- A file without a progress row that is as staged is written. -/
theorem exec_recoverFile_asStaged (hdigest : Function.Injective e.digest)
    (hforward : txn.strategy = .rollForward) (hr : Reports r committed conflicted)
    (houtcome : txn.outcomeOf i = none) {resume : EditTxnResume D}
    (hreq : resume.reqs[i]? = some req) (hs : StagedBy e mode req s) (h : asStaged e w s = true) :
    ∃ r', Reports r' (committed ++ [s.rel]) conflicted ∧
      (recoverFile e mode txn (some resume) i s.fileRef r).exec (honest e) w =
        (.ok r', writeFile txn.txnId i s w) := by
  obtain ⟨hrel, hhash, horiginal, hlen, hstage⟩ := hs.spec
  have hfile := files_of_asStaged hdigest hs h
  have hread : readAnswer e s.rel (w.files s.rel) = .ok (s.original, s.expectedHash) := by
    rw [hfile, readAnswer, if_neg (not_lt.mpr hlen), horiginal]
  have hrequest : resumedRequest (some resume) i s.fileRef = .ok req := by
    simp only [resumedRequest, Option.elim_some, hreq, StagedEdit.fileRef, hrel, hhash]
    simp
  have hstaged : (stageOne e req mode).exec (honest e) w = (.ok s, w) := by
    rw [exec_stageOne, ← hrel, hread]
    exact Prod.ext hstage rfl
  have hreplay : (replayFile e mode txn (some resume) i s.fileRef r).exec (honest e) w =
      (.ok { r with
        outcome := { r.outcome with
          committed := r.outcome.committed ++ [s.rel], wrote := r.outcome.wrote ++ [s.rel] }
        thisRun := r.thisRun ++ [⟨i, e.digest (.utf8 s.edited), s.original⟩] },
        writeFile txn.txnId i s w) := by
    refine (Fallible.exec_bind_ok ((exec_lift _ w).trans (by rw [hrequest]))).trans ?_
    refine (Fallible.exec_bind_ok hstaged).trans ?_
    rw [Fallible.exec_call_bind, honest_cas_asStaged h]
    exact Fallible.exec_bind_ok (exec_record _ _)
  have hpending : txn.rollbackPending = false := by
    rw [OpenEditTxn.rollbackPending, hforward]
    rfl
  have hexec : (recoverFile e mode txn (some resume) i s.fileRef r).exec (honest e) w =
      (replayFile e mode txn (some resume) i s.fileRef r).exec (honest e) w := by
    rw [recoverFile, houtcome]
    simp only [hr.goes, Bool.false_eq_true, if_false]
    refine (Fallible.exec_bind_ok ((exec_readWhole s.rel w).trans (by rw [hread]))).trans ?_
    dsimp only
    rw [if_neg (show ¬ s.expectedHash ≠ s.fileRef.baseDigest from fun hne => hne rfl), hpending]
    rfl
  refine ⟨_, ?_, hexec.trans hreplay⟩
  exact outcome_wrote hr rfl rfl rfl rfl

/-- A file without a progress row that is not as staged stops the recovery. -/
theorem exec_recoverFile_changed (hr : Reports r committed conflicted) (houtcome : txn.outcomeOf i = none)
    (h : asStaged e w s = false) :
    (recoverFile e mode txn resume i s.fileRef r).exec (honest e) w = (.error (refusal e w s), w) := by
  rw [recoverFile, houtcome]
  simp only [hr.goes, Bool.false_eq_true, if_false]
  have hexec := exec_readWhole (e := e) s.rel w
  cases hread : readAnswer e s.rel (w.files s.rel) with
  | error err =>
    rw [refusal, hread]
    exact Fallible.exec_bind_error (hexec.trans (by rw [hread]))
  | ok x =>
    rw [refusal, hread]
    refine (Fallible.exec_bind_ok (hexec.trans (by rw [hread]))).trans ?_
    obtain ⟨content, hash⟩ := x
    -- what was read has the digest of the file
    have hhash : ¬ hash = s.expectedHash := by
      cases hc : w.files s.rel with
      | none => simp [hc, readAnswer] at hread
      | some c =>
        rw [hc, readAnswer] at hread
        split at hread
        · cases hread
        · obtain ⟨rfl, rfl⟩ := Prod.mk.inj (Except.ok.inj hread)
          simpa [asStaged, hc] using h
    dsimp only
    rw [if_pos (show hash ≠ s.fileRef.baseDigest from hhash)]
    rfl

/-- The requests of the files from number `i` on. -/
def RequestsOf (e : EditEngine D) (mode : RepairMode) (resume : EditTxnResume D) (i : ℕ)
    (files : List (StagedEdit D)) : Prop :=
  ∀ j s, files[j]? = some s → ∃ req, resume.reqs[i + j]? = some req ∧ StagedBy e mode req s

theorem RequestsOf.tail {resume : EditTxnResume D} {files : List (StagedEdit D)}
    (h : RequestsOf e mode resume i (s :: files)) : RequestsOf e mode resume (i + 1) files := by
  intro j s' hj
  rw [Nat.add_assoc, Nat.add_comm 1 j]
  exact h (j + 1) s' hj

section

variable (hdigest : Function.Injective e.digest) (hforward : txn.strategy = .rollForward)
  (hr : Reports r committed conflicted) (houtcome : ∀ j, i ≤ j → txn.outcomeOf j = none)
include hdigest hforward hr houtcome

/-- Files without progress rows that are as staged are all written. -/
theorem exec_recoverLoop_asStaged {resume : EditTxnResume D} (hreqs : RequestsOf e mode resume i back)
    (hpaths : (back.map StagedEdit.rel).Nodup) (h : ∀ s ∈ back, asStaged e w s = true) :
    ∃ r', Reports r' (committed ++ back.map StagedEdit.rel) conflicted ∧
      (recoverLoop e mode txn (some resume) i (back.map StagedEdit.fileRef) r).exec (honest e) w =
        (.ok r', writeFiles txn.txnId i back w) := by
  induction back generalizing i r committed w with
  | nil => exact ⟨r, by simpa using hr, rfl⟩
  | cons s back ih =>
    obtain ⟨hrel, hrest⟩ := List.nodup_cons.mp hpaths
    obtain ⟨req, hreq, hs⟩ := hreqs 0 s rfl
    obtain ⟨r', hr', hfirst⟩ := exec_recoverFile_asStaged hdigest hforward hr (houtcome i (le_refl i))
      hreq hs (h s List.mem_cons_self)
    have hback : ∀ s' ∈ back, asStaged e (writeFile txn.txnId i s w) s' = true := by
      intro s' hs'
      rw [asStaged_writeFile fun heq => hrel (heq ▸ List.mem_map_of_mem hs')]
      exact h s' (List.mem_cons_of_mem _ hs')
    obtain ⟨r'', hr'', hexec⟩ :=
      ih hr' (fun j hj => houtcome j (Nat.le_of_succ_le hj)) hreqs.tail hrest hback
    refine ⟨r'', by simpa using hr'', ?_⟩
    rw [List.map_cons, recoverLoop]
    exact (Fallible.exec_bind_ok hfirst).trans hexec

/-- The first file without a progress row that is not as staged ends the recovery. -/
theorem exec_recoverLoop_changed {resume : EditTxnResume D} (hreqs : RequestsOf e mode resume i back)
    (hpaths : (back.map StagedEdit.rel).Nodup) {c : StagedEdit D} {after : List (StagedEdit D)}
    (h : back.dropWhile (asStaged e w) = c :: after) :
    (recoverLoop e mode txn (some resume) i (back.map StagedEdit.fileRef) r).exec (honest e) w =
      (.error (refusal e w c), writeFiles txn.txnId i (back.takeWhile (asStaged e w)) w) := by
  induction back generalizing i r committed w with
  | nil => cases h
  | cons s back ih =>
    obtain ⟨hrel, hrest⟩ := List.nodup_cons.mp hpaths
    rw [List.map_cons, recoverLoop]
    by_cases hs : asStaged e w s = true
    · rw [List.dropWhile_cons_of_pos hs] at h
      rw [List.takeWhile_cons_of_pos hs]
      obtain ⟨req, hreq, hstaged⟩ := hreqs 0 s rfl
      obtain ⟨r', hr', hfirst⟩ := exec_recoverFile_asStaged hdigest hforward hr (houtcome i (le_refl i))
        hreq hstaged hs
      have hne : ∀ s' ∈ back, s'.rel ≠ s.rel := fun s' hs' heq => hrel (heq ▸ List.mem_map_of_mem hs')
      obtain ⟨htake, hdrop⟩ := takeWhile_congr (p := asStaged e (writeFile txn.txnId i s w))
        (q := asStaged e w) fun s' hs' => asStaged_writeFile (hne s' hs')
      have hc : c ∈ back := (List.dropWhile_sublist _).subset (h ▸ List.mem_cons_self)
      have hrefusal : refusal e (writeFile txn.txnId i s w) c = refusal e w c := by
        rw [refusal, refusal, writeFile_of_ne (hne c hc)]
      rw [← hdrop] at h
      rw [← htake, ← hrefusal]
      exact (Fallible.exec_bind_ok hfirst).trans
        (ih hr' (fun j hj => houtcome j (Nat.le_of_succ_le hj)) hreqs.tail hrest h)
    · rw [List.dropWhile_cons_of_neg hs] at h
      rw [List.takeWhile_cons_of_neg hs]
      obtain ⟨rfl, -⟩ := List.cons.inj h
      exact Fallible.exec_bind_error
        (exec_recoverFile_changed hr (houtcome i (le_refl i)) (Bool.eq_false_iff.mpr hs))

end

end

/-- The request of a staged file. -/
theorem exists_request {files : List (StagedEdit D)} (h : List.Forall₂ (StagedBy e mode) reqs files)
    {j : ℕ} {s : StagedEdit D} (hj : files[j]? = some s) :
    ∃ req, reqs[j]? = some req ∧ StagedBy e mode req s := by
  induction h generalizing j with
  | nil => cases hj
  | cons hs _ ih =>
    cases j with
    | zero =>
      obtain rfl := Option.some.inj hj
      exact ⟨_, rfl, hs⟩
    | succ j => exact ih hj

section
variable {txn : ℕ} {resumes : List (EditTxnResume D)} {front conf back : List (StagedEdit D)}
  {w : World D}

/-- The recovery of a crashed transaction comes to the files without progress rows. -/
theorem exec_recoverOne_start (hstaged : StagedFiles e mode reqs (front ++ conf ++ back))
    (hresume : resumes.find? (·.txnId = txn) = some ⟨txn, reqs⟩) :
    ∃ r, Reports r (front.map StagedEdit.rel) (conf.map StagedEdit.rel) ∧
      (recoverOne e resumes mode (crashedTxn txn front conf back)).exec (honest e) w =
        Program.exec (honest e) (recoverLoop e mode (crashedTxn txn front conf back) (some ⟨txn, reqs⟩)
          (front.length + conf.length) (back.map StagedEdit.fileRef) r >>=
            finishRecovery e (crashedTxn txn front conf back) (some ⟨txn, reqs⟩) :
              Edit D RecoveryTxnOutcome) w := by
  have hvalid : validateOpenTxn (crashedTxn txn front conf back) = .ok () :=
    validateOpenTxn_crashedTxn hstaged.nonempty hstaged.paths
  have hcommitted : ∀ j, 0 ≤ j → j < 0 + front.length →
      (crashedTxn txn front conf back).outcomeOf j = some .committed := by
    intro j _ hlt
    rw [outcomeOf_crashedTxn, if_pos (by omega)]
  have hconflicted : ∀ j, 0 + front.length ≤ j → j < 0 + front.length + conf.length →
      (crashedTxn txn front conf back).outcomeOf j = some .conflicted := by
    intro j hle hlt
    rw [outcomeOf_crashedTxn, if_neg (by omega), if_pos (by omega)]
  have hstart : Reports (D := D) ⟨⟨txn, .rollForward, [], [], [], [], [], []⟩, [], [], false⟩ [] [] :=
    ⟨rfl, rfl, rfl, rfl⟩
  obtain ⟨r₁, hr₁, hfront⟩ := exec_recoverLoop_committed (e := e) hstart hcommitted mode
    (some ⟨txn, reqs⟩) (conf.map StagedEdit.fileRef ++ back.map StagedEdit.fileRef) w
  obtain ⟨r₂, hr₂, hconf⟩ := exec_recoverLoop_conflicted (e := e) hr₁ hconflicted mode
    (some ⟨txn, reqs⟩) (back.map StagedEdit.fileRef) w
  rw [List.nil_append] at hr₂
  rw [Nat.zero_add] at hfront hconf
  refine ⟨r₂, hr₂, ?_⟩
  refine (Fallible.exec_bind_ok ((exec_lift _ w).trans (by rw [hvalid]))).trans ?_
  have hfind : resumes.find? (·.txnId = (crashedTxn txn front conf back).txnId) = some ⟨txn, reqs⟩ := hresume
  dsimp only
  rw [hfind]
  rw [if_neg (by simp)]
  refine Fallible.exec_bind_congr ?_
  rw [← hconf, ← hfront, crashedTxn, List.map_append, List.map_append, List.append_assoc]

omit [DecidableEq D] in
theorem outcomeOf_crashedTxn_back :
    ∀ j, front.length + conf.length ≤ j → (crashedTxn txn front conf back).outcomeOf j = none := by
  intro j hle
  rw [outcomeOf_crashedTxn, if_neg (by omega), if_neg (by omega)]

theorem StagedFiles.requestsOf (hstaged : StagedFiles e mode reqs (front ++ conf ++ back)) :
    RequestsOf e mode ⟨txn, reqs⟩ (front.length + conf.length) back := by
  intro j s hj
  refine exists_request hstaged.staged ?_
  rw [← List.length_append, List.getElem?_append_right (Nat.le_add_right _ _), Nat.add_sub_cancel_left, hj]

theorem StagedFiles.paths_back (hstaged : StagedFiles e mode reqs (front ++ conf ++ back)) :
    (back.map StagedEdit.rel).Nodup :=
  ((List.sublist_append_right (front ++ conf) back).map StagedEdit.rel).nodup hstaged.paths

section

variable (hdigest : Function.Injective e.digest)
  (hstaged : StagedFiles e mode reqs (front ++ conf ++ back))
  (hresume : resumes.find? (·.txnId = txn) = some ⟨txn, reqs⟩)
include hdigest hstaged hresume

/-- A recovery that finds every file without a progress row as staged. -/
theorem exec_recoverOne_asStaged (h : ∀ s ∈ back, asStaged e w s = true) :
    ∃ out w', (recoverOne e resumes mode (crashedTxn txn front conf back)).exec (honest e) w =
        (.ok out, w') ∧
      out.committed = (front ++ back).map StagedEdit.rel ∧ out.conflicted = conf.map StagedEdit.rel ∧
      out.skipped = [] ∧ w'.files = writeAll back w.files ∧ txn ∈ w'.rows.filterMap Row.terminal? := by
  obtain ⟨r, hr, hstart⟩ := exec_recoverOne_start (w := w) hstaged hresume
  obtain ⟨r', hr', hloop⟩ := exec_recoverLoop_asStaged hdigest rfl hr outcomeOf_crashedTxn_back
    hstaged.requestsOf hstaged.paths_back h
  -- a roll-forward transaction ends in its `committed` row
  have hfinish : ∀ w₁ : World D, (finishRecovery e (crashedTxn txn front conf back) (some ⟨txn, reqs⟩) r').exec
      (honest e) w₁ = (.ok r'.outcome, { w₁ with rows := w₁.rows ++
        [.committed txn r'.outcome.committed r'.outcome.conflicted r'.outcome.skipped] }) := by
    intro w₁
    rw [finishRecovery, if_neg fun hback => by cases hback.1]
    exact Fallible.exec_bind_ok (exec_record _ _)
  refine ⟨r'.outcome, _, hstart.trans ((Fallible.exec_bind_ok hloop).trans (hfinish _)), ?_,
    hr'.conflicted, hr'.skipped, writeFiles_files, ?_⟩
  · rw [hr'.committed, List.map_append]
  · simp [Row.terminal?]

/-- A recovery that finds a file without a progress row changed. -/
theorem exec_recoverOne_changed {c : StagedEdit D} {after : List (StagedEdit D)}
    (h : back.dropWhile (asStaged e w) = c :: after) :
    (recoverOne e resumes mode (crashedTxn txn front conf back)).exec (honest e) w =
      (.error (refusal e w c),
        writeFiles txn (front.length + conf.length) (back.takeWhile (asStaged e w)) w) := by
  obtain ⟨r, hr, hstart⟩ := exec_recoverOne_start (w := w) hstaged hresume
  refine hstart.trans (Fallible.exec_bind_error ?_)
  exact exec_recoverLoop_changed hdigest rfl hr outcomeOf_crashedTxn_back
    hstaged.requestsOf hstaged.paths_back h

end

end

/-! ## The commit and the recovery, side by side -/

/-- Every file that was written has its progress row. -/
def Journaled (txn : ℕ) (w w' : World D) : Prop :=
  ∀ path, w'.files path ≠ w.files path → ∃ row ∈ progressOf w'.rows txn, row.path = path

section
variable {txn : ℕ} {session : String} {files : List (StagedEdit D)} {rows : List (Row D)} {w w' : World D}

/-- A crash that leaves no file ambiguous: the first files are written, or one conflicted after them. -/
theorem CrashPoint.split (hpaths : (files.map StagedEdit.rel).Nodup) (hrows : ∀ row ∈ rows, row.txn ≠ txn)
    (hw : w.rows = rows ++ [.prepared txn session (files.map StagedEdit.fileRef) .rollForward])
    (h : CrashPoint e txn 0 files w w') (hjournaled : Journaled txn w w') :
    ∃ front conf back, files = front ++ conf ++ back ∧ (∀ s ∈ front, asStaged e w s = true) ∧
      (conf = [] ∨ ∃ c, conf = [c] ∧ asStaged e w c = false) ∧ w'.files = writeAll front w.files ∧
      w'.rows = w.rows ++ (progressAfter front conf).map (Row.progress txn) := by
  have hprogress : progressOf w.rows txn = [] := by
    rw [hw, progressOf_append, progressOf_others hrows]
    rfl
  cases h with
  | journaled front back hfiles hfront =>
    refine ⟨front, [], back, by rw [hfiles, List.append_nil], hfront, Or.inl rfl, writeFiles_files, ?_⟩
    rw [writeFiles_rows, progressAfter, progressRows, List.append_nil]
  | unjournaled front back s hfiles hfront =>
    -- the file has no progress row, so its write changed nothing
    have hrel : s.rel ∉ front.map StagedEdit.rel := by
      intro hmem
      rw [hfiles, List.map_append, List.map_cons, List.nodup_middle] at hpaths
      exact (List.nodup_cons.mp hpaths).1 (List.mem_append_left _ hmem)
    have hsame : some (.utf8 s.edited) = (writeFiles txn 0 front w).files s.rel := by
      by_contra hne
      have hbefore : (writeFiles txn 0 front w).files s.rel = w.files s.rel := by
        rw [writeFiles_files, writeAll_of_not_mem hrel]
      obtain ⟨row, hrow, hpath⟩ := hjournaled s.rel (by
        dsimp only
        rw [Function.update_self, ← hbefore]
        exact hne)
      simp only [writeFiles_rows, progressOf_append, hprogress, List.nil_append,
        progressOf_map_progress] at hrow
      exact hrel (hpath ▸ (mem_progressRows hrow).2.2.2)
    refine ⟨front, [], s :: back, by rw [hfiles, List.append_nil], hfront, Or.inl rfl, ?_, ?_⟩
    · rw [hsame, Function.update_eq_self, writeFiles_files]
    · rw [writeFiles_rows, progressAfter, progressRows, List.append_nil]
  | conflicted front back c hfiles hfront hc =>
    refine ⟨front, [c], back, by rw [hfiles, List.append_assoc]; rfl, hfront, Or.inr ⟨c, rfl, hc⟩,
      writeFiles_files, ?_⟩
    simp only [writeFiles_rows, progressAfter, progressRows, List.map_append, List.append_assoc,
      Nat.zero_add]
    rfl

omit [DecidableEq D] in
theorem hasConflictPre_crashedTxn {front conf back : List (StagedEdit D)} :
    (crashedTxn txn front conf back).hasConflictPre = !conf.isEmpty := by
  rw [OpenEditTxn.hasConflictPre, crashedTxn, progressAfter, List.any_append]
  have hfront : ∀ k, (progressRows .committed k front).any (·.outcome = .conflicted) = false := by
    intro k
    refine List.any_eq_false.mpr fun row hrow => ?_
    rw [(mem_progressRows hrow).2.2.1]
    decide
  rw [hfront, Bool.false_or]
  cases conf with
  | nil => rfl
  | cons c rest => rfl

omit [DecidableEq D] in
variable {refs : List (EditTxnFileRef D)}

/-- A transaction with its `prepared` row and progress rows only is open. -/
theorem exists_open {progress : List TxnProgressRow}
    (hrows : ∀ row ∈ rows, row.txn ≠ txn) :
    ∃ o ∈ openTransactions (rows ++ [.prepared txn session refs .rollForward] ++
      progress.map (Row.progress txn)), o.txnId = txn := by
  have hterminal : txn ∉ (rows ++ [Row.prepared txn session refs .rollForward] ++
      progress.map (Row.progress txn)).filterMap Row.terminal? := by
    intro hmem
    obtain ⟨row, hrow, hrowTxn⟩ := List.mem_filterMap.mp hmem
    rw [List.append_assoc, List.mem_append, List.mem_append, List.mem_singleton] at hrow
    rcases hrow with hold | rfl | hprogress
    · refine hrows row hold ?_
      cases row with
      | prepared => cases hrowTxn
      | progress => cases hrowTxn
      | committed => exact Option.some.inj hrowTxn
      | rolledBack => exact Option.some.inj hrowTxn
    · cases hrowTxn
    · obtain ⟨_, -, rfl⟩ := List.mem_map.mp hprogress
      cases hrowTxn
  refine ⟨⟨txn, .rollForward, refs, (progressOf (rows ++ [Row.prepared txn session refs .rollForward] ++
    progress.map (Row.progress txn)) txn).insertionSort fun a b => a.seq ≤ b.seq⟩,
    List.mem_filterMap.mpr ⟨Row.prepared txn session refs .rollForward, ?_, ?_⟩, rfl⟩
  · simp
  · simp only [openTxn?, if_neg hterminal]

omit [DecidableEq D] in
/-- A transaction that has ended is not open. -/
theorem txnId_ne_of_terminal (h : txn ∈ rows.filterMap Row.terminal?) {o : OpenEditTxn D}
    (ho : o ∈ openTransactions rows) : o.txnId ≠ txn := by
  rintro rfl
  obtain ⟨row, -, hopen⟩ := List.mem_filterMap.mp ho
  cases row with
  | progress => cases hopen
  | committed => cases hopen
  | rolledBack => cases hopen
  | prepared t _ refs strategy =>
    simp only [openTxn?] at hopen
    split at hopen
    · cases hopen
    · rename_i hterminal
      obtain rfl := Option.some.inj hopen
      exact hterminal h

/-- The files that a commit writes: those before the first one that was changed. -/
def writtenFiles (e : EditEngine D) (w : World D) (files : List (StagedEdit D)) : List (StagedEdit D) :=
  files.takeWhile (asStaged e w)

/-- The files that a commit skips: those after the first one that was changed. -/
def skippedFiles (e : EditEngine D) (w : World D) (files : List (StagedEdit D)) : List (StagedEdit D) :=
  (files.dropWhile (asStaged e w)).tail

/-- What an uninterrupted commit reports and leaves. -/
structure CommitLeaves (e : EditEngine D) (w : World D) (files : List (StagedEdit D)) (run : CommitRun D)
    (done : World D) : Prop where
  committed : run.committed.map Prod.fst = (writtenFiles e w files).map StagedEdit.rel
  conflicted : run.conflicted = ((files.dropWhile (asStaged e w)).take 1).map StagedEdit.rel
  skipped : run.skipped = (skippedFiles e w files).map StagedEdit.rel
  files : done.files = writeAll (writtenFiles e w files) w.files

/-- A recovery that refuses: the transaction stays open. -/
def Refused (txn : ℕ) (result : Except EditError RecoveryTxnOutcome) (after : World D) : Prop :=
  (∃ err, result = .error err) ∧ ∃ o ∈ openTransactions after.rows, o.txnId = txn

/-- A recovery that succeeds with the given files written, conflicted and skipped. -/
def Recovered (result : Except EditError RecoveryTxnOutcome)
    (committed conflicted skipped : List String) : Prop :=
  ∃ out, result = .ok out ∧ out.committed = committed ∧ out.conflicted = conflicted ∧ out.skipped = skipped

/-- What a recovery of an open transaction reports and leaves, beside the commit: the same when no file was
changed; the same files, and a refusal, when the conflict is not journaled; and the skipped files as well, up
to the next changed one, when it is. -/
structure RecoveryLeaves (e : EditEngine D) (w : World D) (txn : ℕ) (files : List (StagedEdit D))
    (run : CommitRun D) (done : World D) (conflictJournaled : Bool)
    (result : Except EditError RecoveryTxnOutcome) (after : World D) : Prop where
  unchanged : run.conflicted = [] → after.files = done.files ∧
    Recovered result (run.committed.map Prod.fst) run.conflicted run.skipped
  refuses : run.conflicted ≠ [] → conflictJournaled = false →
    after.files = done.files ∧ Refused txn result after
  goesOn : conflictJournaled = true →
    after.files = writeAll ((skippedFiles e w files).takeWhile (asStaged e w)) done.files
  goesOnToEnd : conflictJournaled = true → (∀ s ∈ skippedFiles e w files, asStaged e w s = true) →
    Recovered result (run.committed.map Prod.fst ++ run.skipped) run.conflicted []
  goesOnToChange : conflictJournaled = true → (∃ s ∈ skippedFiles e w files, asStaged e w s = false) →
    Refused txn result after

variable {done : World D}

/-- The recovery of a transaction that crashed before a conflict was journaled. -/
theorem recoveryLeaves_of_written (hdigest : Function.Injective e.digest)
    {resumes : List (EditTxnResume D)} {front back : List (StagedEdit D)} {run : CommitRun D}
    (hstaged : StagedFiles e mode reqs (front ++ [] ++ back))
    (hresume : resumes.find? (·.txnId = txn) = some ⟨txn, reqs⟩) (hrows : ∀ row ∈ rows, row.txn ≠ txn)
    (hw : w.rows = rows ++ [.prepared txn session refs .rollForward])
    (hfront : ∀ s ∈ front, asStaged e w s = true) (hfiles : w'.files = writeAll front w.files)
    (hprogress : w'.rows = w.rows ++ (progressAfter front []).map (Row.progress txn))
    (hsame : ∀ s ∈ back, asStaged e w' s = asStaged e w s)
    (hcommit : CommitLeaves e w (front ++ [] ++ back) run done) :
    ∃ result after, (recoverOne e resumes mode (crashedTxn txn front [] back)).exec (honest e) w' =
        (result, after) ∧
      RecoveryLeaves e w txn (front ++ [] ++ back) run done false result after := by
  obtain ⟨htake, hdrop⟩ := takeWhile_congr hsame
  have hwritten : writtenFiles e w (front ++ [] ++ back) = front ++ back.takeWhile (asStaged e w) := by
    rw [writtenFiles, List.append_nil, List.takeWhile_append_of_pos hfront]
  have hrest : (front ++ [] ++ back).dropWhile (asStaged e w) = back.dropWhile (asStaged e w) := by
    rw [List.append_nil, List.dropWhile_append_of_pos hfront]
  have hconflicted := hcommit.conflicted
  have hdone := hcommit.files
  rw [hrest] at hconflicted
  rw [hwritten, writeAll_append, ← hfiles] at hdone
  cases hback : back.dropWhile (asStaged e w) with
  | nil =>
    rw [hback] at hconflicted
    have hall : ∀ s ∈ back, asStaged e w s = true := List.dropWhile_eq_nil_iff.mp hback
    obtain ⟨out, after, hexec, hout, houtConflicted, houtSkipped, hafter, -⟩ :=
      exec_recoverOne_asStaged hdigest hstaged hresume fun s hs => (hsame s hs).trans (hall s hs)
    rw [List.takeWhile_eq_self_iff.mpr hall] at hwritten hdone
    refine ⟨_, after, hexec, ⟨fun _ => ⟨hafter.trans hdone.symm, out, rfl, ?_, ?_, ?_⟩,
      fun hne => absurd hconflicted hne, nofun, nofun, nofun⟩⟩
    · rw [hout, hcommit.committed, hwritten]
    · rw [houtConflicted, hconflicted]
      rfl
    · rw [houtSkipped, hcommit.skipped, skippedFiles, hrest, hback]
      rfl
  | cons c after =>
    rw [hback] at hconflicted
    have hexec := exec_recoverOne_changed hdigest hstaged hresume (hdrop.trans hback)
    refine ⟨_, _, hexec, ⟨fun hnil => ?_, fun _ _ => ⟨?_, ⟨_, rfl⟩, ?_⟩, nofun, nofun, nofun⟩⟩
    · rw [hconflicted] at hnil
      cases hnil
    · rw [writeFiles_files, htake, hdone]
    · rw [writeFiles_rows, hprogress, hw, List.append_assoc _ _ (List.map _ _), ← List.map_append]
      exact exists_open hrows

/-- The recovery of a transaction whose conflict was journaled. -/
theorem recoveryLeaves_of_conflicted (hdigest : Function.Injective e.digest)
    {resumes : List (EditTxnResume D)} {front back : List (StagedEdit D)} {c : StagedEdit D}
    {run : CommitRun D}
    (hstaged : StagedFiles e mode reqs (front ++ [c] ++ back))
    (hresume : resumes.find? (·.txnId = txn) = some ⟨txn, reqs⟩) (hrows : ∀ row ∈ rows, row.txn ≠ txn)
    (hw : w.rows = rows ++ [.prepared txn session refs .rollForward])
    (hfront : ∀ s ∈ front, asStaged e w s = true) (hc : asStaged e w c = false)
    (hfiles : w'.files = writeAll front w.files)
    (hprogress : w'.rows = w.rows ++ (progressAfter front [c]).map (Row.progress txn))
    (hsame : ∀ s ∈ back, asStaged e w' s = asStaged e w s)
    (hcommit : CommitLeaves e w (front ++ [c] ++ back) run done) :
    ∃ result after, (recoverOne e resumes mode (crashedTxn txn front [c] back)).exec (honest e) w' =
        (result, after) ∧
      RecoveryLeaves e w txn (front ++ [c] ++ back) run done true result after := by
  obtain ⟨htake, hdrop⟩ := takeWhile_congr hsame
  have hwritten : writtenFiles e w (front ++ [c] ++ back) = front := by
    rw [writtenFiles, List.append_assoc, List.takeWhile_append_of_pos hfront]
    simp [hc]
  have hrest : (front ++ [c] ++ back).dropWhile (asStaged e w) = c :: back := by
    rw [List.append_assoc, List.dropWhile_append_of_pos hfront]
    simp [hc]
  have hskipped : skippedFiles e w (front ++ [c] ++ back) = back := by
    rw [skippedFiles, hrest]
    rfl
  have hconflicted := hcommit.conflicted
  have hdone := hcommit.files
  rw [hrest] at hconflicted
  rw [hwritten, ← hfiles] at hdone
  have hne : run.conflicted ≠ [] := by
    rw [hconflicted]
    exact List.cons_ne_nil _ _
  cases hback : back.dropWhile (asStaged e w) with
  | nil =>
    have hall : ∀ s ∈ back, asStaged e w s = true := List.dropWhile_eq_nil_iff.mp hback
    obtain ⟨out, after, hexec, hout, houtConflicted, houtSkipped, hafter, -⟩ :=
      exec_recoverOne_asStaged hdigest hstaged hresume fun s hs => (hsame s hs).trans (hall s hs)
    refine ⟨_, after, hexec, ⟨fun hnil => absurd hnil hne, nofun, fun _ => ?_,
      fun _ _ => ⟨out, rfl, ?_, ?_, houtSkipped⟩, fun _ hex => ?_⟩⟩
    · rw [hafter, hskipped, List.takeWhile_eq_self_iff.mpr hall, hdone]
    · rw [hout, List.map_append, hcommit.committed, hwritten, hcommit.skipped, hskipped]
    · rw [houtConflicted, hconflicted]
      rfl
    · obtain ⟨s, hs, hchanged⟩ := hex
      rw [hskipped] at hs
      exact absurd (hall s hs) (Bool.eq_false_iff.mp hchanged)
  | cons d after =>
    have hexec := exec_recoverOne_changed hdigest hstaged hresume (hdrop.trans hback)
    refine ⟨_, _, hexec, ⟨fun hnil => absurd hnil hne, nofun, fun _ => ?_,
      fun _ hall => ?_, fun _ _ => ⟨⟨_, rfl⟩, ?_⟩⟩⟩
    · rw [writeFiles_files, htake, hskipped, hdone]
    · rw [hskipped] at hall
      rw [List.dropWhile_eq_nil_iff.mpr hall] at hback
      cases hback
    · rw [writeFiles_rows, hprogress, hw, List.append_assoc _ _ (List.map _ _), ← List.map_append]
      exact exists_open hrows

theorem worlds_commitPrepared (strategy : EditTxnStrategy) :
    (commitPrepared ⟨txn, strategy, files⟩).worlds (honest e) w =
      w :: w :: (commitLoop txn strategy 0 files [] CommitRun.empty).worlds (honest e) w := rfl

/-- **Recovery after a crash, beside the commit that did not crash.**  Files were changed by others before
the commit, and the crash left no file ambiguous.  A crash after the terminal row leaves what the commit
leaves; otherwise the transaction is open, and its recovery leaves what `RecoveryLeaves` says. -/
theorem recovery_after_crash (hdigest : Function.Injective e.digest) {resumes : List (EditTxnResume D)}
    {prepared : PreparedEdit D} {w₀ w₁ : World D} (hfresh : ∀ row ∈ w₀.rows, row.txn ≠ txn)
    (hbegin : (beginMultiFileEdit e reqs mode .rollForward txn session).exec (honest e) w₀ =
      (.ok prepared, w₁))
    (hothers : w.rows = w₁.rows) (hcrash : w' ∈ (commitPrepared prepared).worlds (honest e) w)
    (hjournaled : Journaled txn w w')
    (hresume : resumes.find? (·.txnId = txn) = some ⟨txn, reqs⟩) :
    ∃ run done, (commitPrepared prepared).exec (honest e) w = (.ok run, done) ∧
      CommitLeaves e w prepared.files run done ∧
      ((∀ o ∈ openTransactions w'.rows, o.txnId ≠ txn) → w' = done) ∧
      ∀ o ∈ openTransactions w'.rows, o.txnId = txn → ∃ result after,
        (recoverOne e resumes mode o).exec (honest e) w' = (result, after) ∧
        RecoveryLeaves e w txn prepared.files run done o.hasConflictPre result after := by
  obtain ⟨hstaged, rfl, hstrategy, hw₁⟩ := exec_beginMultiFileEdit hbegin
  obtain ⟨t, strategy, files⟩ := prepared
  obtain rfl : strategy = .rollForward := hstrategy
  dsimp only at *
  have hw : w.rows = w₀.rows ++ [.prepared t session (files.map StagedEdit.fileRef) .rollForward] := by
    rw [hothers, hw₁]
  obtain ⟨run, done, hexec, hcommitted, hconflicted, hskipped, hdone, hterminal⟩ :=
    exec_commitLoop (e := e) (i := 0) (w := w) t hstaged.paths [] CommitRun.empty rfl
  have hcommit : CommitLeaves e w files run done := ⟨hcommitted, hconflicted, hskipped, hdone⟩
  have hpoint : CrashPoint e t 0 files w w' ∨ w' = done := by
    have hstart : CrashPoint e t 0 files w w :=
      .journaled [] files rfl fun _ h => absurd h List.not_mem_nil
    rw [worlds_commitPrepared, List.mem_cons, List.mem_cons] at hcrash
    rcases hcrash with rfl | rfl | hcrash
    · exact Or.inl hstart
    · exact Or.inl hstart
    · refine (mem_worlds_commitLoop hstaged.paths hcrash).imp_right fun hend => hend.trans ?_
      rw [hexec]
  refine ⟨run, done, hexec, hcommit, fun hnone => ?_, fun o ho htxn => ?_⟩
  · refine hpoint.resolve_left fun hcrashed => ?_
    obtain ⟨front, conf, back, -, -, -, -, hrows'⟩ := hcrashed.split hstaged.paths hfresh hw hjournaled
    rw [hrows', hw] at hnone
    obtain ⟨o, ho, htxn⟩ := exists_open hfresh
    exact hnone o ho htxn
  · rcases hpoint with hcrashed | rfl
    · obtain ⟨front, conf, back, rfl, hfront, hconf, hfiles, hrows'⟩ :=
        hcrashed.split hstaged.paths hfresh hw hjournaled
      have ho' := ho
      rw [hrows', hw] at ho'
      obtain rfl := openTransactions_crashed hfresh ho' htxn
      have hsame : ∀ s ∈ back, asStaged e w' s = asStaged e w s := by
        intro s hs
        refine asStaged_congr ?_
        rw [hfiles, writeAll_of_not_mem fun hmem => ?_]
        have hpaths := hstaged.paths
        rw [List.map_append, List.map_append] at hpaths
        have hdisjoint := (List.nodup_append.mp hpaths).2.2 s.rel (List.mem_append_left _ hmem) s.rel
          (List.mem_map_of_mem hs)
        exact hdisjoint rfl
      rw [hasConflictPre_crashedTxn]
      rcases hconf with rfl | ⟨c, rfl, hc⟩
      · exact recoveryLeaves_of_written hdigest hstaged hresume hfresh hw hfront hfiles hrows' hsame hcommit
      · exact recoveryLeaves_of_conflicted hdigest hstaged hresume hfresh hw hfront hc hfiles hrows' hsame
          hcommit
    · exact absurd htxn (txnId_ne_of_terminal hterminal ho)

end

/-- Three files, each of which the edit makes from `x` into `y`. -/
def threeEdits : List (EditRequest Content) :=
  ["f1", "f2", "f3"].map fun path => ⟨path, .utf8 ['x'], [.searchReplace ['x'] ['y']]⟩

def threePrepared : PreparedEdit Content :=
  ⟨0, .rollForward, ["f1", "f2", "f3"].map fun path =>
    ⟨path, .utf8 ['x'], 1, .utf8 ['x'], ['y'], 1, false⟩⟩

def threePreparedRow : Row Content :=
  .prepared 0 "s" (threePrepared.files.map StagedEdit.fileRef) .rollForward

def threeFiles : String → Option Content := fun _ => some (.utf8 ['x'])

/-- After the edit was prepared, another writer changed the second file. -/
def secondChanged : World Content :=
  ⟨Function.update threeFiles "f2" (some (.utf8 ['z'])), [threePreparedRow]⟩

/-- The commit crashed right after it journaled the conflict of the second file. -/
def conflictJournaled : World Content :=
  ⟨Function.update secondChanged.files "f1" (some (.utf8 ['y'])),
    [threePreparedRow, .progress 0 ⟨0, "f1", .committed⟩, .progress 0 ⟨1, "f2", .conflicted⟩]⟩

theorem threePrepared_begin :
    (beginMultiFileEdit plainEngine threeEdits .rollback .rollForward 0 "s").exec (honest plainEngine)
      ⟨threeFiles, []⟩ = (.ok threePrepared, ⟨threeFiles, [threePreparedRow]⟩) := rfl

theorem conflictJournaled_mem :
    conflictJournaled ∈ (commitPrepared threePrepared).worlds (honest plainEngine) secondChanged :=
  List.mem_of_getElem? (i := 6) rfl

theorem journaled_conflictJournaled : Journaled 0 secondChanged conflictJournaled := by
  intro path hpath
  by_cases hfirst : path = "f1"
  · exact ⟨⟨0, "f1", .committed⟩, List.mem_cons_self, hfirst.symm⟩
  · exact absurd (Function.update_of_ne hfirst _ _) hpath

/-- The recovery of the crashed commit succeeds, beside the commit that did not crash. -/
theorem recovery_after_crash_conflictJournaled :
    ∃ run done, (commitPrepared threePrepared).exec (honest plainEngine) secondChanged = (.ok run, done) ∧
      ∀ o ∈ openTransactions conflictJournaled.rows, o.txnId = 0 → ∃ result after,
        (recoverOne plainEngine [⟨0, threeEdits⟩] .rollback o).exec (honest plainEngine) conflictJournaled =
          (result, after) ∧
        RecoveryLeaves plainEngine secondChanged 0 threePrepared.files run done o.hasConflictPre result
          after := by
  have hresume : ([⟨0, threeEdits⟩] : List (EditTxnResume Content)).find? (·.txnId = 0) =
      some ⟨0, threeEdits⟩ := rfl
  obtain ⟨run, done, hexec, -, -, hrecovery⟩ := recovery_after_crash (w := secondChanged)
    (fun _ _ h => h) (fun _ h => absurd h List.not_mem_nil) threePrepared_begin rfl conflictJournaled_mem
    journaled_conflictJournaled hresume
  exact ⟨run, done, hexec, hrecovery⟩

/-- The commit skips the third file; the recovery of the commit that crashed writes it. -/
theorem conflictJournaled_recovery_writes_skipped :
    (beginMultiFileEdit plainEngine threeEdits .rollback .rollForward 0 "s").exec (honest plainEngine)
      ⟨threeFiles, []⟩ = (.ok threePrepared, ⟨threeFiles, [threePreparedRow]⟩) ∧
    conflictJournaled ∈ (commitPrepared threePrepared).worlds (honest plainEngine) secondChanged ∧
    Journaled 0 secondChanged conflictJournaled ∧
    (∃ run done, (commitPrepared threePrepared).exec (honest plainEngine) secondChanged = (.ok run, done) ∧
      run.skipped = ["f3"] ∧ done.files "f3" = some (.utf8 ['x'])) ∧
    ∃ out after, (recoverEditTransactions plainEngine [⟨0, threeEdits⟩] .rollback).exec
        (honest plainEngine) conflictJournaled = (.ok [out], after) ∧
      out.committed = ["f1", "f3"] ∧ out.skipped = [] ∧ after.files "f3" = some (.utf8 ['y']) :=
  ⟨threePrepared_begin, conflictJournaled_mem, journaled_conflictJournaled,
    ⟨_, _, rfl, rfl, rfl⟩, ⟨_, _, rfl, rfl, rfl, rfl⟩⟩

end EditTxn
