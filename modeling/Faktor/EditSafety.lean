/-
# No content is lost to an edit transaction

Files may be changed by others between any two calls of the engine, a journal write may fail before or
after its row is there, and a run may crash anywhere and be followed by any number of recoveries.  Through
all of it a compare-and-swap of the engine replaces only content that the transaction was staged on or wrote
itself; a recovery that succeeds journals one terminal row for each open transaction, and the next one does
nothing.

* `machine` : what the calls of the engine do, and what others may do;
* `Does` : a part of the engine under the rules of `Crash.Machine.wp`, by what it does to the journal;
* `does_recoverEditTransactions` : what a successful recovery journals;
* `crash_recovery_safe` : the guarantees in every reachable world.
-/
import Mathlib
import Faktor.EditModel

namespace EditTxn

open TextBytes Crash

variable {D : Type} {α β : Type}

/-! ## The world of the engine -/

/-- The files of the workspace and the rows of the journal. -/
structure World (D : Type) where
  files : String → Option Content
  rows : List (Row D)

/-- What a call does and answers.  A read or a check may always fail; a compare-and-swap that answers has
replaced a content with the expected digest, and one that does not has changed nothing; a journal write that
fails may still have left its row. -/
def performs (e : EditEngine D) (w : World D) : (o : Op D) → Ret o → World D → Prop
  | .verify, _, w' => w' = w
  | .budgetSpent, _, w' => w' = w
  | .read path, r, w' => w' = w ∧ ∀ c, r = some c → w.files path = some c
  | .cas path expected new, r, w' =>
    (r = none ∧ w' = w) ∨
      ∃ c, r = some (e.digest new) ∧ w.files path = some c ∧ e.digest c = expected ∧
        w' = { w with files := Function.update w.files path (some new) }
  | .record row, r, w' =>
    w' = { w with rows := w.rows ++ [row] } ∨ (r = false ∧ w' = w)
  | .openTxns, r, w' => w' = w ∧ ∀ l, r = some l → l = openTransactions w.rows
  | .beforeContent _ _, _, w' => w' = w

/-- The engine among others, who may change files and not the journal. -/
def machine (e : EditEngine D) : Machine (Op D) Ret (World D) where
  perform := performs e
  disturb w w' := w'.rows = w.rows
  disturb_refl _ := rfl
  disturb_trans h h' := h'.trans h

/-- The outcome of a call when nothing fails and nothing runs out: a compare-and-swap is refused only for a
file that is not as expected. -/
def honest [DecidableEq D] (e : EditEngine D) (w : World D) : (o : Op D) → Ret o × World D
  | .verify => (true, w)
  | .budgetSpent => (false, w)
  | .read path => (w.files path, w)
  | .cas path expected new =>
    match w.files path with
    | some c =>
      if e.digest c = expected then
        (some (e.digest new), { w with files := Function.update w.files path (some new) })
      else (none, w)
    | none => (none, w)
  | .record row => (true, { w with rows := w.rows ++ [row] })
  | .openTxns => (some (openTransactions w.rows), w)
  | .beforeContent _ _ => (none, w)

theorem performs_honest [DecidableEq D] (e : EditEngine D) (w : World D) (o : Op D) :
    performs e w o (honest e w o).1 (honest e w o).2 := by
  cases o with
  | verify => rfl
  | budgetSpent => rfl
  | read path => exact ⟨rfl, fun _ h => h⟩
  | cas path expected new =>
    simp only [honest]
    split
    · rename_i c hc
      split
      · rename_i hdigest
        exact Or.inr ⟨c, rfl, hc, hdigest, rfl⟩
      · exact Or.inl ⟨rfl, rfl⟩
    · exact Or.inl ⟨rfl, rfl⟩
  | record row => exact Or.inl rfl
  | openTxns => exact ⟨rfl, fun _ h => (Option.some.inj h).symm⟩
  | beforeContent txn path => rfl

/-! ## Contents that belong to a transaction -/

/-- The text that a request was staged on, and what its operations make of it. -/
def StagedOn (e : EditEngine D) (req : EditRequest D) (base target : Text) : Prop :=
  e.digest (.utf8 base) = req.expectedHash ∧ applyOps base req.ops = .ok target

/-- A digest that a transaction may replace at a path: of the content that one of its requests was staged
on, or of the content that its operations make of that. -/
def OwnDigest (e : EditEngine D) (reqs : List (EditRequest D)) (path : String) (digest : D) : Prop :=
  ∃ req ∈ reqs, req.path = path ∧
    (digest = req.expectedHash ∨ ∃ base target, StagedOn e req base target ∧ digest = e.digest (.utf8 target))

/-- The files of a `prepared` row are those of the requests. -/
def FilesOf (reqs : List (EditRequest D)) (files : List (EditTxnFileRef D)) : Prop :=
  files.map (fun f => (f.path, f.baseDigest)) = reqs.map fun r => (r.path, r.expectedHash)

/-- A journal in order: every transaction is prepared once, over the files of its requests. -/
structure JournalOk (requests : ℕ → List (EditRequest D)) (rows : List (Row D)) : Prop where
  files : ∀ txn session files strategy, Row.prepared txn session files strategy ∈ rows →
    FilesOf (requests txn) files
  once : (rows.filterMap Row.prepared?).Nodup

/-- A call that keeps to the rules: a compare-and-swap expects content of a transaction that the run is
about, and a transaction is prepared once, over the files of its requests. -/
def Guarded (e : EditEngine D) (requests : ℕ → List (EditRequest D)) (about : ℕ → Prop)
    (rows : List (Row D)) : Op D → Prop
  | .cas path expected _ => ∃ txn, about txn ∧ OwnDigest e (requests txn) path expected
  | .record (.prepared txn _ files _) =>
    FilesOf (requests txn) files ∧ txn ∉ rows.filterMap Row.prepared?
  | _ => True

theorem JournalOk.append {requests : ℕ → List (EditRequest D)} {e : EditEngine D} {rows : List (Row D)}
    {row : Row D} {about : ℕ → Prop} (h : JournalOk requests rows)
    (hguard : Guarded e requests about rows (.record row)) :
    JournalOk requests (rows ++ [row]) := by
  constructor
  · intro txn session files strategy hmem
    rcases List.mem_append.mp hmem with hold | hnew
    · exact h.files txn session files strategy hold
    · rw [List.mem_singleton] at hnew
      subst hnew
      exact hguard.1
  · rw [List.filterMap_append]
    cases row with
    | prepared txn session files strategy =>
      refine List.nodup_append.mpr ⟨h.once, by simp [Row.prepared?], fun a ha b hb hab => ?_⟩
      have hb' : b = txn := by simpa [Row.prepared?] using hb
      exact hguard.2 (hb' ▸ hab ▸ ha)
    | progress => exact (List.append_nil (rows.filterMap Row.prepared?)).symm ▸ h.once
    | committed => exact (List.append_nil (rows.filterMap Row.prepared?)).symm ▸ h.once
    | rolledBack => exact (List.append_nil (rows.filterMap Row.prepared?)).symm ▸ h.once

/-- What the runs of the engine keep. -/
def discipline (e : EditEngine D) (requests : ℕ → List (EditRequest D)) (about : ℕ → Prop) :
    (machine e).Discipline where
  inv w := JournalOk requests w.rows
  guard w o := Guarded e requests about w.rows o
  disturb_inv h hw := by rw [show _ = _ from hw]; exact h
  perform_inv {w o r w'} h hguard hperform := by
    cases o with
    | verify => rw [show w' = w from hperform]; exact h
    | budgetSpent => rw [show w' = w from hperform]; exact h
    | read path => rw [hperform.1]; exact h
    | cas path expected new =>
      rcases hperform with ⟨-, rfl⟩ | ⟨c, -, -, -, rfl⟩
      · exact h
      · exact h
    | record row =>
      rcases hperform with rfl | ⟨-, rfl⟩
      · exact h.append hguard
      · exact h
    | openTxns => rw [hperform.1]; exact h
    | beforeContent txn path => rw [show w' = w from hperform]; exact h

/-! ## What parts of the engine do to the journal -/

/-- What a call answers and what it does to the journal, as far as the engine can tell. -/
def Answers (e : EditEngine D) (rows : List (Row D)) : (o : Op D) → Ret o → List (Row D) → Prop
  | .cas _ _ new, r, rows' => rows' = rows ∧ ∀ h, r = some h → h = e.digest new
  | .record row, r, rows' => r = true → rows' = rows ++ [row]
  | .openTxns, r, rows' => rows' = rows ∧ ∀ l, r = some l → l = openTransactions rows
  | _, _, rows' => rows' = rows

variable {w w' : World D} {o : Op D}

theorem answers_of_performs {e : EditEngine D} {r : Ret o}
    (h : performs e w o r w') : Answers e w.rows o r w'.rows := by
  cases o with
  | verify => rw [show w' = w from h]; rfl
  | budgetSpent => rw [show w' = w from h]; rfl
  | read path => rw [h.1]; rfl
  | cas path expected new =>
    rcases h with ⟨hr, rfl⟩ | ⟨c, hr, -, -, rfl⟩
    · exact ⟨rfl, fun d hd => absurd (hr.symm.trans hd) (by simp)⟩
    · exact ⟨rfl, fun d hd => (Option.some.inj (hr.symm.trans hd)).symm⟩
  | record row =>
    rcases h with rfl | ⟨hr, rfl⟩
    · exact fun _ => rfl
    · exact fun htrue => absurd (hr.symm.trans htrue) Bool.false_ne_true
  | openTxns => rw [h.1]; exact ⟨rfl, h.2⟩
  | beforeContent txn path => rw [show w' = w from h]; rfl

section
variable (e : EditEngine D) (requests : ℕ → List (EditRequest D)) (about : ℕ → Prop)

/-- A part of the engine that, on a journal, makes guarded calls only and ends in a result and a journal
with the postcondition, unless it fails. -/
def Does (p : Edit D α) (rows : List (Row D)) (post : α → List (Row D) → Prop) : Prop :=
  ∀ w : World D, w.rows = rows → Machine.wp (discipline e requests about) (Machine.onOk fun a w => post a w.rows) p w

end

variable {e : EditEngine D} {requests : ℕ → List (EditRequest D)} {about : ℕ → Prop} {rows : List (Row D)}

theorem Does.pure {a : α} {post : α → List (Row D) → Prop} (h : post a rows) :
    Does e requests about (pure a) rows post := by
  rintro w rfl w' hw
  change post a w'.rows
  rw [show w'.rows = w.rows from hw]
  exact h

theorem Does.fail {err : EditError} {post : α → List (Row D) → Prop} :
    Does e requests about (Fallible.fail err) rows post :=
  fun _ _ => Machine.wp_fail err

theorem Does.mono {p : Edit D α} {post post' : α → List (Row D) → Prop}
    (h : Does e requests about p rows post) (hpost : ∀ a rows', post a rows' → post' a rows') :
    Does e requests about p rows post' := by
  intro w hw
  refine Machine.wp_mono (fun r w' hr => ?_) (h w hw)
  cases r with
  | ok a => exact hpost a w'.rows hr
  | error err => trivial

variable {post : β → List (Row D) → Prop}

theorem Does.bind {p : Edit D α} {f : α → Edit D β}
    (h : Does e requests about p rows fun a rows' => Does e requests about (f a) rows' post) :
    Does e requests about (p >>= f) rows post := by
  intro w hw
  refine Machine.wp_andThen (Machine.wp_mono (fun r w' hr => ?_) (h w hw))
  cases r with
  | ok a => exact hr w' rfl
  | error err => trivial

theorem Does.call {f : Ret o → Edit D β}
    (h : JournalOk requests rows → Guarded e requests about rows o ∧
      ∀ r rows', Answers e rows o r rows' → Does e requests about (f r) rows' post) :
    Does e requests about (Fallible.call o >>= f) rows post := by
  intro w hw
  rw [Fallible.call_bind]
  refine Machine.wp_call fun w₁ hinv hdisturb => ?_
  have hrows : w₁.rows = rows := (show w₁.rows = w.rows from hdisturb).trans hw
  obtain ⟨hguard, hnext⟩ := h (hrows ▸ hinv)
  refine ⟨show Guarded e requests about w₁.rows o from hrows ▸ hguard, fun r w₂ hr => ?_⟩
  exact hnext r w₂.rows (hrows ▸ answers_of_performs hr) w₂ rfl

/-- A call that needs no guard and leaves the journal as it is. -/
theorem Does.ask {f : Ret o → Edit D β}
    (hguard : Guarded e requests about rows o) (hkeep : ∀ r rows', Answers e rows o r rows' → rows' = rows)
    (h : ∀ r, Does e requests about (f r) rows post) : Does e requests about (Fallible.call o >>= f) rows post :=
  Does.call fun _ => ⟨hguard, fun r rows' hr => hkeep r rows' hr ▸ h r⟩

theorem Does.lift {r : Except EditError α} {post : α → List (Row D) → Prop}
    (h : ∀ a, r = .ok a → post a rows) : Does e requests about (Fallible.lift r) rows post := by
  cases r with
  | ok a => exact Does.pure (h a rfl)
  | error err => exact Does.fail

theorem does_verify : Does e requests about verify rows fun _ rows' => rows' = rows := by
  refine Does.ask trivial (fun _ _ h => h) fun r => ?_
  cases r with
  | true => exact Does.pure rfl
  | false => exact Does.fail

theorem does_budget : Does e requests about budget rows fun _ rows' => rows' = rows := by
  refine Does.ask trivial (fun _ _ h => h) fun r => ?_
  cases r with
  | true => exact Does.fail
  | false => exact Does.pure rfl

/-- A row of the journal in the middle of a program. -/
theorem Does.record {row : Row D} {f : Unit → Edit D β}
    (hguard : Guarded e requests about rows (.record row))
    (h : Does e requests about (f ()) (rows ++ [row]) post) :
    Does e requests about (EditTxn.record row >>= f) rows post := by
  refine Does.bind (Does.call fun _ => ⟨hguard, fun r rows' hr => ?_⟩)
  cases r with
  | true =>
    obtain rfl := hr rfl
    exact Does.pure h
  | false => exact Does.fail

theorem does_readWhole (path : String) :
    Does e requests about (readWhole e path) rows fun read rows' => rows' = rows ∧ read.2 = e.digest read.1 := by
  refine Does.ask trivial (fun _ _ h => h) fun r => ?_
  cases r with
  | none => exact Does.fail
  | some content =>
    dsimp only
    split
    · exact Does.fail
    · exact Does.pure ⟨rfl, rfl⟩

/-- A compare-and-swap that expects content of the transaction. -/
theorem Does.cas {txn : ℕ} {path : String} {expected : D} {new : Content} {f : Option D → Edit D β} (htxn : about txn) (hown : OwnDigest e (requests txn) path expected)
    (h : ∀ r, (∀ d, r = some d → d = e.digest new) → Does e requests about (f r) rows post) :
    Does e requests about (Fallible.call (.cas path expected new : Op D) >>= f) rows post :=
  Does.call fun _ => ⟨⟨txn, htxn, hown⟩, fun r _ hr => hr.1 ▸ h r hr.2⟩

/-! ## Staging and commit -/

variable [DecidableEq D]

/-- A staged file is what its request made of the content it was staged on. -/
structure StagedFrom (e : EditEngine D) (req : EditRequest D) (s : StagedEdit D) : Prop where
  rel : s.rel = req.path
  expected : s.expectedHash = req.expectedHash
  text : ∃ base, s.original = .utf8 base ∧ StagedOn e req base s.edited

variable {req : EditRequest D}

theorem stagedFrom_of_stageContent {mode : RepairMode} {content : Content}
    {s : StagedEdit D} (h : stageContent e req mode content = .ok s) : StagedFrom e req s := by
  obtain ⟨text, edited, rfl, hdigest, hops, rfl⟩ := stageContent_eq_ok h
  exact ⟨rfl, hdigest, text, rfl, hdigest, hops⟩

theorem does_stageOne (req : EditRequest D) (mode : RepairMode) :
    Does e requests about (stageOne e req mode) rows fun s rows' => rows' = rows ∧ StagedFrom e req s := by
  refine Does.bind (does_verify.mono ?_)
  rintro _ rows' rfl
  refine Does.bind ((does_readWhole req.path).mono ?_)
  rintro ⟨content, hash⟩ rows' ⟨rfl, -⟩
  exact Does.lift fun s hs => ⟨rfl, stagedFrom_of_stageContent hs⟩

theorem does_stageAll (mode : RepairMode) (reqs : List (EditRequest D)) :
    Does e requests about (stageAll e mode reqs) rows fun staged rows' =>
      rows' = rows ∧ List.Forall₂ (StagedFrom e) reqs staged := by
  induction reqs with
  | nil => exact Does.pure ⟨rfl, .nil⟩
  | cons req rest ih =>
    refine Does.bind (does_budget.mono ?_)
    rintro _ rows' rfl
    refine Does.bind ((does_stageOne req mode).mono ?_)
    rintro s rows' ⟨rfl, hs⟩
    refine Does.bind (does_budget.mono ?_)
    rintro _ rows' rfl
    refine Does.bind (ih.mono ?_)
    rintro others rows' ⟨rfl, hothers⟩
    exact Does.pure ⟨rfl, .cons hs hothers⟩

theorem does_stageBatch (mode : RepairMode) (reqs : List (EditRequest D)) :
    Does e requests about (stageBatch e reqs mode) rows fun staged rows' =>
      rows' = rows ∧ List.Forall₂ (StagedFrom e) reqs staged := by
  refine Does.bind (does_verify.mono ?_)
  rintro _ rows' rfl
  exact does_stageAll mode reqs

omit [DecidableEq D] in
variable {reqs : List (EditRequest D)}

/-- The `prepared` row of staged files is the row of their requests. -/
theorem filesOf_map_fileRef {staged : List (StagedEdit D)}
    (h : List.Forall₂ (StagedFrom e) reqs staged) : FilesOf reqs (staged.map StagedEdit.fileRef) := by
  induction h with
  | nil => rfl
  | cons hs _ ih =>
    unfold FilesOf at ih ⊢
    simp only [List.map_cons, ih, StagedEdit.fileRef, hs.rel, hs.expected]

theorem does_beginMultiFileEdit {txn : ℕ} (hfresh : txn ∉ rows.filterMap Row.prepared?)
    (mode : RepairMode) (strategy : EditTxnStrategy) (session : String) :
    Does e requests about (beginMultiFileEdit e (requests txn) mode strategy txn session) rows
      fun prepared _ => prepared.txnId = txn ∧
        List.Forall₂ (StagedFrom e) (requests txn) prepared.files := by
  refine Does.bind (does_verify.mono ?_)
  rintro _ rows' rfl
  refine Does.bind ((Does.lift (fun _ _ => rfl) : Does e requests about (Fallible.lift _) rows'
    fun _ r => r = rows').mono ?_)
  rintro _ rows'' rfl
  refine Does.bind ((does_stageBatch mode (requests txn)).mono ?_)
  rintro staged rows' ⟨rfl, hstaged⟩
  refine Does.record ⟨filesOf_map_fileRef hstaged, hfresh⟩ ?_
  exact Does.pure ⟨rfl, hstaged⟩

omit [DecidableEq D] in
/-- A staged file may be replaced as long as it has its base, and restored as long as it has our text. -/
theorem StagedFrom.ownDigest {txn : ℕ} {s : StagedEdit D}
    (h : StagedFrom e req s) (hreq : req ∈ requests txn) :
    OwnDigest e (requests txn) s.rel s.expectedHash ∧
      OwnDigest e (requests txn) s.rel (e.digest (.utf8 s.edited)) := by
  obtain ⟨base, -, hbase⟩ := h.text
  exact ⟨⟨req, hreq, h.rel.symm, Or.inl h.expected⟩,
    ⟨req, hreq, h.rel.symm, Or.inr ⟨base, s.edited, hbase, rfl⟩⟩⟩

omit [DecidableEq D] in
theorem does_restoreWritten {txn : ℕ} {written : List (StagedEdit D × D)} {run : CommitRun D}
    (htxn : about txn) (h : ∀ x ∈ written, OwnDigest e (requests txn) x.1.rel x.2) :
    Does e requests about (restoreWritten written run) rows fun _ rows' => rows' = rows := by
  induction written generalizing run with
  | nil => exact Does.pure rfl
  | cons x rest ih =>
    obtain ⟨s, ourDigest⟩ := x
    have hrest : ∀ x ∈ rest, OwnDigest e (requests txn) x.1.rel x.2 :=
      fun x hx => h x (List.mem_cons_of_mem _ hx)
    refine Does.cas htxn (h _ List.mem_cons_self) fun r _ => ?_
    cases r with
    | none => exact ih hrest
    | some d => exact ih hrest

omit [DecidableEq D] in
theorem does_commitConflict {txn i : ℕ} {strategy : EditTxnStrategy} {written : List (StagedEdit D × D)}
    {staged : StagedEdit D} {run : CommitRun D}
    (htxn : about txn) (h : ∀ x ∈ written, OwnDigest e (requests txn) x.1.rel x.2) :
    Does e requests about (commitConflict txn strategy written i staged run) rows fun _ _ => True := by
  refine Does.record (by exact trivial) ?_
  cases strategy with
  | rollBack =>
    refine Does.bind ((does_restoreWritten htxn fun x hx => h x (List.mem_reverse.mp hx)).mono ?_)
    rintro run rows'' -
    refine Does.record (by exact trivial) ?_
    exact Does.pure trivial
  | rollForward =>
    refine Does.record (by exact trivial) ?_
    exact Does.pure trivial

omit [DecidableEq D] in
theorem does_commitLoop {txn : ℕ} {strategy : EditTxnStrategy} {staged : List (StagedEdit D)} {i : ℕ}
    {written : List (StagedEdit D × D)} {run : CommitRun D} (htxn : about txn)
    (hstaged : ∀ s ∈ staged, ∃ req ∈ requests txn, StagedFrom e req s)
    (hwritten : ∀ x ∈ written, OwnDigest e (requests txn) x.1.rel x.2) :
    Does e requests about (commitLoop txn strategy i staged written run) rows fun _ _ => True := by
  induction staged generalizing i written run rows with
  | nil =>
    refine Does.record (by exact trivial) ?_
    exact Does.pure trivial
  | cons s rest ih =>
    obtain ⟨req, hreq, hs⟩ := hstaged s List.mem_cons_self
    obtain ⟨hbase, hours⟩ := hs.ownDigest hreq
    refine Does.cas htxn hbase fun r hr => ?_
    cases r with
    | none => exact does_commitConflict htxn hwritten
    | some newHash =>
      refine Does.record (by exact trivial) ?_
      refine ih (fun s hs => hstaged s (List.mem_cons_of_mem _ hs)) fun x hx => ?_
      rcases List.mem_append.mp hx with hx | hx
      · exact hwritten x hx
      · rw [List.mem_singleton.mp hx]
        exact hr newHash rfl ▸ hours

omit [DecidableEq D] in
theorem exists_req_of_forall₂ {staged : List (StagedEdit D)}
    (h : List.Forall₂ (StagedFrom e) reqs staged) {s : StagedEdit D} (hs : s ∈ staged) :
    ∃ req ∈ reqs, StagedFrom e req s := by
  induction h with
  | nil => exact absurd hs List.not_mem_nil
  | cons hfirst _ ih =>
    rcases List.mem_cons.mp hs with rfl | hs
    · exact ⟨_, List.mem_cons_self, hfirst⟩
    · obtain ⟨req, hreq, hfrom⟩ := ih hs
      exact ⟨req, List.mem_cons_of_mem _ hreq, hfrom⟩

omit [DecidableEq D] in
theorem does_commitPrepared {prepared : PreparedEdit D} (htxn : about prepared.txnId)
    (h : List.Forall₂ (StagedFrom e) (requests prepared.txnId) prepared.files) :
    Does e requests about (commitPrepared prepared) rows fun _ _ => True := by
  refine Does.bind (does_verify.mono ?_)
  rintro _ rows' rfl
  refine Does.bind (does_verify.mono ?_)
  rintro _ rows' rfl
  exact does_commitLoop htxn (fun s hs => exists_req_of_forall₂ h hs) fun x hx => absurd hx List.not_mem_nil

/-! ## Recovery -/

/-- A journal grown by rows that end the given transactions, one after another, and prepare none. -/
def Ends (rows : List (Row D)) (txns : List ℕ) (rows' : List (Row D)) : Prop :=
  ∃ added, rows' = rows ++ added ∧ added.filterMap Row.terminal? = txns ∧ added.filterMap Row.prepared? = []

omit [DecidableEq D] in
theorem Ends.refl (rows : List (Row D)) : Ends rows [] rows := ⟨[], by simp⟩

omit [DecidableEq D] in
theorem Ends.trans {a b c : List (Row D)} {s t : List ℕ} (h : Ends a s b) (h' : Ends b t c) :
    Ends a (s ++ t) c := by
  obtain ⟨added, rfl, hterminal, hprepared⟩ := h
  obtain ⟨added', rfl, hterminal', hprepared'⟩ := h'
  refine ⟨added ++ added', by rw [List.append_assoc], ?_, ?_⟩
  · rw [List.filterMap_append, hterminal, hterminal']
  · rw [List.filterMap_append, hprepared, hprepared', List.append_nil]

omit [DecidableEq D] in
theorem Ends.progress (rows : List (Row D)) (txn : ℕ) (row : TxnProgressRow) :
    Ends rows [] (rows ++ [.progress txn row]) := ⟨[.progress txn row], rfl, rfl, rfl⟩

/-- An open transaction over the files of its requests. -/
def OpenOk (requests : ℕ → List (EditRequest D)) (txn : OpenEditTxn D) : Prop :=
  FilesOf (requests txn.txnId) txn.files

omit [DecidableEq D] in
/-- The request of a file of an open transaction. -/
theorem FilesOf.getElem? {files : List (EditTxnFileRef D)}
    (h : FilesOf reqs files) {i : ℕ} {f : EditTxnFileRef D}
    (hf : files[i]? = some f) (hreq : reqs[i]? = some req) :
    req.path = f.path ∧ req.expectedHash = f.baseDigest := by
  have hmap := congrArg (·[i]?) h
  simp only [List.getElem?_map, hf, hreq, Option.map_some, Option.some.injEq, Prod.mk.injEq] at hmap
  exact ⟨hmap.1.symm, hmap.2.symm⟩

/-- What the loop carries is right: the files this run wrote have our content. -/
def ReplayOk (e : EditEngine D) (requests : ℕ → List (EditRequest D)) (txn : OpenEditTxn D)
    (s : Replay D) : Prop :=
  ∀ jw ∈ s.thisRun, ∀ f, txn.files[jw.idx]? = some f →
    OwnDigest e (requests txn.txnId) f.path jw.newHash

section
variable {txn : OpenEditTxn D} {resume : Option (EditTxnResume D)} {mode : RepairMode}

section

variable (htxn : about txn.txnId) (hresume : ∀ r ∈ resume, r.reqs = requests txn.txnId)
include htxn hresume

variable {f : EditTxnFileRef D}

theorem does_replayFile {i : ℕ} (hf : txn.files[i]? = some f) {s : Replay D}
    (hs : ReplayOk e requests txn s) :
    Does e requests about (replayFile e mode txn resume i f s) rows fun s' rows' =>
      ReplayOk e requests txn s' ∧ Ends rows [] rows' := by
  refine Does.bind (Does.lift fun req hreq => ?_)
  -- the request is the original one, at the path of the file
  obtain ⟨r, hr, hget, hpath, -⟩ := resumedRequest_eq_ok hreq
  have hmem : req ∈ requests txn.txnId := hresume r hr ▸ List.mem_of_getElem? hget
  refine Does.bind ((does_stageOne req mode).mono ?_)
  rintro staged rows' ⟨rfl, hstaged⟩
  obtain ⟨hbase, hours⟩ := hstaged.ownDigest hmem
  refine Does.cas htxn hbase fun r hr => ?_
  cases r with
  | none => exact Does.record (by exact trivial) (Does.pure ⟨hs, Ends.progress _ _ _⟩)
  | some newHash =>
    refine Does.record (by exact trivial) (Does.pure ⟨fun jw hjw g hg => ?_, Ends.progress _ _ _⟩)
    rcases List.mem_append.mp hjw with hjw | hjw
    · exact hs jw hjw g hg
    · rw [List.mem_singleton.mp hjw] at hg ⊢
      obtain rfl : f = g := Option.some.inj (hf.symm.trans hg)
      rw [← hpath, ← hstaged.rel, hr newHash rfl]
      exact hours

theorem does_recoverFile {i : ℕ} (hf : txn.files[i]? = some f) {s : Replay D}
    (hs : ReplayOk e requests txn s) :
    Does e requests about (recoverFile e mode txn resume i f s) rows fun s' rows' =>
      ReplayOk e requests txn s' ∧ Ends rows [] rows' := by
  unfold recoverFile
  split
  · exact Does.pure ⟨hs, Ends.refl _⟩
  · exact Does.pure ⟨hs, Ends.refl _⟩
  · split
    · exact Does.pure ⟨hs, Ends.refl _⟩
    · refine Does.bind ((does_readWhole f.path).mono ?_)
      rintro ⟨content, hash⟩ rows' ⟨rfl, -⟩
      dsimp only
      split
      · exact Does.fail
      · split
        · exact Does.pure ⟨hs, Ends.refl _⟩
        · exact does_replayFile htxn hresume hf hs

theorem does_recoverLoop {files done : List (EditTxnFileRef D)} (hfiles : txn.files = done ++ files)
    {s : Replay D} (hs : ReplayOk e requests txn s) :
    Does e requests about (recoverLoop e mode txn resume done.length files s) rows fun s' rows' =>
      ReplayOk e requests txn s' ∧ Ends rows [] rows' := by
  induction files generalizing done s rows with
  | nil => exact Does.pure ⟨hs, Ends.refl _⟩
  | cons f rest ih =>
    have hf : txn.files[done.length]? = some f := by rw [hfiles]; simp
    refine Does.bind ((does_recoverFile htxn hresume hf hs).mono ?_)
    rintro s' rows' ⟨hs', hends⟩
    have hnext : Does e requests about (recoverLoop e mode txn resume (done ++ [f]).length rest s') rows'
        fun s'' rows'' => ReplayOk e requests txn s'' ∧ Ends rows' [] rows'' :=
      ih (by rw [hfiles, List.append_assoc]; rfl) hs'
    rw [List.length_append, List.length_singleton] at hnext
    refine hnext.mono ?_
    rintro s'' rows'' ⟨hs'', hends'⟩
    exact ⟨hs'', hends.trans hends'⟩

/-- The restore of a file committed before the crash expects the content that we wrote. -/
theorem does_restorePreRun (hopen : OpenOk requests txn) {idx : ℕ}
    (hf : txn.files[idx]? = some f) (o : RecoveryTxnOutcome) :
    Does e requests about (restorePreRun e txn resume idx f o) rows fun _ rows' => rows' = rows := by
  refine Does.bind ((does_readWhole f.path).mono ?_)
  rintro ⟨content, hash⟩ rows' ⟨rfl, -⟩
  dsimp only
  split
  · exact Does.pure rfl
  cases resume with
  | none => exact Does.fail
  | some resume =>
    refine Does.ask trivial (fun _ _ h => h) fun r => ?_
    cases r with
    | none => exact Does.fail
    | some base =>
      dsimp only
      split
      · exact Does.fail
      rename_i hdigest
      have hdigest := not_not.mp hdigest
      refine Does.bind (Does.lift fun target htarget => ?_)
      obtain ⟨req, text, hreq, rfl, hops⟩ := targetOf_eq_ok htarget
      rw [hresume resume rfl] at hreq
      obtain ⟨hpath, hhash⟩ := FilesOf.getElem? hopen hf hreq
      exact Does.cas htxn ⟨req, List.mem_of_getElem? hreq, hpath,
        Or.inr ⟨text, target, ⟨hdigest.trans hhash.symm, hops⟩, rfl⟩⟩ fun r _ => Does.pure rfl

theorem does_rollbackLoop (hopen : OpenOk requests txn) {committed : List (ℕ × Option (JustWritten D))}
    (hcommitted : ∀ x ∈ committed, ∀ jw, x.2 = some jw → ∀ f, txn.files[x.1]? = some f →
      OwnDigest e (requests txn.txnId) f.path jw.newHash) (o : RecoveryTxnOutcome) :
    Does e requests about (rollbackLoop e txn resume committed o) rows fun _ rows' => rows' = rows := by
  induction committed generalizing o with
  | nil => exact Does.pure rfl
  | cons x rest ih =>
    obtain ⟨idx, written⟩ := x
    have hrest := fun o => ih (fun x hx => hcommitted x (List.mem_cons_of_mem _ hx)) o
    rw [rollbackLoop]
    cases hf : txn.files[idx]? with
    | none => exact Does.fail
    | some f =>
      cases written with
      | some jw => exact Does.cas htxn (hcommitted _ List.mem_cons_self jw rfl f hf) fun r _ => hrest _
      | none =>
        refine Does.bind ((does_restorePreRun htxn hresume hopen hf o).mono ?_)
        rintro o' rows' rfl
        exact hrest o'

end

omit [DecidableEq D] in
theorem mem_committedDescending {s : Replay D} {x : ℕ × Option (JustWritten D)}
    (hx : x ∈ committedDescending s) {jw : JustWritten D} (hjw : x.2 = some jw) :
    jw ∈ s.thisRun ∧ x.1 = jw.idx := by
  unfold committedDescending at hx
  rw [List.mem_insertionSort, List.mem_append, List.mem_map, List.mem_map] at hx
  rcases hx with ⟨jw', hmem, rfl⟩ | ⟨idx, -, rfl⟩
  · obtain rfl := Option.some.inj hjw
    exact ⟨hmem, rfl⟩
  · cases hjw

/-- The terminal phase journals the terminal row, and nothing else. -/
theorem does_finishRecovery (htxn : about txn.txnId)
    (hresume : ∀ r ∈ resume, r.reqs = requests txn.txnId)
    (hopen : OpenOk requests txn) {s : Replay D} (hs : ReplayOk e requests txn s) :
    Does e requests about (finishRecovery e txn resume s) rows fun _ rows' => Ends rows [txn.txnId] rows' := by
  unfold finishRecovery
  split
  · refine Does.bind ((does_rollbackLoop htxn hresume hopen (fun x hx jw hjw f hf => ?_) s.outcome).mono ?_)
    · obtain ⟨hmem, hidx⟩ := mem_committedDescending hx hjw
      exact hs jw hmem f (hidx ▸ hf)
    · rintro o rows' rfl
      exact Does.record (by exact trivial) (Does.pure ⟨[_], rfl, rfl, rfl⟩)
  · exact Does.record (by exact trivial) (Does.pure ⟨[_], rfl, rfl, rfl⟩)

end

/-- The resumes carry the original requests. -/
def Original (requests : ℕ → List (EditRequest D)) (resumes : List (EditTxnResume D)) : Prop :=
  ∀ r ∈ resumes, r.reqs = requests r.txnId

variable {resumes : List (EditTxnResume D)}

theorem does_recoverOne (hresumes : Original requests resumes)
    (mode : RepairMode) {txn : OpenEditTxn D} (htxn : about txn.txnId) (hopen : OpenOk requests txn) :
    Does e requests about (recoverOne e resumes mode txn) rows fun _ rows' => Ends rows [txn.txnId] rows' := by
  have hresume : ∀ r ∈ resumes.find? (·.txnId = txn.txnId), r.reqs = requests txn.txnId := by
    intro r hr
    have hfind : resumes.find? (·.txnId = txn.txnId) = some r := hr
    have htxn := List.find?_some hfind
    rw [decide_eq_true_eq] at htxn
    rw [hresumes r (List.mem_of_find?_eq_some hfind), htxn]
  refine Does.bind (Does.lift fun _ _ => ?_)
  dsimp only
  split
  · exact Does.fail
  · refine Does.bind ((does_recoverLoop htxn hresume (List.nil_append txn.files).symm ?_).mono ?_)
    · exact fun jw hjw => absurd hjw List.not_mem_nil
    · rintro s rows' ⟨hs, hends⟩
      exact (does_finishRecovery htxn hresume hopen hs).mono fun _ rows'' hends' => hends.trans hends'

theorem does_recoverAll (hresumes : Original requests resumes)
    (mode : RepairMode) {opened : List (OpenEditTxn D)} (htxns : ∀ txn ∈ opened, about txn.txnId)
    (hopened : ∀ txn ∈ opened, OpenOk requests txn) :
    Does e requests about (recoverAll e resumes mode opened) rows fun _ rows' =>
      Ends rows (opened.map OpenEditTxn.txnId) rows' := by
  induction opened generalizing rows with
  | nil => exact Does.pure (Ends.refl _)
  | cons txn rest ih =>
    refine Does.bind ((does_recoverOne hresumes mode (htxns txn List.mem_cons_self)
      (hopened txn List.mem_cons_self)).mono ?_)
    rintro o rows' hends
    refine Does.bind ((ih (fun t ht => htxns t (List.mem_cons_of_mem _ ht))
      fun t ht => hopened t (List.mem_cons_of_mem _ ht)).mono ?_)
    rintro others rows'' hends'
    exact Does.pure (hends.trans hends')

omit [DecidableEq D] in
/-- The open transactions of a journal in order are over the files of their requests. -/
theorem openOk_of_mem (h : JournalOk requests rows) {txn : OpenEditTxn D}
    (htxn : txn ∈ openTransactions rows) : OpenOk requests txn := by
  obtain ⟨row, hrow, hopen⟩ := List.mem_filterMap.mp htxn
  cases row with
  | prepared t session files strategy =>
    simp only [openTxn?] at hopen
    split at hopen
    · cases hopen
    · obtain rfl := Option.some.inj hopen
      exact h.files t session files strategy hrow
  | progress => cases hopen
  | committed => cases hopen
  | rolledBack => cases hopen

/-- **A recovery that succeeds journals one terminal row for each open transaction.** -/
theorem does_recoverEditTransactions
    (hresumes : Original requests resumes) (mode : RepairMode)
    (htxns : ∀ txn ∈ openTransactions rows, about txn.txnId) :
    Does e requests about (recoverEditTransactions e resumes mode) rows fun _ rows' =>
      Ends rows ((openTransactions rows).map OpenEditTxn.txnId) rows' := by
  refine Does.bind (does_verify.mono ?_)
  rintro _ rows' rfl
  refine Does.bind (does_verify.mono ?_)
  rintro _ rows' rfl
  split
  · exact Does.fail
  · refine Does.call fun hjournal => ⟨trivial, fun r rows'' hr => ?_⟩
    obtain ⟨rfl, hanswer⟩ := hr
    cases r with
    | none => exact Does.fail
    | some opened =>
      obtain rfl := hanswer opened rfl
      exact does_recoverAll hresumes mode htxns fun txn => openOk_of_mem hjournal

/-! ## After a recovery -/

omit [DecidableEq D] in
/-- The open transactions are among the prepared ones. -/
theorem openIds_sublist (rows : List (Row D)) :
    ((openTransactions rows).map OpenEditTxn.txnId).Sublist (rows.filterMap Row.prepared?) := by
  have hsublist : ∀ l : List (Row D),
      ((l.filterMap (openTxn? rows)).map OpenEditTxn.txnId).Sublist (l.filterMap Row.prepared?) := by
    intro l
    induction l with
    | nil => exact List.Sublist.refl _
    | cons row rest ih =>
      cases row with
      | prepared txn session files strategy =>
        by_cases hterminal : txn ∈ rows.filterMap Row.terminal?
        · simpa [openTxn?, hterminal, Row.prepared?] using ih.cons txn
        · simpa [openTxn?, hterminal, Row.prepared?] using ih
      | progress => exact ih
      | committed => exact ih
      | rolledBack => exact ih
  exact hsublist rows

omit [DecidableEq D] in
/-- When every open transaction got its terminal row, none is open. -/
theorem Ends.openTransactions_eq_nil {rows rows' : List (Row D)}
    (h : Ends rows ((openTransactions rows).map OpenEditTxn.txnId) rows') : openTransactions rows' = [] := by
  obtain ⟨added, rfl, hterminal, hprepared⟩ := h
  refine List.filterMap_eq_nil_iff.mpr fun row hrow => ?_
  cases row with
  | prepared txn session files strategy =>
    have hold : Row.prepared txn session files strategy ∈ rows := by
      refine (List.mem_append.mp hrow).resolve_right fun hadded => ?_
      exact absurd (List.filterMap_eq_nil_iff.mp hprepared _ hadded) (by simp [Row.prepared?])
    simp only [openTxn?]
    refine if_pos ?_
    rw [List.filterMap_append, hterminal, List.mem_append]
    by_cases hdone : txn ∈ rows.filterMap Row.terminal?
    · exact Or.inl hdone
    · -- it was open, so the recovery ended it
      have hopen : (⟨txn, strategy, files, (progressOf rows txn).insertionSort fun a b => a.seq ≤ b.seq⟩ :
          OpenEditTxn D) ∈ openTransactions rows :=
        List.mem_filterMap.mpr ⟨_, hold, by simp only [openTxn?, if_neg hdone]⟩
      exact Or.inr (List.mem_map.mpr ⟨_, hopen, rfl⟩)
  | progress => rfl
  | committed => rfl
  | rolledBack => rfl

/-- When nothing is open, the engine may neither write a file nor a row. -/
def quiet (e : EditEngine D) : (machine e).Discipline where
  inv w := openTransactions w.rows = []
  guard _ o :=
    match o with
    | .cas _ _ _ => False
    | .record _ => False
    | _ => True
  disturb_inv h hw := by rw [show _ = _ from hw]; exact h
  perform_inv {w o r w'} h hguard hperform := by
    cases o with
    | verify => rw [show w' = w from hperform]; exact h
    | budgetSpent => rw [show w' = w from hperform]; exact h
    | read path => rw [hperform.1]; exact h
    | cas => exact hguard.elim
    | record => exact hguard.elim
    | openTxns => rw [hperform.1]; exact h
    | beforeContent txn path => rw [show w' = w from hperform]; exact h

omit [DecidableEq D] in
/-- A call that writes nothing leaves the world as it is. -/
theorem quiet_perform {r : Ret o} (hguard : (quiet e).guard w o)
    (h : performs e w o r w') : w' = w := by
  cases o with
  | verify => exact h
  | budgetSpent => exact h
  | read path => exact h.1
  | cas => exact hguard.elim
  | record => exact hguard.elim
  | openTxns => exact h.1
  | beforeContent => exact h

omit [DecidableEq D] in
theorem quiet_call {f : Ret o → Edit D β} {post : β → World D → Prop}
    (hguard : (quiet e).guard w o)
    (h : ∀ r w', openTransactions w'.rows = [] → performs e w' o r w' →
      Machine.wp (quiet e) (Machine.onOk post) (f r) w') :
    Machine.wp (quiet e) (Machine.onOk post) (Fallible.call o >>= f : Edit D β) w := by
  rw [Fallible.call_bind]
  refine Machine.wp_call fun w₁ hinv _ => ⟨hguard, fun r w₂ hr => ?_⟩
  obtain rfl := quiet_perform (e := e) (w := w₁) hguard hr
  exact h r w₂ hinv hr

/-- What the engine is run for: an edit, or a recovery. -/
abbrev EngineRun (D : Type) := CommitRun D ⊕ List RecoveryTxnOutcome

/-- `begin_multi_file_edit`, then `commit_prepared`. -/
def runEdit (e : EditEngine D) (reqs : List (EditRequest D)) (mode : RepairMode)
    (strategy : EditTxnStrategy) (txn : ℕ) (session : String) : Edit D (EngineRun D) := do
  let prepared ← beginMultiFileEdit e reqs mode strategy txn session
  let run ← commitPrepared prepared
  pure (.inl run)

/-- `recover_edit_transactions`. -/
def runRecovery (e : EditEngine D) (resumes : List (EditTxnResume D)) (mode : RepairMode) :
    Edit D (EngineRun D) := do
  let outcomes ← recoverEditTransactions e resumes mode
  pure (.inr outcomes)

theorem quiet_runRecovery (e : EditEngine D) (resumes : List (EditTxnResume D)) (mode : RepairMode) :
    Machine.wp (quiet e) (Machine.onOk fun _ _ => True) (runRecovery e resumes mode) w := by
  have hverify : ∀ {w : World D}, Machine.wp (quiet e) (Machine.onOk fun _ _ => True) verify w := by
    intro w
    refine quiet_call (by exact trivial) fun r w' _ _ => ?_
    cases r with
    | true => exact fun _ _ => trivial
    | false => exact fun _ _ => trivial
  refine Machine.wp_andThen (Machine.wp_andThen ?_)
  refine Machine.wp_mono ?_ hverify
  rintro (err | _) w' -
  · trivial
  refine Machine.wp_andThen (Machine.wp_mono ?_ hverify)
  rintro (err | _) w' -
  · trivial
  dsimp only [Machine.onOk]
  split
  · exact fun _ _ => trivial
  · refine quiet_call (by exact trivial) fun r w'' hnone hr => ?_
    cases r with
    | none => exact fun _ _ => trivial
    | some opened =>
      obtain rfl : opened = [] := (hr.2 opened rfl).trans hnone
      exact fun _ _ _ _ => trivial

/-! ## The guarantees -/

/-- A run of the engine: an edit of a transaction that is not in the journal, or a recovery with the
original requests. -/
def Starts (e : EditEngine D) (requests : ℕ → List (EditRequest D)) (w : World D)
    (p : Edit D (EngineRun D)) : Prop :=
  (∃ txn mode strategy session, txn ∉ w.rows.filterMap Row.prepared? ∧
    p = runEdit e (requests txn) mode strategy txn session) ∨
  ∃ resumes mode, Original requests resumes ∧ p = runRecovery e resumes mode

theorem does_runEdit {txn : ℕ} (htxn : about txn) (hfresh : txn ∉ rows.filterMap Row.prepared?) (mode : RepairMode)
    (strategy : EditTxnStrategy) (session : String) :
    Does e requests about (runEdit e (requests txn) mode strategy txn session) rows fun _ _ => True := by
  refine Does.bind ((does_beginMultiFileEdit hfresh mode strategy session).mono ?_)
  rintro prepared rows' ⟨rfl, hstaged⟩
  exact Does.bind ((does_commitPrepared htxn hstaged).mono fun _ _ _ => Does.pure trivial)

theorem does_runRecovery (hresumes : Original requests resumes)
    (mode : RepairMode) (htxns : ∀ txn ∈ openTransactions rows, about txn.txnId) :
    Does e requests about (runRecovery e resumes mode) rows fun _ rows' =>
      Ends rows ((openTransactions rows).map OpenEditTxn.txnId) rows' :=
  Does.bind ((does_recoverEditTransactions hresumes mode htxns).mono fun _ _ hends => Does.pure hends)

theorem exists_wp_of_starts {p : Edit D (EngineRun D)} (h : Starts e requests w p) :
    ∃ post, Machine.wp (discipline e requests fun _ => True) post p w := by
  rcases h with ⟨txn, mode, strategy, session, hfresh, rfl⟩ | ⟨resumes, mode, hresumes, rfl⟩
  · exact ⟨_, does_runEdit trivial hfresh mode strategy session w rfl⟩
  · exact ⟨_, does_runRecovery hresumes mode (fun _ _ => trivial) w rfl⟩

/-- The journal is in order in every world that runs lead to. -/
theorem journalOk_of_lives {files : String → Option Content}
    (h : (machine e).Lives (Starts e requests) ⟨files, []⟩ w) : JournalOk requests w.rows := by
  have hempty : (discipline e requests fun _ => True).inv ⟨files, []⟩ :=
    ⟨fun _ _ _ _ h => absurd h List.not_mem_nil, List.nodup_nil⟩
  exact Machine.Lives.inv hempty (fun _ hstart => exists_wp_of_starts hstart) h

/-- A content that a request at the path was staged on, or that its operations make of that. -/
def OwnContent (e : EditEngine D) (reqs : List (EditRequest D)) (path : String) (c : Content) : Prop :=
  ∃ req ∈ reqs, req.path = path ∧
    (e.digest c = req.expectedHash ∨ ∃ base target, StagedOn e req base target ∧ c = .utf8 target)

/-- The calls of a program take from a file only contents of its own. -/
def TakesOnly (e : EditEngine D) (w : World D) (p : Edit D (EngineRun D)) (own : String → Content → Prop) :
    Prop :=
  ∀ (w₁ : World D) (o : Op D) (next : Ret o → Edit D (EngineRun D)) (r : Ret o) (w₂ : World D),
    (machine e).Reach w p w₁ (.call o next) → performs e w₁ o r w₂ →
    ∀ path c, w₁.files path = some c → w₂.files path ≠ some c → own path c

omit [DecidableEq D] in
/-- A guarded call takes from a path only content of a transaction that the run is about. -/
theorem ownContent_of_performs (hdigest : Function.Injective e.digest)
    {r : Ret o} (hguard : Guarded e requests about w.rows o) (h : performs e w o r w') {path : String}
    {c : Content} (hc : w.files path = some c) (hlost : w'.files path ≠ some c) :
    ∃ txn, about txn ∧ OwnContent e (requests txn) path c := by
  cases o with
  | verify => exact absurd (show w' = w from h ▸ rfl) fun hw => hlost (hw ▸ hc)
  | budgetSpent => exact absurd (show w' = w from h ▸ rfl) fun hw => hlost (hw ▸ hc)
  | read _ => exact absurd hc (h.1 ▸ hlost)
  | openTxns => exact absurd hc (h.1 ▸ hlost)
  | beforeContent _ _ => exact absurd (show w' = w from h ▸ rfl) fun hw => hlost (hw ▸ hc)
  | record row =>
    rcases h with rfl | ⟨-, rfl⟩
    · exact absurd hc hlost
    · exact absurd hc hlost
  | cas target expected new =>
    rcases h with ⟨-, rfl⟩ | ⟨old, -, hold, hexpected, rfl⟩
    · exact absurd hc hlost
    by_cases hpath : path = target
    · subst hpath
      obtain rfl : c = old := Option.some.inj (hc.symm.trans hold)
      obtain ⟨txn, htxn, req, hreq, hreqPath, hbase | ⟨base, text, hstaged, hours⟩⟩ := hguard
      · exact ⟨txn, htxn, req, hreq, hreqPath, Or.inl (hexpected.trans hbase)⟩
      · exact ⟨txn, htxn, req, hreq, hreqPath,
          Or.inr ⟨base, text, hstaged, hdigest (hexpected.trans hours)⟩⟩
    · dsimp only at hlost
      rw [Function.update_of_ne hpath] at hlost
      exact absurd hc hlost

omit [DecidableEq D] in
/-- A program under the discipline takes only contents of the transactions that it is about. -/
theorem takesOnly_of_wp (hdigest : Function.Injective e.digest)
    {p : Edit D (EngineRun D)} {post : Except EditError (EngineRun D) → World D → Prop}
    (hjournal : JournalOk requests w.rows) (hwp : Machine.wp (discipline e requests about) post p w) :
    TakesOnly e w p fun path c => ∃ txn, about txn ∧ OwnContent e (requests txn) path c := by
  intro w₁ o next r w₂ hreach hperform path c hc hlost
  have hguard : Guarded e requests about w₁.rows o :=
    Machine.Reach.guard (d := discipline e requests about) hjournal hwp hreach
  exact ownContent_of_performs hdigest hguard hperform hc hlost

/-- **No content is lost, and recovery is final.**  In every world that edits, crashes and recoveries lead
to, with others changing files at any time: an edit takes from a file only content that it was staged on or
wrote, and a recovery only such content of a transaction that is open; a recovery that succeeds journals
exactly one terminal row for each open transaction; and whatever a further recovery calls changes no file and
no row. -/
theorem crash_recovery_safe (hdigest : Function.Injective e.digest) {files : String → Option Content}
    {w : World D} (h : (machine e).Lives (Starts e requests) ⟨files, []⟩ w) :
    (∀ txn mode strategy session, txn ∉ w.rows.filterMap Row.prepared? →
      TakesOnly e w (runEdit e (requests txn) mode strategy txn session) (OwnContent e (requests txn))) ∧
    (∀ resumes mode, Original requests resumes →
      TakesOnly e w (runRecovery e resumes mode) fun path c =>
        ∃ txn ∈ openTransactions w.rows, OwnContent e (requests txn.txnId) path c) ∧
    (∀ resumes mode, Original requests resumes → ∀ (w' : World D) (outcome : EngineRun D),
      (machine e).Reach w (runRecovery e resumes mode) w' (.ret (.ok outcome)) →
      (∃ added, w'.rows = w.rows ++ added ∧
        added.filterMap Row.terminal? = (openTransactions w.rows).map OpenEditTxn.txnId ∧
        ((openTransactions w.rows).map OpenEditTxn.txnId).Nodup) ∧
      ∀ resumes' mode' (w₁ : World D) (o : Op D) (next : Ret o → Edit D (EngineRun D)) (r : Ret o)
        (w₂ : World D), (machine e).Reach w' (runRecovery e resumes' mode') w₁ (.call o next) →
        performs e w₁ o r w₂ → w₂ = w₁) := by
  have hjournal := journalOk_of_lives h
  refine ⟨fun txn mode strategy session hfresh => ?_, fun resumes mode hresumes => ?_,
    fun resumes mode hresumes w' outcome hreach => ?_⟩
  · -- an edit is about its transaction only
    intro w₁ o next r w₂ hreach hperform path c hc hlost
    have hdoes : Does e requests (Eq txn) (runEdit e (requests txn) mode strategy txn session) w.rows
        fun _ _ => True := does_runEdit rfl hfresh mode strategy session
    obtain ⟨_, rfl, hown⟩ :=
      takesOnly_of_wp hdigest hjournal (hdoes w rfl) w₁ o next r w₂ hreach hperform path c hc hlost
    exact hown
  · -- a recovery is about those that are open
    intro w₁ o next r w₂ hreach hperform path c hc hlost
    have hdoes : Does e requests (fun t => ∃ txn ∈ openTransactions w.rows, txn.txnId = t)
        (runRecovery e resumes mode) w.rows
        fun _ rows' => Ends w.rows ((openTransactions w.rows).map OpenEditTxn.txnId) rows' :=
      does_runRecovery hresumes mode fun txn htxn => ⟨txn, htxn, rfl⟩
    obtain ⟨_, ⟨txn, hopen, rfl⟩, hown⟩ :=
      takesOnly_of_wp hdigest hjournal (hdoes w rfl) w₁ o next r w₂ hreach hperform path c hc hlost
    exact ⟨txn, hopen, hown⟩
  · have hends : Ends w.rows ((openTransactions w.rows).map OpenEditTxn.txnId) w'.rows :=
      Machine.Reach.ends (d := discipline e requests fun _ => True) hjournal
        (does_runRecovery hresumes mode (fun _ _ => trivial) w rfl) hreach
    refine ⟨?_, fun resumes' mode' w₁ o next r w₂ hreach' hperform => ?_⟩
    · obtain ⟨added, hrows, hterminal, -⟩ := hends
      exact ⟨added, hrows, hterminal, (openIds_sublist w.rows).nodup hjournal.once⟩
    · have hguard : (quiet e).guard w₁ o :=
        Machine.Reach.guard (d := quiet e) hends.openTransactions_eq_nil
          (quiet_runRecovery e resumes' mode') hreach'
      exact quiet_perform hguard hperform

/-- An engine whose digest of a content is the content. -/
def plainEngine : EditEngine Content := ⟨id, fun _ _ _ => false, 65536⟩

/-- An edit of one file, which makes `x` into `y`. -/
def xToY : EditRequest Content := ⟨"f", .utf8 ['x'], [.searchReplace ['x'] ['y']]⟩

/-- The files of a workspace with one file. -/
def oneFile (text : Text) : String → Option Content := fun path => if path = "f" then some (.utf8 text) else none

/-- The edit has written its file and its progress, and crashes before its terminal row. -/
def crashedEdit : World Content :=
  ((runEdit plainEngine [xToY] .rollback .rollForward 0 "s").worlds (honest plainEngine)
    ⟨oneFile ['x'], []⟩).getD 11 ⟨oneFile ['x'], []⟩

theorem lives_crashedEdit :
    (machine plainEngine).Lives (Starts plainEngine fun _ => [xToY]) ⟨oneFile ['x'], []⟩ crashedEdit := by
  obtain ⟨p', hreach⟩ := Machine.Reach.of_worlds (m := machine plainEngine) (performs_honest plainEngine)
    (List.getElem_mem (l := (runEdit plainEngine [xToY] .rollback .rollForward 0 "s").worlds
      (honest plainEngine) ⟨oneFile ['x'], []⟩) (n := 11) (by decide +kernel))
  exact .run .start (Or.inl ⟨0, _, _, _, List.not_mem_nil, rfl⟩) hreach

/-- A recovery of the crashed edit that succeeds journals its one terminal row. -/
theorem crash_recovery_safe_crashedEdit :
    (openTransactions crashedEdit.rows).map OpenEditTxn.txnId = [0] ∧
      ∀ resumes mode, Original (fun _ => [xToY]) resumes → ∀ (w' : World Content)
        (outcome : EngineRun Content),
        (machine plainEngine).Reach crashedEdit (runRecovery plainEngine resumes mode) w'
          (.ret (.ok outcome)) →
        ∃ added, w'.rows = crashedEdit.rows ++ added ∧ added.filterMap Row.terminal? = [0] := by
  have hopen : (openTransactions crashedEdit.rows).map OpenEditTxn.txnId = [0] := by decide +kernel
  refine ⟨hopen, fun resumes mode hresumes w' outcome hreach => ?_⟩
  obtain ⟨⟨added, hrows, hterminal, -⟩, -⟩ :=
    (crash_recovery_safe (fun _ _ h => h) lives_crashedEdit).2.2 resumes mode hresumes w' outcome hreach
  exact ⟨added, hrows, hterminal.trans hopen⟩

end EditTxn
