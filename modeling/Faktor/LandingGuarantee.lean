/-
# A change set lands as a patch

The entries of a child, applied to the tree that it started from, give its tree; applied again, or resumed
after any of them, they give the same tree; and on a parent that has moved they keep what has moved.  They
never remove a directory, so a child that puts a file where its parent has a directory cannot land.

* `Staged` : what the entries of a child are;
* `Ready` : a tree on which no entry stands in the way of another one;
* `Landed` : what a merge does there;
* `landing_guarantee` : the guarantee.
-/
import Faktor.ChangeSet

namespace Landing

open PathTree

variable {Hash : Type} [DecidableEq Hash] (platform : Platform Hash)

/-! ## The entries of a child -/

/-- The map of a tree lists the state of every path that has one. -/
def Records (tree : FileTree) (map : BaseMap Hash) : Prop :=
  ∀ p, baseMapIndex map p
    = if fileState platform tree p = .absent then none else some (fileState platform tree p)

/-- The state that an entry leads to. -/
def ChangeEntry.target (entry : ChangeEntry Hash) : EntryState Hash := entry.childState.getD .absent

/-- The state that an entry expects. -/
def ChangeEntry.expected (entry : ChangeEntry Hash) : EntryState Hash := entry.baseState.getD .absent

/-- **The entries of a child**: one for each path whose state differs, with both states, in order. -/
structure Staged (base source : FileTree) (entries : List (ChangeEntry Hash)) : Prop where
  sorted : entries.Pairwise (·.path < ·.path)
  target : ∀ entry ∈ entries, entry.target = fileState platform source entry.path
  expected : ∀ entry ∈ entries, entry.expected = fileState platform base entry.path
  writes : ∀ entry ∈ entries, ∀ child, entry.childState = some child → child ≠ .absent
  removes : ∀ entry ∈ entries, entry.childState = none → entry.baseState ≠ none
  changed : ∀ entry ∈ entries, entry.target ≠ entry.expected ∧ isBuildOutputPath entry.path = false
  complete : ∀ p, isBuildOutputPath p = false → fileState platform source p ≠ fileState platform base p →
    ∃ entry ∈ entries, entry.path = p

variable {platform}

omit [DecidableEq Hash] in
theorem mem_changePaths {start now : BaseMap Hash} {p : Path} :
    p ∈ changePaths start now ↔ p ∈ now.map (·.1) ∨ p ∈ start.map (·.1) := by
  unfold changePaths
  simp only [List.mem_insertionSort, List.mem_append, List.mem_dedup, List.mem_filter,
    decide_eq_true_eq]
  tauto

omit [DecidableEq Hash] in
theorem sorted_changePaths (start now : BaseMap Hash) : (changePaths start now).Pairwise (· < ·) := by
  have hle : (changePaths start now).Pairwise (· ≤ ·) := List.pairwise_insertionSort _ _
  have hnodup : (changePaths start now).Nodup := by
    unfold changePaths
    rw [List.Perm.nodup_iff (List.perm_insertionSort _ _)]
    refine (List.nodup_dedup _).append ((List.nodup_dedup _).filter _) ?_
    intro p hp hstart
    exact of_decide_eq_true (List.mem_filter.mp hstart).2 hp
  exact (hle.and hnodup).imp fun h => lt_of_le_of_ne h.1 h.2

omit [DecidableEq Hash] in
theorem baseMapIndex_ne_none {map : BaseMap Hash} {p : Path} (h : baseMapIndex map p ≠ none) :
    p ∈ map.map (·.1) := by
  obtain ⟨state, hstate⟩ := Option.ne_none_iff_exists'.mp h
  obtain ⟨entry, hentry, -⟩ := Option.map_eq_some_iff.mp hstate
  have hmem := List.mem_reverse.mp (List.mem_of_find?_eq_some hentry)
  have hpath : entry.1 = p := by simpa using List.find?_some hentry
  exact List.mem_map.mpr ⟨entry, hmem, hpath⟩

/-- What a path is staged as, when its map agrees with the parent's. -/
theorem changeEntry_spec {start now parentBase : BaseMap Hash} {p : Path}
    (hagrees : baseMapIndex parentBase p = baseMapIndex start p) :
    changeEntry platform start now parentBase p =
      .ok (if isBuildOutputPath p = true ∨ baseMapIndex now p = baseMapIndex start p then none
        else some (.staged platform p (baseMapIndex now p) (baseMapIndex start p))) := by
  unfold changeEntry
  rw [hagrees]
  by_cases hbuild : isBuildOutputPath p = true
  · rw [if_pos hbuild, if_pos (.inl hbuild)]
  · rw [if_neg hbuild]
    cases baseMapIndex now p with
    | none =>
      cases baseMapIndex start p with
      | none => rw [if_pos (.inr rfl)]
      | some base => rw [if_neg (by simp [hbuild])]
    | some child =>
      cases baseMapIndex start p with
      | none => rw [if_neg (by simp [hbuild])]
      | some base =>
        by_cases hsame : child = base
        · simp only
          rw [if_pos hsame, if_pos (.inr (congrArg some hsame))]
        · simp only
          rw [if_neg hsame, if_neg (by simp [hbuild, hsame])]

theorem changeEntry_path {start now parentBase : BaseMap Hash} {p : Path} {entry : ChangeEntry Hash}
    (h : changeEntry platform start now parentBase p = .ok (some entry)) : entry.path = p := by
  unfold changeEntry at h
  split at h
  · cases h
  · split at h
    · split at h <;> cases h
      rfl
    · cases h
      rfl
    · split at h <;> cases h
      rfl
    · cases h

/-- What the loop stages: the entries of the paths, in their order. -/
theorem stageEntries_spec {start now parentBase : BaseMap Hash} {paths : List Path}
    {before entries : List (ChangeEntry Hash)}
    (h : stageEntries platform start now parentBase before paths = .ok entries) :
    ∃ staged, entries = before ++ staged ∧ (staged.map (·.path)).Sublist paths ∧
      (∀ entry ∈ staged, changeEntry platform start now parentBase entry.path = .ok (some entry)) ∧
      ∀ p ∈ paths, ∃ result, changeEntry platform start now parentBase p = .ok result ∧
        ∀ entry, result = some entry → entry ∈ staged := by
  induction paths generalizing before with
  | nil =>
    cases h
    exact ⟨[], (List.append_nil _).symm, List.Sublist.slnil, by simp, by simp⟩
  | cons p rest ih =>
    unfold stageEntries at h
    split at h
    · cases h
    · next hnone =>
      obtain ⟨staged, hentries, hsub, hstaged, hall⟩ := ih h
      refine ⟨staged, hentries, hsub.cons p, hstaged, ?_⟩
      rintro q hq
      rcases List.mem_cons.mp hq with rfl | hq
      · exact ⟨none, hnone, by simp⟩
      · exact hall q hq
    · next entry hsome =>
      split at h
      · cases h
      · obtain ⟨staged, hentries, hsub, hstaged, hall⟩ := ih h
        have hpath : entry.path = p := changeEntry_path hsome
        refine ⟨entry :: staged, ?_, ?_, ?_, ?_⟩
        · rw [hentries, List.append_assoc, List.singleton_append]
        · rw [List.map_cons, hpath]
          exact hsub.cons_cons p
        · intro entry' hentry'
          rcases List.mem_cons.mp hentry' with rfl | hentry'
          · rw [hpath, hsome]
          · exact hstaged entry' hentry'
        · intro q hq
          rcases List.mem_cons.mp hq with rfl | hq
          · refine ⟨some entry, hsome, ?_⟩
            intro entry' hentry'
            cases hentry'
            exact List.mem_cons_self
          · obtain ⟨result, hresult, hmem⟩ := hall q hq
            exact ⟨result, hresult, fun entry' hentry' => List.mem_cons_of_mem _ (hmem entry' hentry')⟩

omit [DecidableEq Hash] in
theorem staged_childState (p : Path) (child base : Option (EntryState Hash)) :
    (ChangeEntry.staged platform p child base).childState = child := by
  cases child <;> rfl

omit [DecidableEq Hash] in
theorem staged_baseState (p : Path) (child base : Option (EntryState Hash)) :
    (ChangeEntry.staged platform p child base).baseState = base := by
  cases base <;> rfl

theorem Records.getD {tree : FileTree} {map : BaseMap Hash} (h : Records platform tree map) (p : Path) :
    (baseMapIndex map p).getD .absent = fileState platform tree p := by
  rw [h p]
  split
  · next habsent => rw [habsent, Option.getD_none]
  · rfl

theorem Records.ne_absent {tree : FileTree} {map : BaseMap Hash} (h : Records platform tree map) {p : Path}
    {state : EntryState Hash} (hstate : baseMapIndex map p = some state) : state ≠ .absent := by
  rw [h p] at hstate
  split at hstate
  · cases hstate
  · next hne =>
    cases hstate
    exact hne

/-- Two records agree on a path exactly when the trees do. -/
theorem Records.index_eq_iff {tree tree' : FileTree} {map map' : BaseMap Hash}
    (h : Records platform tree map) (h' : Records platform tree' map') (p : Path) :
    baseMapIndex map p = baseMapIndex map' p ↔ fileState platform tree p = fileState platform tree' p := by
  constructor
  · intro heq
    rw [← h.getD, ← h'.getD, heq]
  · intro heq
    rw [h p, h' p, heq]

/-- **The computed entries are those of the two trees**, where the maps are their maps. -/
theorem staged_of_compute {start now parentBase : BaseMap Hash} {base source : FileTree}
    {entries : List (ChangeEntry Hash)} (hstart : Records platform base start)
    (hagrees : ∀ p, baseMapIndex parentBase p = baseMapIndex start p) (hnow : Records platform source now)
    (h : computeChangeEntries platform start now parentBase = .ok entries) :
    Staged platform base source entries := by
  obtain ⟨staged, hentries, hsub, hstaged, hall⟩ := stageEntries_spec h
  rw [List.nil_append] at hentries
  subst hentries
  -- every entry is the staged one of its path
  have hform : ∀ entry ∈ entries, entry = .staged platform entry.path (baseMapIndex now entry.path)
      (baseMapIndex start entry.path) ∧ isBuildOutputPath entry.path = false ∧
        baseMapIndex now entry.path ≠ baseMapIndex start entry.path := by
    intro entry hentry
    have hspec := hstaged entry hentry
    rw [changeEntry_spec (hagrees entry.path)] at hspec
    have hsome := Except.ok.inj hspec
    split at hsome
    · cases hsome
    · next hchanged =>
      rw [not_or, Bool.not_eq_true] at hchanged
      exact ⟨(Option.some.inj hsome).symm, hchanged⟩
  have hchild : ∀ entry ∈ entries, entry.childState = baseMapIndex now entry.path := by
    intro entry hentry
    rw [(hform entry hentry).1, staged_childState]
    rfl
  have hbase : ∀ entry ∈ entries, entry.baseState = baseMapIndex start entry.path := by
    intro entry hentry
    rw [(hform entry hentry).1, staged_baseState]
    rfl
  have htarget : ∀ entry ∈ entries, entry.target = fileState platform source entry.path := by
    intro entry hentry
    rw [ChangeEntry.target, hchild entry hentry, hnow.getD]
  have hexpected : ∀ entry ∈ entries, entry.expected = fileState platform base entry.path := by
    intro entry hentry
    rw [ChangeEntry.expected, hbase entry hentry, hstart.getD]
  constructor
  case sorted =>
    have hsorted := (sorted_changePaths start now).sublist hsub
    exact List.pairwise_map.mp hsorted
  case target => exact htarget
  case expected => exact hexpected
  case writes =>
    intro entry hentry child hstate
    rw [hchild entry hentry] at hstate
    exact hnow.ne_absent hstate
  case removes =>
    intro entry hentry hnone habsurd
    rw [hchild entry hentry] at hnone
    rw [hbase entry hentry] at habsurd
    exact (hform entry hentry).2.2 (hnone.trans habsurd.symm)
  case changed =>
    intro entry hentry
    refine ⟨?_, (hform entry hentry).2.1⟩
    rw [htarget entry hentry, hexpected entry hentry, Ne, ← hnow.index_eq_iff hstart]
    exact (hform entry hentry).2.2
  case complete =>
    intro p hbuild hne
    rw [Ne, ← hnow.index_eq_iff hstart] at hne
    have hmem : p ∈ changePaths start now := by
      rw [mem_changePaths]
      by_cases hnone : baseMapIndex now p = none
      · exact .inr (baseMapIndex_ne_none fun habsurd => hne (hnone.trans habsurd.symm))
      · exact .inl (baseMapIndex_ne_none hnone)
    obtain ⟨result, hresult, hstagedMem⟩ := hall p hmem
    rw [changeEntry_spec (hagrees p), if_neg (by simp [hbuild, hne])] at hresult
    exact ⟨_, hstagedMem _ (Except.ok.inj hresult).symm, rfl⟩

/-! ## One entry -/

variable (platform) in
/-- Every entry is applied as a compare-and-swap from what it expects to what it leads to. -/
def Applies (source : FileTree) (entries : List (ChangeEntry Hash)) : Prop :=
  ∀ entry ∈ entries, ∀ tree, Closed tree → entry.path ≠ [] → Open tree entry.path.dropLast →
    ∃ outcome, applyEntry platform tree source entry = some outcome ∧
      CasStep platform tree entry.path entry.expected entry.target outcome

/-- A tree gives the material of the state that it has. -/
theorem readLiteralPayload_of_state {source : FileTree} (hclosed : Closed source)
    (hfits : ∀ p mode content, source p = some (.file (.regular mode content)) →
      content.length ≤ maxMergeFileBytes)
    {p : Path} (hne : p ≠ []) {state : EntryState Hash} (hstate : fileState platform source p = state)
    (hpresent : state ≠ .absent) :
    ∃ material, readLiteralPayload platform source p state = .ok material ∧
      payloadFor platform state material = .ok () := by
  have hnotDir : source p ≠ some .dir := fun hdir => hpresent (hstate.symm.trans (fileState_of_dir hdir))
  have hlive : live platform source p = some state := by rw [live_of_ne_dir hnotDir, hstate]
  have hnode : source p ≠ none := by
    intro hnone
    rw [live, hnone] at hlive
    exact hpresent (Option.some.inj hlive).symm
  have hopen := hclosed.open_dropLast hnode hne
  have hparent : source p.dropLast = some .dir := by
    have := hclosed.parent p.dropLast (p.getLast hne)
    rw [List.dropLast_append_getLast] at this
    exact this hnode
  unfold readLiteralPayload
  rw [confinedPath_of_open hne hopen, if_neg Bool.false_ne_true, if_neg (by rw [hparent]; simp)]
  simp only
  rw [stateOfPath_of_dir hparent, hlive]
  simp only
  rw [if_neg (not_not.mpr rfl)]
  rcases hfile : source p with _ | _ | ⟨mode, content⟩ | target
  · exact absurd hfile hnode
  · exact absurd hfile hnotDir
  · rw [live, hfile] at hlive
    cases hlive
    have hlength := not_lt.mpr (hfits p mode content hfile)
    refine ⟨content, if_neg hlength, ?_⟩
    show (if maxMergeFileBytes < content.length then _ else _) = _
    rw [if_neg hlength, if_neg (not_not.mpr rfl)]
  · rw [live, hfile] at hlive
    cases hlive
    exact ⟨target, rfl, if_neg (not_not.mpr rfl)⟩

/-- The entries of a child apply, with the child's tree as their source. -/
theorem Staged.applies {base source : FileTree} {entries : List (ChangeEntry Hash)}
    (h : Staged platform base source entries) (hclosed : Closed source)
    (hfits : ∀ p mode content, source p = some (.file (.regular mode content)) →
      content.length ≤ maxMergeFileBytes) : Applies platform source entries := by
  intro entry hentry tree htree hne hopen
  unfold applyEntry
  cases hchild : entry.childState with
  | some child =>
    have htarget : entry.target = child := by rw [ChangeEntry.target, hchild, Option.getD_some]
    obtain ⟨material, hread, hmaterial⟩ := readLiteralPayload_of_state hclosed hfits hne
      ((h.target entry hentry).symm.trans htarget) (h.writes entry hentry child hchild)
    refine ⟨_, rfl, ?_⟩
    unfold applyManifestEntry
    rw [hread, htarget]
    exact applyTreeEntryCas_step htree hne hopen hmaterial
  | none =>
    cases hbase : entry.baseState with
    | none => exact absurd hbase (h.removes entry hentry hchild)
    | some base =>
      have htarget : entry.target = .absent := by rw [ChangeEntry.target, hchild, Option.getD_none]
      have hexpected : entry.expected = base := by rw [ChangeEntry.expected, hbase, Option.getD_some]
      refine ⟨_, rfl, ?_⟩
      rw [htarget, hexpected]
      exact applyTreeEntryCas_step htree hne hopen rfl

/-! ## A merge -/

section Merge

variable (platform)

/-- **No entry stands in the way of another one**: above an entry there are directories, nothing, or a file
that an entry removes; and no path that is written stands above another entry. -/
structure Ready (tree : FileTree) (entries : List (ChangeEntry Hash)) : Prop where
  closed : Closed tree
  nonempty : ∀ entry ∈ entries, entry.path ≠ []
  clear : ∀ entry ∈ entries, ∀ q, q <+: entry.path → q ≠ entry.path → tree q = none ∨ tree q = some .dir ∨
    ∃ above ∈ entries, above.path = q ∧ above.target = .absent ∧ live platform tree q = some above.expected
  apart : ∀ entry ∈ entries, ∀ below ∈ entries, entry.target ≠ .absent → entry.path <+: below.path →
    entry.path = below.path

/-- The tree has the expected state of an entry, or the one that it leads to. -/
def accepts (tree : FileTree) (entry : ChangeEntry Hash) : Bool :=
  live platform tree entry.path = some entry.target || live platform tree entry.path = some entry.expected

/-- **What a merge does**: it moves every path that has its expected state, reports every path that has
neither state and keeps it, and touches no other path, but for the directories above what is written. -/
structure Landed (tree : FileTree) (entries : List (ChangeEntry Hash))
    (outcome : Except ExecError MergeOutcome × FileTree) : Prop where
  result : outcome.1 = .ok
    { merged := (entries.filter (accepts platform tree)).map (·.path)
      conflicts := (entries.filter fun entry => !accepts platform tree entry).map (·.path) }
  state : ∀ entry ∈ entries, fileState platform outcome.2 entry.path
    = if live platform tree entry.path = some entry.expected then entry.target
      else fileState platform tree entry.path
  others : ∀ q, (∀ entry ∈ entries, entry.path ≠ q) →
    fileState platform outcome.2 q = fileState platform tree q
  dirs : ∀ q, tree q = some .dir → outcome.2 q = some .dir
  made : ∀ q, outcome.2 q = some .dir → tree q = some .dir ∨
    ∃ entry ∈ entries, entry.target ≠ .absent ∧ q <+: entry.path ∧ q ≠ entry.path
  closed : Closed outcome.2

variable {platform}

omit [DecidableEq Hash] in
/-- The first entry finds its way open. -/
theorem Ready.open_head {tree : FileTree} {entry : ChangeEntry Hash} {rest : List (ChangeEntry Hash)}
    (h : Ready platform tree (entry :: rest)) (hsorted : (entry :: rest).Pairwise (·.path < ·.path)) :
    Open tree entry.path.dropLast := by
  intro q hq
  have hne := h.nonempty entry List.mem_cons_self
  have hprefix : q <+: entry.path := hq.trans (List.dropLast_prefix _)
  have hproper : q ≠ entry.path := by
    rintro rfl
    have hlength := hq.length_le
    rw [List.length_dropLast] at hlength
    have hpos := List.length_pos_of_ne_nil hne
    omega
  rcases h.clear entry List.mem_cons_self q hprefix hproper with
    hnone | hdir | ⟨above, habove, rfl, -⟩
  · exact .inl hnone
  · exact .inr hdir
  · -- a removal above it would have come before
    rcases List.mem_cons.mp habove with rfl | habove
    · exact absurd rfl hproper
    · have hlt := (List.pairwise_cons.mp hsorted).1 above habove
      exact absurd hlt (not_lt.mpr (prefix_le hprefix))

/-- A step leaves what later entries find. -/
theorem CasStep.later {tree : FileTree} {p q : Path} {expected next : EntryState Hash}
    {outcome : Except ErrorKind CasMergeResult × FileTree} (h : CasStep platform tree p expected next outcome)
    (hlt : p < q) : outcome.2 q = tree q := by
  rcases h.others q (ne_of_gt hlt) with hsame | ⟨-, hprefix, -⟩
  · exact hsame
  · exact absurd hlt (not_lt.mpr (prefix_le hprefix))

/-- After the first entry the others are ready. -/
theorem Ready.tail {tree : FileTree} {entry : ChangeEntry Hash} {rest : List (ChangeEntry Hash)}
    (h : Ready platform tree (entry :: rest)) (hsorted : (entry :: rest).Pairwise (·.path < ·.path))
    {outcome : Except ErrorKind CasMergeResult × FileTree}
    (hstep : CasStep platform tree entry.path entry.expected entry.target outcome) :
    Ready platform outcome.2 rest := by
  obtain ⟨hfirst, hrest⟩ := List.pairwise_cons.mp hsorted
  constructor
  case closed => exact hstep.closed
  case nonempty => exact fun later hlater => h.nonempty later (List.mem_cons_of_mem _ hlater)
  case apart =>
    intro later hlater below hbelow
    exact h.apart later (List.mem_cons_of_mem _ hlater) below (List.mem_cons_of_mem _ hbelow)
  case clear =>
    intro later hlater q hq hproper
    have hold := h.clear later (List.mem_cons_of_mem _ hlater) q hq hproper
    by_cases hhead : q = entry.path
    · subst hhead
      by_cases htarget : entry.target = .absent
      · -- the entry was a removal: its path holds nothing, or a directory
        rcases hold with hnone | hdir | ⟨above, habove, hpath, -, hlive⟩
        · have hlive : live platform tree entry.path = some entry.target := by
            rw [live, hnone, htarget]
            rfl
          by_cases hdir : outcome.2 entry.path = some .dir
          · exact .inr (.inl hdir)
          · left
            have hstate := hstep.state
            rw [fileState_of_live hlive, ite_self, htarget] at hstate
            exact nodeState_eq_absent ((live_of_ne_dir hdir).trans (congrArg some hstate))
        · exact .inr (.inl (hstep.dir.mpr hdir))
        · have hsame : above = entry := by
            rcases List.mem_cons.mp habove with heq | habove
            · exact heq
            · exact absurd hpath (ne_of_gt (hfirst above habove))
          subst hsame
          have hnotDir : outcome.2 above.path ≠ some .dir := by
            rw [Ne, hstep.dir]
            intro hdir
            have hnone : live platform tree above.path = none := live_eq_none.mpr hdir
            rw [hlive] at hnone
            cases hnone
          have hstate := hstep.state
          rw [if_pos hlive, htarget] at hstate
          exact .inl (nodeState_eq_absent ((live_of_ne_dir hnotDir).trans (congrArg some hstate)))
      · exact absurd (h.apart entry List.mem_cons_self later (List.mem_cons_of_mem _ hlater) htarget hq)
          hproper
    · rcases hstep.others q hhead with hsame | ⟨-, -, -, hdir⟩
      · rw [live, hsame, ← live]
        rcases hold with hnone | hdir | ⟨above, habove, hpath, hremoval⟩
        · exact .inl hnone
        · exact .inr (.inl hdir)
        · refine .inr (.inr ⟨above, ?_, hpath, hremoval⟩)
          rcases List.mem_cons.mp habove with rfl | habove
          · exact absurd hpath.symm hhead
          · exact habove
      · exact .inr (.inl hdir)

/-- What one entry does in a merge. -/
theorem applyOneMerge_step {source tree : FileTree} {entry : ChangeEntry Hash}
    {outcome : Except ErrorKind CasMergeResult × FileTree}
    (happly : applyEntry platform tree source entry = some outcome)
    (hstep : CasStep platform tree entry.path entry.expected entry.target outcome) :
    applyOneMerge platform tree source entry
      = (if accepts platform tree entry then .merged else .conflict, outcome.2) := by
  obtain ⟨result, tree'⟩ := outcome
  unfold applyOneMerge
  rw [happly]
  rcases hstep.result with ⟨haccepts, result', hresult⟩ | ⟨htarget, hexpected, hresult⟩
  · simp only at hresult
    subst hresult
    have : accepts platform tree entry = true := by simpa [accepts] using haccepts
    rw [if_pos this]
  · simp only at hresult
    subst hresult
    have : ¬accepts platform tree entry = true := by simp [accepts, htarget, hexpected]
    rw [if_neg this]
    simp

/-- **A merge lands** on a tree on which the entries are ready. -/
theorem mergeEntries_landed {source tree : FileTree} {entries : List (ChangeEntry Hash)}
    (happlies : Applies platform source entries) (hsorted : entries.Pairwise (·.path < ·.path))
    (hready : Ready platform tree entries) :
    Landed platform tree entries (mergeEntries platform source (fun _ => false) tree entries) := by
  induction entries generalizing tree with
  | nil => exact ⟨rfl, by simp, fun q _ => rfl, fun q h => h, fun q h => .inl h, hready.closed⟩
  | cons entry rest ih =>
    obtain ⟨hfirst, hrest⟩ := List.pairwise_cons.mp hsorted
    obtain ⟨step, happly, hstep⟩ := happlies entry List.mem_cons_self tree hready.closed
      (hready.nonempty entry List.mem_cons_self) (hready.open_head hsorted)
    have hlanded := ih (fun later hlater => happlies later (List.mem_cons_of_mem _ hlater)) hrest
      (hready.tail hsorted hstep)
    -- what the first entry leaves is what the later ones would have found
    have hlive : ∀ later ∈ rest, live platform step.2 later.path = live platform tree later.path := by
      intro later hlater
      rw [live, live, hstep.later (hfirst later hlater)]
    have haccepts : ∀ later ∈ rest, accepts platform step.2 later = accepts platform tree later := by
      intro later hlater
      rw [accepts, accepts, hlive later hlater]
    have hfilter : rest.filter (accepts platform step.2) = rest.filter (accepts platform tree) :=
      List.filter_congr haccepts
    have hfilter' : (rest.filter fun later => !accepts platform step.2 later)
        = rest.filter fun later => !accepts platform tree later :=
      List.filter_congr fun later hlater => by rw [haccepts later hlater]
    have hresult := hlanded.result
    rw [hfilter, hfilter'] at hresult
    have hmerge : mergeEntries platform source (fun _ => false) tree (entry :: rest)
        = (.ok
            { merged := ((entry :: rest).filter (accepts platform tree)).map (·.path)
              conflicts := ((entry :: rest).filter fun entry => !accepts platform tree entry).map (·.path) },
          (mergeEntries platform source (fun _ => false) step.2 rest).2) := by
      rw [mergeEntries, if_neg Bool.false_ne_true, applyOneMerge_step happly hstep]
      cases hrun : mergeEntries platform source (fun _ => false) step.2 rest with
      | mk result after =>
        rw [hrun] at hresult
        simp only at hresult
        subst hresult
        by_cases haccept : accepts platform tree entry = true
        · rw [if_pos haccept, List.filter_cons_of_pos haccept, List.filter_cons_of_neg (by simp [haccept])]
          simp only [hrun]
          rfl
        · rw [if_neg haccept, List.filter_cons_of_neg haccept, List.filter_cons_of_pos (by simpa using haccept)]
          simp only [hrun]
          rfl
    rw [hmerge]
    constructor
    case result => rfl
    case state =>
      intro found hfound
      rcases List.mem_cons.mp hfound with rfl | hfound
      · have hothers := hlanded.others found.path fun later hlater => ne_of_gt (hfirst later hlater)
        exact hothers.trans hstep.state
      · show fileState platform (mergeEntries platform source (fun _ => false) step.2 rest).2 found.path = _
        rw [hlanded.state found hfound, hlive found hfound, fileState, fileState, hlive found hfound]
    case others =>
      intro q hq
      have hhead := hq entry List.mem_cons_self
      refine (hlanded.others q fun later hlater => hq later (List.mem_cons_of_mem _ hlater)).trans ?_
      rcases hstep.others q hhead.symm with hsame | ⟨-, -, hnone, hdir⟩
      · rw [fileState, fileState, live, live, hsame]
      · rw [fileState_of_dir hdir, fileState, live, hnone]
        rfl
    case dirs =>
      intro q hq
      apply hlanded.dirs
      by_cases hhead : q = entry.path
      · subst hhead
        exact hstep.dir.mpr hq
      · rcases hstep.others q hhead with hsame | ⟨-, -, hnone, -⟩
        · rw [hsame, hq]
        · rw [hnone] at hq
          cases hq
    case made =>
      intro q hq
      rcases hlanded.made q hq with hdir | ⟨later, hlater, hmade⟩
      · by_cases hhead : q = entry.path
        · subst hhead
          exact .inl (hstep.dir.mp hdir)
        · rcases hstep.others q hhead with hsame | ⟨htarget, hprefix, -, -⟩
          · exact .inl (hsame.symm.trans hdir)
          · exact .inr ⟨entry, List.mem_cons_self, htarget, hprefix, hhead⟩
      · exact .inr ⟨later, List.mem_cons_of_mem _ hlater, hmade⟩
    case closed => exact hlanded.closed

/-! ## Between two trees -/

variable (platform) in
/-- **A tree between the parent's and the child's**: every path has the state that it has in one of them, no
build output has moved, and where the child writes there is no directory. -/
structure Between (base source : FileTree) (entries : List (ChangeEntry Hash)) (tree : FileTree) : Prop where
  closed : Closed tree
  state : ∀ p, fileState platform tree p = fileState platform base p ∨
    isBuildOutputPath p = false ∧ fileState platform tree p = fileState platform source p
  dir : ∀ entry ∈ entries, entry.target ≠ .absent → tree entry.path ≠ some .dir

variable {base source : FileTree} {entries : List (ChangeEntry Hash)}

omit [DecidableEq Hash] in
/-- What stands at a path with a state that is not absence is a file. -/
theorem file_of_state {tree : FileTree} {p : Path} (h : fileState platform tree p ≠ .absent) :
    ∃ item, tree p = some (.file item) := by
  match hnode : tree p with
  | none =>
    rw [fileState, live, hnode] at h
    exact absurd rfl h
  | some .dir => exact absurd (fileState_of_dir hnode) h
  | some (.file item) => exact ⟨item, rfl⟩

omit [DecidableEq Hash] in
theorem state_of_file {tree : FileTree} {p : Path} {item : Item} (h : tree p = some (.file item)) :
    fileState platform tree p ≠ .absent := by
  rw [fileState, live, h]
  cases item <;> exact fun habsurd => by cases habsurd

omit [DecidableEq Hash] in
/-- Two paths with states in one closed tree are not above one another. -/
theorem eq_of_states {tree : FileTree} (hclosed : Closed tree) {p q : Path}
    (hp : fileState platform tree p ≠ .absent) (hq : fileState platform tree q ≠ .absent) (habove : q <+: p) :
    q = p := by
  obtain ⟨item, hitem⟩ := file_of_state hp
  obtain ⟨item', hitem'⟩ := file_of_state hq
  exact hclosed.file_prefix hitem hitem' habove

omit [DecidableEq Hash] in
theorem isBuildOutputPath_of_isPrefix {p q : Path} (hq : q <+: p) (hne : q ≠ []) :
    isBuildOutputPath q = isBuildOutputPath p := by
  obtain ⟨rest, rfl⟩ := hq
  unfold isBuildOutputPath
  rw [List.head?_append_of_ne_nil q hne]

omit [DecidableEq Hash] in
/-- The state that an entry leads to, or expects, is not that of a directory's path. -/
theorem Staged.nonempty (h : Staged platform base source entries) (hbase : Closed base)
    (hsource : Closed source) : ∀ entry ∈ entries, entry.path ≠ [] := by
  intro entry hentry hnil
  have hchanged := (h.changed entry hentry).1
  rw [h.target entry hentry, h.expected entry hentry, hnil, fileState_of_dir hsource.root,
    fileState_of_dir hbase.root] at hchanged
  exact hchanged rfl

/-- **On a tree between the two the entries are ready**, whichever of them are left. -/
theorem Between.ready {tree : FileTree} (hbetween : Between platform base source entries tree)
    (h : Staged platform base source entries) (hbase : Closed base) (hsource : Closed source)
    (hdir : ∀ entry ∈ entries, entry.target ≠ .absent → base entry.path ≠ some .dir) (k : ℕ) :
    Ready platform tree (entries.take k) := by
  have hmem : ∀ entry ∈ entries.take k, entry ∈ entries := fun entry => List.mem_of_mem_take
  -- a path that the child writes stands above no other entry
  have happart : ∀ entry ∈ entries, ∀ below ∈ entries, entry.target ≠ .absent →
      entry.path <+: below.path → entry.path = below.path := by
    intro entry hentry below hbelow htarget hprefix
    by_contra hne
    by_cases hbelowTarget : below.target = .absent
    · -- the entry below is a removal, so the parent has a directory above it
      have hexpected : fileState platform base below.path ≠ .absent := by
        have hchanged := (h.changed below hbelow).1
        rw [hbelowTarget, h.expected below hbelow] at hchanged
        exact hchanged.symm
      obtain ⟨item, hitem⟩ := file_of_state hexpected
      refine hdir entry hentry htarget (hbase.dir_of_prefix ?_ hprefix hne)
      rw [hitem]
      exact Option.some_ne_none _
    · rw [h.target entry hentry] at htarget
      rw [h.target below hbelow] at hbelowTarget
      exact hne (eq_of_states hsource hbelowTarget htarget hprefix)
  constructor
  case closed => exact hbetween.closed
  case nonempty => exact fun entry hentry => h.nonempty hbase hsource entry (hmem entry hentry)
  case apart => exact fun entry hentry below hbelow => happart entry (hmem entry hentry) below (hmem below hbelow)
  case clear =>
    intro entry hentry q hq hproper
    have hentry' := hmem entry hentry
    match hnode : tree q with
    | none => exact .inl rfl
    | some .dir => exact .inr (.inl rfl)
    | some (.file item) =>
      right
      right
      have hpresent : fileState platform tree q ≠ .absent := state_of_file hnode
      have hqne : q ≠ [] := hbetween.closed.ne_nil hnode
      have hbuild : isBuildOutputPath q = false := by
        rw [isBuildOutputPath_of_isPrefix hq hqne]
        exact (h.changed entry hentry').2
      by_cases hnow : fileState platform source q = .absent
      · -- a file of the parent that the child does not have: its removal is an entry
        have hstate : fileState platform tree q = fileState platform base q := by
          rcases hbetween.state q with hstate | ⟨-, hstate⟩
          · exact hstate
          · exact absurd (hstate.trans hnow) hpresent
        obtain ⟨above, habove, hpath⟩ := h.complete q hbuild
          (by rw [hnow, ← hstate]; exact hpresent.symm)
        refine ⟨above, ?_, hpath, ?_, ?_⟩
        · -- it comes before the entry below it
          rw [← List.take_append_drop k entries] at habove
          rcases List.mem_append.mp habove with htake | hdrop
          · exact htake
          · have hsorted := h.sorted
            rw [← List.take_append_drop k entries] at hsorted
            have hlt := (List.pairwise_append.mp hsorted).2.2 entry hentry above hdrop
            rw [hpath] at hlt
            exact absurd hlt (not_lt.mpr (prefix_le hq))
        · rw [h.target above habove, hpath, hnow]
        · rw [h.expected above habove, hpath, ← hstate]
          refine live_of_ne_dir ?_
          rw [hnode]
          exact fun habsurd => by cases habsurd
      · -- the child has a file there, so it has none below, and neither has the parent
        exfalso
        by_cases htarget : entry.target = .absent
        · have hexpected : fileState platform base entry.path ≠ .absent := by
            have hchanged := (h.changed entry hentry').1
            rw [htarget, h.expected entry hentry'] at hchanged
            exact hchanged.symm
          obtain ⟨item', hitem'⟩ := file_of_state hexpected
          have hbaseDir : base q = some .dir := by
            refine hbase.dir_of_prefix ?_ hq hproper
            rw [hitem']
            exact Option.some_ne_none _
          obtain ⟨above, habove, hpath⟩ := h.complete q hbuild (by rw [fileState_of_dir hbaseDir]; exact hnow)
          refine hdir above habove ?_ (by rw [hpath]; exact hbaseDir)
          rw [h.target above habove, hpath]
          exact hnow
        · rw [h.target entry hentry'] at htarget
          exact hproper (eq_of_states hsource htarget hnow hq)

/-- **A merge of the first entries stays between the two trees.** -/
theorem Between.landed {tree : FileTree} (hbetween : Between platform base source entries tree)
    (h : Staged platform base source entries) (hsource : Closed source) {k : ℕ}
    {outcome : Except ExecError MergeOutcome × FileTree}
    (hlanded : Landed platform tree (entries.take k) outcome) :
    Between platform base source entries outcome.2 where
  closed := hlanded.closed
  state p := by
    by_cases hentry : ∃ entry ∈ entries.take k, entry.path = p
    · obtain ⟨entry, hmem, rfl⟩ := hentry
      have hmem' := List.mem_of_mem_take hmem
      rw [hlanded.state entry hmem]
      split
      · exact .inr ⟨(h.changed entry hmem').2, h.target entry hmem'⟩
      · exact hbetween.state entry.path
    · rw [hlanded.others p fun entry hmem hpath => hentry ⟨entry, hmem, hpath⟩]
      exact hbetween.state p
  dir entry hmem htarget habsurd := by
    rcases hlanded.made entry.path habsurd with hdir | ⟨below, hbelow, hbelowTarget, hprefix, hne⟩
    · exact hbetween.dir entry hmem htarget hdir
    · have hbelow' := List.mem_of_mem_take hbelow
      rw [h.target entry hmem] at htarget
      rw [h.target below hbelow'] at hbelowTarget
      exact hne (eq_of_states hsource hbelowTarget htarget hprefix)

/-- **A merge of all entries gives the child's tree** outside the build outputs, and the parent's there. -/
theorem Between.final {tree : FileTree} (hbetween : Between platform base source entries tree)
    (h : Staged platform base source entries)
    {outcome : Except ExecError MergeOutcome × FileTree} (hlanded : Landed platform tree entries outcome)
    (p : Path) :
    fileState platform outcome.2 p
      = if isBuildOutputPath p then fileState platform base p else fileState platform source p := by
  by_cases hentry : ∃ entry ∈ entries, entry.path = p
  · obtain ⟨entry, hmem, rfl⟩ := hentry
    have hchanged := h.changed entry hmem
    have hbuild : ¬isBuildOutputPath entry.path = true := by simp [hchanged.2]
    rw [if_neg hbuild, hlanded.state entry hmem]
    split
    · exact h.target entry hmem
    · next hlive =>
      rcases hbetween.state entry.path with hstate | ⟨-, hstate⟩
      · -- the path has its expected state, so a directory stands there: it was to be removed
        by_cases hnode : tree entry.path = some .dir
        · by_contra hne
          refine hbetween.dir entry hmem ?_ hnode
          intro habsent
          rw [← h.target entry hmem, habsent, fileState_of_dir hnode] at hne
          exact hne rfl
        · rw [live_of_ne_dir hnode, hstate, h.expected entry hmem] at hlive
          exact absurd rfl hlive
      · exact hstate
  · rw [hlanded.others p fun entry hmem hpath => hentry ⟨entry, hmem, hpath⟩]
    by_cases hbuild : isBuildOutputPath p = true
    · rw [if_pos hbuild]
      exact (hbetween.state p).resolve_right fun habsurd => by simp [hbuild] at habsurd
    · rw [if_neg hbuild]
      have hsame : fileState platform source p = fileState platform base p := by
        by_contra hne
        exact hentry (h.complete p (by simpa using hbuild) hne)
      rcases hbetween.state p with hstate | ⟨-, hstate⟩
      · rw [hstate, hsame]
      · exact hstate

/-- On the parent's tree every entry is accepted. -/
theorem Staged.accepts_base (h : Staged platform base source entries)
    (hdir : ∀ entry ∈ entries, entry.target ≠ .absent → base entry.path ≠ some .dir) :
    ∀ entry ∈ entries, accepts platform base entry = true := by
  intro entry hentry
  have hnotDir : base entry.path ≠ some .dir := by
    by_cases htarget : entry.target = .absent
    · intro habsurd
      have hchanged := (h.changed entry hentry).1
      rw [h.expected entry hentry, fileState_of_dir habsurd] at hchanged
      exact hchanged htarget
    · exact hdir entry hentry htarget
  rw [accepts, live_of_ne_dir hnotDir, h.expected entry hentry]
  simp

/-- Where every entry is accepted, the apply that stops at an error does not stop. -/
theorem applyChangeSetToRoot_eq {tree : FileTree} (happlies : Applies platform source entries)
    (hsorted : entries.Pairwise (·.path < ·.path)) (hready : Ready platform tree entries)
    (haccepts : ∀ entry ∈ entries, accepts platform tree entry = true) :
    applyChangeSetToRoot platform source tree entries
      = (.ok (entries.map (·.path)), (mergeEntries platform source (fun _ => false) tree entries).2) := by
  induction entries generalizing tree with
  | nil => rfl
  | cons entry rest ih =>
    obtain ⟨hfirst, hrest⟩ := List.pairwise_cons.mp hsorted
    obtain ⟨step, happly, hstep⟩ := happlies entry List.mem_cons_self tree hready.closed
      (hready.nonempty entry List.mem_cons_self) (hready.open_head hsorted)
    have hlater : ∀ later ∈ rest, accepts platform step.2 later = true := by
      intro later hlater
      have hsame : live platform step.2 later.path = live platform tree later.path := by
        rw [live, live, hstep.later (hfirst later hlater)]
      rw [accepts, hsame]
      exact haccepts later (List.mem_cons_of_mem _ hlater)
    have hrun := ih (fun later hlater => happlies later (List.mem_cons_of_mem _ hlater)) hrest
      (hready.tail hsorted hstep) hlater
    have hlanded := mergeEntries_landed
      (fun later hlater => happlies later (List.mem_cons_of_mem _ hlater)) hrest
      (hready.tail hsorted hstep)
    have hhead := haccepts entry List.mem_cons_self
    obtain ⟨result, hresult⟩ : ∃ result, step.1 = .ok result := by
      rcases hstep.result with ⟨-, hok⟩ | ⟨htarget, hexpected, -⟩
      · exact hok
      · simp [accepts, htarget, hexpected] at hhead
    have happly' : applyEntry platform tree source entry = some (.ok result, step.2) := by
      rw [happly, ← hresult]
    rw [applyChangeSetToRoot, happly', mergeEntries, if_neg Bool.false_ne_true,
      applyOneMerge_step happly hstep, if_pos hhead]
    simp only [hrun]
    have hmerged := hlanded.result
    cases hmerge : mergeEntries platform source (fun _ => false) step.2 rest with
    | mk outcome after =>
      rw [hmerge] at hmerged
      simp only at hmerged
      subst hmerged
      rfl

end Merge

/-- **A change set lands as a patch.**  For a child whose start map agrees with the map of its parent: where
no path that the child writes is a directory of the parent, the entries give the child's tree outside the
build outputs and leave those alone, without a conflict; a merge that is resumed after any number of entries,
or repeated after all of them, ends in the same files.  On any tree on which the entries are ready, the paths
with neither of their two states are reported as conflicts and keep their state, those with the expected
one get the child's, and no other file changes. -/
theorem landing_guarantee (platform : Platform Hash) (start now parentBase : BaseMap Hash)
    (base source : FileTree) (entries : List (ChangeEntry Hash)) (hbase : Closed base)
    (hsource : Closed source) (hstart : Records platform base start)
    (hagrees : ∀ p, baseMapIndex parentBase p = baseMapIndex start p) (hnow : Records platform source now)
    (hentries : computeChangeEntries platform start now parentBase = .ok entries)
    (hfits : ∀ p mode content, source p = some (.file (.regular mode content)) →
      content.length ≤ maxMergeFileBytes) :
    let merge := mergeEntries platform source fun _ => false
    let patched := fun p =>
      if isBuildOutputPath p then fileState platform base p else fileState platform source p
    ((∀ entry ∈ entries, entry.target ≠ .absent → base entry.path ≠ some .dir) →
      ((merge base entries).1 = .ok { merged := entries.map (·.path), conflicts := [] } ∧
        applyChangeSetToRoot platform source base entries
          = (.ok (entries.map (·.path)), (merge base entries).2) ∧
        fileState platform (merge base entries).2 = patched) ∧
      ∀ k, let interrupted := (merge base (entries.take k)).2
        (∃ outcome, (merge interrupted entries).1 = .ok outcome) ∧
          fileState platform (merge interrupted entries).2 = patched) ∧
    ∀ parent, Ready platform parent entries → Landed platform parent entries (merge parent entries) := by
  intro merge patched
  have hstaged := staged_of_compute hstart hagrees hnow hentries
  have happlies := hstaged.applies hsource hfits
  refine ⟨fun hdir => ?_, fun parent hready => mergeEntries_landed happlies hstaged.sorted hready⟩
  have hbetween : Between platform base source entries base := ⟨hbase, fun p => .inl rfl, hdir⟩
  have hready : ∀ {tree}, Between platform base source entries tree → ∀ k,
      Ready platform tree (entries.take k) := fun h k => h.ready hstaged hbase hsource hdir k
  have hland : ∀ {tree}, Between platform base source entries tree → ∀ k,
      Landed platform tree (entries.take k) (merge tree (entries.take k)) := by
    intro tree h k
    exact mergeEntries_landed (fun entry hentry => happlies entry (List.mem_of_mem_take hentry))
      (hstaged.sorted.sublist (List.take_sublist k entries)) (hready h k)
  have hwhole : ∀ {tree}, Between platform base source entries tree →
      Landed platform tree entries (merge tree entries) := by
    intro tree h
    have hall := hland h entries.length
    rwa [List.take_length] at hall
  refine ⟨⟨?_, ?_, ?_⟩, ?_⟩
  · have hresult := (hwhole hbetween).result
    have haccepts := hstaged.accepts_base hdir
    rw [List.filter_eq_self.mpr haccepts] at hresult
    rw [hresult]
    congr 2
    rw [List.map_eq_nil_iff, List.filter_eq_nil_iff]
    intro entry hentry
    simp [haccepts entry hentry]
  · have hall := hready hbetween entries.length
    rw [List.take_length] at hall
    exact applyChangeSetToRoot_eq happlies hstaged.sorted hall (hstaged.accepts_base hdir)
  · funext p
    exact hbetween.final hstaged (hwhole hbetween) p
  · intro k interrupted
    have hinterrupted : Between platform base source entries interrupted :=
      hbetween.landed hstaged hsource (hland hbetween k)
    refine ⟨⟨_, (hwhole hinterrupted).result⟩, ?_⟩
    funext p
    exact hinterrupted.final hstaged (hwhole hinterrupted) p

/-! ## A file and a directory of one name -/

/-- Contents are their own digests, and no path goes through a link. -/
def plainPlatform : Platform Bytes where
  hash content := content
  canonicalize _ _ _ := .error .notFound
  walk _ _ := .ok ()

/-- A file `a`. -/
def flatTree : FileTree := fun p =>
  if p = [] then some .dir
  else if p = ["a"] then some (.file (.regular .regularFile [1]))
  else none

def flatMap : BaseMap Bytes := [(["a"], .regular .regularFile [1])]

/-- A directory `a` with a file `b`. -/
def nestedTree : FileTree := fun p =>
  if p = [] then some .dir
  else if p = ["a"] then some .dir
  else if p = ["a", "b"] then some (.file (.regular .regularFile [2]))
  else none

def nestedMap : BaseMap Bytes := [(["a", "b"], .regular .regularFile [2])]

theorem flatTree_closed : Closed flatTree where
  root := rfl
  parent p x h := by
    unfold flatTree at h ⊢
    rw [if_neg (by simp)] at h
    split at h
    · next heq =>
      have hp : p = [] := by
        have := congrArg List.dropLast heq
        simpa using this
      rw [if_pos hp]
    · exact absurd rfl h

theorem nestedTree_closed : Closed nestedTree where
  root := rfl
  parent p x h := by
    unfold nestedTree at h ⊢
    rw [if_neg (by simp)] at h
    split at h
    · next heq =>
      have hp : p = [] := by
        have := congrArg List.dropLast heq
        simpa using this
      rw [if_pos hp]
    · split at h
      · next heq =>
        have hp : p = ["a"] := by
          have := congrArg List.dropLast heq
          simpa using this
        rw [if_neg (by simp [hp]), if_pos hp]
      · exact absurd rfl h

theorem flatTree_records : Records plainPlatform flatTree flatMap := by
  intro p
  by_cases hp : p = ["a"]
  · subst hp
    decide
  · have hindex : baseMapIndex flatMap p = none := by
      simp [baseMapIndex, flatMap, Ne.symm hp]
    have hstate : fileState plainPlatform flatTree p = .absent := by
      unfold fileState live flatTree
      rw [if_neg hp]
      split <;> rfl
    rw [hindex, if_pos hstate]

theorem nestedTree_records : Records plainPlatform nestedTree nestedMap := by
  intro p
  by_cases hp : p = ["a", "b"]
  · subst hp
    decide
  · have hindex : baseMapIndex nestedMap p = none := by
      simp [baseMapIndex, nestedMap, Ne.symm hp]
    have hstate : fileState plainPlatform nestedTree p = .absent := by
      unfold fileState live nestedTree
      rw [if_neg hp]
      split
      · rfl
      · split <;> rfl
    rw [hindex, if_pos hstate]

/-- The entries from the file to the directory. -/
def nesting : List (ChangeEntry Bytes) :=
  [.staged plainPlatform ["a"] none (some (.regular .regularFile [1])),
    .staged plainPlatform ["a", "b"] (some (.regular .regularFile [2])) none]

/-- **A file that becomes a directory lands**, also when the merge is resumed after the removal. -/
theorem landing_guarantee_nesting :
    computeChangeEntries plainPlatform flatMap nestedMap flatMap = .ok nesting ∧
      ∀ p, isBuildOutputPath p = false →
        fileState plainPlatform (mergeEntries plainPlatform nestedTree (fun _ => false)
          (mergeEntries plainPlatform nestedTree (fun _ => false) flatTree (nesting.take 1)).2 nesting).2 p
          = fileState plainPlatform nestedTree p := by
  have hcompute : computeChangeEntries plainPlatform flatMap nestedMap flatMap = .ok nesting := by
    decide +kernel
  refine ⟨hcompute, fun p hbuild => ?_⟩
  have hfits : ∀ p mode content, nestedTree p = some (.file (.regular mode content)) →
      content.length ≤ maxMergeFileBytes := by
    intro p mode content h
    unfold nestedTree at h
    split at h
    · cases h
    · split at h
      · cases h
      · split at h
        · cases h
          decide
        · cases h
  have hguarantee := (landing_guarantee plainPlatform flatMap nestedMap flatMap flatTree nestedTree nesting
    flatTree_closed nestedTree_closed flatTree_records (fun _ => rfl) nestedTree_records hcompute hfits).1
    (by decide +kernel)
  have hresumed := congrFun (hguarantee.2 1).2 p
  rwa [if_neg (by simp [hbuild])] at hresumed

/-- **A directory that becomes a file does not land**: the parent's directory is refused as a conflict, and
the parent ends without the file. -/
theorem flattening_conflicts :
    ∃ entries, computeChangeEntries plainPlatform nestedMap flatMap nestedMap = .ok entries ∧
      (mergeEntries plainPlatform flatTree (fun _ => false) nestedTree entries).1
        = .ok { merged := [["a", "b"]], conflicts := [["a"]] } ∧
      fileState plainPlatform (mergeEntries plainPlatform flatTree (fun _ => false) nestedTree entries).2 ["a"]
        ≠ fileState plainPlatform flatTree ["a"] := by
  refine ⟨[.staged plainPlatform ["a"] (some (.regular .regularFile [1])) none,
    .staged plainPlatform ["a", "b"] none (some (.regular .regularFile [2]))], ?_, ?_, ?_⟩
  · decide +kernel
  · decide +kernel
  · decide +kernel

end Landing
