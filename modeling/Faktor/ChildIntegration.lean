/-
# The candidate tree of a run

The children of a run start from one immutable base tree.  Their change sets are composed, and the composed
changes are applied to a copy of the base, each with the tree of one child that made it as its source.  A
child with declared paths is staged only if all its changes are below them.

* `outOfScopeChange` : the first change of a child outside its declared paths;
* `applyComposed` : the composed changes, applied in the order of their paths;
* `candidate_exact` : children who write no path above a changed one give one candidate in every order;
* `disjoint_scopes_integrate` : children with disjoint declared paths never conflict;
* `compiled_plan_integrates` : nor do the children of a plan that compiles.
-/
import Faktor.CapabilityLattice
import Faktor.ChildComposition
import Faktor.GreedyLoop
import Faktor.LandingGuarantee
import Faktor.OwnershipGrammar
import Faktor.WorkPlan

namespace Landing

open PathTree Ownership

variable {Hash : Type} [DecidableEq Hash]

/-! ## The code -/

/-- `PreparedChildChangeSet`, with the declared paths of the child's row. -/
structure PreparedChild (Hash : Type) where
  childId : String
  root : FileTree
  files : List (ChangeEntry Hash)
  ownershipPaths : List String

def PreparedChild.changeSet (child : PreparedChild Hash) : ChildSet Hash := ⟨child.childId, child.files⟩

/-- The text of a path. -/
def pathText (path : Path) : String := "/".intercalate path

/-- `out_of_scope_change`. -/
def outOfScopeChange (files : List (ChangeEntry Hash)) (declared : List String) : Option String :=
  let allowed := declared.filterMap fun p => (NormalizedWorkspacePath.new p).toOption
  files.findSome? fun entry =>
    let inside := match NormalizedWorkspacePath.new (pathText entry.path) with
      | .ok path => allowed.any fun a => a.covers false path
      | .error _ => false
    if inside then none else some (pathText entry.path)

section Apply

variable (platform : Platform Hash)

/-- `apply_composed_path_to_candidate`; none where a path has no source, or a removal no base. -/
def applyComposedPath (staged : List (PreparedChild Hash)) (tree : FileTree) (change : ComposedPathChange Hash) :
    Option (Except ErrorKind CasMergeResult × FileTree) :=
  match change.child with
  | some candidate =>
    ((staged.filter fun s => s.childId ∈ change.sources).argmin (·.childId)).map fun source =>
      applyManifestEntry platform tree change.path source.root candidate change.base
  | none => change.base.map fun base => deleteManifestEntry platform tree change.path base

/-- The loop of `prepare_run_integration` over the composed changes. -/
def applyComposed (staged : List (PreparedChild Hash)) :
    FileTree → List (ComposedPathChange Hash) → Except ExecError Unit × FileTree
  | tree, [] => (.ok (), tree)
  | tree, change :: rest =>
    match applyComposedPath platform staged tree change with
    | none => (.error .internal, tree)
    | some (.error e, tree) => (.error (.fromFs e), tree)
    | some (.ok _, tree) => applyComposed staged tree rest

/-! ## The children -/

/-- **A child that was staged from a base tree**: its entries are computed from the recorded maps, its files
are within the bound, and it writes no file where the base has a directory. -/
structure PreparedFrom (base : FileTree) (child : PreparedChild Hash) : Prop where
  closed : Closed child.root
  fits : ∀ p mode content, child.root p = some (.file (.regular mode content)) →
    content.length ≤ maxMergeFileBytes
  computed : ∃ start now parentBase, Records platform base start ∧
    (∀ p, baseMapIndex parentBase p = baseMapIndex start p) ∧ Records platform child.root now ∧
      computeChangeEntries platform start now parentBase = .ok child.files
  files : ∀ entry ∈ child.files, entry.target ≠ .absent → base entry.path ≠ some .dir

variable {platform} {base : FileTree} {child : PreparedChild Hash}

theorem PreparedFrom.staged (h : PreparedFrom platform base child) :
    Staged platform base child.root child.files := by
  obtain ⟨start, now, parentBase, hstart, hagrees, hnow, hfiles⟩ := h.computed
  exact staged_of_compute hstart hagrees hnow hfiles

/-- The entries of one child stand in nobody's way on the base. -/
theorem PreparedFrom.ready (h : PreparedFrom platform base child) (hbase : Closed base) :
    Ready platform base child.files := by
  have hready := Between.ready ⟨hbase, fun p => .inl rfl, h.files⟩ h.staged hbase h.closed h.files child.files.length
  rwa [List.take_length] at hready

/-- A changed path has the state on the base that its entry expects. -/
theorem PreparedFrom.live {entry : ChangeEntry Hash} (h : PreparedFrom platform base child)
    (hentry : entry ∈ child.files) :
    live platform base entry.path = some entry.expected := by
  have haccepts := h.staged.accepts_base h.files entry hentry
  rw [accepts, Bool.or_eq_true, decide_eq_true_eq, decide_eq_true_eq] at haccepts
  rcases haccepts with htarget | hexpected
  · have hstate := fileState_of_live htarget
    rw [← h.staged.expected entry hentry] at hstate
    exact absurd hstate.symm (h.staged.changed entry hentry).1
  · exact hexpected

/-! ## Applying the composed changes -/

/-- A composed change as an entry. -/
def ComposedPathChange.entry (change : ComposedPathChange Hash) : ChangeEntry Hash :=
  ⟨change.path, none, none, change.child, change.base⟩

variable {staged : List (PreparedChild Hash)}

/-- **The run of the composed changes**: where each is a compare-and-swap, nothing stands in the way and the
expected states are there, all of them are applied, and no other file changes. -/
theorem applyComposed_ready {changes : List (ComposedPathChange Hash)} {tree : FileTree}
    (hstep : ∀ change ∈ changes, ∀ tree, Closed tree → change.path ≠ [] → Open tree change.path.dropLast →
      ∃ outcome, applyComposedPath platform staged tree change = some outcome ∧
        CasStep platform tree change.path change.entry.expected change.entry.target outcome)
    (hsorted : changes.Pairwise (·.path < ·.path)) (hready : Ready platform tree (changes.map (·.entry)))
    (hexpected : ∀ change ∈ changes, live platform tree change.path = some change.entry.expected) :
    ∃ candidate, applyComposed platform staged tree changes = (.ok (), candidate) ∧
      (∀ change ∈ changes, fileState platform candidate change.path = change.entry.target) ∧
      ∀ q, (∀ change ∈ changes, change.path ≠ q) → fileState platform candidate q = fileState platform tree q := by
  induction changes generalizing tree with
  | nil => exact ⟨tree, rfl, nofun, fun q _ => rfl⟩
  | cons change rest ih =>
    obtain ⟨hfirst, hrest⟩ := List.pairwise_cons.mp hsorted
    have hsorted' : (change.entry :: rest.map (·.entry)).Pairwise (·.path < ·.path) := by
      rw [← List.map_cons (f := fun change : ComposedPathChange Hash => change.entry)]
      exact List.pairwise_map.mpr hsorted
    obtain ⟨outcome, happly, hcas⟩ := hstep change List.mem_cons_self tree hready.closed
      (hready.nonempty _ List.mem_cons_self) (hready.open_head hsorted')
    have hlive := hexpected change List.mem_cons_self
    obtain ⟨result, hresult⟩ : ∃ result, outcome.1 = .ok result := by
      rcases hcas.result with ⟨-, hok⟩ | ⟨-, hother, -⟩
      · exact hok
      · exact absurd hlive hother
    have hlater : ∀ later ∈ rest, live platform outcome.2 later.path = some later.entry.expected := by
      intro later hmem
      rw [live, hcas.later (hfirst later hmem)]
      exact hexpected later (List.mem_cons_of_mem _ hmem)
    obtain ⟨candidate, hrun, hstates, hothers⟩ := ih
      (fun later hmem => hstep later (List.mem_cons_of_mem _ hmem)) hrest (hready.tail hsorted' hcas) hlater
    refine ⟨candidate, ?_, ?_, ?_⟩
    · have houtcome : outcome = (.ok result, outcome.2) := by rw [← hresult]
      rw [applyComposed, happly, houtcome]
      exact hrun
    · intro later hmem
      rcases List.mem_cons.mp hmem with rfl | hmem
      · rw [hothers _ fun other hother => ne_of_gt (hfirst other hother), hcas.state, if_pos hlive]
      · exact hstates later hmem
    · intro q hq
      rw [hothers q fun later hmem => hq later (List.mem_cons_of_mem _ hmem)]
      -- at most a directory was made there
      rcases hcas.others q (Ne.symm (hq change List.mem_cons_self)) with hsame | ⟨-, -, hnone, hdir⟩
      · rw [fileState, live, hsame]
        rfl
      · rw [fileState_of_dir hdir, fileState, live, hnone]
        rfl

/-! ## What a composition says -/

omit [DecidableEq Hash] in
@[simp] theorem ComposedPathChange.entry_childState (change : ComposedPathChange Hash) :
    change.entry.childState = change.child := by
  simp [entry, ChangeEntry.childState]

omit [DecidableEq Hash] in
@[simp] theorem ComposedPathChange.entry_baseState (change : ComposedPathChange Hash) :
    change.entry.baseState = change.base := by
  simp [entry, ChangeEntry.baseState]

variable {toHex : Hash → String} {sets : List (ChildSet Hash)} {composed : List (ComposedPathChange Hash)}
  {entry : ChangeEntry Hash} {change : ComposedPathChange Hash}

/-- An entry with the path and the two states of a composed change. -/
def Agrees (entry : ChangeEntry Hash) (change : ComposedPathChange Hash) : Prop :=
  entry.path = change.path ∧ entry.childState = change.child ∧ entry.baseState = change.base

omit [DecidableEq Hash] in
theorem Agrees.states (h : Agrees entry change) :
    change.entry.target = entry.target ∧ change.entry.expected = entry.expected := by
  obtain ⟨-, hchild, hbase⟩ := h
  simp [ChangeEntry.target, ChangeEntry.expected, hchild, hbase]

omit [DecidableEq Hash] in
theorem mem_childChanges {c : ChildChange Hash} :
    c ∈ childChanges sets ↔ ∃ cs ∈ sets, ∃ entry ∈ cs.files, ⟨cs.childId, entry⟩ = c := by
  simp only [childChanges, List.mem_flatMap, List.mem_map]

section

variable (hcompose : composeChildChanges platform toHex sets = .ok composed)
include hcompose

theorem composed_paths :
    composed.map (·.path) = changedPaths (childChanges sets) ∧ ∀ change ∈ composed,
      composePath platform toHex change.path (changesAt (childChanges sets) change.path) = .ok change :=
  mapM_ok_spec (fun _ hpath _ h => ((composePath_ok_iff (changesAt_ne_nil hpath)).mp h).1) hcompose

/-- **A composed change and the children**: everyone who touches its path agrees with it, and its sources are
children who do. -/
theorem composed_change (hmem : change ∈ composed) :
    (∀ cs ∈ sets, ∀ entry ∈ cs.files, entry.path = change.path → Agrees entry change) ∧
      change.sources ≠ [] ∧
      ∀ id ∈ change.sources, ∃ cs ∈ sets, cs.childId = id ∧ ∃ entry ∈ cs.files, Agrees entry change := by
  obtain ⟨hpaths, hall⟩ := composed_paths hcompose
  have hpath : change.path ∈ changedPaths (childChanges sets) := by
    rw [← hpaths]
    exact List.mem_map_of_mem hmem
  have hne := changesAt_ne_nil hpath
  obtain ⟨-, hbase, hchild, hsources⟩ := (composePath_ok_iff hne).mp (hall change hmem)
  have hagrees : ∀ c ∈ changesAt (childChanges sets) change.path, Agrees c.entry change := fun c hc =>
    ⟨of_decide_eq_true (List.mem_filter.mp hc).2, hchild c hc, hbase c hc⟩
  refine ⟨fun cs hcs entry hentry heq => ?_, ?_, fun id hid => ?_⟩
  · exact hagrees _ (List.mem_filter.mpr
      ⟨mem_childChanges.mpr ⟨cs, hcs, entry, hentry, rfl⟩, decide_eq_true heq⟩)
  · rw [hsources, Ne, ← List.length_eq_zero_iff, List.length_insertionSort, List.length_map, List.length_eq_zero_iff]
    exact hne
  · rw [hsources, List.mem_insertionSort, List.mem_map] at hid
    obtain ⟨c, hc, rfl⟩ := hid
    obtain ⟨cs, hcs, entry, hentry, rfl⟩ := mem_childChanges.mp (List.mem_filter.mp hc).1
    exact ⟨cs, hcs, rfl, entry, hentry, hagrees _ hc⟩

theorem sorted_composed : composed.Pairwise (·.path < ·.path) := by
  have hpaths := sorted_changedPaths (childChanges sets)
  rw [← (composed_paths hcompose).1] at hpaths
  exact List.pairwise_map.mp hpaths

end

/-! ## The candidate -/

/-- No path that one child writes stands above a path that a child changes. -/
def Apart (staged : List (PreparedChild Hash)) : Prop :=
  ∀ child ∈ staged, ∀ entry ∈ child.files, entry.target ≠ .absent →
    ∀ other ∈ staged, ∀ below ∈ other.files, entry.path <+: below.path → entry.path = below.path

section

variable (hcompose : composeChildChanges platform toHex (staged.map (·.changeSet)) = .ok composed)
include hcompose

/-- Every change of a child is composed. -/
theorem exists_composed (hchild : child ∈ staged) (hentry : entry ∈ child.files) :
    ∃ change ∈ composed, Agrees entry change := by
  have hmem : child.changeSet ∈ staged.map (·.changeSet) := List.mem_map_of_mem hchild
  have hpath : entry.path ∈ composed.map (·.path) := by
    rw [(composed_paths hcompose).1, mem_changedPaths]
    exact ⟨_, mem_childChanges.mpr ⟨_, hmem, entry, hentry, rfl⟩, rfl⟩
  obtain ⟨change, hchange, heq⟩ := List.mem_map.mp hpath
  exact ⟨change, hchange, (composed_change hcompose hchange).1 _ hmem entry hentry heq.symm⟩

variable (hfrom : ∀ child ∈ staged, PreparedFrom platform base child)
include hfrom

/-- **A composed change is applied as one child's entry**: the source that is chosen is a child who made it. -/
theorem applyComposedPath_eq (hids : (staged.map (·.childId)).Nodup) (hmem : change ∈ composed) :
    ∃ child ∈ staged, ∃ entry ∈ child.files, Agrees entry change ∧
      ∀ tree, applyComposedPath platform staged tree change = applyEntry platform tree child.root entry := by
  obtain ⟨-, hsources, hmade⟩ := composed_change hcompose hmem
  have hmade : ∀ id ∈ change.sources, ∃ child ∈ staged, child.childId = id ∧
      ∃ entry ∈ child.files, Agrees entry change := by
    intro id hid
    obtain ⟨cs, hcs, heq, hentry⟩ := hmade id hid
    obtain ⟨child, hchild, rfl⟩ := List.mem_map.mp hcs
    exact ⟨child, hchild, heq, hentry⟩
  obtain ⟨id, hid⟩ := List.exists_mem_of_ne_nil _ hsources
  obtain ⟨first, hfirst, heq, entry, hentry, hagrees⟩ := hmade id hid
  cases hchild : change.child with
  | none =>
    refine ⟨first, hfirst, entry, hentry, hagrees, fun tree => ?_⟩
    have hremoves := (hfrom first hfirst).staged.removes entry hentry (hagrees.2.1.trans hchild)
    obtain ⟨anchor, hanchor⟩ := Option.ne_none_iff_exists'.mp hremoves
    rw [applyComposedPath, hchild, applyEntry, hagrees.2.1, hchild, ← hagrees.2.2, hanchor, hagrees.1]
    rfl
  | some candidate =>
    cases hsource : (staged.filter fun s => s.childId ∈ change.sources).argmin (·.childId) with
    | none =>
      rw [List.argmin_eq_none, List.filter_eq_nil_iff] at hsource
      exact absurd (decide_eq_true (heq ▸ hid)) (hsource first hfirst)
    | some source =>
      obtain ⟨hsourceMem, hsourceId⟩ := List.mem_filter.mp (List.argmin_mem hsource)
      obtain ⟨child, hmemChild, hsame, entry, hentry, hagrees⟩ := hmade _ (of_decide_eq_true hsourceId)
      obtain rfl : child = source := List.inj_on_of_nodup_map hids hmemChild hsourceMem hsame
      refine ⟨child, hmemChild, entry, hentry, hagrees, fun tree => ?_⟩
      rw [applyComposedPath, hchild]
      dsimp only
      rw [hsource, applyEntry, hagrees.2.1, hchild, hagrees.2.2, hagrees.1]
      rfl

/-- The composed changes stand in nobody's way. -/
theorem composed_ready (hbase : Closed base) (hapart : Apart staged)
    (hmade : ∀ change ∈ composed, ∃ child ∈ staged, ∃ entry ∈ child.files, Agrees entry change) :
    Ready platform base (composed.map (·.entry)) := by
  have hone : ∀ entry ∈ composed.map (·.entry), ∃ change ∈ composed, change.entry = entry := fun entry =>
    List.mem_map.mp
  constructor
  case closed => exact hbase
  case nonempty =>
    intro _ hmem
    obtain ⟨change, hchange, rfl⟩ := hone _ hmem
    obtain ⟨child, hchild, entry, hentry, hagrees⟩ := hmade change hchange
    show change.path ≠ []
    rw [← hagrees.1]
    exact ((hfrom child hchild).ready hbase).nonempty entry hentry
  case clear =>
    intro _ hmem q hq hproper
    obtain ⟨change, hchange, rfl⟩ := hone _ hmem
    obtain ⟨child, hchild, entry, hentry, hagrees⟩ := hmade change hchange
    have hpath : change.entry.path = entry.path := hagrees.1.symm
    rw [hpath] at hq hproper
    rcases ((hfrom child hchild).ready hbase).clear entry hentry q hq hproper with
      hnone | hdir | ⟨above, habove, habovePath, htarget, hlive⟩
    · exact .inl hnone
    · exact .inr (.inl hdir)
    · -- the removal above it is composed too
      obtain ⟨other, hother, hagrees'⟩ := exists_composed hcompose hchild habove
      refine .inr (.inr ⟨other.entry, List.mem_map_of_mem hother, ?_, ?_, ?_⟩)
      · exact hagrees'.1.symm.trans habovePath
      · rw [hagrees'.states.1, htarget]
      · rw [hagrees'.states.2, hlive]
  case apart =>
    intro _ hmem _ hbelow htarget hprefix
    obtain ⟨change, hchange, rfl⟩ := hone _ hmem
    obtain ⟨below, hbelowMem, rfl⟩ := hone _ hbelow
    obtain ⟨child, hchild, entry, hentry, hagrees⟩ := hmade change hchange
    obtain ⟨other, hother, entry', hentry', hagrees'⟩ := hmade below hbelowMem
    rw [hagrees.states.1] at htarget
    have hprefix' : entry.path <+: entry'.path := by rwa [hagrees.1, hagrees'.1]
    have heq := hapart child hchild entry hentry htarget other hother entry' hentry' hprefix'
    rwa [hagrees.1, hagrees'.1] at heq

/-- **A composition that nothing stands in the way of is applied whole**: where a child changed a path, the
candidate has that child's state, and elsewhere the base's. -/
theorem candidate_of_composed (hbase : Closed base) (hids : (staged.map (·.childId)).Nodup)
    (hapart : Apart staged) :
    ∃ candidate, applyComposed platform staged base composed = (.ok (), candidate) ∧
      (∀ child ∈ staged, ∀ entry ∈ child.files,
        fileState platform candidate entry.path = fileState platform child.root entry.path) ∧
      ∀ q, (∀ child ∈ staged, ∀ entry ∈ child.files, entry.path ≠ q) →
        fileState platform candidate q = fileState platform base q := by
  have happlied := fun change (hmem : change ∈ composed) => applyComposedPath_eq hcompose hfrom hids hmem
  have hmade : ∀ change ∈ composed, ∃ child ∈ staged, ∃ entry ∈ child.files, Agrees entry change := by
    intro change hmem
    obtain ⟨child, hchild, entry, hentry, hagrees, -⟩ := happlied change hmem
    exact ⟨child, hchild, entry, hentry, hagrees⟩
  have hstep : ∀ change ∈ composed, ∀ tree, Closed tree → change.path ≠ [] → Open tree change.path.dropLast →
      ∃ outcome, applyComposedPath platform staged tree change = some outcome ∧
        CasStep platform tree change.path change.entry.expected change.entry.target outcome := by
    intro change hmem tree htree hne hopen
    obtain ⟨child, hchild, entry, hentry, hagrees, happly⟩ := happlied change hmem
    have hprepared := hfrom child hchild
    rw [happly, hagrees.states.1, hagrees.states.2, ← hagrees.1]
    rw [← hagrees.1] at hne hopen
    exact hprepared.staged.applies hprepared.closed hprepared.fits entry hentry tree htree hne hopen
  have hlive : ∀ change ∈ composed, live platform base change.path = some change.entry.expected := by
    intro change hmem
    obtain ⟨child, hchild, entry, hentry, hagrees⟩ := hmade change hmem
    rw [hagrees.states.2, ← hagrees.1]
    exact (hfrom child hchild).live hentry
  obtain ⟨candidate, hrun, hstates, hothers⟩ := applyComposed_ready hstep (sorted_composed hcompose)
    (composed_ready hcompose hfrom hbase hapart hmade) hlive
  refine ⟨candidate, hrun, fun child hchild entry hentry => ?_, fun q hq => ?_⟩
  · obtain ⟨change, hmem, hagrees⟩ := exists_composed hcompose hchild hentry
    rw [hagrees.1, hstates change hmem, hagrees.states.1, (hfrom child hchild).staged.target entry hentry, hagrees.1]
  · refine hothers q fun change hmem heq => ?_
    obtain ⟨child, hchild, entry, hentry, hagrees⟩ := hmade change hmem
    exact hq child hchild entry hentry (hagrees.1.trans heq)

end

/-- The composed changes are applied alike where each of them is. -/
theorem applyComposed_congr {order : List (PreparedChild Hash)}
    (h : applyComposedPath platform order = applyComposedPath platform staged) (tree : FileTree)
    (changes : List (ComposedPathChange Hash)) :
    applyComposed platform order tree changes = applyComposed platform staged tree changes := by
  induction changes generalizing tree with
  | nil => rfl
  | cons change rest ih =>
    rw [applyComposed, applyComposed, h]
    rcases applyComposedPath platform staged tree change with _ | ⟨e | _, tree⟩
    · rfl
    · rfl
    · exact ih tree

/-- **The candidate of a run**: children who agree where they touch one path, and who write no path above a
changed one, give a candidate with every child's changes and the base elsewhere; in every order of the children
the same changes are composed and the same candidate comes out. -/
theorem candidate_exact (platform : Platform Hash) (toHex : Hash → String) (base : FileTree)
    (staged : List (PreparedChild Hash)) (composed : List (ComposedPathChange Hash)) (hbase : Closed base)
    (hids : (staged.map (·.childId)).Nodup) (hfrom : ∀ child ∈ staged, PreparedFrom platform base child)
    (hapart : Apart staged)
    (hcompose : composeChildChanges platform toHex (staged.map (·.changeSet)) = .ok composed) :
    ∃ candidate, (∀ order, staged.Perm order →
        composeChildChanges platform toHex (order.map (·.changeSet)) = .ok composed ∧
          applyComposed platform order base composed = (.ok (), candidate)) ∧
      (∀ child ∈ staged, ∀ entry ∈ child.files,
        fileState platform candidate entry.path = fileState platform child.root entry.path) ∧
      ∀ q, (∀ child ∈ staged, ∀ entry ∈ child.files, entry.path ≠ q) →
        fileState platform candidate q = fileState platform base q := by
  obtain ⟨candidate, hrun, hstates, hothers⟩ := candidate_of_composed hcompose hfrom hbase hids hapart
  refine ⟨candidate, fun order hperm => ⟨?_, ?_⟩, hstates, hothers⟩
  · have hchanges : (childChanges (staged.map (·.changeSet))).Perm (childChanges (order.map (·.changeSet))) :=
      (hperm.map _).flatMap_right _
    have hcompose' := hcompose
    unfold composeChildChanges at hcompose' ⊢
    dsimp only at hcompose' ⊢
    rw [← changedPaths_congr hchanges]
    exact (mapM_ok_congr fun path hpath composed =>
      composePath_ok_congr (changesAt_ne_nil hpath) (hchanges.filter _)).mp hcompose'
  · have hsame : applyComposedPath platform order = applyComposedPath platform staged := by
      funext tree change
      have hsource : (staged.filter fun s => s.childId ∈ change.sources).argmin (·.childId) =
          (order.filter fun s => s.childId ∈ change.sources).argmin (·.childId) :=
        GreedyLoop.argmin_perm (hperm.filter _) fun a ha b hb heq =>
          List.inj_on_of_nodup_map hids (List.mem_of_mem_filter ha) (List.mem_of_mem_filter hb) heq
      rw [applyComposedPath, applyComposedPath, hsource]
    rw [applyComposed_congr hsame, hrun]

/-- A child that turns a file into a directory, and one that changes nothing. -/
def nestingChild : PreparedChild Bytes := ⟨"c1", nestedTree, nesting, ["a"]⟩

def idleChild : PreparedChild Bytes := ⟨"c2", flatTree, [], ["docs"]⟩

theorem nestingChildren_prepared :
    ∀ child ∈ [nestingChild, idleChild], PreparedFrom plainPlatform flatTree child := by
  have hnesting : PreparedFrom plainPlatform flatTree nestingChild := by
    refine ⟨nestedTree_closed, fun p mode content h => ?_, ?_, by decide⟩
    · change nestedTree p = _ at h
      unfold nestedTree at h
      split_ifs at h <;> cases h
      decide
    · exact ⟨flatMap, nestedMap, flatMap, flatTree_records, fun _ => rfl, nestedTree_records, by decide +kernel⟩
  have hidle : PreparedFrom plainPlatform flatTree idleChild := by
    refine ⟨flatTree_closed, fun p mode content h => ?_, ?_, nofun⟩
    · change flatTree p = _ at h
      unfold flatTree at h
      split_ifs at h <;> cases h
      decide
    · exact ⟨flatMap, flatMap, flatMap, flatTree_records, fun _ => rfl, flatTree_records, by decide +kernel⟩
  simp [hnesting, hidle]

theorem candidate_exact_nesting : ∃ composed candidate,
    composeChildChanges plainPlatform (fun _ => "") [idleChild.changeSet, nestingChild.changeSet] = .ok composed ∧
      applyComposed plainPlatform [idleChild, nestingChild] flatTree composed = (.ok (), candidate) := by
  obtain ⟨candidate, horders, -⟩ := candidate_exact plainPlatform (fun _ => "") flatTree
    [nestingChild, idleChild] [⟨["a"], none, some (.regular .regularFile [1]), ["c1"]⟩,
      ⟨["a", "b"], some (.regular .regularFile [2]), none, ["c1"]⟩] flatTree_closed (by decide)
    nestingChildren_prepared (by unfold Apart; decide +kernel) (by decide +kernel)
  exact ⟨_, candidate, horders _ (.swap _ _ _)⟩

end Apply

/-! ## Disjoint declared paths -/

section Scopes

variable {child : PreparedChild Hash} {p q : Path} {v w : NormalizedWorkspacePath}

/-- A path is below one of the declared paths of a child. -/
def InScope (child : PreparedChild Hash) (p : Path) : Prop :=
  ∃ w, NormalizedWorkspacePath.new (pathText p) = .ok w ∧ (OwnershipSpec.paths child.ownershipPaths).Covers false w

omit [DecidableEq Hash] in
/-- **What the scope check lets through** is in scope. -/
theorem inScope_of_none (h : outOfScopeChange child.files child.ownershipPaths = none) {entry : ChangeEntry Hash}
    (hentry : entry ∈ child.files) : InScope child entry.path := by
  have hinside := List.findSome?_eq_none_iff.mp h entry hentry
  dsimp only at hinside
  cases hnew : NormalizedWorkspacePath.new (pathText entry.path) with
  | error e => simp [hnew] at hinside
  | ok w =>
    simp only [hnew, ite_eq_left_iff, reduceCtorEq, imp_false, not_not, List.any_eq_true, List.mem_filterMap] at hinside
    obtain ⟨a, ⟨declared, hdeclared, ha⟩, hcovers⟩ := hinside
    refine ⟨w, hnew, _, declared, a, rfl, hdeclared, ?_, hcovers⟩
    cases hd : NormalizedWorkspacePath.new declared with
    | error e =>
      rw [hd] at ha
      cases ha
    | ok b =>
      rw [hd] at ha
      cases ha
      rfl

/-- The text of a path below another one continues its text. -/
theorem text_continues (hp : NormalizedWorkspacePath.new (pathText p) = .ok v)
    (hq : NormalizedWorkspacePath.new (pathText q) = .ok w) (hne : p ≠ []) (hpq : p <+: q) :
    v.text ++ ['/'] <+: w.text ++ ['/'] := by
  obtain ⟨rest, rfl⟩ := hpq
  by_cases hrest : rest = []
  · rw [hrest, List.append_nil, hp] at hq
    rw [Except.ok.inj hq]
  · have htext : (pathText (p ++ rest)).toList = (pathText p).toList ++ ['/'] ++ (pathText rest).toList := by
      rw [pathText, String.intercalate_append_of_ne_nil hne hrest, String.toList_append, String.toList_append]
      rfl
    rw [(NormalizedWorkspacePath.new_eq_ok_iff_checked.mp hp).2, (NormalizedWorkspacePath.new_eq_ok_iff_checked.mp hq).2]
    have hbelow : ∀ raw : List Char, NormalizedWorkspacePath.body raw ++ ['/'] <+: raw ++ ['/'] ∧
        raw <+: NormalizedWorkspacePath.body raw ++ ['/'] := by
      intro raw
      rcases NormalizedWorkspacePath.body_eq_or raw with ⟨hbody, -⟩ | ⟨hbody, -⟩
      · rw [← hbody]
        exact ⟨List.prefix_refl _, List.prefix_append _ _⟩
      · rw [← hbody]
        exact ⟨List.prefix_append _ _, List.prefix_refl _⟩
    calc NormalizedWorkspacePath.body (pathText p).toList ++ ['/'] <+: (pathText p).toList ++ ['/'] := (hbelow _).1
      _ <+: (pathText (p ++ rest)).toList := by
        rw [htext]
        exact List.prefix_append _ _
      _ <+: _ := (hbelow _).2

omit [DecidableEq Hash] in
/-- What covers a path covers the paths below it. -/
theorem InScope.below (h : InScope child p) (hq : NormalizedWorkspacePath.new (pathText q) = .ok w) (hne : p ≠ [])
    (hpq : p <+: q) : (OwnershipSpec.paths child.ownershipPaths).Covers false w := by
  obtain ⟨v, hp, ps, declared, a, hps, hdeclared, ha, hcovers⟩ := h
  refine ⟨ps, declared, a, hps, hdeclared, ha, ?_⟩
  rw [NormalizedWorkspacePath.covers_iff] at hcovers ⊢
  exact hcovers.trans (text_continues hp hq hne hpq)

variable {platform : Platform Hash} {base : FileTree} {staged : List (PreparedChild Hash)} {quote : String → String}

omit [DecidableEq Hash] in
/-- Of two children with disjoint declared paths one alone may write a path and what is below it. -/
theorem eq_of_inScope (hdisjoint : staged.Pairwise fun a b =>
      OwnershipSpec.overlaps quote false (.paths a.ownershipPaths) (.paths b.ownershipPaths) = false)
    {a b : PreparedChild Hash} (ha : a ∈ staged) (hb : b ∈ staged) (hne : p ≠ []) (hpq : p <+: q)
    (hp : InScope a p) (hq : InScope b q) : a = b := by
  have hsymm : Std.Symm fun a b : PreparedChild Hash =>
      OwnershipSpec.overlaps quote false (.paths a.ownershipPaths) (.paths b.ownershipPaths) = false :=
    ⟨fun a b h => (OwnershipSpec.overlaps_comm _ _).trans h⟩
  by_contra hab
  obtain ⟨w, hw, hcovers⟩ := hq
  exact OwnershipSpec.disjoint_of_not_overlaps (hdisjoint.forall ha hb hab) ⟨hp.below hw hne hpq, hcovers⟩

/-- Change sets that have one entry for a path are composed. -/
theorem composes_of_unshared {toHex : Hash → String} {sets : List (ChildSet Hash)}
    (hunshared : ∀ cs ∈ sets, ∀ entry ∈ cs.files, ∀ other ∈ sets, ∀ entry' ∈ other.files,
      entry.path = entry'.path → entry = entry') :
    ∃ composed, composeChildChanges platform toHex sets = .ok composed := by
  suffices hstep : ∀ path ∈ changedPaths (childChanges sets), ∃ change,
      composePath platform toHex path (changesAt (childChanges sets) path) = .ok change by
    have : Nonempty (ComposedPathChange Hash) := ⟨⟨[], none, none, []⟩⟩
    choose! change hchange using hstep
    exact ⟨_, (mapM_ok_congr fun path hpath _ => by rw [hchange path hpath]; rfl).mpr List.mapM_pure⟩
  intro path hpath
  have hne := changesAt_ne_nil hpath
  obtain ⟨first, hfirst⟩ := List.exists_mem_of_ne_nil _ hne
  have hsame : ∀ c ∈ changesAt (childChanges sets) path, c.entry = first.entry := by
    intro c hc
    obtain ⟨hmem, heq⟩ := List.mem_filter.mp hc
    obtain ⟨hmem', heq'⟩ := List.mem_filter.mp hfirst
    obtain ⟨cs, hcs, entry, hentry, rfl⟩ := mem_childChanges.mp hmem
    obtain ⟨other, hother, entry', hentry', rfl⟩ := mem_childChanges.mp hmem'
    exact hunshared cs hcs entry hentry other hother entry' hentry'
      ((of_decide_eq_true heq).trans (of_decide_eq_true heq').symm)
  exact ⟨⟨path, first.entry.childState, first.entry.baseState, _⟩, (composePath_ok_iff hne).mpr
    ⟨rfl, fun c hc => by rw [hsame c hc], fun c hc => by rw [hsame c hc], rfl⟩⟩

/-- The children compose and are applied whole; below the declared paths of a child the candidate is the child's
tree, and where no child may write it is the base. -/
def Integrates (platform : Platform Hash) (toHex : Hash → String) (base : FileTree)
    (staged : List (PreparedChild Hash)) : Prop :=
  ∃ composed candidate, composeChildChanges platform toHex (staged.map (·.changeSet)) = .ok composed ∧
    applyComposed platform staged base composed = (.ok (), candidate) ∧
    ∀ p, isBuildOutputPath p = false →
      (∀ child ∈ staged, InScope child p → fileState platform candidate p = fileState platform child.root p) ∧
      ((∀ child ∈ staged, ¬ InScope child p) → fileState platform candidate p = fileState platform base p)

/-- **Disjoint declared paths never conflict** among children that were staged from one base, each within its
own declared paths. -/
theorem disjoint_scopes_integrate (toHex : Hash → String) (hbase : Closed base)
    (hids : (staged.map (·.childId)).Nodup) (hfrom : ∀ child ∈ staged, PreparedFrom platform base child)
    (hscopes : ∀ child ∈ staged, outOfScopeChange child.files child.ownershipPaths = none)
    (hdisjoint : staged.Pairwise fun a b =>
      OwnershipSpec.overlaps quote false (.paths a.ownershipPaths) (.paths b.ownershipPaths) = false) :
    Integrates platform toHex base staged := by
  have hscope : ∀ child ∈ staged, ∀ entry ∈ child.files, InScope child entry.path := fun child hchild entry =>
    inScope_of_none (hscopes child hchild)
  have hready : ∀ child ∈ staged, Ready platform base child.files := fun child hchild =>
    (hfrom child hchild).ready hbase
  -- only one child changes a path, or what is below it
  have hone : ∀ child ∈ staged, ∀ entry ∈ child.files, ∀ other ∈ staged, ∀ below ∈ other.files,
      entry.path <+: below.path → child = other := by
    intro child hchild entry hentry other hother below hbelow hprefix
    exact eq_of_inScope hdisjoint hchild hother ((hready child hchild).nonempty entry hentry) hprefix
      (hscope child hchild entry hentry) (hscope other hother below hbelow)
  have hapart : Apart staged := by
    intro child hchild entry hentry htarget other hother below hbelow hprefix
    obtain rfl := hone child hchild entry hentry other hother below hbelow hprefix
    exact (hready child hchild).apart entry hentry below hbelow htarget hprefix
  obtain ⟨composed, hcompose⟩ : ∃ composed, composeChildChanges platform toHex (staged.map (·.changeSet)) =
      .ok composed := by
    refine composes_of_unshared fun cs hcs entry hentry cs' hcs' entry' hentry' heq => ?_
    obtain ⟨child, hchild, rfl⟩ := List.mem_map.mp hcs
    obtain ⟨other, hother, rfl⟩ := List.mem_map.mp hcs'
    obtain rfl := hone child hchild entry hentry other hother entry' hentry' (heq ▸ List.prefix_refl _)
    have hnodup : (child.files.map (·.path)).Nodup :=
      List.pairwise_map.mpr ((hfrom child hchild).staged.sorted.imp ne_of_lt)
    exact List.inj_on_of_nodup_map hnodup hentry hentry' heq
  obtain ⟨candidate, hrun, hstates, hothers⟩ := candidate_of_composed hcompose hfrom hbase hids hapart
  refine ⟨composed, candidate, hcompose, hrun, fun p hbuild => ⟨fun child hchild hin => ?_, fun hout => ?_⟩⟩
  · by_cases hchanged : ∃ entry ∈ child.files, entry.path = p
    · obtain ⟨entry, hentry, rfl⟩ := hchanged
      exact hstates child hchild entry hentry
    · have hunchanged : fileState platform child.root p = fileState platform base p := by
        by_contra hne
        exact hchanged ((hfrom child hchild).staged.complete p hbuild hne)
      rw [hunchanged]
      refine hothers p fun other hother entry hentry heq => ?_
      subst heq
      obtain rfl := eq_of_inScope hdisjoint hchild hother ((hready other hother).nonempty entry hentry)
        (List.prefix_refl _) hin (hscope other hother entry hentry)
      exact hchanged ⟨entry, hentry, rfl⟩
  · exact hothers p fun child hchild entry hentry heq => hout child hchild (heq ▸ hscope child hchild entry hentry)

end Scopes

/-! ## The plan of a run -/

/-- `WorkKind`. -/
inductive WorkKind
  | analysis | implementation | verification | exploration | review
  deriving DecidableEq

def WorkKind.isMutating (kind : WorkKind) : Bool := kind ∈ [implementation, verification]

/-- `WorkItem`, with what its child may do. -/
structure OwnedItem extends WorkPlan.WorkItem where
  kind : WorkKind
  ownership : OwnershipSpec
  requiredCapabilities : Capability.CapabilitySet

/-- The violations of `compile_errors`. -/
inductive PlanViolation
  | structural (violation : WorkPlan.Violation)
  | ownershipSpec (id : String) (violation : OwnershipSpecViolation)
  | tooManyGrants (id : String)
  | readOnlyCapabilities (id : String)
  | missingOwnership (id : String)
  | readOnlyOwnership (id : String)
  | overlapping (id other : String)

section Plan

variable (quote : String → String)

/-- The checks of one item. -/
def OwnedItem.violations (item : OwnedItem) : List PlanViolation :=
  let writes : Bool := item.ownership ≠ .noWrites
  (item.ownership.violations quote false).map (.ownershipSpec item.id) ++
    (if Capability.maxGrantsPerSet < item.requiredCapabilities.elems.length then [.tooManyGrants item.id] else []) ++
    (if !item.kind.isMutating && item.requiredCapabilities.elems.any (·.cap ∈ [.writeWorkspace, .writeExternal]) then
      [.readOnlyCapabilities item.id] else []) ++
    (if !writes && item.kind.isMutating then [.missingOwnership item.id] else []) ++
    (if writes && !item.kind.isMutating then [.readOnlyOwnership item.id] else [])

/-- The loop over the pairs of items. -/
def overlapErrors : List OwnedItem → List PlanViolation
  | [] => []
  | a :: rest => (rest.filter fun b => a.ownership.overlaps quote false b.ownership).map (.overlapping a.id ·.id) ++
      overlapErrors rest

/-- `compile_errors`. -/
def compileErrors (goal : String) (items : List OwnedItem) : List PlanViolation :=
  (WorkPlan.structuralErrors goal (items.map (·.toWorkItem))).map .structural ++
    items.flatMap (·.violations quote) ++ overlapErrors quote (items.filter (·.kind.isMutating))

variable {quote} {items : List OwnedItem}

theorem pairwise_of_overlapErrors (h : overlapErrors quote items = []) :
    items.Pairwise fun a b => a.ownership.overlaps quote false b.ownership = false := by
  induction items with
  | nil => exact .nil
  | cons a rest ih =>
    obtain ⟨hhead, htail⟩ := List.append_eq_nil_iff.mp h
    rw [List.map_eq_nil_iff, List.filter_eq_nil_iff] at hhead
    exact .cons (fun b hb => Bool.eq_false_iff.mpr (hhead b hb)) (ih htail)

/-- **The children of a plan that compiles never conflict**: one child for an item, each with the declared paths
of its item and within them. -/
theorem compiled_plan_integrates (platform : Platform Hash) (toHex : Hash → String) (quote : String → String)
    (goal : String) (items : List OwnedItem) (base : FileTree) (staged : List (PreparedChild Hash))
    (item : PreparedChild Hash → OwnedItem) (hplan : compileErrors quote goal items = [])
    (hitems : ∀ child ∈ staged, item child ∈ items ∧ (item child).ownership = .paths child.ownershipPaths)
    (hone : (staged.map fun child => (item child).id).Nodup) (hbase : Closed base)
    (hids : (staged.map (·.childId)).Nodup) (hfrom : ∀ child ∈ staged, PreparedFrom platform base child)
    (hscopes : ∀ child ∈ staged, outOfScopeChange child.files child.ownershipPaths = none) :
    Integrates platform toHex base staged := by
  obtain ⟨hfront, hoverlaps⟩ := List.append_eq_nil_iff.mp hplan
  have hchecks := List.flatMap_eq_nil_iff.mp (List.append_eq_nil_iff.mp hfront).2
  -- an item with declared paths is one that writes
  have hmutating : ∀ child ∈ staged, item child ∈ items.filter (·.kind.isMutating) := by
    intro child hchild
    obtain ⟨hmem, hpaths⟩ := hitems child hchild
    have hlast := (List.append_eq_nil_iff.mp (hchecks _ hmem)).2
    refine List.mem_filter.mpr ⟨hmem, ?_⟩
    by_contra hread
    simp [hpaths, hread] at hlast
  have hsymm : Std.Symm fun a b : OwnedItem => a.ownership.overlaps quote false b.ownership = false :=
    ⟨fun a b h => (OwnershipSpec.overlaps_comm _ _).trans h⟩
  refine @disjoint_scopes_integrate Hash _ platform base staged quote toHex hbase hids hfrom hscopes ?_
  refine (List.pairwise_map.mp hone).imp_of_mem fun {a b} ha hb hne => ?_
  have hapart := (pairwise_of_overlapErrors hoverlaps).forall (hmutating a ha) (hmutating b hb)
    fun heq => hne (congrArg (·.id) heq)
  rwa [(hitems a ha).2, (hitems b hb).2] at hapart

/-- An item of one child, which writes below the declared paths. -/
def writingItem (child : PreparedChild Bytes) : OwnedItem :=
  ⟨⟨child.childId, [], .pending⟩, .implementation, .paths child.ownershipPaths, ⟨[], .nil⟩⟩

theorem compiled_plan_integrates_nesting :
    Integrates plainPlatform (fun _ => "") flatTree [nestingChild, idleChild] :=
  compiled_plan_integrates plainPlatform (fun _ => "") id "" [writingItem nestingChild, writingItem idleChild]
    flatTree [nestingChild, idleChild] writingItem (by decide +kernel) (by simp [writingItem]) (by decide)
    flatTree_closed (by decide) nestingChildren_prepared (by decide +kernel)

end Plan

end Landing
