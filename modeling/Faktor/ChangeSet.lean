/-
# The change set of a child, and its landing

What a child changed is the difference between the map of the tree it started from and the map of its tree
now, as one entry for each path, in the order of the paths.  The entries are applied to another tree one
after the other, each through the compare-and-swap against the state that the parent had at the start.

* `computeChangeEntries` : the entries of a child;
* `applyOneMerge`, `mergeEntries` : the apply phase of a controlled merge, which goes on after a conflict;
* `applyChangeSetToRoot` : the same without going on.
-/
import Faktor.TreeEntries

namespace Landing

open PathTree

variable {Hash : Type} [DecidableEq Hash] (platform : Platform Hash)

/-! ## The entries -/

/-- `MAX_CHANGES`. -/
def maxChanges : ℕ := 2000

/-- The errors of the executor that occur here. -/
inductive ExecError
  | invalidState
  | oversized
  | conflict
  | notFound
  | internal
  deriving DecidableEq, Repr

/-- `ChangeEntry`; the hashes are the byte-only mirrors of older rows. -/
structure ChangeEntry (Hash : Type) where
  path : Path
  childHash : Option Hash
  baseHash : Option Hash
  child : Option (EntryState Hash)
  base : Option (EntryState Hash)
  deriving DecidableEq, Repr

/-- `EntryState::payload_digest`. -/
def EntryState.payloadDigest : EntryState Hash → Option Hash
  | .absent => none
  | .regular _ payload => some payload
  | .symlink target => some (platform.hash target)

/-- `ChangeEntry::staged`. -/
def ChangeEntry.staged (path : Path) (child base : Option (EntryState Hash)) : ChangeEntry Hash where
  path := path
  childHash := child.bind (·.payloadDigest platform)
  baseHash := base.bind (·.payloadDigest platform)
  child := child
  base := base

/-- `child_state`: a row of an older version is a plain file. -/
def ChangeEntry.childState (entry : ChangeEntry Hash) : Option (EntryState Hash) :=
  entry.child.or (entry.childHash.map (.regular .regularFile))

/-- `base_state`. -/
def ChangeEntry.baseState (entry : ChangeEntry Hash) : Option (EntryState Hash) :=
  entry.base.or (entry.baseHash.map (.regular .regularFile))

/-- A recorded map of a tree. -/
abbrev BaseMap (Hash : Type) := List (Path × EntryState Hash)

/-- `base_map_index`: the last entry of a path counts. -/
def baseMapIndex (map : BaseMap Hash) (p : Path) : Option (EntryState Hash) :=
  (map.reverse.find? fun entry => entry.1 = p).map (·.2)

/-- `is_build_output_path`: by the first component. -/
def isBuildOutputPath (p : Path) : Bool :=
  match p.head? with
  | none => false
  | some name =>
    ["target", "node_modules", ".venv", "venv", "__pycache__", ".pytest_cache", ".mypy_cache", ".gradle",
      ".faktor-verify-target", ".faktor-target"].contains name

/-- The paths of both maps, sorted. -/
def changePaths (start now : BaseMap Hash) : List Path :=
  let nowPaths := (now.map (·.1)).dedup
  let startPaths := (start.map (·.1)).dedup.filter fun p => p ∉ nowPaths
  (nowPaths ++ startPaths).insertionSort (· ≤ ·)

/-- The entry of one path, if it changed. -/
def changeEntry (start now parentBase : BaseMap Hash) (p : Path) :
    Except ExecError (Option (ChangeEntry Hash)) :=
  if isBuildOutputPath p then .ok none
  else
    match baseMapIndex now p, baseMapIndex start p with
    | some child, some base =>
      if child = base then .ok none
      else .ok (some (.staged platform p (some child) (baseMapIndex parentBase p)))
    | some child, none => .ok (some (.staged platform p (some child) (baseMapIndex parentBase p)))
    | none, some _ =>
      match baseMapIndex parentBase p with
      | none => .error .invalidState
      | some base => .ok (some (.staged platform p none (some base)))
    | none, none => .ok none

/-- The loop of `compute_change_entries`. -/
def stageEntries (start now parentBase : BaseMap Hash) :
    List (ChangeEntry Hash) → List Path → Except ExecError (List (ChangeEntry Hash))
  | entries, [] => .ok entries
  | entries, p :: rest =>
    match changeEntry platform start now parentBase p with
    | .error e => .error e
    | .ok none => stageEntries start now parentBase entries rest
    | .ok (some entry) =>
      if maxChanges < (entries ++ [entry]).length then .error .oversized
      else stageEntries start now parentBase (entries ++ [entry]) rest

/-- `compute_change_entries`. -/
def computeChangeEntries (start now parentBase : BaseMap Hash) :
    Except ExecError (List (ChangeEntry Hash)) :=
  stageEntries platform start now parentBase [] (changePaths start now)

/-! ## The landing -/

/-- `read_literal_payload`: the material of a state, from the tree that has it. -/
def readLiteralPayload (tree : FileTree) (rel : Path) (state : EntryState Hash) : Except ErrorKind Bytes :=
  match confinedPath platform tree rel false with
  | .error e => .error e
  | .ok (path, _) =>
    match stateOfPath platform tree path with
    | .error e => .error e
    | .ok found =>
      if found ≠ state then .error .conflict
      else
        match tree path with
        | some (.file (.symlink target)) => .ok target
        | some (.file (.regular _ content)) =>
          if maxMergeFileBytes < content.length then .error .oversized else .ok content
        | _ => .error .conflict

/-- `apply_manifest_entry`. -/
def applyManifestEntry (tree : FileTree) (rel : Path) (source : FileTree) (candidate : EntryState Hash)
    (expected : Option (EntryState Hash)) : Except ErrorKind CasMergeResult × FileTree :=
  match readLiteralPayload platform source rel candidate with
  | .error e => (.error e, tree)
  | .ok payload => applyTreeEntryCas platform tree rel (expected.getD .absent) candidate payload

/-- `delete_manifest_entry`. -/
def deleteManifestEntry (tree : FileTree) (rel : Path) (expected : EntryState Hash) :
    Except ErrorKind CasMergeResult × FileTree :=
  applyTreeEntryCas platform tree rel expected .absent []

/-- One entry, applied: none where it is a removal without a base. -/
def applyEntry (tree source : FileTree) (entry : ChangeEntry Hash) :
    Option (Except ErrorKind CasMergeResult × FileTree) :=
  match entry.childState with
  | some child => some (applyManifestEntry platform tree entry.path source child entry.baseState)
  | none =>
    match entry.baseState with
    | some base => some (deleteManifestEntry platform tree entry.path base)
    | none => none

/-- `ExecError::from_fs`. -/
def ExecError.fromFs : ErrorKind → ExecError
  | .oversized => .oversized
  | .conflict => .conflict
  | .notFound => .notFound
  | _ => .internal

/-- `apply_change_set_to_root`: the first error ends it. -/
def applyChangeSetToRoot (source : FileTree) :
    FileTree → List (ChangeEntry Hash) → Except ExecError (List Path) × FileTree
  | tree, [] => (.ok [], tree)
  | tree, entry :: rest =>
    match applyEntry platform tree source entry with
    | none => (.error .internal, tree)
    | some (.error e, tree) => (.error (.fromFs e), tree)
    | some (.ok _, tree) =>
      match applyChangeSetToRoot source tree rest with
      | (.error e, tree) => (.error e, tree)
      | (.ok applied, tree) => (.ok (entry.path :: applied), tree)

/-- What a merge did with an entry: `apply_one_merge`. -/
inductive MergeStep
  | merged
  | conflict
  | hard (error : ExecError)
  deriving DecidableEq, Repr

/-- `apply_one_merge`: a path that cannot be resolved, a file that is gone and a drift are conflicts of the
one path; every other error ends the merge. -/
def applyOneMerge (tree source : FileTree) (entry : ChangeEntry Hash) : MergeStep × FileTree :=
  match applyEntry platform tree source entry with
  | none => (.hard .internal, tree)
  | some (.ok _, tree) => (.merged, tree)
  | some (.error e, tree) =>
    if e = .conflict ∨ e = .permission ∨ e = .notFound then (.conflict, tree) else (.hard (.fromFs e), tree)

/-- `MergeOutcome`, without the paths that were rejected. -/
structure MergeOutcome where
  merged : List Path
  conflicts : List Path
  deriving DecidableEq, Repr

/-- The apply phase of `approve_and_merge`. -/
def mergeEntries (source : FileTree) (rejected : Path → Bool) :
    FileTree → List (ChangeEntry Hash) → Except ExecError MergeOutcome × FileTree
  | tree, [] => (.ok { merged := [], conflicts := [] }, tree)
  | tree, entry :: rest =>
    if rejected entry.path then mergeEntries source rejected tree rest
    else
      match applyOneMerge platform tree source entry with
      | (.hard e, tree) => (.error e, tree)
      | (.merged, tree) =>
        match mergeEntries source rejected tree rest with
        | (.error e, tree) => (.error e, tree)
        | (.ok outcome, tree) => (.ok { outcome with merged := entry.path :: outcome.merged }, tree)
      | (.conflict, tree) =>
        match mergeEntries source rejected tree rest with
        | (.error e, tree) => (.error e, tree)
        | (.ok outcome, tree) => (.ok { outcome with conflicts := entry.path :: outcome.conflicts }, tree)

end Landing
