/-
# One path of a file tree, and its compare-and-swap

The state of one path is absence, a regular file with its mode and the digest of its content, or a symbolic
link with its literal target.  A path is moved from one state to another only while it still has the state
that is expected; a path that has the new state already is left alone.

* `stateOfPath` : the state of a path;
* `confinedPath` : where a path of the tree really stands;
* `applyTreeEntryCas` : the compare-and-swap;
* `CasStep` : what it does to a path that no file and no link stands above.
-/
import Faktor.PathTree

namespace Landing

open PathTree

/-! ## States -/

abbrev Path := List String

abbrev Bytes := List UInt8

/-- `CanonicalMode`, of a regular file. -/
inductive CanonicalMode
  | regularFile
  | executableFile
  deriving DecidableEq, Repr

/-- A file of the tree, whole. -/
inductive Item
  | regular (mode : CanonicalMode) (content : Bytes)
  | symlink (target : Bytes)
  deriving DecidableEq, Repr

abbrev FileTree := Tree String Item

/-- `EntryState`. -/
inductive EntryState (Hash : Type)
  | absent
  | regular (mode : CanonicalMode) (payload : Hash)
  | symlink (target : Bytes)
  deriving DecidableEq, Repr

/-- The kinds of error that occur here. -/
inductive ErrorKind
  | conflict
  | permission
  | notFound
  | oversized
  | malformed
  | internal
  deriving DecidableEq, Repr

/-- `MAX_MERGE_FILE_BYTES`. -/
def maxMergeFileBytes : ℕ := 256 * 1024 * 1024

/-- BLAKE3, and what the system makes of a path that goes through a symbolic link. -/
structure Platform (Hash : Type) where
  hash : Bytes → Hash
  /-- The canonical form of a directory path, and the path down to which directories are made. -/
  canonicalize : FileTree → Path → Bool → Except ErrorKind (Path × Path)
  /-- The walk that checks the directory again. -/
  walk : FileTree → Path → Except ErrorKind Unit

variable {Hash : Type} [DecidableEq Hash] (platform : Platform Hash)

/-- The state of a file. -/
def Item.state : Item → EntryState Hash
  | .regular mode content => .regular mode (platform.hash content)
  | .symlink target => .symlink target

/-! ## Resolution -/

/-- A symbolic link stands on the way. -/
def linked (tree : FileTree) (dir : Path) : Bool :=
  dir.inits.any fun q => match tree q with
    | some (.file (.symlink _)) => true
    | _ => false

/-- A regular file stands on the way. -/
def blocked (tree : FileTree) (dir : Path) : Bool :=
  dir.inits.any fun q => match tree q with
    | some (.file (.regular _ _)) => true
    | _ => false

/-- `confined_path`: the canonical path, and the tree with the parents that were asked for. -/
def confinedPath (tree : FileTree) (rel : Path) (createParents : Bool) :
    Except ErrorKind (Path × FileTree) :=
  match rel.getLast? with
  | none => .error .malformed
  | some name =>
    let parent := rel.dropLast
    if linked tree parent then
      match platform.canonicalize tree parent createParents with
      | .error e => .error e
      | .ok (canonical, made) => .ok (canonical ++ [name], makeDirs tree made)
    else if createParents then
      if blocked tree parent then .error .internal else .ok (rel, makeDirs tree parent)
    else if tree parent = none then .error .notFound
    else .ok (rel, tree)

/-- `state_of_path`: a directory is a typed refusal, and nothing stands below a file. -/
def stateOfPath (tree : FileTree) (path : Path) : Except ErrorKind (EntryState Hash) :=
  match tree path.dropLast, tree path with
  | some (.file _), _ => .error .internal
  | _, none => .ok .absent
  | _, some .dir => .error .conflict
  | _, some (.file item) => .ok (item.state platform)

/-! ## The compare-and-swap -/

/-- `payload_for`. -/
def payloadFor (state : EntryState Hash) (material : Bytes) : Except ErrorKind Unit :=
  match state with
  | .absent => .ok ()
  | .regular _ payload =>
    if maxMergeFileBytes < material.length then .error .oversized
    else if platform.hash material ≠ payload then .error .conflict
    else .ok ()
  | .symlink target => if material ≠ target then .error .conflict else .ok ()

/-- The new item of a path: a change of the mode alone keeps the content that stands there. -/
def publish (tree : FileTree) (dst : Path) (current next : EntryState Hash) (material : Bytes) : FileTree :=
  match current, next with
  | _, .absent => put tree dst none
  | .regular _ payload, .regular mode payload' =>
    if payload = payload' then
      match tree dst with
      | some (.file (.regular _ content)) => put tree dst (some (.file (.regular mode content)))
      | _ => tree
    else put tree dst (some (.file (.regular mode material)))
  | _, .regular mode _ => put tree dst (some (.file (.regular mode material)))
  | _, .symlink target => put tree dst (some (.file (.symlink target)))

/-- `transition`. -/
def transition (tree : FileTree) (rel dst : Path) (current next : EntryState Hash) (material : Bytes) :
    Except ErrorKind FileTree :=
  match payloadFor platform next material with
  | .error e => .error e
  | .ok () =>
    match (if linked tree rel.dropLast then platform.walk tree rel.dropLast else .ok ()) with
    | .error e => .error e
    | .ok () => .ok (publish tree dst current next material)

inductive CasMergeResult
  | applied
  | alreadyCurrent
  deriving DecidableEq, Repr

/-- `apply_tree_entry_cas`, with the tree that it leaves. -/
def applyTreeEntryCas (tree : FileTree) (rel : Path) (expected next : EntryState Hash) (material : Bytes) :
    Except ErrorKind CasMergeResult × FileTree :=
  match confinedPath platform tree rel (next ≠ .absent) with
  | .error .notFound =>
    if next = .absent then (.ok .alreadyCurrent, tree) else (.error .conflict, tree)
  | .error e => (.error e, tree)
  | .ok (dst, tree) =>
    match stateOfPath platform tree dst with
    | .error e => (.error e, tree)
    | .ok current =>
      if current = next then (.ok .alreadyCurrent, tree)
      else if current ≠ expected then (.error .conflict, tree)
      else
        match transition platform tree rel dst current next material with
        | .error e => (.error e, tree)
        | .ok tree =>
          match stateOfPath platform tree dst with
          | .error e => (.error e, tree)
          | .ok final => (if final = next then .ok .applied else .error .internal, tree)

/-! ## What it does -/

/-- The state of what stands at a path: a directory has none. -/
def nodeState : Option (Node Item) → Option (EntryState Hash)
  | none => some .absent
  | some .dir => none
  | some (.file item) => some (item.state platform)

/-- The state of a path as a compare-and-swap sees it. -/
def live (tree : FileTree) (p : Path) : Option (EntryState Hash) := nodeState platform (tree p)

/-- The state of a path in the map of a tree: a directory is not in it. -/
def fileState (tree : FileTree) (p : Path) : EntryState Hash := (live platform tree p).getD .absent

/-- **What a compare-and-swap does** to a path that only directories stand above. -/
structure CasStep (tree : FileTree) (p : Path) (expected next : EntryState Hash)
    (outcome : Except ErrorKind CasMergeResult × FileTree) : Prop where
  /-- It succeeds on the new state and on the expected one, and refuses every other. -/
  result : (live platform tree p = some next ∨ live platform tree p = some expected) ∧
      (∃ result, outcome.1 = .ok result) ∨
    live platform tree p ≠ some next ∧ live platform tree p ≠ some expected ∧ outcome.1 = .error .conflict
  /-- The expected state becomes the new one, and any other state stays. -/
  state : fileState platform outcome.2 p
    = if live platform tree p = some expected then next else fileState platform tree p
  /-- A directory stays, and none is made there. -/
  dir : outcome.2 p = some .dir ↔ tree p = some .dir
  /-- Elsewhere at most the directories above a path that is written are made. -/
  others : ∀ q, q ≠ p → outcome.2 q = tree q ∨
    next ≠ .absent ∧ q <+: p ∧ tree q = none ∧ outcome.2 q = some .dir
  closed : Closed outcome.2

variable {platform}

omit [DecidableEq Hash] in
theorem nodeState_eq_absent {node : Option (Node Item)} (h : nodeState platform node = some .absent) :
    node = none := by
  match node with
  | none => rfl
  | some .dir => cases h
  | some (.file (.regular _ _)) => cases h
  | some (.file (.symlink _)) => cases h

omit [DecidableEq Hash] in
theorem fileState_of_dir {tree : FileTree} {p : Path} (h : tree p = some .dir) :
    fileState platform tree p = .absent := by
  rw [fileState, live, h]
  rfl

omit [DecidableEq Hash] in
theorem fileState_of_live {tree : FileTree} {p : Path} {state : EntryState Hash}
    (h : live platform tree p = some state) : fileState platform tree p = state := by
  rw [fileState, h]
  rfl

omit [DecidableEq Hash] in
/-- Where a path has a state, it is that of its map. -/
theorem live_of_ne_dir {tree : FileTree} {p : Path} (h : tree p ≠ some .dir) :
    live platform tree p = some (fileState platform tree p) := by
  unfold fileState live
  cases hnode : tree p with
  | none => rfl
  | some node =>
    cases node with
    | dir => exact absurd hnode h
    | file item => rfl

omit [DecidableEq Hash] in
theorem live_eq_none {tree : FileTree} {p : Path} : live platform tree p = none ↔ tree p = some .dir := by
  constructor
  · intro h
    by_contra hdir
    rw [live_of_ne_dir hdir] at h
    cases h
  · intro h
    rw [live, h]
    rfl

theorem linked_of_open {tree : FileTree} {dir : Path} (h : Open tree dir) : linked tree dir = false := by
  rw [linked, List.any_eq_false]
  intro q hq
  rcases h q ((List.mem_inits q dir).mp hq) with hnone | hdir
  · simp [hnone]
  · simp [hdir]

theorem blocked_of_open {tree : FileTree} {dir : Path} (h : Open tree dir) : blocked tree dir = false := by
  rw [blocked, List.any_eq_false]
  intro q hq
  rcases h q ((List.mem_inits q dir).mp hq) with hnone | hdir
  · simp [hnone]
  · simp [hdir]

omit [DecidableEq Hash] in
/-- A path stands in its directory, where only directories are above it. -/
theorem confinedPath_of_open {tree : FileTree} {p : Path} (hne : p ≠ []) (h : Open tree p.dropLast)
    (createParents : Bool) :
    confinedPath platform tree p createParents =
      if createParents then .ok (p, makeDirs tree p.dropLast)
      else if tree p.dropLast = none then .error .notFound else .ok (p, tree) := by
  unfold confinedPath
  rw [List.getLast?_eq_some_getLast hne]
  simp only [linked_of_open h, blocked_of_open h, Bool.false_eq_true, if_false]

omit [DecidableEq Hash] in
theorem stateOfPath_of_dir {tree : FileTree} {p : Path} (h : tree p.dropLast = some .dir) :
    stateOfPath platform tree p = match live platform tree p with
      | none => .error .conflict
      | some state => .ok state := by
  unfold stateOfPath live
  rw [h]
  match tree p with
  | none => rfl
  | some .dir => rfl
  | some (.file _) => rfl

/-- **A transition writes the new state**, and nothing else. -/
theorem publish_eq_put {tree : FileTree} {p : Path} {current next : EntryState Hash} {material : Bytes}
    (hlive : live platform tree p = some current) (hmaterial : payloadFor platform next material = .ok ()) :
    ∃ node, publish tree p current next material = put tree p node ∧
      nodeState platform node = some next := by
  cases next with
  | absent => exact ⟨none, by cases current <;> rfl, rfl⟩
  | symlink target => exact ⟨some (.file (.symlink target)), by cases current <;> rfl, rfl⟩
  | regular mode payload =>
    have hhash : platform.hash material = payload := by
      unfold payloadFor at hmaterial
      simp only at hmaterial
      split at hmaterial
      · cases hmaterial
      · split at hmaterial
        · cases hmaterial
        · next hsame => exact not_not.mp hsame
    have hwrite : nodeState platform (some (.file (.regular mode material)))
        = some (.regular mode payload) := by
      rw [← hhash]
      rfl
    cases current with
    | absent => exact ⟨_, rfl, hwrite⟩
    | symlink target => exact ⟨_, rfl, hwrite⟩
    | regular mode' payload' =>
      by_cases hsame : payload' = payload
      · -- only the mode changes
        unfold live at hlive
        match hnode : tree p with
        | none =>
          rw [hnode] at hlive
          cases hlive
        | some .dir =>
          rw [hnode] at hlive
          cases hlive
        | some (.file (.symlink target)) =>
          rw [hnode] at hlive
          cases hlive
        | some (.file (.regular mode₀ content)) =>
          rw [hnode] at hlive
          refine ⟨some (.file (.regular mode content)), ?_, ?_⟩
          · unfold publish
            simp only [hnode]
            rw [if_pos hsame]
          · cases hlive
            rw [← hsame]
            rfl
      · refine ⟨_, ?_, hwrite⟩
        unfold publish
        simp only
        rw [if_neg hsame]

omit [DecidableEq Hash] in
/-- The parents of a path are made if they are wanted; only a removal may find none. -/
theorem confinedPath_cases (platform : Platform Hash) {tree : FileTree} {p : Path} (hclosed : Closed tree) (hne : p ≠ [])
    (hopen : Open tree p.dropLast) (createParents : Bool) :
    createParents = false ∧ tree p = none ∧
        confinedPath platform tree p createParents = .error .notFound ∨
      ∃ tree', confinedPath platform tree p createParents = .ok (p, tree') ∧
        tree' p.dropLast = some .dir ∧ tree' p = tree p ∧ Closed tree' ∧
        ∀ q, tree' q = tree q ∨
          createParents = true ∧ q <+: p ∧ tree q = none ∧ tree' q = some .dir := by
  have hlast : p.dropLast ++ [p.getLast hne] = p := List.dropLast_append_getLast hne
  have hshort : ¬p <+: p.dropLast := by
    intro habsurd
    have := habsurd.length_le
    rw [List.length_dropLast] at this
    have := List.length_pos_of_ne_nil hne
    omega
  rw [confinedPath_of_open hne hopen]
  cases createParents with
  | true =>
    right
    refine ⟨makeDirs tree p.dropLast, rfl, makeDirs_prefix hopen (List.prefix_refl _),
      makeDirs_of_not_isPrefix tree hshort, hclosed.makeDirs hopen, ?_⟩
    intro q
    refine (makeDirs_cases tree p.dropLast q).imp_right ?_
    rintro ⟨hq, hrest⟩
    exact ⟨rfl, hq.trans (List.dropLast_prefix p), hrest⟩
  | false =>
    by_cases hparent : tree p.dropLast = none
    · left
      refine ⟨rfl, ?_, by rw [if_neg Bool.false_ne_true, if_pos hparent]⟩
      by_contra hnode
      rw [← hlast] at hnode
      rw [hclosed.parent _ _ hnode] at hparent
      cases hparent
    · right
      refine ⟨tree, by rw [if_neg Bool.false_ne_true, if_neg hparent], ?_, rfl, hclosed, fun q => .inl rfl⟩
      exact (hopen _ (List.prefix_refl _)).resolve_left hparent

/-- **The compare-and-swap is a step**: it moves the expected state to the new one, keeps every other state,
and touches nothing else. -/
theorem applyTreeEntryCas_step {tree : FileTree} {p : Path} (hclosed : Closed tree) (hne : p ≠ [])
    (hopen : Open tree p.dropLast) {expected next : EntryState Hash} {material : Bytes}
    (hmaterial : payloadFor platform next material = .ok ()) :
    CasStep platform tree p expected next (applyTreeEntryCas platform tree p expected next material) := by
  unfold applyTreeEntryCas
  rcases confinedPath_cases platform hclosed hne hopen (next ≠ .absent) with
    ⟨habsent, hnone, hconfined⟩ | ⟨tree', hconfined, hparent, hsame, hclosed', hothers⟩
  · -- a removal whose directory is gone
    have hnext : next = .absent := by simpa using habsent
    have hlive : live platform tree p = some next := by
      rw [live, hnone, hnext]
      rfl
    rw [hconfined]
    simp only
    rw [if_pos hnext]
    constructor
    case result => exact .inl ⟨.inl hlive, _, rfl⟩
    case state =>
      rw [fileState_of_live hlive]
      exact (ite_self _).symm
    case dir => exact Iff.rfl
    case others => exact fun q _ => .inl rfl
    case closed => exact hclosed
  · have hothers : ∀ q, tree' q = tree q ∨
        next ≠ .absent ∧ q <+: p ∧ tree q = none ∧ tree' q = some .dir := by
      intro q
      exact (hothers q).imp_right fun h => ⟨of_decide_eq_true h.1, h.2⟩
    have hlive' : live platform tree' p = live platform tree p := by rw [live, live, hsame]
    have hstate' : fileState platform tree' p = fileState platform tree p := by
      rw [fileState, fileState, hlive']
    rw [hconfined]
    simp only
    rw [stateOfPath_of_dir hparent, hlive']
    cases hlive : live platform tree p with
    | none =>
      -- a directory stands there
      constructor
      case result =>
        rw [hlive]
        exact .inr ⟨by simp, by simp, rfl⟩
      case state =>
        rw [hlive, if_neg (by simp)]
        exact hstate'
      case dir => rw [← hsame]
      case others => exact fun q _ => hothers q
      case closed => exact hclosed'
    | some current =>
      simp only
      by_cases hnext : current = next
      · rw [if_pos hnext]
        subst hnext
        constructor
        case result => exact .inl ⟨.inl hlive, _, rfl⟩
        case state =>
          show fileState platform tree' p = _
          rw [hstate', fileState_of_live hlive, ite_self]
        case dir => rw [← hsame]
        case others => exact fun q _ => hothers q
        case closed => exact hclosed'
      · rw [if_neg hnext]
        by_cases hexpected : current = expected
        · subst hexpected
          rw [if_neg (not_not.mpr rfl)]
          have hopen' : Open tree' p.dropLast := by
            intro q hq
            rcases hothers q with hq' | ⟨-, -, -, hdir⟩
            · rw [hq']
              exact hopen q hq
            · exact .inr hdir
          obtain ⟨node, hpublish, hnode⟩ := publish_eq_put (hlive'.trans hlive) hmaterial
          have hwritten : live platform (put tree' p node) p = some next := by rw [live, put_self, hnode]
          have hnotDir : tree' p ≠ some .dir := by
            intro hdir
            have hnone : live platform tree' p = none := live_eq_none.mpr hdir
            rw [hlive', hlive] at hnone
            cases hnone
          have hparent' : (put tree' p node) p.dropLast = some .dir := by
            rw [put_of_ne _ _ (fun habsurd => ?_), hparent]
            have := congrArg List.length habsurd
            rw [List.length_dropLast] at this
            have := List.length_pos_of_ne_nil hne
            omega
          unfold transition
          rw [hmaterial, linked_of_open hopen']
          simp only [Bool.false_eq_true, if_false]
          rw [hpublish, stateOfPath_of_dir hparent', hwritten]
          simp only [if_true]
          constructor
          case result => exact .inl ⟨.inr hlive, _, rfl⟩
          case state =>
            rw [if_pos hlive]
            exact fileState_of_live hwritten
          case dir =>
            refine iff_of_false ?_ (hsame ▸ hnotDir)
            intro hdir
            have hnone : live platform (put tree' p node) p = none := live_eq_none.mpr hdir
            rw [hwritten] at hnone
            cases hnone
          case others =>
            intro q hq
            show put tree' p node q = tree q ∨
              next ≠ .absent ∧ q <+: p ∧ tree q = none ∧ put tree' p node q = some .dir
            rw [put_of_ne _ _ hq]
            exact hothers q
          case closed =>
            match node, hnode with
            | none, _ => exact hclosed'.remove hnotDir
            | some .dir, hdir => cases hdir
            | some (.file item), _ => exact hclosed'.put_file hne hparent hnotDir item
        · rw [if_pos hexpected]
          constructor
          case result =>
            rw [hlive]
            exact .inr ⟨fun h => hnext (Option.some.inj h), fun h => hexpected (Option.some.inj h), rfl⟩
          case state =>
            rw [hlive, if_neg fun h => hexpected (Option.some.inj h)]
            exact hstate'
          case dir => rw [← hsame]
          case others => exact fun q _ => hothers q
          case closed => exact hclosed'

end Landing
