/-
# The change sets of several children as one

The changes of several children are grouped by their paths.  A path that all its children leave in one
state, from one base, is composed; any difference between them is a conflict.

* `composeChildChanges` : the composition;
* `length_dedup_le_one_iff` : adjacent duplicates of a list that was sorted by anything leave one element
  exactly when all are equal;
* `composePath_ok_iff` : what the composition of one path is, whatever the order of its changes;
* `compose_exact` : the composition does not depend on the order of the children, and what it says.
-/
import Faktor.ChangeSet
import Faktor.Sqlite

namespace Landing

open Sqlite (bind_eq_ok)

variable {Hash : Type} [DecidableEq Hash]

/-! ## The composition -/

/-- `ChildChange`. -/
structure ChildChange (Hash : Type) where
  childId : String
  entry : ChangeEntry Hash

/-- `ChangeSet`, as far as the composition reads it. -/
structure ChildSet (Hash : Type) where
  childId : String
  files : List (ChangeEntry Hash)

/-- `ComposedPathChange`. -/
structure ComposedPathChange (Hash : Type) where
  path : Path
  child : Option (EntryState Hash)
  base : Option (EntryState Hash)
  sources : List String
  deriving DecidableEq

/-- The errors of the composition; the second one is an index out of bounds. -/
inductive ComposeError
  | integrationConflict (text : String)
  | panic
  deriving DecidableEq

/-- `CanonicalMode::octal`, in octal digits. -/
def CanonicalMode.octal : CanonicalMode → String
  | .regularFile => "100644"
  | .executableFile => "100755"

section Texts

variable (platform : Platform Hash) (toHex : Hash → String)

/-- `EntryState::describe`. -/
def EntryState.describe : EntryState Hash → String
  | .absent => "absent"
  | .regular mode payload => "regular:" ++ mode.octal ++ ":" ++ toHex payload
  | .symlink target => "symlink:120000:" ++ toHex (platform.hash target)

/-- The order of two descriptions, nothing before all of them. -/
def describeLe : Option (EntryState Hash) → Option (EntryState Hash) → Bool
  | none, _ => true
  | some _, none => false
  | some a, some b => a.describe platform toHex ≤ b.describe platform toHex

/-- `Vec::dedup`. -/
def dedup {α : Type} [DecidableEq α] : List α → List α
  | [] => []
  | [a] => [a]
  | a :: b :: rest => if a = b then dedup (b :: rest) else a :: dedup (b :: rest)

/-- The states of a group that differ, as the source sorts and counts them. -/
def distinctStates (states : List (Option (EntryState Hash))) : List (Option (EntryState Hash)) :=
  dedup (states.insertionSort fun a b => describeLe platform toHex a b)

/-- The text of a state in a message. -/
def stateText (missing : String) (state : Option (EntryState Hash)) : String :=
  (state.map (·.describe platform toHex)).getD missing

/-- The composition of one path, from the changes to it. -/
def composePath (path : Path) (changes : List (ChildChange Hash)) :
    Except ComposeError (ComposedPathChange Hash) :=
  let group := changes.insertionSort fun a b => a.childId ≤ b.childId
  let bases := distinctStates platform toHex (group.map (·.entry.baseState))
  if 1 < bases.length then
    .error (.integrationConflict ("inter-child base drift at " ++ "/".intercalate path ++
      ": the children name different base anchors (" ++
      ", ".intercalate (bases.map (stateText platform toHex "absent")) ++ ")"))
  else
    let results := distinctStates platform toHex (group.map (·.entry.childState))
    if 1 < results.length then
      .error (.integrationConflict ("divergent inter-child changes at " ++ "/".intercalate path ++ ": " ++
        ", ".intercalate (group.map fun c =>
          c.childId ++ ":" ++ stateText platform toHex "deleted" c.entry.childState) ++
        " (delete-vs-modify, different kinds/modes or different content); no order-based resolution exists"))
    else
      match results.head?, bases.head? with
      | some child, some base => .ok ⟨path, child, base, group.map (·.childId)⟩
      | _, _ => .error .panic

/-- The changes of all children, in their order. -/
def childChanges (changes : List (ChildSet Hash)) : List (ChildChange Hash) :=
  changes.flatMap fun cs => cs.files.map fun entry => ⟨cs.childId, entry⟩

/-- The keys of `by_path`: the paths that occur, in their order. -/
def changedPaths (all : List (ChildChange Hash)) : List Path :=
  (all.map (·.entry.path)).dedup.insertionSort (· ≤ ·)

/-- The changes of one path, in the order of the children. -/
def changesAt (all : List (ChildChange Hash)) (path : Path) : List (ChildChange Hash) :=
  all.filter fun c => c.entry.path = path

/-- `compose_child_changes`. -/
def composeChildChanges (changes : List (ChildSet Hash)) :
    Except ComposeError (List (ComposedPathChange Hash)) :=
  let all := childChanges changes
  (changedPaths all).mapM fun path => composePath platform toHex path (changesAt all path)

end Texts

/-! ## Adjacent duplicates -/

theorem head?_dedup {α : Type} [DecidableEq α] (a : α) (rest : List α) :
    (dedup (a :: rest)).head? = some a := by
  induction rest generalizing a with
  | nil => rfl
  | cons b rest ih =>
    rw [dedup]
    split_ifs with heq
    · rw [ih b, heq]
    · rfl

/-- Adjacent duplicates leave one element exactly when all elements are equal. -/
theorem length_dedup_le_one_iff {α : Type} [DecidableEq α] {l : List α} :
    ¬ 1 < (dedup l).length ↔ ∀ a ∈ l, ∀ b ∈ l, a = b := by
  induction l with
  | nil => simp [dedup]
  | cons a rest ih =>
    cases rest with
    | nil => simp [dedup]
    | cons b rest =>
      rw [dedup]
      split_ifs with heq
      · subst heq
        rw [ih]
        simp
      · have hpos : 0 < (dedup (b :: rest)).length := by
          rw [List.length_pos_iff]
          intro hnil
          have hhead := head?_dedup b rest
          rw [hnil] at hhead
          exact absurd hhead nofun
        refine iff_of_false (by rw [List.length_cons]; omega) fun hall => heq ?_
        exact hall a List.mem_cons_self b (.tail _ List.mem_cons_self)

variable {platform : Platform Hash} {toHex : Hash → String}

/-- **The states of a group count as one exactly when they are equal**, although their descriptions, by
which they are sorted, may be equal where they are not. -/
theorem distinctStates_iff {states : List (Option (EntryState Hash))} :
    ¬ 1 < (distinctStates platform toHex states).length ↔ ∀ a ∈ states, ∀ b ∈ states, a = b := by
  rw [distinctStates, length_dedup_le_one_iff]
  simp only [List.mem_insertionSort]

theorem head?_distinctStates {states : List (Option (EntryState Hash))} {state : Option (EntryState Hash)}
    (hall : ∀ a ∈ states, ∀ b ∈ states, a = b) (hmem : state ∈ states) :
    (distinctStates platform toHex states).head? = some state := by
  unfold distinctStates
  cases hsorted : states.insertionSort (fun a b => describeLe platform toHex a b) with
  | nil =>
    have := (List.mem_insertionSort (fun a b => describeLe platform toHex a b)).mpr hmem
    rw [hsorted] at this
    exact absurd this List.not_mem_nil
  | cons first rest =>
    have hfirst : first ∈ states := by
      rw [← List.mem_insertionSort (fun a b => describeLe platform toHex a b), hsorted]
      exact List.mem_cons_self
    rw [head?_dedup, hall first hfirst state hmem]

/-! ## One path -/

variable {path : Path} {composed : ComposedPathChange Hash}

/-- **The composition of one path**, whatever the order of its changes. -/
theorem composePath_ok_iff {changes : List (ChildChange Hash)} (hne : changes ≠ []) :
    composePath platform toHex path changes = .ok composed ↔
      composed.path = path ∧ (∀ c ∈ changes, c.entry.baseState = composed.base) ∧
        (∀ c ∈ changes, c.entry.childState = composed.child) ∧
          composed.sources = (changes.map (·.childId)).insertionSort (· ≤ ·) := by
  have hmem : ∀ {c}, c ∈ changes.insertionSort (fun a b => a.childId ≤ b.childId) ↔ c ∈ changes :=
    List.mem_insertionSort _
  have hsources : (changes.insertionSort fun a b => a.childId ≤ b.childId).map (·.childId) =
      (changes.map (·.childId)).insertionSort (· ≤ ·) :=
    List.map_insertionSort _ _ _ _ fun _ _ _ _ => Iff.rfl
  have hequal : ∀ {f : ChildChange Hash → Option (EntryState Hash)} {state},
      (∀ c ∈ changes, f c = state) →
        ∀ a ∈ (changes.insertionSort fun a b => a.childId ≤ b.childId).map f,
          ∀ b ∈ (changes.insertionSort fun a b => a.childId ≤ b.childId).map f, a = b := by
    intro f state h a ha b hb
    obtain ⟨c, hc, rfl⟩ := List.mem_map.mp ha
    obtain ⟨d, hd, rfl⟩ := List.mem_map.mp hb
    rw [h c (hmem.mp hc), h d (hmem.mp hd)]
  obtain ⟨first, hfirst⟩ := List.exists_mem_of_ne_nil changes hne
  have hin : ∀ f : ChildChange Hash → Option (EntryState Hash),
      f first ∈ (changes.insertionSort fun a b => a.childId ≤ b.childId).map f :=
    fun f => List.mem_map_of_mem (hmem.mpr hfirst)
  unfold composePath
  dsimp only
  constructor
  · intro h
    split_ifs at h with hbases hresults
    rw [distinctStates_iff] at hbases hresults
    rw [head?_distinctStates hresults (hin _), head?_distinctStates hbases (hin _)] at h
    obtain rfl := Except.ok.inj h
    refine ⟨rfl, fun c hc => ?_, fun c hc => ?_, hsources⟩
    · exact hbases _ (List.mem_map_of_mem (hmem.mpr hc)) _ (hin _)
    · exact hresults _ (List.mem_map_of_mem (hmem.mpr hc)) _ (hin _)
  · rintro ⟨rfl, hbase, hchild, hids⟩
    rw [if_neg (distinctStates_iff.mpr (hequal hbase)), if_neg (distinctStates_iff.mpr (hequal hchild)),
      head?_distinctStates (hequal hchild) (hin _), head?_distinctStates (hequal hbase) (hin _)]
    dsimp only
    rw [hbase first hfirst, hchild first hfirst, hsources, ← hids]

/-! ## All paths -/

omit [DecidableEq Hash] in
theorem mem_changedPaths {all : List (ChildChange Hash)} :
    path ∈ changedPaths all ↔ ∃ c ∈ all, c.entry.path = path := by
  rw [changedPaths, List.mem_insertionSort, List.mem_dedup, List.mem_map]

omit [DecidableEq Hash] in
/-- The paths are listed in their order, each once. -/
theorem sorted_changedPaths (all : List (ChildChange Hash)) : (changedPaths all).Pairwise (· < ·) := by
  have hle : (changedPaths all).Pairwise (· ≤ ·) := List.pairwise_insertionSort _ _
  have hne : (changedPaths all).Nodup :=
    (List.perm_insertionSort _ _).nodup_iff.mpr (List.nodup_dedup _)
  exact (hle.and hne).imp fun h => lt_of_le_of_ne h.1 h.2

omit [DecidableEq Hash] in
theorem changesAt_ne_nil {all : List (ChildChange Hash)} (h : path ∈ changedPaths all) :
    changesAt all path ≠ [] := by
  obtain ⟨c, hc, hpath⟩ := mem_changedPaths.mp h
  exact List.ne_nil_of_mem (List.mem_filter.mpr ⟨hc, decide_eq_true hpath⟩)

/-- Two steps that go through alike make two passes that do. -/
theorem mapM_ok_congr {α β ε : Type} {f g : α → Except ε β} {l : List α}
    (hfg : ∀ a ∈ l, ∀ b, f a = .ok b ↔ g a = .ok b) {out : List β} :
    l.mapM f = .ok out ↔ l.mapM g = .ok out := by
  induction l generalizing out with
  | nil => rfl
  | cons a rest ih =>
    have hrest := fun out => @ih (fun b hb => hfg b (.tail _ hb)) out
    simp only [List.mapM_cons, bind_eq_ok, hfg a List.mem_cons_self, hrest]

/-- A pass that goes through, where each outcome tells the element that it is of. -/
theorem mapM_ok_spec {α β ε : Type} {f : α → Except ε β} {g : β → α} {l : List α} {out : List β}
    (hg : ∀ a ∈ l, ∀ b, f a = .ok b → g b = a) (h : l.mapM f = .ok out) :
    out.map g = l ∧ ∀ b ∈ out, f (g b) = .ok b := by
  induction l generalizing out with
  | nil =>
    obtain rfl := Except.ok.inj h
    exact ⟨rfl, nofun⟩
  | cons a rest ih =>
    rw [List.mapM_cons] at h
    obtain ⟨b, hb, h⟩ := bind_eq_ok.mp h
    obtain ⟨bs, hbs, hret⟩ := bind_eq_ok.mp h
    obtain rfl := Except.ok.inj hret
    obtain ⟨hmap, hall⟩ := ih (fun c hc => hg c (.tail _ hc)) hbs
    have hself := hg a List.mem_cons_self b hb
    rw [List.map_cons, hself, hmap]
    exact ⟨rfl, List.forall_mem_cons.mpr ⟨by rw [hself, hb], hall⟩⟩

/-- The composition of the changes of one path does not depend on their order. -/
theorem composePath_ok_congr {changes changes' : List (ChildChange Hash)}
    (hne : changes ≠ []) (hperm : changes.Perm changes') :
    composePath platform toHex path changes = .ok composed ↔
      composePath platform toHex path changes' = .ok composed := by
  have hne' : changes' ≠ [] := fun hnil => hne (List.Perm.eq_nil (hnil ▸ hperm))
  have hids : (changes.map (·.childId)).insertionSort (· ≤ ·) =
      (changes'.map (·.childId)).insertionSort (· ≤ ·) := by
    refine List.Perm.eq_of_pairwise (fun a b _ _ => le_antisymm) (List.pairwise_insertionSort _ _)
      (List.pairwise_insertionSort _ _) ?_
    exact ((List.perm_insertionSort _ _).trans (hperm.map _)).trans (List.perm_insertionSort _ _).symm
  simp only [composePath_ok_iff hne, composePath_ok_iff hne', hids, hperm.mem_iff]

omit [DecidableEq Hash] in
/-- The children, in another order, give the same paths. -/
theorem changedPaths_congr {all all' : List (ChildChange Hash)} (hperm : all.Perm all') :
    changedPaths all = changedPaths all' := by
  have hmem : ∀ path, path ∈ changedPaths all ↔ path ∈ changedPaths all' := by
    intro path
    simp only [mem_changedPaths, hperm.mem_iff]
  have hsorted := sorted_changedPaths all
  have hsorted' := sorted_changedPaths all'
  refine List.Perm.eq_of_pairwise (fun a b _ _ hab hba => (lt_asymm hab hba).elim) hsorted hsorted' ?_
  exact (List.perm_ext_iff_of_nodup (hsorted.imp ne_of_lt) (hsorted'.imp ne_of_lt)).mpr hmem

/-- **Composing change sets**: every order of the children gives the same composition, or none of them
does; and a composition has each touched path once, in the order of the paths, where every child that
touches it has exactly the composed result and base, and the sources are exactly these children. -/
theorem compose_exact {Hash : Type} [DecidableEq Hash] (platform : Platform Hash) (toHex : Hash → String)
    (changes : List (ChildSet Hash)) :
    (∀ changes', changes.Perm changes' → ∀ out,
      composeChildChanges platform toHex changes = .ok out ↔
        composeChildChanges platform toHex changes' = .ok out) ∧
    ∀ out, composeChildChanges platform toHex changes = .ok out →
      (out.map (·.path)).Pairwise (· < ·) ∧
      (∀ path, path ∈ out.map (·.path) ↔ ∃ cs ∈ changes, ∃ entry ∈ cs.files, entry.path = path) ∧
      ∀ composed ∈ out,
        (∀ cs ∈ changes, ∀ entry ∈ cs.files, entry.path = composed.path →
          entry.childState = composed.child ∧ entry.baseState = composed.base) ∧
        ∀ id, id ∈ composed.sources ↔
          ∃ cs ∈ changes, cs.childId = id ∧ ∃ entry ∈ cs.files, entry.path = composed.path := by
  have hall : ∀ c : ChildChange Hash, c ∈ childChanges changes ↔
      ∃ cs ∈ changes, ∃ entry ∈ cs.files, ⟨cs.childId, entry⟩ = c := by
    intro c
    simp only [childChanges, List.mem_flatMap, List.mem_map]
  constructor
  · intro changes' hperm out
    have hchanges : (childChanges changes).Perm (childChanges changes') := hperm.flatMap_right _
    show List.mapM _ _ = _ ↔ List.mapM _ _ = _
    rw [← changedPaths_congr hchanges]
    exact mapM_ok_congr fun path hpath composed =>
      composePath_ok_congr (changesAt_ne_nil hpath) (hchanges.filter _)
  · intro out hout
    have hone : ∀ path ∈ changedPaths (childChanges changes), ∀ composed,
        composePath platform toHex path (changesAt (childChanges changes) path) = .ok composed →
          composed.path = path :=
      fun path hpath composed h => ((composePath_ok_iff (changesAt_ne_nil hpath)).mp h).1
    obtain ⟨hpaths, hcomposed⟩ := mapM_ok_spec hone hout
    refine ⟨?_, fun path => ?_, fun composed hmem => ?_⟩
    · rw [hpaths]
      exact sorted_changedPaths _
    · rw [hpaths, mem_changedPaths]
      constructor
      · rintro ⟨c, hc, rfl⟩
        obtain ⟨cs, hcs, entry, hentry, rfl⟩ := (hall c).mp hc
        exact ⟨cs, hcs, entry, hentry, rfl⟩
      · rintro ⟨cs, hcs, entry, hentry, rfl⟩
        exact ⟨_, (hall _).mpr ⟨cs, hcs, entry, hentry, rfl⟩, rfl⟩
    · have hpath : composed.path ∈ changedPaths (childChanges changes) := by
        rw [← hpaths]
        exact List.mem_map_of_mem hmem
      obtain ⟨-, hbase, hchild, hsources⟩ :=
        (composePath_ok_iff (changesAt_ne_nil hpath)).mp (hcomposed composed hmem)
      have hat : ∀ cs ∈ changes, ∀ entry ∈ cs.files, entry.path = composed.path →
          ⟨cs.childId, entry⟩ ∈ changesAt (childChanges changes) composed.path := fun cs hcs entry hentry heq =>
        List.mem_filter.mpr ⟨(hall _).mpr ⟨cs, hcs, entry, hentry, rfl⟩, decide_eq_true heq⟩
      refine ⟨fun cs hcs entry hentry heq => ?_, fun id => ?_⟩
      · exact ⟨hchild _ (hat cs hcs entry hentry heq), hbase _ (hat cs hcs entry hentry heq)⟩
      · rw [hsources, List.mem_insertionSort, List.mem_map]
        constructor
        · rintro ⟨c, hc, rfl⟩
          obtain ⟨hmem, heq⟩ := List.mem_filter.mp hc
          obtain ⟨cs, hcs, entry, hentry, rfl⟩ := (hall c).mp hmem
          exact ⟨cs, hcs, rfl, entry, hentry, of_decide_eq_true heq⟩
        · rintro ⟨cs, hcs, rfl, entry, hentry, heq⟩
          exact ⟨_, hat cs hcs entry hentry heq, rfl⟩

end Landing
