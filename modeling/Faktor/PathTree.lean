/-
# Trees of directories and files

A file tree as what stands at each path, a path being the list of its components.  In a tree that is closed
everything stands in a directory; making the directories above a path, writing a file into a directory and
removing a file keep a tree closed.

* `Closed` : every node stands in a directory;
* `makeDirs` : the directories down to a path, where nothing is in their way;
* `Open` : nothing but directories above a path, or nothing at all.
-/
import Mathlib

namespace PathTree

variable {ν α : Type*}

/-- What stands at a path. -/
inductive Node (α : Type*)
  | dir
  | file (content : α)
  deriving DecidableEq, Repr

/-- A tree, by its paths; the root is the empty path. -/
abbrev Tree (ν α : Type*) := List ν → Option (Node α)

/-- Every node stands in a directory. -/
structure Closed (tree : Tree ν α) : Prop where
  root : tree [] = some .dir
  parent : ∀ p x, tree (p ++ [x]) ≠ none → tree p = some .dir

/-- The file at a path. -/
def fileAt (tree : Tree ν α) (p : List ν) : Option α :=
  match tree p with
  | some (.file content) => some content
  | _ => none

/-- On the way down to a path there are directories or nothing. -/
def Open (tree : Tree ν α) (p : List ν) : Prop :=
  ∀ q, q <+: p → tree q = none ∨ tree q = some .dir

/-- **Above a node there are directories.** -/
theorem Closed.dir_of_prefix {tree : Tree ν α} (h : Closed tree) {p q : List ν} (hp : tree p ≠ none)
    (hq : q <+: p) (hne : q ≠ p) : tree q = some .dir := by
  obtain ⟨rest, rfl⟩ := hq
  induction rest using List.reverseRecOn with
  | nil => exact absurd (List.append_nil q).symm hne
  | append_singleton rest x ih =>
    have hparent : tree (q ++ rest) = some .dir := by
      apply h.parent _ x
      rwa [List.append_assoc]
    by_cases hrest : rest = []
    · rwa [hrest, List.append_nil] at hparent
    · refine ih ?_ (by simpa using hrest)
      rw [hparent]
      exact Option.some_ne_none _

theorem Closed.open_dropLast {tree : Tree ν α} (h : Closed tree) {p : List ν} (hp : tree p ≠ none)
    (hne : p ≠ []) : Open tree p.dropLast := by
  intro q hq
  right
  refine h.dir_of_prefix hp (hq.trans (List.dropLast_prefix p)) ?_
  rintro rfl
  have hlength := hq.length_le
  rw [List.length_dropLast] at hlength
  have hpos := List.length_pos_of_ne_nil hne
  omega

theorem Closed.ne_nil {tree : Tree ν α} (h : Closed tree) {p : List ν} {content : α}
    (hp : tree p = some (.file content)) : p ≠ [] := by
  rintro rfl
  rw [h.root] at hp
  cases hp

/-- No file stands above a file. -/
theorem Closed.file_prefix {tree : Tree ν α} (h : Closed tree) {p q : List ν} {content content' : α}
    (hp : tree p = some (.file content)) (hq : tree q = some (.file content')) (habove : q <+: p) :
    q = p := by
  by_contra hne
  rw [h.dir_of_prefix (by rw [hp]; exact Option.some_ne_none _) habove hne] at hq
  cases hq

/-- What stands above a path comes before it. -/
theorem prefix_le [LinearOrder ν] {p q : List ν} (h : p <+: q) : p ≤ q := by
  rw [← not_lt]
  exact List.not_lt.mpr h.le

section Update

variable [DecidableEq ν]

/-- `create_dir_all`, where nothing is in the way. -/
def makeDirs (tree : Tree ν α) (p : List ν) : Tree ν α := fun q =>
  if q <+: p ∧ tree q = none then some .dir else tree q

/-- A write of one path. -/
def put (tree : Tree ν α) (p : List ν) (node : Option (Node α)) : Tree ν α := fun q =>
  if q = p then node else tree q

@[simp] theorem put_self (tree : Tree ν α) (p : List ν) (node : Option (Node α)) : put tree p node p = node :=
  if_pos rfl

theorem put_of_ne (tree : Tree ν α) {p q : List ν} (node : Option (Node α)) (h : q ≠ p) :
    put tree p node q = tree q := if_neg h

theorem makeDirs_of_ne_none (tree : Tree ν α) (p : List ν) {q : List ν} (h : tree q ≠ none) :
    makeDirs tree p q = tree q := if_neg fun habsurd => h habsurd.2

theorem makeDirs_of_not_isPrefix (tree : Tree ν α) {p q : List ν} (h : ¬q <+: p) :
    makeDirs tree p q = tree q := if_neg fun habsurd => h habsurd.1

/-- A path holds what it held, or a new directory where there was nothing. -/
theorem makeDirs_cases (tree : Tree ν α) (p q : List ν) :
    makeDirs tree p q = tree q ∨ q <+: p ∧ tree q = none ∧ makeDirs tree p q = some .dir := by
  by_cases h : q <+: p ∧ tree q = none
  · exact .inr ⟨h.1, h.2, if_pos h⟩
  · exact .inl (if_neg h)

theorem makeDirs_prefix {tree : Tree ν α} {p q : List ν} (h : Open tree p) (hq : q <+: p) :
    makeDirs tree p q = some .dir := by
  rcases h q hq with hnone | hdir
  · exact if_pos ⟨hq, hnone⟩
  · rw [makeDirs_of_ne_none tree p (by rw [hdir]; exact Option.some_ne_none _), hdir]

theorem Closed.makeDirs {tree : Tree ν α} (h : Closed tree) {p : List ν} (hopen : Open tree p) :
    Closed (makeDirs tree p) where
  root := by
    rw [makeDirs_of_ne_none tree p (by rw [h.root]; exact Option.some_ne_none _), h.root]
  parent q x hq := by
    by_cases hprefix : q <+: p
    · exact makeDirs_prefix hopen hprefix
    · -- a node outside the new directories was there before
      have hnot : ¬q ++ [x] <+: p := fun habsurd => hprefix ((List.prefix_append q [x]).trans habsurd)
      rw [makeDirs_of_not_isPrefix tree hnot] at hq
      rw [makeDirs_of_not_isPrefix tree hprefix, h.parent q x hq]

/-- A file is written into a directory, where no directory stands. -/
theorem Closed.put_file {tree : Tree ν α} (h : Closed tree) {p : List ν} (hne : p ≠ [])
    (hparent : tree p.dropLast = some .dir) (hdir : tree p ≠ some .dir) (content : α) :
    Closed (put tree p (some (.file content))) where
  root := by rw [put_of_ne tree _ (Ne.symm hne), h.root]
  parent q x hq := by
    have hqp : tree q = some .dir := by
      by_cases heq : q ++ [x] = p
      · rw [← heq, List.dropLast_concat] at hparent
        exact hparent
      · rw [put_of_ne tree _ heq] at hq
        exact h.parent q x hq
    have hneq : q ≠ p := by
      rintro rfl
      exact hdir hqp
    rw [put_of_ne tree _ hneq, hqp]

/-- A path that is no directory is removed. -/
theorem Closed.remove {tree : Tree ν α} (h : Closed tree) {p : List ν} (hdir : tree p ≠ some .dir) :
    Closed (put tree p none) where
  root := by
    have hne : p ≠ [] := by
      rintro rfl
      exact hdir h.root
    rw [put_of_ne tree _ (Ne.symm hne), h.root]
  parent q x hq := by
    have hqp : tree q = some .dir := by
      by_cases heq : q ++ [x] = p
      · rw [heq, put_self] at hq
        exact absurd rfl hq
      · rw [put_of_ne tree _ heq] at hq
        exact h.parent q x hq
    have hneq : q ≠ p := by
      rintro rfl
      exact hdir hqp
    rw [put_of_ne tree _ hneq, hqp]

end Update

end PathTree
