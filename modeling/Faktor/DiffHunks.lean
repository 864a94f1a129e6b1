/-
# Line diffs: the hunks

The script is expanded to one event for each line, with its numbers on both sides, and the events around each
change become a hunk; where the script needs too many edits, one hunk replaces the lines between the common
front and the common end.

* `expand`, `walk`, `buildHunk`, `hunksFromOps` : the hunks of a script;
* `prefixSuffixHunk` : the single hunk;
* `diffHunks` : the whole diff of two texts;
* `applyHunks`, `Patches` : what the hunks of a diff are for.
-/
import Mathlib
import Faktor.DiffModel
import Faktor.TextBytes

namespace Diff

open EditGraph TextBytes

/-! ## Hunks -/

/-- `DiffLine` -/
inductive DiffLine (α : Type)
  | context (line : α)
  | removed (line : α)
  | added (line : α)
  deriving DecidableEq, Repr

/-- `DiffHunk` : the line numbers start at 1. -/
structure DiffHunk (α : Type) where
  oldStart : ℕ
  oldCount : ℕ
  newStart : ℕ
  newCount : ℕ
  lines : List (DiffLine α)
  deriving DecidableEq, Repr

/-- `DiffMode` -/
inductive DiffMode
  | myers | coarse | prefixSuffix
  deriving DecidableEq, Repr

/-- `DiffOutcome` -/
structure DiffOutcome where
  hunks : List (DiffHunk Text)
  mode : DiffMode
  deriving DecidableEq

section Lines

variable {α : Type}

/-- The old line that a line of a hunk shows. -/
def DiffLine.old? : DiffLine α → Option α
  | .context line => some line
  | .removed line => some line
  | .added _ => none

/-- The new line that a line of a hunk shows. -/
def DiffLine.new? : DiffLine α → Option α
  | .context line => some line
  | .removed _ => none
  | .added line => some line

def DiffHunk.oldSide (h : DiffHunk α) : List α := h.lines.filterMap DiffLine.old?

def DiffHunk.newSide (h : DiffHunk α) : List α := h.lines.filterMap DiffLine.new?

/-- The number of old lines before a hunk: it replaces the lines from `oldStart` on, or is inserted after line
`oldStart`. -/
def DiffHunk.skips (h : DiffHunk α) : Option ℕ :=
  if h.oldCount = 0 then some h.oldStart else if h.oldStart = 0 then none else some (h.oldStart - 1)

/-- The hunks applied in order to the old lines, of which `done` are dealt with. -/
def applyHunks (old : List α) : ℕ → List (DiffHunk α) → Option (List α)
  | done, [] => some (old.drop done)
  | done, h :: hunks => do
    let start ← h.skips
    if done ≤ start ∧ start + h.oldCount ≤ old.length then do
      let rest ← applyHunks old (start + h.oldCount) hunks
      return (old.drop done).take (start - done) ++ h.newSide ++ rest
    else none

/-- The hunks lead from the old lines to the new ones: they are disjoint and ordered, and what they show of
the old lines stands there. -/
structure Patches (old new : List α) (hunks : List (DiffHunk α)) : Prop where
  applied : applyHunks old 0 hunks = some new
  ordered : hunks.Pairwise fun h h' => h.oldStart + h.oldCount ≤ h'.oldStart
  matched : ∀ h ∈ hunks, ∃ start, h.skips = some start ∧ h.oldSide.length = h.oldCount ∧
    (old.drop start).take h.oldCount = h.oldSide

/-! ## The hunks of a script -/

/-- `Kind` -/
inductive Kind
  | ctx | del | add
  deriving DecidableEq, Repr

/-- `Ev` : one line of a script with its numbers on the two sides, `0` where it is not there. -/
structure Ev (α : Type) where
  kind : Kind
  old : ℕ
  new : ℕ
  text : α
  deriving DecidableEq, Repr

/-- The events of a run of equal lines after `ai` old and `bi` new lines. -/
def expandRun (a : List α) : (count ai bi : ℕ) → Except Panic (List (Ev α))
  | 0, _, _ => .ok []
  | count + 1, ai, bi => do
    let text ← readAt a ai
    let rest ← expandRun a count (ai + 1) (bi + 1)
    return ⟨.ctx, ai + 1, bi + 1, text⟩ :: rest

/-- The events of a script; the source's counters `o` and `n` are always `ai` and `bi`. -/
def expand (a b : List α) : (ai bi : ℕ) → List (Op α) → Except Panic (List (Ev α))
  | _, _, [] => .ok []
  | ai, bi, .eq count :: ops => do
    let run ← expandRun a count ai bi
    let rest ← expand a b (ai + count) (bi + count) ops
    return run ++ rest
  | ai, bi, .del _ :: ops => do
    let text ← readAt a ai
    let rest ← expand a b (ai + 1) bi ops
    return ⟨.del, ai + 1, 0, text⟩ :: rest
  | ai, bi, .ins _ :: ops => do
    let text ← readAt b bi
    let rest ← expand a b ai (bi + 1) ops
    return ⟨.add, 0, bi + 1, text⟩ :: rest

def Ev.line (ev : Ev α) : DiffLine α :=
  match ev.kind with
  | .ctx => .context ev.text
  | .del => .removed ev.text
  | .add => .added ev.text

/-- The hunk of a slice of the events. -/
def hunkOf (slice : List (Ev α)) : DiffHunk α where
  oldStart := ((slice.find? (·.kind ≠ .add)).map Ev.old).getD 0
  oldCount := slice.countP (·.kind ≠ .add)
  newStart := ((slice.find? (·.kind ≠ .del)).map Ev.new).getD 0
  newCount := slice.countP (·.kind ≠ .del)
  lines := slice.map Ev.line

/-- `build_hunk` : the hunk of the events `s..=e`. -/
def buildHunk (evs : List (Ev α)) (s e : ℕ) : DiffHunk α := hunkOf ((evs.drop s).take (e + 1 - s))

/-- The walk over the events from `i` on: `span` is the open hunk, `last` the last change. -/
def walk (evs : List (Ev α)) : List (Ev α) → ℕ → Option (ℕ × ℕ) → ℕ → List (DiffHunk α)
  | [], _, none, _ => []
  | [], _, some (s, e), _ => [buildHunk evs s e]
  | ev :: rest, i, span, last =>
    if ev.kind = .ctx then walk evs rest (i + 1) span last
    else
      let stop := min (i + DIFF_CONTEXT_LINES) (evs.length - 1)
      match span with
      | none => walk evs rest (i + 1) (some (i - DIFF_CONTEXT_LINES, stop)) i
      | some (s, e) =>
        if i - last ≤ 2 * DIFF_CONTEXT_LINES then walk evs rest (i + 1) (some (s, stop)) i
        else buildHunk evs s e :: walk evs rest (i + 1) (some (i - DIFF_CONTEXT_LINES, stop)) i

/-- `hunks_from_ops` -/
def hunksFromOps (a b : List α) (ops : List (Op α)) : Except Panic (List (DiffHunk α)) := do
  let evs ← expand a b 0 0 ops
  return walk evs evs 0 none 0

end Lines

/-! ## The single hunk -/

section PrefixSuffix

variable {α : Type} [DecidableEq α]

/-- The number of equal lines at the ends, apart from the common front. -/
def commonSuffix (a b : List α) (front suffix : ℕ) : ℕ :=
  if h : suffix < a.length - front ∧ suffix < b.length - front then
    if a[a.length - 1 - suffix] = b[b.length - 1 - suffix] then commonSuffix a b front (suffix + 1) else suffix
  else suffix
termination_by a.length - suffix

/-- `prefix_suffix_hunk` -/
def prefixSuffixHunk (a b : List α) : DiffHunk α :=
  if a = b then ⟨1, 0, 1, 0, []⟩
  else
    let front := ((a.zip b).takeWhile fun (x, y) => x = y).length
    let suffix := commonSuffix a b front 0
    let ctxStart := front - DIFF_CONTEXT_LINES
    let ctxEnd := min (b.length - suffix + DIFF_CONTEXT_LINES) b.length
    let lines := ((a.drop ctxStart).take (front - ctxStart)).map .context
      ++ ((a.drop front).take (a.length - suffix - front)).map .removed
      ++ ((b.drop front).take (b.length - suffix - front)).map .added
      ++ ((b.drop (b.length - suffix)).take (ctxEnd - (b.length - suffix))).map .context
    let oldStart := ctxStart + 1
    { oldStart
      oldCount := lines.countP fun l => match l with | .context _ | .removed _ => true | .added _ => false
      newStart :=
        if ctxStart < front then oldStart
        else if front < b.length - suffix then front + 1
        else if b.length - suffix < ctxEnd then b.length - suffix + 1
        else 0
      newCount := lines.countP fun l => match l with | .context _ | .added _ => true | .removed _ => false
      lines }

end PrefixSuffix

/-! ## The diff of two texts -/

/-- `split_lines` -/
def splitLines (text : Text) : List Text :=
  let lines := text.splitOn '\n'
  if lines.getLast? = some [] then lines.dropLast else lines

/-- `line_count` -/
def lineCount (text : Text) : ℕ :=
  if text = [] then 0
  else if text.getLast? = some '\n' then text.count '\n' else text.count '\n' + 1

/-- `coarse` -/
def coarse (before after : Text) : DiffOutcome :=
  let n := lineCount before
  let m := lineCount after
  let note := s!"… diff too large to line-diff within bounds ({n} removed / {m} added lines, {byteLen before} / {byteLen after} bytes); use the saved snapshot content instead …"
  ⟨[⟨1, n, 1, m, [.context note.toList]⟩], .coarse⟩

/-- `diff_hunks` : the two sides are the UTF-8 forms of texts. -/
def diffHunks (before after : Text) : Except Panic DiffOutcome :=
  if MAX_DIFF_BYTES < byteLen before ∨ MAX_DIFF_BYTES < byteLen after then .ok (coarse before after)
  else
    let a := splitLines before
    let b := splitLines after
    if MAX_DIFF_LINES < a.length ∨ MAX_DIFF_LINES < b.length then .ok (coarse before after)
    else do
      match ← myersEditScript a b with
      | none => return ⟨[prefixSuffixHunk a b], .prefixSuffix⟩
      | some ops => do
        let hunks ← hunksFromOps a b ops
        return ⟨hunks, .myers⟩

end Diff
