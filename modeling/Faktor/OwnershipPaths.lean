/-
# Write authority over paths

Two work items of one plan may both write when their ownership specs do not overlap.  Paths are compared
in their canonical form, at the boundaries of their components; on Windows their case is folded.

* `NormalizedWorkspacePath.new` : the canonical form of a path, or the rule that refuses it;
* `OwnershipSpec.validate`, `OwnershipSpec.overlaps` : what a plan checks of its specs;
* `covers_iff` : a path covers the paths that continue it after a separator;
* `overlaps_guarantee` : specs that do not overlap cover no path together, an overlap is mutual, and a
  spec with a path that has no canonical form overlaps every other.
-/
import Faktor.Laminar

namespace Ownership

/-! ## Canonical paths -/

/-- `MAX_NORMALIZED_WORKSPACE_PATH_BYTES`. -/
def maxNormalizedWorkspacePathBytes : ℕ := 256

inductive PathViolationKind
  | empty | tooLong | absolute | rootedPrefix | alternateSeparator | parentComponent
  | currentComponent | emptyComponent | controlCharacter | platformAlias
  deriving DecidableEq, Repr

def PathViolationKind.asStr : PathViolationKind → String
  | empty => "empty"
  | tooLong => "too_long"
  | absolute => "absolute"
  | rootedPrefix => "rooted_prefix"
  | alternateSeparator => "alternate_separator"
  | parentComponent => "parent_component"
  | currentComponent => "current_component"
  | emptyComponent => "empty_component"
  | controlCharacter => "control_character"
  | platformAlias => "platform_alias"

structure PathViolation where
  kind : PathViolationKind
  value : String
  deriving DecidableEq, Repr

/-- `char::is_control`. -/
def isControl (c : Char) : Bool :=
  decide (c.toNat ≤ 31) || (decide (127 ≤ c.toNat) && decide (c.toNat ≤ 159))

/-- The device names that Windows reserves, with or without an extension. -/
def isReservedDeviceName (component : List Char) : Bool :=
  let upper := (component.takeWhile (· != '.')).map Char.toUpper
  ["CON".toList, "PRN".toList, "AUX".toList, "NUL".toList].contains upper ||
    ["COM".toList, "LPT".toList].any fun device =>
      upper.length == 4 && device.isPrefixOf upper && (upper.drop 3).all Char.isDigit

/-- The rule that refuses a component. -/
def componentViolation (component : List Char) : Option PathViolationKind :=
  if component = [] then some .emptyComponent
  else if component = ['.'] then some .currentComponent
  else if component = ['.', '.'] then some .parentComponent
  else if component.getLast? = some '.' ∨ component.getLast? = some ' ' then some .platformAlias
  else if isReservedDeviceName component then some .platformAlias
  else none

/-- A path of components that no rule refuses. -/
structure NormalizedWorkspacePath where
  text : List Char
  canonical : (text.splitOn '/').findSome? componentViolation = none
  deriving DecidableEq

namespace NormalizedWorkspacePath

/-- One trailing separator is the mark of a directory. -/
def body (raw : List Char) : List Char := if raw.getLast? = some '/' then raw.dropLast else raw

/-- The canonical form: the components, joined again, are the body. -/
def new (raw : String) : Except PathViolation NormalizedWorkspacePath :=
  let chars := raw.toList
  if chars = [] then .error ⟨.empty, raw⟩
  else if maxNormalizedWorkspacePathBytes < raw.utf8ByteSize then .error ⟨.tooLong, raw⟩
  else if chars.any isControl then .error ⟨.controlCharacter, raw⟩
  else if chars.head? = some '/' then .error ⟨.absolute, raw⟩
  else if '\\' ∈ chars then .error ⟨.alternateSeparator, raw⟩
  else if ':' ∈ chars then .error ⟨.rootedPrefix, raw⟩
  else if chars.getLast? = some '/' ∧ (body chars).getLast? = some '/' then
    .error ⟨.emptyComponent, raw⟩
  else
    match h : ((body chars).splitOn '/').findSome? componentViolation with
    | some kind => .error ⟨kind, raw⟩
    | none => .ok ⟨body chars, h⟩

/-- The comparison key: byte-exact on Unix, with the ASCII case folded on Windows. -/
def cmpKey (windows : Bool) (p : NormalizedWorkspacePath) : List Char :=
  if windows then p.text.map Char.toLower else p.text

/-- A path covers itself and what is below it. -/
def covers (windows : Bool) (p q : NormalizedWorkspacePath) : Bool :=
  let a := p.cmpKey windows
  let b := q.cmpKey windows
  a == b || (a.isPrefixOf b && b[a.length]? == some '/')

def overlaps (windows : Bool) (p q : NormalizedWorkspacePath) : Bool :=
  covers windows p q || covers windows q p

end NormalizedWorkspacePath

/-! ## Specs -/

inductive OwnershipSpec
  | noWrites
  | paths (paths : List String)
  | isolatedWorktree
  | semanticEntities (providerId snapshotId : String) (entities : List String)
  deriving DecidableEq, Repr

def maxOwnershipSpecEntries : ℕ := 64
def maxOwnershipSpecEntryChars : ℕ := 256

structure OwnershipSpecViolation where
  what : String
  value : String
  message : String
  deriving DecidableEq, Repr

/-- An ASCII character without spaces and controls. -/
def saneChar (c : Char) : Bool := !isControl c && !c.isWhitespace && decide (c.toNat < 128)

def sane (s : String) : Bool :=
  s.toList != [] && decide (s.toList.length ≤ maxOwnershipSpecEntryChars) && s.toList.all saneChar

/-- An id may be a component of a path. -/
def saneId (s : String) : Bool := sane s && !s.toList.contains '/' && !s.toList.contains '\\'

namespace OwnershipSpec

-- `quote` is the `{:?}` of a string
variable (quote : String → String)

/-- The canonical forms of a list of paths, or a violation for each path without one. -/
def normalizePaths (paths : List String) :
    Except (List OwnershipSpecViolation) (List NormalizedWorkspacePath) :=
  let violations := paths.filterMap fun p =>
    match NormalizedWorkspacePath.new p with
    | .ok _ => none
    | .error v => some
      { what := "paths"
        value := p
        message := "ownership path " ++ quote p ++ " is not a canonical workspace path (" ++
          v.kind.asStr ++ ": workspace path " ++ quote v.value ++ " refused: " ++ v.kind.asStr ++ ")" }
  if violations = [] then
    .ok (paths.filterMap fun p => (NormalizedWorkspacePath.new p).toOption)
  else .error violations

/-- `normalized_paths`. -/
def normalizedPaths : OwnershipSpec →
    Except (List OwnershipSpecViolation) (List NormalizedWorkspacePath)
  | .paths ps => normalizePaths quote ps
  | _ => .ok []

/-- The entries of a spec that overlap each other. -/
def selfOverlaps (windows : Bool) :
    List (String × NormalizedWorkspacePath) → List OwnershipSpecViolation
  | [] => []
  | (p, a) :: rest =>
    (rest.filter fun (_, b) => a.overlaps windows b).map (fun (q, _) =>
      { what := "paths"
        value := p ++ " vs " ++ q
        message := "ownership paths " ++ quote p ++ " and " ++ quote q ++ " overlap" })
      ++ selfOverlaps windows rest

/-- A violation, when its condition holds. -/
def violation (p : Prop) [Decidable p] (v : OwnershipSpecViolation) : List OwnershipSpecViolation :=
  if p then [v] else []

/-- The entries that an entry repeats. -/
def duplicates : List String → List String → List OwnershipSpecViolation
  | _, [] => []
  | seen, e :: rest =>
    violation (sane e = false)
        ⟨"entities", e, "entity " ++ quote e ++ " is empty, overlong, or not ASCII-printable"⟩
      ++ violation (e ∈ seen) ⟨"entities", e, "duplicate entity " ++ quote e⟩
      ++ duplicates (e :: seen) rest

def violations (windows : Bool) : OwnershipSpec → List OwnershipSpecViolation
  | .noWrites | .isolatedWorktree => []
  | .paths ps =>
    violation (ps = []) ⟨"paths", "", "Paths ownership with no paths"⟩
      ++ violation (maxOwnershipSpecEntries < ps.length)
        ⟨"paths", "", s!"{maxOwnershipSpecEntries} max paths per spec ({ps.length} given)"⟩
      ++ ps.flatMap (fun p => violation (sane p = false)
        ⟨"paths", p, "ownership path " ++ quote p ++ " is empty, overlong, or not ASCII-printable"⟩)
      ++ (match normalizePaths quote ps with
        | .ok normalized => selfOverlaps quote windows (ps.zip normalized)
        | .error vs => vs)
  | .semanticEntities providerId snapshotId entities =>
    violation (saneId providerId = false) ⟨"provider_id", providerId,
        "provider id " ++ quote providerId ++ " is empty, overlong, or not ASCII-printable"⟩
      ++ violation (saneId snapshotId = false) ⟨"snapshot_id", snapshotId,
        "snapshot id " ++ quote snapshotId ++ " is empty, overlong, or not ASCII-printable"⟩
      ++ violation (entities = []) ⟨"entities", "", "SemanticEntities ownership with no entities"⟩
      ++ violation (maxOwnershipSpecEntries < entities.length) ⟨"entities", "",
        s!"{maxOwnershipSpecEntries} max entities per spec ({entities.length} given)"⟩
      ++ duplicates quote [] entities

/-- `validate`: every violation is reported. -/
def validate (windows : Bool) (spec : OwnershipSpec) : Except (List OwnershipSpecViolation) Unit :=
  if spec.violations quote windows = [] then .ok () else .error (spec.violations quote windows)

/-- `overlaps`. -/
def overlaps (windows : Bool) (spec other : OwnershipSpec) : Bool :=
  match spec, other with
  | .noWrites, _ | _, .noWrites => false
  | .isolatedWorktree, _ | _, .isolatedWorktree => false
  | .paths ps, .paths qs =>
    match normalizePaths quote ps, normalizePaths quote qs with
    | .ok a, .ok b => a.any fun p => b.any fun q => p.overlaps windows q
    -- a path without a canonical form fails closed
    | _, _ => true
  | .semanticEntities _ _ _, .paths _ | .paths _, .semanticEntities _ _ _ => false
  | .semanticEntities pa sa ea, .semanticEntities pb sb eb =>
    pa == pb && sa == sb && ea.any fun e => eb.any fun f => f == e

/-- A path of a spec covers a workspace path. -/
def Covers (windows : Bool) (spec : OwnershipSpec) (w : NormalizedWorkspacePath) : Prop :=
  ∃ ps p q, spec = .paths ps ∧ p ∈ ps ∧ NormalizedWorkspacePath.new p = .ok q ∧
    q.covers windows w = true

end OwnershipSpec

/-! ## Coverage -/

namespace NormalizedWorkspacePath

variable {windows : Bool} {p q w : NormalizedWorkspacePath}

/-- **A path covers the paths that continue it** after a separator, and itself. -/
theorem covers_iff : p.covers windows q = true ↔
    p.cmpKey windows ++ ['/'] <+: q.cmpKey windows ++ ['/'] :=
  ComponentPrefix.covers_iff

/-- **Paths that cover one path overlap.** -/
theorem overlaps_of_covers (hp : p.covers windows w = true) (hq : q.covers windows w = true) :
    p.overlaps windows q = true := by
  rw [covers_iff] at hp hq
  rw [overlaps, Bool.or_eq_true, covers_iff, covers_iff]
  exact List.prefix_or_prefix_of_prefix hp hq

theorem overlaps_comm : p.overlaps windows q = q.overlaps windows p := Bool.or_comm _ _

end NormalizedWorkspacePath

namespace OwnershipSpec

variable {quote : String → String} {windows : Bool}

/-- The violation of a path without a canonical form. -/
theorem normalizePaths_error {ps : List String} {p : String} {v : PathViolation} (hp : p ∈ ps)
    (h : NormalizedWorkspacePath.new p = .error v) : ∃ vs, normalizePaths quote ps = .error vs := by
  unfold normalizePaths
  simp only
  split_ifs with hnone
  · rw [List.filterMap_eq_nil_iff] at hnone
    have := hnone p hp
    rw [h] at this
    cases this
  · exact ⟨_, rfl⟩

theorem mem_normalizePaths {ps : List String} {a : List NormalizedWorkspacePath} {p : String}
    {q : NormalizedWorkspacePath} (ha : normalizePaths quote ps = .ok a) (hp : p ∈ ps)
    (h : NormalizedWorkspacePath.new p = .ok q) : q ∈ a := by
  unfold normalizePaths at ha
  simp only at ha
  split_ifs at ha
  obtain rfl := Except.ok.inj ha
  refine List.mem_filterMap.mpr ⟨p, hp, ?_⟩
  rw [h]
  rfl

/-- The overlap of two lists of paths. -/
theorem overlaps_paths (ps qs : List String) :
    overlaps quote windows (.paths ps) (.paths qs) =
      match normalizePaths quote ps, normalizePaths quote qs with
      | .ok a, .ok b => a.any fun p => b.any fun q => p.overlaps windows q
      | _, _ => true := by
  rw [overlaps]

theorem any_overlaps_comm (a b : List NormalizedWorkspacePath) :
    (a.any fun p => b.any fun q => p.overlaps windows q) =
      b.any fun q => a.any fun p => q.overlaps windows p := by
  rw [Bool.eq_iff_iff]
  simp only [List.any_eq_true]
  constructor
  · rintro ⟨p, hp, q, hq, h⟩
    exact ⟨q, hq, p, hp, NormalizedWorkspacePath.overlaps_comm ▸ h⟩
  · rintro ⟨q, hq, p, hp, h⟩
    exact ⟨p, hp, q, hq, NormalizedWorkspacePath.overlaps_comm ▸ h⟩

/-- **An overlap is mutual.** -/
theorem overlaps_comm (spec other : OwnershipSpec) :
    overlaps quote windows spec other = overlaps quote windows other spec := by
  cases spec with
  | noWrites => cases other <;> rfl
  | isolatedWorktree => cases other <;> rfl
  | paths ps =>
    cases other with
    | paths qs =>
      rw [overlaps_paths, overlaps_paths]
      cases normalizePaths quote ps with
      | error vs => cases normalizePaths quote qs <;> rfl
      | ok a =>
        cases normalizePaths quote qs with
        | error vs => rfl
        | ok b => exact any_overlaps_comm a b
    | _ => rfl
  | semanticEntities pa sa ea =>
    cases other with
    | semanticEntities pb sb eb =>
      rw [Bool.eq_iff_iff]
      simp only [overlaps, Bool.and_eq_true, beq_iff_eq, List.any_eq_true]
      constructor
      · rintro ⟨⟨hp, hs⟩, e, he, f, hf, h⟩
        exact ⟨⟨hp.symm, hs.symm⟩, f, hf, e, he, h.symm⟩
      · rintro ⟨⟨hp, hs⟩, e, he, f, hf, h⟩
        exact ⟨⟨hp.symm, hs.symm⟩, f, hf, e, he, h.symm⟩
    | _ => rfl

/-- A path without a canonical form fails closed. -/
theorem overlaps_of_error {ps qs : List String} {p : String} {v : PathViolation} (hp : p ∈ ps)
    (h : NormalizedWorkspacePath.new p = .error v) :
    overlaps quote windows (.paths ps) (.paths qs) = true := by
  obtain ⟨vs, hvs⟩ := normalizePaths_error hp h
  rw [overlaps_paths, hvs]

/-- Lists that do not overlap cover no path together. -/
theorem disjoint_of_not_overlaps {spec other : OwnershipSpec} {w : NormalizedWorkspacePath}
    (h : overlaps quote windows spec other = false) :
    ¬ (spec.Covers windows w ∧ other.Covers windows w) := by
  rintro ⟨⟨ps, p, a, rfl, hp, ha, hcovers⟩, qs, q, b, rfl, hq, hb, hcovers'⟩
  have htrue : overlaps quote windows (.paths ps) (.paths qs) = true := by
    rw [overlaps_paths]
    cases hps : normalizePaths quote ps with
    | error vs => rfl
    | ok as =>
      cases hqs : normalizePaths quote qs with
      | error vs => rfl
      | ok bs =>
        simp only [List.any_eq_true]
        exact ⟨a, mem_normalizePaths hps hp ha, b, mem_normalizePaths hqs hq hb,
          NormalizedWorkspacePath.overlaps_of_covers hcovers hcovers'⟩
  rw [htrue] at h
  cases h

/-- **What an overlap is for**: specs of paths that validate and do not overlap cover no workspace path
together; an overlap is mutual; and a spec with a path that has no canonical form overlaps every other
spec of paths. -/
theorem overlaps_guarantee (quote : String → String) (windows : Bool) :
    (∀ spec other : OwnershipSpec, spec.validate quote windows = .ok () →
        other.validate quote windows = .ok () → overlaps quote windows spec other = false →
          ∀ w, ¬ (spec.Covers windows w ∧ other.Covers windows w)) ∧
      (∀ spec other, overlaps quote windows spec other = overlaps quote windows other spec) ∧
      ∀ ps qs p v, p ∈ ps → NormalizedWorkspacePath.new p = .error v →
        overlaps quote windows (.paths ps) (.paths qs) = true ∧
          overlaps quote windows (.paths qs) (.paths ps) = true := by
  refine ⟨fun spec other _ _ h w => disjoint_of_not_overlaps h, overlaps_comm, ?_⟩
  intro ps qs p v hp h
  have htrue : overlaps quote windows (.paths ps) (.paths qs) = true := overlaps_of_error hp h
  exact ⟨htrue, overlaps_comm (.paths ps) (.paths qs) ▸ htrue⟩

/-- A directory and a file beside it are apart, and a path that leaves the workspace is apart from
nothing. -/
theorem srcDocs_apart :
    (∀ w, ¬ ((OwnershipSpec.paths ["src/"]).Covers false w ∧
        (OwnershipSpec.paths ["src2/a.rs", "docs"]).Covers false w)) ∧
      overlaps id false (.paths ["src/../a"]) (.paths ["docs"]) = true := by
  obtain ⟨hdisjoint, -, hclosed⟩ := overlaps_guarantee id false
  constructor
  · exact hdisjoint _ _ (by decide +kernel) (by decide +kernel) (by decide +kernel)
  · exact (hclosed ["src/../a"] ["docs"] "src/../a" ⟨.parentComponent, "src/../a"⟩
      (by decide) (by decide +kernel)).1

end OwnershipSpec

end Ownership
