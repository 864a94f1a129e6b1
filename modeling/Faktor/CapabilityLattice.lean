/-
# The capability lattice

The authority of a child: typed capabilities over scopes.  A scope is a prefix language, everything or a
literal with what is below it, so that two scopes nest or are disjoint, and a set of grants meets
another one grant by grant.  What the meet makes of two sets is pruned of the grants that a broader one
covers.

* `ScopePattern.new` : the scopes;
* `CapabilitySet.meet`, `effective` : the intersection, which a child inherits;
* `CapabilitySet.coveredBy` : the obligation that a child does not exceed its parent;
* `effective_guarantee` : the meet grants the intersection, and what is effective is covered.
-/
import Faktor.Laminar
import Faktor.OrderedSet
import Faktor.OwnershipPaths

namespace Capability

/-! ## Scopes -/

/-- `MAX_GRANTS_PER_SET`. -/
def maxGrantsPerSet : ℕ := 16

/-- `MAX_SCOPE_CHARS`. -/
def maxScopeChars : ℕ := 512

/-- A scope: `*`, or a literal that does not end in a separator. -/
@[ext]
structure ScopePattern where
  text : List Char
  nonempty : text ≠ []
  short : text.length ≤ maxScopeChars
  plain : text.any Ownership.isControl = false
  stripped : text.getLast? ≠ some '/'
  deriving DecidableEq

namespace ScopePattern

/-- `ScopePattern::WILDCARD`. -/
def wildcard : ScopePattern where
  text := ['*']
  nonempty := by decide
  short := by decide
  plain := by decide
  stripped := by decide

/-- `ScopePattern::is_universal`. -/
def isUniversal (s : ScopePattern) : Bool := s.text = ['*']

/-- The trailing separators are dropped from a literal. -/
def new (raw : String) : Except String ScopePattern :=
  let s := raw.toList
  if hsize : s = [] ∨ maxScopeChars < s.length then
    .error "scope pattern must be 1..=512 characters"
  else if s = ['*'] then .ok wildcard
  else if hcontrol : s.any (fun c => Ownership.isControl c || c == '\n' || c == '\r') = true then
    .error "scope pattern contains control characters"
  else if hbody : s.rdropWhile (· = '/') = [] then .error "scope pattern cannot be only slashes"
  else .ok
    { text := s.rdropWhile (· = '/')
      nonempty := hbody
      short := (List.rdropWhile_prefix _ _).length_le.trans (by omega)
      plain := by
        rw [List.any_eq_false]
        intro c hc hcontrol'
        rw [List.any_eq_true] at hcontrol
        exact hcontrol ⟨c, (List.rdropWhile_prefix _ _).subset hc, by rw [hcontrol']; rfl⟩
      stripped := by
        intro hlast
        have hslash := List.rdropWhile_last_not (fun c => decide (c = '/')) s hbody
        rw [List.getLast?_eq_some_getLast hbody, Option.some.injEq] at hlast
        simp [hlast] at hslash }

/-- `ScopePattern::covers`. -/
def covers (s t : ScopePattern) : Bool :=
  if s.text = ['*'] then true
  else if t.text = ['*'] then false
  else if s.text = t.text then true
  else s.text.isPrefixOf t.text && t.text[s.text.length]? == some '/'

/-- `ScopePattern::meet`. -/
def meet (s t : ScopePattern) : Option ScopePattern :=
  if s.covers t then some t else if t.covers s then some s else none

/-- **The paths of a scope**: all of them, or the literal and what continues it after a separator. -/
def language (s : ScopePattern) : Set (List Char) :=
  {path | s.text = ['*'] ∨ path = s.text ∨ s.text ++ ['/'] <+: path}

end ScopePattern

/-! ## Grants -/

inductive LatticeCap
  | readWorkspace | writeWorkspace | readExternal | writeExternal | executeShell | network | mcp | git
  deriving DecidableEq, Repr

/-- The order of the declaration. -/
instance latticeCapOrder : LinearOrder LatticeCap :=
  LinearOrder.lift' LatticeCap.ctorIdx (by
    intro a b h
    cases a <;> cases b <;> first | rfl | cases h)

/-- The time to live is informational: grants compare without it. -/
structure CapabilityGrant where
  cap : LatticeCap
  scope : ScopePattern
  ttlMs : Option ℕ
  deriving DecidableEq

/-- What two grants compare by. -/
def CapabilityGrant.key (g : CapabilityGrant) : LatticeCap ×ₗ List Char := toLex (g.cap, g.scope.text)

/-- `CapabilitySet`. -/
abbrev CapabilitySet : Type := OrderedSet CapabilityGrant.key

namespace CapabilitySet

/-- `CapabilitySet::from_grants`; of the grants that compare as one, `collect` keeps the last. -/
def fromGrants (grants : List CapabilityGrant) : Except String CapabilitySet :=
  let s : CapabilitySet := OrderedSet.empty.insertAll grants.reverse
  if maxGrantsPerSet < s.elems.length then .error "capability set exceeds 16 grants"
  else .ok s

/-- The shorter of two times to live. -/
def shorter : Option ℕ → Option ℕ → Option ℕ
  | some x, some y => some (min x y)
  | some x, none => some x
  | none, some y => some y
  | none, none => none

/-- Two grants of one capability meet in the deeper scope. -/
def meetGrant (a b : CapabilityGrant) : Option CapabilityGrant :=
  if a.cap ≠ b.cap then none
  else (a.scope.meet b.scope).map fun scope =>
    { cap := a.cap, scope := scope, ttlMs := shorter a.ttlMs b.ttlMs }

/-- `CapabilitySet::normalize`: a grant below another one of its capability is dropped. -/
def normalize (s : CapabilitySet) : CapabilitySet :=
  s.filter fun g => !s.elems.any fun h => h.key ≠ g.key && h.cap = g.cap && h.scope.covers g.scope

/-- `CapabilitySet::meet`. -/
def meet (s t : CapabilitySet) : CapabilitySet :=
  normalize (OrderedSet.empty.insertAll
    (s.elems.flatMap fun a => t.elems.filterMap fun b => meetGrant a b))

/-- `CapabilitySet::covered_by`. -/
def coveredBy (s superSet : CapabilitySet) : Bool :=
  s.elems.all fun g => superSet.elems.any fun h =>
    h.cap = g.cap && h.scope.covers g.scope &&
      match h.ttlMs, g.ttlMs with
      | some x, some y => x ≤ y
      | _, _ => true

/-- **What a set grants**: a capability on a path. -/
def Granted (s : CapabilitySet) (cap : LatticeCap) (path : List Char) : Prop :=
  ∃ g ∈ s.elems, g.cap = cap ∧ path ∈ g.scope.language

/-- No grant has a time to live. -/
def Untimed (s : CapabilitySet) : Prop := ∀ g ∈ s.elems, g.ttlMs = none

end CapabilitySet

/-- `effective`: what a child inherits. -/
def effective (parent taskPolicy childPolicy : CapabilitySet) : CapabilitySet :=
  (parent.meet taskPolicy).meet childPolicy

/-! ## Scopes as a laminar family -/

namespace ScopePattern

variable {s t : ScopePattern}

/-- The literal scopes: what is below a literal is what it covers by components. -/
theorem mem_language {path : List Char} :
    path ∈ s.language ↔ s.text = ['*'] ∨ ComponentPrefix.covers '/' s.text path = true := by
  show _ ∨ _ ∨ _ ↔ _
  rw [ComponentPrefix.covers_iff, List.prefix_concat_iff, List.append_left_inj, eq_comm (a := path)]

/-- A literal covers the literals that it covers by components. -/
theorem covers_literal (hs : s.text ≠ ['*']) (ht : t.text ≠ ['*']) :
    s.covers t = ComponentPrefix.covers '/' s.text t.text := by
  unfold covers ComponentPrefix.covers
  rw [if_neg hs, if_neg ht]
  by_cases h : s.text = t.text
  · rw [if_pos h, beq_iff_eq.mpr h]
    rfl
  · rw [if_neg h, beq_eq_false_iff_ne.mpr h]
    rfl

/-- No literal is above everything: the literal and one more character is not below it. -/
theorem exists_notMem_language (hs : s.text ≠ ['*']) : ∃ path, path ∉ s.language := by
  refine ⟨s.text ++ ['x'], ?_⟩
  rintro (h | h | ⟨rest, h⟩)
  · exact hs h
  · simpa using congrArg List.length h
  · rw [List.append_assoc, List.append_cancel_left_eq] at h
    cases h

/-- **A scope covers another one exactly when it has all of its paths.** -/
theorem covers_iff : s.covers t = true ↔ t.language ⊆ s.language := by
  by_cases hs : s.text = ['*']
  · have hcovers : s.covers t = true := by
      unfold covers
      rw [if_pos hs]
    exact ⟨fun _ path _ => .inl hs, fun _ => hcovers⟩
  · by_cases ht : t.text = ['*']
    · have hcovers : s.covers t = false := by
        unfold covers
        rw [if_neg hs, if_pos ht]
      rw [hcovers]
      constructor
      · intro h
        cases h
      · intro h
        obtain ⟨path, hpath⟩ := exists_notMem_language hs
        exact absurd (h (.inl ht)) hpath
    · rw [covers_literal hs ht]
      constructor
      · intro h path hpath
        rw [mem_language] at hpath ⊢
        exact .inr (ComponentPrefix.covers_trans h (hpath.resolve_left ht))
      · intro h
        have hself : t.text ∈ s.language := h (.inr (.inl rfl))
        exact (mem_language.mp hself).resolve_left hs

/-- The scopes nest or are disjoint. -/
def family : Laminar ScopePattern (List Char) where
  lang := language
  covers := covers
  covers_iff := covers_iff
  nested := by
    intro s t path hs ht
    by_cases hsu : s.text = ['*']
    · exact .inl (covers_iff.mpr fun _ _ => .inl hsu)
    · by_cases htu : t.text = ['*']
      · exact .inr (covers_iff.mpr fun _ _ => .inl htu)
      · rw [covers_literal hsu htu, covers_literal htu hsu]
        exact ComponentPrefix.covers_nested ((mem_language.mp hs).resolve_left hsu)
          ((mem_language.mp ht).resolve_left htu)
  antisymm := by
    intro s t hst hts
    rw [covers_iff] at hst hts
    ext1
    by_cases hsu : s.text = ['*']
    · by_contra hne
      obtain ⟨path, hpath⟩ := exists_notMem_language (s := t) fun htu => hne (hsu.trans htu.symm)
      exact hpath (hts (.inl hsu))
    · by_cases htu : t.text = ['*']
      · obtain ⟨path, hpath⟩ := exists_notMem_language hsu
        exact absurd (hst (.inl htu)) hpath
      · rw [← covers_iff, covers_literal hsu htu] at hst
        rw [← covers_iff, covers_literal htu hsu] at hts
        exact ComponentPrefix.covers_antisymm hst hts

theorem language_nonempty (s : ScopePattern) : s.language.Nonempty := ⟨s.text, .inr (.inl rfl)⟩

end ScopePattern

/-! ## The meet of two sets -/

/-- What a grant is called: its capability and its scope. -/
def CapabilityGrant.name (g : CapabilityGrant) : LatticeCap × ScopePattern := (g.cap, g.scope)

/-- The grants nest or are disjoint. -/
def grantFamily : Laminar (LatticeCap × ScopePattern) (LatticeCap × List Char) :=
  ScopePattern.family.tagged ScopePattern.language_nonempty

/-- Grants that compare as one have one name. -/
theorem key_eq_iff {g h : CapabilityGrant} : g.key = h.key ↔ g.name = h.name := by
  unfold CapabilityGrant.key CapabilityGrant.name
  rw [toLex_inj, Prod.mk.injEq, Prod.mk.injEq, ScopePattern.ext_iff]

namespace CapabilitySet

variable {s t : CapabilitySet} {cap : LatticeCap} {path : List Char}

theorem granted_iff : s.Granted cap path ↔ ∃ g ∈ s.elems, (cap, path) ∈ grantFamily.lang g.name := by
  refine exists_congr fun g => and_congr_right fun _ => ?_
  show _ ↔ cap = g.cap ∧ path ∈ g.scope.language
  rw [eq_comm]

/-- The normalization keeps the survivors. -/
theorem normalize_elems : s.normalize.elems = grantFamily.survivors CapabilityGrant.name s.elems := by
  show List.filter _ _ = List.filter _ _
  refine List.filter_congr fun g _ => congrArg _ (congrArg _ ?_)
  funext h
  show (decide (h.key ≠ g.key) && decide (h.cap = g.cap) && h.scope.covers g.scope) =
    (decide (h.name ≠ g.name) && (decide (h.cap = g.cap) && h.scope.covers g.scope))
  rw [Bool.and_assoc]
  exact congrArg (· && _) (decide_eq_decide.mpr (not_congr key_eq_iff))

/-- Pruning a set loses nothing that it grants, and adds nothing. -/
theorem granted_normalize : s.normalize.Granted cap path ↔ s.Granted cap path := by
  rw [granted_iff, granted_iff, normalize_elems, Laminar.mem_survivors_lang]

/-- The meet of two grants is the meet of their names. -/
theorem meetGrant_name (a b : CapabilityGrant) :
    (meetGrant a b).map CapabilityGrant.name = grantFamily.meet a.name b.name := by
  unfold meetGrant Laminar.meet
  show _ = if (decide (a.cap = b.cap) && a.scope.covers b.scope) = true then some (b.cap, b.scope)
    else if (decide (b.cap = a.cap) && b.scope.covers a.scope) = true then some (a.cap, a.scope)
    else none
  unfold ScopePattern.meet
  by_cases hcap : a.cap = b.cap
  · rw [if_neg (not_not.mpr hcap)]
    simp only [hcap, decide_true, Bool.true_and]
    by_cases hab : a.scope.covers b.scope = true
    · rw [if_pos hab, if_pos hab]
      rfl
    · rw [if_neg hab, if_neg hab]
      by_cases hba : b.scope.covers a.scope = true
      · rw [if_pos hba, if_pos hba]
        rfl
      · rw [if_neg hba, if_neg hba]
        rfl
  · rw [if_pos hcap]
    simp [hcap, Ne.symm hcap]

/-- What a set of inserted grants grants. -/
theorem granted_insertAll (grants : List CapabilityGrant) :
    Granted (OrderedSet.empty.insertAll grants) cap path ↔
      ∃ g ∈ grants, (cap, path) ∈ grantFamily.lang g.name := by
  rw [granted_iff]
  constructor
  · rintro ⟨g, hg, hmem⟩
    obtain h | h := OrderedSet.mem_of_mem_insertAll hg
    · cases h
    · exact ⟨g, h, hmem⟩
  · rintro ⟨g, hg, hmem⟩
    have hkey : g.key ∈ ((OrderedSet.empty : CapabilitySet).insertAll grants).elems.map
        CapabilityGrant.key :=
      OrderedSet.mem_keys_insertAll.mpr (.inr (List.mem_map_of_mem hg))
    obtain ⟨h, hh, heq⟩ := List.mem_map.mp hkey
    exact ⟨h, hh, key_eq_iff.mp heq ▸ hmem⟩

/-- **The meet of two sets grants what both of them grant.** -/
theorem granted_meet : (s.meet t).Granted cap path ↔ s.Granted cap path ∧ t.Granted cap path := by
  unfold meet
  rw [granted_normalize, granted_insertAll, granted_iff, granted_iff]
  constructor
  · rintro ⟨g, hg, hmem⟩
    obtain ⟨a, ha, hg⟩ := List.mem_flatMap.mp hg
    obtain ⟨b, hb, hg⟩ := List.mem_filterMap.mp hg
    have hname := meetGrant_name a b
    rw [hg, Option.map_some] at hname
    obtain ⟨hmema, hmemb⟩ := Laminar.mem_meet.mp ⟨g.name, hname.symm, hmem⟩
    exact ⟨⟨a, ha, hmema⟩, ⟨b, hb, hmemb⟩⟩
  · rintro ⟨⟨a, ha, hmema⟩, ⟨b, hb, hmemb⟩⟩
    obtain ⟨m, hm, hmem⟩ := Laminar.mem_meet.mpr ⟨hmema, hmemb⟩
    rw [← meetGrant_name] at hm
    obtain ⟨g, hg, rfl⟩ := Option.map_eq_some_iff.mp hm
    exact ⟨g, List.mem_flatMap.mpr ⟨a, ha, List.mem_filterMap.mpr ⟨b, hb, hg⟩⟩, hmem⟩

/-! ## Coverage -/

/-- A set that is covered grants no more. -/
theorem granted_of_coveredBy (h : s.coveredBy t = true) (hgranted : s.Granted cap path) :
    t.Granted cap path := by
  obtain ⟨g, hg, rfl, hpath⟩ := hgranted
  obtain ⟨k, hk, hcovers⟩ := List.any_eq_true.mp (List.all_eq_true.mp h g hg)
  simp only [Bool.and_eq_true, decide_eq_true_eq] at hcovers
  exact ⟨k, hk, hcovers.1.1, ScopePattern.covers_iff.mp hcovers.1.2 hpath⟩

/-- Every grant of a meet is below a grant of the first set. -/
theorem exists_covers_of_mem_meet {g : CapabilityGrant} (hg : g ∈ (s.meet t).elems) :
    ∃ a ∈ s.elems, grantFamily.covers a.name g.name = true := by
  unfold meet at hg
  rw [normalize_elems] at hg
  obtain h | h := OrderedSet.mem_of_mem_insertAll (Laminar.mem_survivors.mp hg).1
  · cases h
  · obtain ⟨a, ha, h⟩ := List.mem_flatMap.mp h
    obtain ⟨b, -, h⟩ := List.mem_filterMap.mp h
    have hname := meetGrant_name a b
    rw [h, Option.map_some] at hname
    exact ⟨a, ha, Laminar.covers_left_of_meet hname.symm⟩

end CapabilitySet

/-- **What is effective is covered by the parent**, when no grant of the parent has a time to live. -/
theorem effective_coveredBy {parent : CapabilitySet} (taskPolicy childPolicy : CapabilitySet)
    (huntimed : parent.Untimed) : (effective parent taskPolicy childPolicy).coveredBy parent = true := by
  unfold CapabilitySet.coveredBy
  rw [List.all_eq_true]
  intro g hg
  obtain ⟨a, ha, hga⟩ := CapabilitySet.exists_covers_of_mem_meet hg
  obtain ⟨p, hp, hap⟩ := CapabilitySet.exists_covers_of_mem_meet ha
  have hcovers : (decide (p.cap = g.cap) && p.scope.covers g.scope) = true :=
    Laminar.covers_trans (F := grantFamily) hap hga
  rw [List.any_eq_true]
  refine ⟨p, hp, ?_⟩
  rw [hcovers, huntimed p hp]
  rfl

/-- **The lattice of capabilities.**  A set of grants denotes the pairs of a capability and a path that
it grants; on those the meet is the intersection, so that it is commutative, associative and idempotent,
what is effective is the intersection of the three sets, a set that is covered grants no more, and what
is effective is covered by the parent as long as no grant has a time to live. -/
theorem effective_guarantee :
    (∀ (s t : CapabilitySet) cap path,
      (s.meet t).Granted cap path ↔ s.Granted cap path ∧ t.Granted cap path) ∧
    (∀ (s t : CapabilitySet) cap path, (s.meet t).Granted cap path ↔ (t.meet s).Granted cap path) ∧
    (∀ (s t u : CapabilitySet) cap path,
      ((s.meet t).meet u).Granted cap path ↔ (s.meet (t.meet u)).Granted cap path) ∧
    (∀ (s : CapabilitySet) cap path, (s.meet s).Granted cap path ↔ s.Granted cap path) ∧
    (∀ (parent taskPolicy childPolicy : CapabilitySet) cap path,
      (effective parent taskPolicy childPolicy).Granted cap path ↔
        parent.Granted cap path ∧ taskPolicy.Granted cap path ∧ childPolicy.Granted cap path) ∧
    (∀ (s t : CapabilitySet), s.coveredBy t = true →
      ∀ cap path, s.Granted cap path → t.Granted cap path) ∧
    (∀ (parent taskPolicy childPolicy : CapabilitySet), parent.Untimed →
      (effective parent taskPolicy childPolicy).coveredBy parent = true) := by
  refine ⟨?_, ?_, ?_, ?_, ?_, ?_, ?_⟩
  · intro s t cap path
    exact CapabilitySet.granted_meet
  · intro s t cap path
    rw [CapabilitySet.granted_meet, CapabilitySet.granted_meet, and_comm]
  · intro s t u cap path
    simp only [CapabilitySet.granted_meet, and_assoc]
  · intro s cap path
    rw [CapabilitySet.granted_meet, and_self]
  · intro parent taskPolicy childPolicy cap path
    unfold effective
    rw [CapabilitySet.granted_meet, CapabilitySet.granted_meet, and_assoc]
  · intro s t h cap path
    exact CapabilitySet.granted_of_coveredBy h
  · intro parent taskPolicy childPolicy
    exact effective_coveredBy taskPolicy childPolicy

/-- The pattern of everything below `src`. -/
def sourceScope : ScopePattern :=
  { text := "src".toList, nonempty := by decide, short := by decide, plain := by decide, stripped := by decide }

/-- A parent that writes below `src`. -/
def sourceWriter : CapabilitySet := OrderedSet.empty.insert
  { cap := .writeWorkspace, scope := sourceScope, ttlMs := none }

/-- A child that asks for everything. -/
def greedyChild : CapabilitySet := OrderedSet.empty.insert
  { cap := .writeWorkspace, scope := .wildcard, ttlMs := none }

theorem greedyChild_covered :
    (effective sourceWriter sourceWriter greedyChild).coveredBy sourceWriter = true ∧
      ∀ cap path, (effective sourceWriter sourceWriter greedyChild).Granted cap path →
        sourceWriter.Granted cap path := by
  have huntimed : sourceWriter.Untimed := by
    intro g hg
    obtain rfl := List.mem_singleton.mp hg
    rfl
  obtain ⟨-, -, -, -, -, hcovered, heffective⟩ := effective_guarantee
  have h := heffective sourceWriter sourceWriter greedyChild huntimed
  exact ⟨h, hcovered _ _ h⟩

end Capability
