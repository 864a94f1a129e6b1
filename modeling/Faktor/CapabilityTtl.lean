/-
# Times to live in the capability lattice

A meet gives each pair of grants the shorter time to live, but keeps the first grant of each scope and prunes
the grants below another one, whatever their times; and the test that a child is covered asks for a grant of
the parent that does not last longer than the child's.

* `CapabilitySet.Longest` : the longest time under which a set grants a pair;
* `CapabilitySet.meet_at` : the one grant of a meet at a pair;
* `Picks`, `effective_at` : the grants whose times the effective set takes;
* `effective_ttl_iff` : when the effective set is covered and grants for the shortest of the longest times.
-/
import Mathlib
import Faktor.CapabilityLattice
import Faktor.LaminarPicks

namespace Capability

open Laminar

/-! ## What a grant and a set give -/

/-- The grant gives the capability on the path. -/
def CapabilityGrant.GrantsAt (g : CapabilityGrant) (cap : LatticeCap) (path : List Char) : Prop :=
  g.cap = cap ∧ path ∈ g.scope.language

/-- The time to live; without one a grant is unlimited. -/
def CapabilityGrant.bound (g : CapabilityGrant) : WithTop ℕ :=
  match g.ttlMs with
  | some ms => ms
  | none => ⊤

/-- The longest time under which a set grants a capability on a path. -/
def CapabilitySet.Longest (s : CapabilitySet) (cap : LatticeCap) (path : List Char) (longest : WithTop ℕ) : Prop :=
  IsGreatest {b | ∃ g ∈ s.elems, g.GrantsAt cap path ∧ g.bound = b} longest

/-- The broadest scope under which a set grants a capability on a path. -/
def CapabilitySet.BroadestScope (s : CapabilitySet) (cap : LatticeCap) (path : List Char) (scope : ScopePattern) :
    Prop :=
  (∃ g ∈ s.elems, g.GrantsAt cap path ∧ g.scope = scope) ∧
    ∀ g ∈ s.elems, g.GrantsAt cap path → scope.covers g.scope = true

/-- The first grant of a set, in its order, that covers a scope. -/
def CapabilitySet.firstAbove (s : CapabilitySet) (cap : LatticeCap) (scope : ScopePattern) :
    Option CapabilityGrant :=
  s.elems.find? fun g => g.cap = cap && g.scope.covers scope

/-- The grants `p`, `t` and `c` of the three sets whose times the meets take for a pair, and the scope of the
result: the first grants that cover the deepest of the broadest scopes. -/
def Picks (parent task child : CapabilitySet) (cap : LatticeCap) (path : List Char) (scope : ScopePattern)
    (p t c : CapabilityGrant) : Prop :=
  ∃ parentScope taskScope childScope both, parent.BroadestScope cap path parentScope ∧
    task.BroadestScope cap path taskScope ∧ child.BroadestScope cap path childScope ∧
    parentScope.meet taskScope = some both ∧ both.meet childScope = some scope ∧
    parent.firstAbove cap both = some p ∧ task.firstAbove cap both = some t ∧ child.firstAbove cap scope = some c

/-- The times that are taken are the longest ones together, and some grant of the parent does not outlast them. -/
def TimesAgree (parent task child : CapabilitySet) : Prop :=
  ∀ cap path scope p t c, Picks parent task child cap path scope p t c →
    (∀ p' ∈ parent.elems, p'.GrantsAt cap path → ∀ t' ∈ task.elems, t'.GrantsAt cap path →
      ∀ c' ∈ child.elems, c'.GrantsAt cap path →
        min (min p'.bound t'.bound) c'.bound ≤ min (min p.bound t.bound) c.bound) ∧
    ∃ h ∈ parent.elems, h.cap = cap ∧ h.scope.covers scope = true ∧
      (h.bound = ⊤ ∨ min (min p.bound t.bound) c.bound = ⊤ ∨ h.bound ≤ min (min p.bound t.bound) c.bound)

/-! ## The grants of a meet -/

theorem grantsAt_iff {g : CapabilityGrant} {cap : LatticeCap} {path : List Char} :
    g.GrantsAt cap path ↔ (cap, path) ∈ grantFamily.lang g.name := by
  show g.cap = cap ∧ _ ↔ cap = g.cap ∧ path ∈ g.scope.language
  rw [eq_comm]

theorem bound_meetGrant {a b g : CapabilityGrant} (h : CapabilitySet.meetGrant a b = some g) :
    g.bound = min a.bound b.bound := by
  unfold CapabilitySet.meetGrant at h
  split at h
  · cases h
  · obtain ⟨scope, -, rfl⟩ := Option.map_eq_some_iff.mp h
    unfold CapabilityGrant.bound
    cases a.ttlMs with
    | none => cases b.ttlMs <;> simp [CapabilitySet.shorter]
    | some x =>
      cases b.ttlMs with
      | none => simp [CapabilitySet.shorter]
      | some y => exact WithTop.coe_min x y

namespace CapabilitySet

variable {s t : CapabilitySet} {x : LatticeCap × List Char} {a b : CapabilityGrant}
  {m : LatticeCap × ScopePattern}

/-- **The one grant of a meet at a pair**: its name is the deeper of the two broadest, and its time the shorter
of those of the first grants that cover it. -/
theorem meet_at (ha : Broadest grantFamily CapabilityGrant.name s.elems x a)
    (hb : Broadest grantFamily CapabilityGrant.name t.elems x b)
    (hm : grantFamily.meet a.name b.name = some m) :
    ∃ p q g, s.firstAbove m.1 m.2 = some p ∧ t.firstAbove m.1 m.2 = some q ∧ g ∈ (s.meet t).elems ∧
      g.name = m ∧ g.bound = min p.bound q.bound ∧
      ∀ h ∈ (s.meet t).elems, x ∈ grantFamily.lang h.name → h = g := by
  obtain ⟨p, q, g, hp, hq, hpq, hname, hfind⟩ := find_pairs meetGrant_name ha hb hm
  have hset : ∀ h, h ∈ ((OrderedSet.empty : CapabilitySet).insertAll (pairs meetGrant s.elems t.elems)).elems ↔
      (pairs meetGrant s.elems t.elems).find? (fun d => d.name = h.name) = some h := by
    intro h
    rw [OrderedSet.mem_insertAll_iff]
    simp only [key_eq_iff]
  have hx : x ∈ grantFamily.lang m := mem_lang_of_meet hm ha.holds hb.holds
  -- at the pair, the grant is above every other one
  have habove : ∀ h ∈ pairs meetGrant s.elems t.elems, x ∈ grantFamily.lang h.name →
      grantFamily.covers g.name h.name = true := by
    intro h hh hxh
    rw [hname]
    exact covers_of_mem_pairs meetGrant_name ha hb hm hh hxh
  have hmem : g ∈ ((OrderedSet.empty : CapabilitySet).insertAll (pairs meetGrant s.elems t.elems)).elems := by
    rw [hset, hname]
    exact hfind
  have hpairs : ∀ h, h ∈ ((OrderedSet.empty : CapabilitySet).insertAll (pairs meetGrant s.elems t.elems)).elems →
      h ∈ pairs meetGrant s.elems t.elems :=
    fun h hh => List.mem_of_find?_eq_some ((hset h).mp hh)
  refine ⟨p, q, g, hp, hq, ?_, hname, bound_meetGrant hpq, fun h hh hxh => ?_⟩
  · show g ∈ (normalize _).elems
    rw [normalize_elems, mem_survivors]
    refine ⟨hmem, fun h hh hcovers => ?_⟩
    have hxh := mem_of_covers hcovers (by rw [hname]; exact hx)
    exact grantFamily.antisymm hcovers (habove h (hpairs h hh) hxh)
  · change h ∈ (normalize _).elems at hh
    rw [normalize_elems, mem_survivors] at hh
    have heq := hh.2 g hmem (habove h (hpairs h hh.1) hxh)
    have hfirst := (hset h).mp hh.1
    rw [← heq] at hfirst
    exact Option.some.inj (hfirst.symm.trans ((hset g).mp hmem))

/-- A set that grants a pair has a broadest grant there. -/
theorem exists_broadest_of_granted {cap : LatticeCap} {path : List Char} (h : s.Granted cap path) :
    ∃ g, Broadest grantFamily CapabilityGrant.name s.elems (cap, path) g := by
  obtain ⟨g, hg, hx⟩ := granted_iff.mp h
  exact exists_broadest hg hx

theorem broadestScope_iff {cap : LatticeCap} {path : List Char} {scope : ScopePattern} :
    s.BroadestScope cap path scope ↔
      ∃ g, Broadest grantFamily CapabilityGrant.name s.elems (cap, path) g ∧ g.name = (cap, scope) := by
  constructor
  · rintro ⟨⟨g, hg, hat, rfl⟩, hcovers⟩
    refine ⟨g, ⟨hg, grantsAt_iff.mp hat, fun h hh hx => ?_⟩, Prod.ext hat.1 rfl⟩
    show (decide (g.cap = h.cap) && g.scope.covers h.scope) = true
    rw [hcovers h hh (grantsAt_iff.mpr hx), Bool.and_true, decide_eq_true_eq, hat.1, (grantsAt_iff.mpr hx).1]
  · rintro ⟨g, hg, hname⟩
    obtain ⟨rfl, rfl⟩ := Prod.mk.inj hname
    refine ⟨⟨g, hg.mem, grantsAt_iff.mpr hg.holds, rfl⟩, fun h hh hat => ?_⟩
    have hcovers : (decide (g.cap = h.cap) && g.scope.covers h.scope) = true :=
      hg.covers h hh (grantsAt_iff.mp hat)
    exact (Bool.and_eq_true_iff.mp hcovers).2

/-- A first grant above a scope covers it, and gives what the scope holds. -/
theorem firstAbove_spec {cap : LatticeCap} {scope : ScopePattern} {g : CapabilityGrant}
    (h : s.firstAbove cap scope = some g) : g ∈ s.elems ∧ g.cap = cap ∧ g.scope.covers scope = true := by
  have hcovers := List.find?_some h
  rw [Bool.and_eq_true, decide_eq_true_eq] at hcovers
  exact ⟨List.mem_of_find?_eq_some h, hcovers.1, hcovers.2⟩

theorem exists_firstAbove {cap : LatticeCap} {scope : ScopePattern} {g : CapabilityGrant} (hg : g ∈ s.elems)
    (hcap : g.cap = cap) (hcovers : g.scope.covers scope = true) : ∃ h, s.firstAbove cap scope = some h :=
  @Laminar.exists_firstAbove _ _ _ grantFamily CapabilityGrant.name _ (cap, scope) _ hg
    (Bool.and_eq_true_iff.mpr ⟨decide_eq_true hcap, hcovers⟩)

theorem grantsAt_of_covers {cap : LatticeCap} {path : List Char} {scope : ScopePattern} {g : CapabilityGrant}
    (hcap : g.cap = cap) (hcovers : g.scope.covers scope = true) (hpath : path ∈ scope.language) :
    g.GrantsAt cap path := ⟨hcap, ScopePattern.covers_iff.mp hcovers hpath⟩

end CapabilitySet

/-- The meet of two names of one capability is that of their scopes. -/
theorem grantFamily_meet_eq {cap : LatticeCap} {a b m : ScopePattern} :
    grantFamily.meet (cap, a) (cap, b) = some (cap, m) ↔ a.meet b = some m := by
  have hcovers : ∀ a b : ScopePattern, grantFamily.covers (cap, a) (cap, b) = a.covers b := by
    intro a b
    show (decide (cap = cap) && a.covers b) = a.covers b
    rw [decide_eq_true rfl, Bool.true_and]
  rw [Laminar.meet, ScopePattern.meet, hcovers, hcovers]
  by_cases hab : a.covers b = true
  · simp [hab]
  · by_cases hba : b.covers a = true
    · simp [hab, hba]
    · simp [hab, hba]

/-! ## What is effective at a pair -/

section Effective

variable {parent task child : CapabilitySet} {cap : LatticeCap} {path : List Char} {scope : ScopePattern}
  {p t c : CapabilityGrant}

/-- Two scopes that have a path in common meet there. -/
theorem exists_scope_meet {a b : ScopePattern} (ha : path ∈ a.language) (hb : path ∈ b.language) :
    ∃ m, a.meet b = some m ∧ path ∈ m.language :=
  (mem_meet (F := ScopePattern.family)).mpr ⟨ha, hb⟩

theorem covers_of_scope_meet {a b m : ScopePattern} (h : a.meet b = some m) :
    a.covers m = true ∧ b.covers m = true :=
  ⟨covers_left_of_meet (F := ScopePattern.family) h, covers_right_of_meet (F := ScopePattern.family) h⟩

/-- Every pair that the three sets grant is picked for. -/
theorem exists_picks (hp : parent.Granted cap path) (ht : task.Granted cap path) (hc : child.Granted cap path) :
    ∃ scope p t c, Picks parent task child cap path scope p t c := by
  obtain ⟨a, ha⟩ := CapabilitySet.exists_broadest_of_granted hp
  obtain ⟨b, hb⟩ := CapabilitySet.exists_broadest_of_granted ht
  obtain ⟨k, hk⟩ := CapabilitySet.exists_broadest_of_granted hc
  have hat := grantsAt_iff.mpr ha.holds
  have hbt := grantsAt_iff.mpr hb.holds
  have hkt := grantsAt_iff.mpr hk.holds
  obtain ⟨both, hboth, hpath⟩ := exists_scope_meet hat.2 hbt.2
  obtain ⟨scope, hscope, -⟩ := exists_scope_meet hpath hkt.2
  have hscopes := covers_of_scope_meet hboth
  have hscopes' := covers_of_scope_meet hscope
  obtain ⟨p, hp⟩ := CapabilitySet.exists_firstAbove ha.mem hat.1 hscopes.1
  obtain ⟨t, ht⟩ := CapabilitySet.exists_firstAbove hb.mem hbt.1 hscopes.2
  obtain ⟨c, hc⟩ := CapabilitySet.exists_firstAbove hk.mem hkt.1 hscopes'.2
  refine ⟨scope, p, t, c, a.scope, b.scope, k.scope, both, ?_, ?_, ?_, hboth, hscope, hp, ht, hc⟩
  · exact CapabilitySet.broadestScope_iff.mpr ⟨a, ha, Prod.ext hat.1 rfl⟩
  · exact CapabilitySet.broadestScope_iff.mpr ⟨b, hb, Prod.ext hbt.1 rfl⟩
  · exact CapabilitySet.broadestScope_iff.mpr ⟨k, hk, Prod.ext hkt.1 rfl⟩

/-- **The one effective grant at a pair**, with the times of the grants that are picked. -/
theorem effective_at (h : Picks parent task child cap path scope p t c) :
    ∃ g ∈ (effective parent task child).elems, g.cap = cap ∧ g.scope = scope ∧ path ∈ scope.language ∧
      g.bound = min (min p.bound t.bound) c.bound ∧
      ∀ g' ∈ (effective parent task child).elems, g'.GrantsAt cap path → g' = g := by
  obtain ⟨parentScope, taskScope, childScope, both, hps, hts, hcs, hboth, hscope, hp, ht, hc⟩ := h
  obtain ⟨a, ha, haname⟩ := CapabilitySet.broadestScope_iff.mp hps
  obtain ⟨b, hb, hbname⟩ := CapabilitySet.broadestScope_iff.mp hts
  obtain ⟨k, hk, hkname⟩ := CapabilitySet.broadestScope_iff.mp hcs
  have hm : grantFamily.meet a.name b.name = some (cap, both) := by
    rw [haname, hbname]
    exact grantFamily_meet_eq.mpr hboth
  obtain ⟨p', t', g, hp', ht', hg, hgname, hgbound, hgonly⟩ := CapabilitySet.meet_at ha hb hm
  obtain rfl := Option.some.inj (hp'.symm.trans hp)
  obtain rfl := Option.some.inj (ht'.symm.trans ht)
  have hgx : (cap, path) ∈ grantFamily.lang g.name := by
    rw [hgname]
    exact mem_lang_of_meet hm ha.holds hb.holds
  have hgbroad : Broadest grantFamily CapabilityGrant.name (parent.meet task).elems (cap, path) g :=
    ⟨hg, hgx, fun h hh hx => by rw [hgonly h hh hx]; exact grantFamily.covers_refl _⟩
  have hm' : grantFamily.meet g.name k.name = some (cap, scope) := by
    rw [hgname, hkname]
    exact grantFamily_meet_eq.mpr hscope
  obtain ⟨q, c', e, hq, hc', he, hename, hebound, heonly⟩ := CapabilitySet.meet_at hgbroad hk hm'
  obtain rfl := Option.some.inj (hc'.symm.trans hc)
  have hex : (cap, path) ∈ grantFamily.lang e.name := by
    rw [hename]
    exact mem_lang_of_meet hm' hgx hk.holds
  -- the first grant of the inner meet above the scope is its only one at the path
  obtain ⟨hqmem, hqcap, hqcovers⟩ := CapabilitySet.firstAbove_spec hq
  have hpath : path ∈ scope.language := by
    rw [hename] at hex
    exact hex.2
  obtain rfl := hgonly q hqmem (grantsAt_iff.mp (CapabilitySet.grantsAt_of_covers hqcap hqcovers hpath))
  refine ⟨e, he, (Prod.mk.inj hename).1, (Prod.mk.inj hename).2, hpath, ?_, fun g' hg' hat => ?_⟩
  · rw [hebound, hgbound]
  · exact heonly g' hg' (grantsAt_iff.mp hat)

/-- What is picked for a pair grants it. -/
theorem Picks.grantsAt (h : Picks parent task child cap path scope p t c) :
    p ∈ parent.elems ∧ p.GrantsAt cap path ∧ t ∈ task.elems ∧ t.GrantsAt cap path ∧ c ∈ child.elems ∧
      c.GrantsAt cap path := by
  obtain ⟨_, -, -, -, hpath, -, -⟩ := effective_at h
  obtain ⟨_, _, _, both, -, -, -, -, hscope, hp, ht, hc⟩ := h
  have hboth : path ∈ both.language := ScopePattern.covers_iff.mp (covers_of_scope_meet hscope).1 hpath
  obtain ⟨hpmem, hpcap, hpcovers⟩ := CapabilitySet.firstAbove_spec hp
  obtain ⟨htmem, htcap, htcovers⟩ := CapabilitySet.firstAbove_spec ht
  obtain ⟨hcmem, hccap, hccovers⟩ := CapabilitySet.firstAbove_spec hc
  exact ⟨hpmem, CapabilitySet.grantsAt_of_covers hpcap hpcovers hboth, htmem,
    CapabilitySet.grantsAt_of_covers htcap htcovers hboth, hcmem,
    CapabilitySet.grantsAt_of_covers hccap hccovers hpath⟩

end Effective

/-! ## When the times agree -/

/-- The comparison of the times in `covered_by`. -/
theorem ttl_test_iff {h g : CapabilityGrant} :
    (match h.ttlMs, g.ttlMs with
      | some x, some y => decide (x ≤ y)
      | _, _ => true) = true ↔ h.bound = ⊤ ∨ g.bound = ⊤ ∨ h.bound ≤ g.bound := by
  unfold CapabilityGrant.bound
  cases h.ttlMs with
  | none => simp
  | some x =>
    cases g.ttlMs with
    | none => simp
    | some y => simp

theorem coveredBy_iff {s t : CapabilitySet} :
    s.coveredBy t = true ↔ ∀ g ∈ s.elems, ∃ h ∈ t.elems, h.cap = g.cap ∧ h.scope.covers g.scope = true ∧
      (h.bound = ⊤ ∨ g.bound = ⊤ ∨ h.bound ≤ g.bound) := by
  unfold CapabilitySet.coveredBy
  rw [List.all_eq_true]
  refine forall₂_congr fun g _ => ?_
  rw [List.any_eq_true]
  refine exists_congr fun h => and_congr_right fun _ => ?_
  rw [Bool.and_eq_true, Bool.and_eq_true, decide_eq_true_eq, and_assoc]
  exact and_congr_right fun _ => and_congr_right fun _ => ttl_test_iff

theorem exists_longest {s : CapabilitySet} {cap : LatticeCap} {path : List Char} (h : s.Granted cap path) :
    ∃ longest, s.Longest cap path longest := by
  have hfinite : {b | ∃ g ∈ s.elems, g.GrantsAt cap path ∧ g.bound = b}.Finite := by
    refine ((List.finite_toSet s.elems).image CapabilityGrant.bound).subset ?_
    rintro b ⟨g, hg, -, rfl⟩
    exact ⟨g, hg, rfl⟩
  obtain ⟨g, hg, hat⟩ := h
  obtain ⟨longest, hmem, hmax⟩ := Set.exists_max_image _ id hfinite ⟨g.bound, g, hg, hat, rfl⟩
  exact ⟨longest, hmem, fun b hb => hmax b hb⟩

/-- **When times to live are kept.**  The effective set is covered by the parent, and grants each pair for the
shortest of the longest times of the three sets, exactly when the times agree. -/
theorem effective_ttl_iff (parent task child : CapabilitySet) :
    ((effective parent task child).coveredBy parent = true ∧
      ∀ cap path, (effective parent task child).Granted cap path →
        ∃ p t c, parent.Longest cap path p ∧ task.Longest cap path t ∧ child.Longest cap path c ∧
          (effective parent task child).Longest cap path (min (min p t) c)) ↔
      TimesAgree parent task child := by
  constructor
  · rintro ⟨hcovered, hlongest⟩ cap path scope p t c hpicks
    obtain ⟨g, hg, hcap, hscope, hpath, hbound, honly⟩ := effective_at hpicks
    rw [← hbound]
    have hat : g.GrantsAt cap path := ⟨hcap, hscope ▸ hpath⟩
    constructor
    · intro p' hp' hpat t' ht' htat c' hc' hcat
      obtain ⟨lp, lt, lc, hlp, hlt, hlc, hle⟩ := hlongest cap path ⟨g, hg, hat⟩
      obtain ⟨g', hg', hat', hbound'⟩ := hle.1
      rw [← honly g' hg' hat', hbound']
      exact min_le_min (min_le_min (hlp.2 ⟨p', hp', hpat, rfl⟩) (hlt.2 ⟨t', ht', htat, rfl⟩))
        (hlc.2 ⟨c', hc', hcat, rfl⟩)
    · obtain ⟨h, hh, hhcap, hhcovers, htimes⟩ := coveredBy_iff.mp hcovered g hg
      exact ⟨h, hh, hhcap.trans hcap, hscope ▸ hhcovers, htimes⟩
  · intro hagree
    have hgranted : ∀ cap path, (effective parent task child).Granted cap path →
        parent.Granted cap path ∧ task.Granted cap path ∧ child.Granted cap path := by
      intro cap path h
      unfold effective at h
      rwa [CapabilitySet.granted_meet, CapabilitySet.granted_meet, and_assoc] at h
    constructor
    · rw [coveredBy_iff]
      intro g hg
      have hat : g.GrantsAt g.cap g.scope.text := ⟨rfl, .inr (.inl rfl)⟩
      obtain ⟨hp, ht, hc⟩ := hgranted _ _ ⟨g, hg, hat⟩
      obtain ⟨scope, p, t, c, hpicks⟩ := exists_picks hp ht hc
      obtain ⟨e, -, hcap, hscope, -, hbound, honly⟩ := effective_at hpicks
      obtain rfl := honly g hg hat
      obtain ⟨h, hh, hhcap, hhcovers, htimes⟩ := (hagree _ _ _ _ _ _ hpicks).2
      exact ⟨h, hh, hhcap, hscope ▸ hhcovers, by rwa [hbound]⟩
    · intro cap path hat
      obtain ⟨hp, ht, hc⟩ := hgranted cap path hat
      obtain ⟨scope, p, t, c, hpicks⟩ := exists_picks hp ht hc
      obtain ⟨g, hg, hcap, hscope, hpath, hbound, honly⟩ := effective_at hpicks
      obtain ⟨lp, hlp⟩ := exists_longest hp
      obtain ⟨lt, hlt⟩ := exists_longest ht
      obtain ⟨lc, hlc⟩ := exists_longest hc
      have hshortest : g.bound = min (min lp lt) lc := by
        obtain ⟨hpmem, hpat, htmem, htat, hcmem, hcat⟩ := hpicks.grantsAt
        obtain ⟨p', hp', hpat', rfl⟩ := hlp.1
        obtain ⟨t', ht', htat', rfl⟩ := hlt.1
        obtain ⟨c', hc', hcat', rfl⟩ := hlc.1
        rw [hbound]
        apply le_antisymm
        · exact min_le_min (min_le_min (hlp.2 ⟨p, hpmem, hpat, rfl⟩) (hlt.2 ⟨t, htmem, htat, rfl⟩))
            (hlc.2 ⟨c, hcmem, hcat, rfl⟩)
        · exact (hagree _ _ _ _ _ _ hpicks).1 p' hp' hpat' t' ht' htat' c' hc' hcat'
      refine ⟨lp, lt, lc, hlp, hlt, hlc, ?_, ?_⟩
      · exact ⟨g, hg, ⟨hcap, hscope ▸ hpath⟩, hshortest⟩
      · rintro b ⟨g', hg', hat', rfl⟩
        rw [honly g' hg' hat', hshortest]

/-- A set with one grant to write below `src`, for so long. -/
def sourceWriterFor (ttlMs : ℕ) : CapabilitySet := OrderedSet.empty.insert
  { cap := .writeWorkspace, scope := sourceScope, ttlMs := some ttlMs }

/-- A parent that may write for 1000 ms and a child for 100 ms: the effective grant lasts 100 ms, and is not
covered by the parent. -/
theorem effective_shorter_not_covered :
    ((effective (sourceWriterFor 1000) (sourceWriterFor 1000) (sourceWriterFor 100)).elems.map
        CapabilityGrant.ttlMs = [some 100]) ∧
      (effective (sourceWriterFor 1000) (sourceWriterFor 1000) (sourceWriterFor 100)).coveredBy
        (sourceWriterFor 1000) = false := by
  decide +kernel

end Capability
