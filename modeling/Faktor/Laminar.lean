/-
# Laminar families

A family of sets any two of which are nested or disjoint, given by names: prefix languages, subtrees,
nested intervals.  Two names then meet in the deeper one or in nothing, and a list of names keeps its
union when the names below another one are dropped.

* `Laminar.meet` : the intersection of two sets of the family;
* `Laminar.survivors` : the names of a list that no other one covers;
* `Laminar.tagged` : one copy of a family for each tag;
* `ComponentPrefix.covers` : the lists that continue a list after a separator.

Nothing here depends on what the sets are.
-/
import Mathlib

/-- A family of sets, any two nested or disjoint, each with one name. -/
structure Laminar (S P : Type) where
  /-- The set of a name. -/
  lang : S → Set P
  covers : S → S → Bool
  covers_iff : ∀ {s t}, covers s t = true ↔ lang t ⊆ lang s
  nested : ∀ {s t x}, x ∈ lang s → x ∈ lang t → covers s t = true ∨ covers t s = true
  antisymm : ∀ {s t}, covers s t = true → covers t s = true → s = t

namespace Laminar

variable {S P : Type} (F : Laminar S P)

theorem covers_refl (s : S) : F.covers s s = true := F.covers_iff.mpr subset_rfl

variable {F}

theorem covers_trans {s t u : S} (hst : F.covers s t = true) (htu : F.covers t u = true) :
    F.covers s u = true :=
  F.covers_iff.mpr ((F.covers_iff.mp htu).trans (F.covers_iff.mp hst))

theorem mem_of_covers {s t : S} {x : P} (h : F.covers s t = true) (hx : x ∈ F.lang t) : x ∈ F.lang s :=
  F.covers_iff.mp h hx

/-! ## Meets -/

variable (F) in
/-- The deeper of two nested names; none when the sets are disjoint. -/
def meet (s t : S) : Option S :=
  if F.covers s t then some t else if F.covers t s then some s else none

/-- **The meet of two names is the intersection of their sets.** -/
theorem mem_meet {s t : S} {x : P} :
    (∃ m, F.meet s t = some m ∧ x ∈ F.lang m) ↔ x ∈ F.lang s ∧ x ∈ F.lang t := by
  unfold meet
  by_cases hst : F.covers s t = true
  · rw [if_pos hst]
    constructor
    · rintro ⟨m, hm, hx⟩
      cases hm
      exact ⟨mem_of_covers hst hx, hx⟩
    · rintro ⟨-, hx⟩
      exact ⟨t, rfl, hx⟩
  · rw [if_neg hst]
    by_cases hts : F.covers t s = true
    · rw [if_pos hts]
      constructor
      · rintro ⟨m, hm, hx⟩
        cases hm
        exact ⟨hx, mem_of_covers hts hx⟩
      · rintro ⟨hx, -⟩
        exact ⟨s, rfl, hx⟩
    · rw [if_neg hts]
      constructor
      · rintro ⟨m, hm, -⟩
        cases hm
      · rintro ⟨hxs, hxt⟩
        obtain h | h := F.nested hxs hxt
        · exact absurd h hst
        · exact absurd h hts

/-- A meet is below its first argument. -/
theorem covers_left_of_meet {s t m : S} (h : F.meet s t = some m) : F.covers s m = true := by
  unfold meet at h
  split at h
  · next hst =>
    cases h
    exact hst
  · split at h
    · cases h
      exact F.covers_refl s
    · cases h

/-! ## Lists of names -/

section Survivors

variable {α : Type} (name : α → S) [DecidableEq S]

variable (F) in
/-- What is left of a list when each element below another name is dropped. -/
def survivors (l : List α) : List α :=
  l.filter fun a => !l.any fun b => name b ≠ name a && F.covers (name b) (name a)

variable {name}

theorem mem_survivors {l : List α} {a : α} :
    a ∈ F.survivors name l ↔
      a ∈ l ∧ ∀ b ∈ l, F.covers (name b) (name a) = true → name b = name a := by
  unfold survivors
  rw [List.mem_filter, Bool.not_eq_true', List.any_eq_false]
  refine and_congr_right fun _ => forall₂_congr fun b _ => ?_
  simp only [Bool.and_eq_true, decide_eq_true_eq, ne_eq, not_and]
  exact ⟨fun h hcovers => by_contra fun hne => h hne hcovers, fun h hne hcovers => hne (h hcovers)⟩

variable (F) (name) in
/-- How many elements of a list are strictly above one. -/
def above (l : List α) (a : α) : ℕ :=
  l.countP fun b => name b ≠ name a && F.covers (name b) (name a)

theorem above_lt {l : List α} {a b : α} (hb : b ∈ l) (hcovers : F.covers (name b) (name a) = true)
    (hne : name b ≠ name a) : above F name l b < above F name l a := by
  have hfilter : above F name l b =
      (l.filter fun c => name c ≠ name a && F.covers (name c) (name a)).countP
        fun c => name c ≠ name b && F.covers (name c) (name b) := by
    rw [above, List.countP_filter]
    refine List.countP_congr fun c _ => ?_
    simp only [Bool.and_eq_true, decide_eq_true_eq]
    constructor
    · rintro ⟨hcb, habove⟩
      refine ⟨⟨hcb, habove⟩, fun hca => hcb ?_, covers_trans habove hcovers⟩
      rw [hca] at habove ⊢
      exact F.antisymm habove hcovers
    · rintro ⟨h, -⟩
      exact h
  rw [hfilter, above, List.countP_eq_length_filter (l := l)]
  refine List.countP_lt_length_iff.mpr ⟨b, List.mem_filter.mpr ⟨hb, ?_⟩, ?_⟩
  · simpa using ⟨hne, hcovers⟩
  · simp

/-- **Every element is covered by a survivor**: a chain of elements, each strictly below the next one,
ends. -/
theorem exists_survivor {l : List α} {a : α} (ha : a ∈ l) :
    ∃ b ∈ F.survivors name l, F.covers (name b) (name a) = true := by
  -- the induction is on the number of elements strictly above `a`
  induction hn : above F name l a using Nat.strong_induction_on generalizing a with
  | _ n ih =>
    by_cases hkeep : a ∈ F.survivors name l
    · exact ⟨a, hkeep, F.covers_refl _⟩
    · have hdropped : ∃ b ∈ l, F.covers (name b) (name a) = true ∧ name b ≠ name a := by
        by_contra hnone
        push Not at hnone
        exact hkeep (mem_survivors.mpr ⟨ha, hnone⟩)
      obtain ⟨b, hb, hcovers, hne⟩ := hdropped
      obtain ⟨m, hm, hmb⟩ := ih _ (hn ▸ above_lt hb hcovers hne) hb rfl
      exact ⟨m, hm, covers_trans hmb hcovers⟩

/-- **The survivors have the union of the list.** -/
theorem mem_survivors_lang {l : List α} {x : P} :
    (∃ a ∈ F.survivors name l, x ∈ F.lang (name a)) ↔ ∃ a ∈ l, x ∈ F.lang (name a) := by
  constructor
  · rintro ⟨a, ha, hx⟩
    exact ⟨a, (mem_survivors.mp ha).1, hx⟩
  · rintro ⟨a, ha, hx⟩
    obtain ⟨b, hb, hcovers⟩ := exists_survivor (F := F) ha
    exact ⟨b, hb, mem_of_covers hcovers hx⟩

end Survivors

/-! ## Tags -/

section Tagged

variable {T : Type} [DecidableEq T]

variable (F) in
/-- One copy of the family for each tag; sets that are not empty keep the tags apart. -/
def tagged (hne : ∀ s, (F.lang s).Nonempty) : Laminar (T × S) (T × P) where
  lang := fun ⟨tag, s⟩ => {x | x.1 = tag ∧ x.2 ∈ F.lang s}
  covers := fun ⟨tag, s⟩ ⟨tag', t⟩ => tag = tag' && F.covers s t
  covers_iff := by
    rintro ⟨tag, s⟩ ⟨tag', t⟩
    simp only [Bool.and_eq_true, decide_eq_true_eq]
    constructor
    · rintro ⟨rfl, h⟩ ⟨_, x⟩ ⟨rfl, hx⟩
      exact ⟨rfl, mem_of_covers h hx⟩
    · intro h
      obtain ⟨x, hx⟩ := hne t
      have htag : tag' = tag := (h (show (tag', x) ∈ _ from ⟨rfl, hx⟩)).1
      refine ⟨htag.symm, F.covers_iff.mpr fun y hy => ?_⟩
      exact (h (show (tag', y) ∈ _ from ⟨rfl, hy⟩)).2
  nested := by
    rintro ⟨tag, s⟩ ⟨tag', t⟩ ⟨_, x⟩ ⟨rfl, hs⟩ ⟨rfl, ht⟩
    simpa using F.nested hs ht
  antisymm := by
    rintro ⟨tag, s⟩ ⟨tag', t⟩ h h'
    simp only [Bool.and_eq_true, decide_eq_true_eq] at h h'
    exact Prod.ext h.1 (F.antisymm h.2 h'.2)

end Tagged

end Laminar

/-! ## Components -/

namespace ComponentPrefix

variable {α : Type} [DecidableEq α] (sep : α)

/-- The second list is the first one, or continues it after a separator. -/
def covers (a b : List α) : Bool := a == b || (a.isPrefixOf b && b[a.length]? == some sep)

variable {sep} {a b c : List α}

/-- A list covers the lists that it is a prefix of, once both are closed by a separator. -/
theorem covers_iff : covers sep a b = true ↔ a ++ [sep] <+: b ++ [sep] := by
  rw [covers, Bool.or_eq_true, beq_iff_eq, Bool.and_eq_true, List.isPrefixOf_iff_prefix, beq_iff_eq,
    List.prefix_concat_iff, List.append_left_inj]
  refine or_congr_right ?_
  constructor
  · rintro ⟨⟨rest, hrest⟩, hnext⟩
    rw [← hrest, List.getElem?_append_right le_rfl, Nat.sub_self] at hnext
    cases rest with
    | nil => cases hnext
    | cons x rest =>
      obtain rfl : x = sep := Option.some.inj hnext
      exact ⟨rest, by rw [← hrest, List.append_assoc, List.singleton_append]⟩
  · rintro ⟨rest, hrest⟩
    rw [List.append_assoc, List.singleton_append] at hrest
    refine ⟨⟨sep :: rest, hrest⟩, ?_⟩
    rw [← hrest, List.getElem?_append_right le_rfl, Nat.sub_self]
    rfl

theorem covers_trans (hab : covers sep a b = true) (hbc : covers sep b c = true) :
    covers sep a c = true :=
  covers_iff.mpr ((covers_iff.mp hab).trans (covers_iff.mp hbc))

theorem covers_antisymm (hab : covers sep a b = true) (hba : covers sep b a = true) : a = b := by
  have h := (covers_iff.mp hab).eq_of_length_le (covers_iff.mp hba).length_le
  exact List.append_cancel_right h

/-- Lists that cover one list are nested. -/
theorem covers_nested (hac : covers sep a c = true) (hbc : covers sep b c = true) :
    covers sep a b = true ∨ covers sep b a = true := by
  rw [covers_iff] at hac hbc
  rw [covers_iff, covers_iff]
  exact List.prefix_or_prefix_of_prefix hac hbc

end ComponentPrefix
