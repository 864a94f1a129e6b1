/-
# Broadest and first elements of a laminar list

Of the elements of a list whose sets hold a point one is the broadest, and of those whose sets cover a given
set one is the first.  When two lists are combined pair by pair, only the first result of each name is kept,
and what is below another name is pruned, then the one result that is left at a point has the deeper name of
the two broadest elements, and comes from the first elements of both lists that cover it.

* `Broadest`, `exists_broadest` : the broadest element at a point;
* `firstAbove` : the first element that covers a name;
* `find_pairs` : the first pair that combines to the deeper name;
* `OrderedSet.mem_insertAll_iff` : which elements of a list an insertion keeps.
-/
import Mathlib
import Faktor.Laminar
import Faktor.OrderedSet

namespace Laminar

variable {S P α : Type} {F : Laminar S P} {name : α → S}

/-! ## Broadest elements -/

variable (F name) in
/-- `Broadest F name l x a` : of the elements of `l` whose sets hold `x`, `a` covers all. -/
structure Broadest (l : List α) (x : P) (a : α) : Prop where
  mem : a ∈ l
  holds : x ∈ F.lang (name a)
  covers : ∀ b ∈ l, x ∈ F.lang (name b) → F.covers (name a) (name b) = true

theorem exists_broadest [DecidableEq S] {l : List α} {x : P} {a : α} (ha : a ∈ l) (hx : x ∈ F.lang (name a)) :
    ∃ b, Broadest F name l x b := by
  obtain ⟨b, hb, hcovers⟩ := @exists_survivor _ _ F _ name _ _ _ ha
  have hxb := mem_of_covers hcovers hx
  refine ⟨b, (mem_survivors.mp hb).1, hxb, fun c hc hxc => ?_⟩
  rcases F.nested hxb hxc with h | h
  · exact h
  · rw [(mem_survivors.mp hb).2 c hc h]
    exact F.covers_refl _

/-- An element that covers the name of the broadest has that name. -/
theorem Broadest.eq_of_covers {l : List α} {x : P} {a b : α} (ha : Broadest F name l x a) (hb : b ∈ l)
    (hcovers : F.covers (name b) (name a) = true) : name b = name a :=
  F.antisymm hcovers (ha.covers b hb (mem_of_covers hcovers ha.holds))

/-! ## First elements above a name -/

variable (F name) in
/-- The first element of a list that covers a name. -/
def firstAbove (l : List α) (s : S) : Option α := l.find? fun a => F.covers (name a) s

theorem firstAbove_spec {l : List α} {s : S} {a : α} (h : firstAbove F name l s = some a) :
    a ∈ l ∧ F.covers (name a) s = true :=
  ⟨List.mem_of_find?_eq_some h, by simpa using List.find?_some h⟩

theorem exists_firstAbove {l : List α} {s : S} {a : α} (ha : a ∈ l) (h : F.covers (name a) s = true) :
    ∃ b, firstAbove F name l s = some b := by
  cases hfind : firstAbove F name l s with
  | none => exact absurd h (by simpa using List.find?_eq_none.mp hfind a ha)
  | some b => exact ⟨b, rfl⟩

/-! ## Pairs -/

section Pairs

variable {combine : α → α → Option α} {l l' : List α} {x : P} {a b : α} {m : S}

variable (F name combine) in
/-- The combination of two elements has the meet of their names. -/
def Combines : Prop := ∀ a b, (combine a b).map name = F.meet (name a) (name b)

/-- The results of combining every element of one list with every element of the other. -/
def pairs (combine : α → α → Option α) (l l' : List α) : List α :=
  l.flatMap fun a => l'.filterMap fun b => combine a b

theorem mem_pairs {c : α} : c ∈ pairs combine l l' ↔ ∃ a ∈ l, ∃ b ∈ l', combine a b = some c := by
  unfold pairs
  simp only [List.mem_flatMap, List.mem_filterMap]

theorem meet_eq_of_covers {s t : S} (h : F.covers s t = true) : F.meet s t = some t := if_pos h

theorem meet_eq_left_of_covers {s t : S} (h : F.covers t s = true) : F.meet s t = some s := by
  unfold meet
  by_cases hst : F.covers s t = true
  · rw [if_pos hst, F.antisymm h hst]
  · rw [if_neg hst, if_pos h]

theorem covers_right_of_meet {s t m : S} (h : F.meet s t = some m) : F.covers t m = true := by
  unfold meet at h
  split at h
  · cases h
    exact F.covers_refl t
  · split at h
    · next hts =>
      cases h
      exact hts
    · cases h

/-- The meet is one of the two names. -/
theorem eq_or_eq_of_meet {s t m : S} (h : F.meet s t = some m) : m = s ∨ m = t := by
  unfold meet at h
  split at h
  · cases h
    exact .inr rfl
  · split at h
    · cases h
      exact .inl rfl
    · cases h

/-- What both sets hold, their meet holds. -/
theorem mem_lang_of_meet {s t m : S} (h : F.meet s t = some m) (hs : x ∈ F.lang s) (ht : x ∈ F.lang t) :
    x ∈ F.lang m := by
  rcases eq_or_eq_of_meet h with rfl | rfl
  · exact hs
  · exact ht

/-- At a point, every combination is below the deeper name of the two broadest elements. -/
theorem covers_of_mem_pairs (hcombine : Combines F name combine) (ha : Broadest F name l x a)
    (hb : Broadest F name l' x b) (hm : F.meet (name a) (name b) = some m) {c : α}
    (hc : c ∈ pairs combine l l') (hx : x ∈ F.lang (name c)) : F.covers m (name c) = true := by
  obtain ⟨p, hp, q, hq, hpq⟩ := mem_pairs.mp hc
  have hname := hcombine p q
  rw [hpq, Option.map_some] at hname
  have hpc := covers_left_of_meet hname.symm
  have hqc := covers_right_of_meet hname.symm
  have hac := covers_trans (ha.covers p hp (mem_of_covers hpc hx)) hpc
  have hbc := covers_trans (hb.covers q hq (mem_of_covers hqc hx)) hqc
  rcases eq_or_eq_of_meet hm with rfl | rfl
  · exact hac
  · exact hbc

section Find

variable {β : Type} {P : α → Bool} {Q : β → Bool}

/-- The first result that is wanted comes from the first element that gives one. -/
theorem find_filterMap_eq {f : α → Option β} {a : α} {c : β} (ha : l.find? P = some a) (hc : f a = some c)
    (hQ : Q c = true) (honly : ∀ a ∈ l, ∀ c, f a = some c → Q c = true → P a = true) :
    (l.filterMap f).find? Q = some c := by
  obtain ⟨-, front, back, rfl, hfront⟩ := List.find?_eq_some_iff_append.mp ha
  have hnone : (front.filterMap f).find? Q = none := by
    refine List.find?_eq_none.mpr fun d hd hwanted => ?_
    obtain ⟨b, hb, hbd⟩ := List.mem_filterMap.mp hd
    have := honly b (List.mem_append_left _ hb) d hbd hwanted
    exact absurd this (by simpa using hfront b hb)
  rw [List.filterMap_append, List.find?_append, hnone, Option.none_or, List.filterMap_cons_some hc,
    List.find?_cons_of_pos hQ]

theorem find_flatMap_eq {f : α → List β} {a : α} {c : β} (ha : l.find? P = some a)
    (hc : (f a).find? Q = some c) (honly : ∀ a ∈ l, ∀ c ∈ f a, Q c = true → P a = true) :
    (l.flatMap f).find? Q = some c := by
  obtain ⟨-, front, back, rfl, hfront⟩ := List.find?_eq_some_iff_append.mp ha
  have hnone : (front.flatMap f).find? Q = none := by
    refine List.find?_eq_none.mpr fun d hd hwanted => ?_
    obtain ⟨b, hb, hbd⟩ := List.mem_flatMap.mp hd
    have := honly b (List.mem_append_left _ hb) d hbd hwanted
    exact absurd this (by simpa using hfront b hb)
  rw [List.flatMap_append, List.find?_append, hnone, Option.none_or, List.flatMap_cons, List.find?_append, hc,
    Option.some_or]

end Find

/-- **The first pair that combines to the deeper name** is made of the first elements that cover it. -/
theorem find_pairs [DecidableEq S] (hcombine : Combines F name combine) (ha : Broadest F name l x a)
    (hb : Broadest F name l' x b) (hm : F.meet (name a) (name b) = some m) :
    ∃ p q c, firstAbove F name l m = some p ∧ firstAbove F name l' m = some q ∧ combine p q = some c ∧
      name c = m ∧ (pairs combine l l').find? (fun c => name c = m) = some c := by
  -- an element that covers the name meets every such element of the other list in it
  have hmeet : ∀ p ∈ l, F.covers (name p) m = true → ∀ q ∈ l', F.covers (name q) m = true →
      F.meet (name p) (name q) = some m := by
    intro p hp hpm q hq hqm
    rcases eq_or_eq_of_meet hm with rfl | rfl
    · rw [ha.eq_of_covers hp hpm]
      exact meet_eq_left_of_covers hqm
    · rw [hb.eq_of_covers hq hqm]
      exact meet_eq_of_covers hpm
  obtain ⟨p, hp⟩ := exists_firstAbove ha.mem (covers_left_of_meet hm)
  obtain ⟨q, hq⟩ := exists_firstAbove hb.mem (covers_right_of_meet hm)
  obtain ⟨hpl, hpm⟩ := firstAbove_spec hp
  obtain ⟨hql, hqm⟩ := firstAbove_spec hq
  have hname := hcombine p q
  rw [hmeet p hpl hpm q hql hqm] at hname
  obtain ⟨c, hc, hcm⟩ := Option.map_eq_some_iff.mp hname
  refine ⟨p, q, c, hp, hq, hc, hcm, ?_⟩
  refine find_flatMap_eq hp ?_ ?_
  · refine find_filterMap_eq hq hc (by simpa using hcm) fun b _ d hd hwanted => ?_
    have hbd := hcombine p b
    rw [hd, Option.map_some, of_decide_eq_true hwanted] at hbd
    exact covers_right_of_meet hbd.symm
  · intro a' _ d hd hwanted
    obtain ⟨b', -, hbd⟩ := List.mem_filterMap.mp hd
    have hname' := hcombine a' b'
    rw [hbd, Option.map_some, of_decide_eq_true hwanted] at hname'
    exact covers_left_of_meet hname'.symm

end Pairs

end Laminar

namespace OrderedSet

variable {α κ : Type} [LinearOrder κ] {key : α → κ}

theorem mem_place_iff {a c : α} {l : List α} (hsorted : l.Pairwise fun a b => key a < key b) :
    c ∈ place key a l ↔ c ∈ l ∨ c = a ∧ key a ∉ l.map key := by
  induction l with
  | nil => simp [place]
  | cons b rest ih =>
    unfold place
    split
    · next hlt =>
      have habsent : key a ∉ (b :: rest).map key := by
        rw [List.map_cons, List.mem_cons, not_or]
        refine ⟨hlt.ne, fun hmem => ?_⟩
        obtain ⟨d, hd, heq⟩ := List.mem_map.mp hmem
        exact absurd (List.rel_of_pairwise_cons hsorted hd) (by rw [heq]; exact hlt.asymm)
      rw [List.mem_cons, or_comm]
      exact or_congr_right (iff_self_and.mpr fun _ => habsent)
    · next hnot =>
      split
      · next hgt =>
        rw [List.mem_cons, List.mem_cons, ih hsorted.of_cons, List.map_cons, List.mem_cons, not_or, or_assoc]
        exact or_congr_right (or_congr_right (and_congr_right fun _ => (and_iff_right hgt.ne').symm))
      · next hnot' =>
        have hkey : key a = key b := le_antisymm (not_lt.mp hnot') (not_lt.mp hnot)
        simp [hkey]

/-- An insertion keeps what is there and adds an element with a new key. -/
theorem mem_insert_iff {s : OrderedSet key} {a c : α} :
    c ∈ (s.insert a).elems ↔ c ∈ s.elems ∨ c = a ∧ key a ∉ s.elems.map key := mem_place_iff s.sorted

theorem mem_insertAll_iff' {s : OrderedSet key} {l : List α} {c : α} :
    c ∈ (s.insertAll l).elems ↔
      c ∈ s.elems ∨ key c ∉ s.elems.map key ∧ l.find? (fun d => key d = key c) = some c := by
  induction l generalizing s with
  | nil => simp [insertAll]
  | cons a rest ih =>
    show c ∈ ((s.insert a).insertAll rest).elems ↔ _
    rw [ih, mem_insert_iff, mem_keys_insert, not_or]
    by_cases hkey : key a = key c
    · rw [List.find?_cons_of_pos (by simpa using hkey), Option.some.injEq]
      constructor
      · rintro ((h | ⟨rfl, h⟩) | ⟨⟨h, -⟩, -⟩)
        · exact .inl h
        · exact .inr ⟨h, rfl⟩
        · exact absurd hkey.symm h
      · rintro (h | ⟨h, rfl⟩)
        · exact .inl (.inl h)
        · exact .inl (.inr ⟨rfl, h⟩)
    · rw [List.find?_cons_of_neg (by simpa using hkey)]
      constructor
      · rintro ((h | ⟨rfl, -⟩) | ⟨⟨-, h⟩, hfind⟩)
        · exact .inl h
        · exact absurd rfl hkey
        · exact .inr ⟨h, hfind⟩
      · rintro (h | ⟨h, hfind⟩)
        · exact .inl (.inl h)
        · exact .inr ⟨⟨Ne.symm hkey, h⟩, hfind⟩

/-- Inserting a list keeps the first element of each key. -/
theorem mem_insertAll_iff {l : List α} {c : α} :
    c ∈ ((empty : OrderedSet key).insertAll l).elems ↔ l.find? (fun d => key d = key c) = some c := by
  rw [mem_insertAll_iff']
  simp [empty]

end OrderedSet
