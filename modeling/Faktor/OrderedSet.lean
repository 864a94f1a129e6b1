/-
# Sets in the order of a key

A set whose elements compare by a key: `insert` keeps the element that is there when a new one has its
key, and the elements are listed in the order of the keys.

Nothing here depends on what the elements are.
-/
import Mathlib

/-- Elements in the strict order of their keys. -/
structure OrderedSet {α κ : Type} [LinearOrder κ] (key : α → κ) where
  elems : List α
  sorted : elems.Pairwise fun a b => key a < key b

namespace OrderedSet

variable {α κ : Type} [LinearOrder κ] {key : α → κ}

def empty : OrderedSet key where
  elems := []
  sorted := List.Pairwise.nil

/-- The place of an element in a sorted list. -/
def place (key : α → κ) (a : α) : List α → List α
  | [] => [a]
  | b :: rest =>
    if key a < key b then a :: b :: rest
    else if key b < key a then b :: place key a rest
    else b :: rest

variable {a c : α} {l : List α}

theorem mem_of_mem_place (h : c ∈ place key a l) : c = a ∨ c ∈ l := by
  induction l with
  | nil => exact .inl (List.mem_singleton.mp h)
  | cons b rest ih =>
    unfold place at h
    split at h
    · exact List.mem_cons.mp h
    · split at h
      · obtain rfl | h := List.mem_cons.mp h
        · exact .inr List.mem_cons_self
        · exact (ih h).imp id (List.mem_cons_of_mem b)
      · exact .inr h

theorem pairwise_place (a : α) (h : l.Pairwise fun a b => key a < key b) :
    (place key a l).Pairwise fun a b => key a < key b := by
  induction l with
  | nil => exact List.pairwise_singleton _ a
  | cons b rest ih =>
    unfold place
    split
    · next hlt =>
      refine List.pairwise_cons.mpr ⟨fun c hc => ?_, h⟩
      obtain rfl | hc := List.mem_cons.mp hc
      · exact hlt
      · exact hlt.trans (List.rel_of_pairwise_cons h hc)
    · split
      · next hlt =>
        refine List.pairwise_cons.mpr ⟨fun c hc => ?_, ih h.of_cons⟩
        obtain rfl | hc := mem_of_mem_place hc
        · exact hlt
        · exact List.rel_of_pairwise_cons h hc
      · exact h

/-- `BTreeSet::insert`. -/
def insert (s : OrderedSet key) (a : α) : OrderedSet key where
  elems := place key a s.elems
  sorted := pairwise_place a s.sorted

/-- The elements of a list, inserted one after the other. -/
def insertAll (s : OrderedSet key) (l : List α) : OrderedSet key := l.foldl insert s

/-- `BTreeSet::retain`. -/
def filter (s : OrderedSet key) (p : α → Bool) : OrderedSet key where
  elems := s.elems.filter p
  sorted := s.sorted.filter p

variable {k : κ}

theorem mem_keys_place :
    k ∈ (place key a l).map key ↔ k = key a ∨ k ∈ l.map key := by
  induction l with
  | nil => simp [place]
  | cons b rest ih =>
    unfold place
    split
    · rw [List.map_cons, List.mem_cons]
    · next hnot =>
      split
      · rw [List.map_cons, List.mem_cons, ih, List.map_cons, List.mem_cons, or_left_comm]
      · next hnot' =>
        have hkey : key a = key b := le_antisymm (not_lt.mp hnot') (not_lt.mp hnot)
        rw [hkey, List.map_cons, List.mem_cons, ← or_assoc, or_self]

variable {s : OrderedSet key}

/-- **An insertion adds one key.** -/
theorem mem_keys_insert :
    k ∈ (s.insert a).elems.map key ↔ k = key a ∨ k ∈ s.elems.map key := mem_keys_place

theorem mem_keys_insertAll :
    k ∈ (s.insertAll l).elems.map key ↔ k ∈ s.elems.map key ∨ k ∈ l.map key := by
  induction l generalizing s with
  | nil => simp [insertAll]
  | cons a rest ih =>
    show k ∈ ((s.insert a).insertAll rest).elems.map key ↔ _
    rw [ih, mem_keys_insert, List.map_cons, List.mem_cons]
    tauto

/-- An inserted element was there or is a new one. -/
theorem mem_of_mem_insertAll (h : c ∈ (s.insertAll l).elems) : c ∈ s.elems ∨ c ∈ l := by
  induction l generalizing s with
  | nil => exact .inl h
  | cons a rest ih =>
    obtain h | h := ih (s := s.insert a) h
    · obtain rfl | h := mem_of_mem_place h
      · exact .inr List.mem_cons_self
      · exact .inl h
    · exact .inr (List.mem_cons_of_mem a h)

end OrderedSet
