/-
# Splitting at a separator and joining again

`List.splitOn` and `List.intercalate` are inverse to each other where no piece holds the separator
(`splitOn_intercalate_eq_iff`).  A list is a prefix of another at the boundary of a piece exactly when its
pieces are a prefix of the other's (`prefix_iff_splitOn_prefix`).
-/
import Mathlib

namespace SplitJoin

variable {α : Type*} [DecidableEq α] {sep : α}

theorem notMem_of_mem_splitOn {l piece : List α} (h : piece ∈ l.splitOn sep) : sep ∉ piece := by
  induction l generalizing piece with
  | nil =>
    rw [List.splitOn_nil, List.mem_singleton] at h
    subst h
    exact List.not_mem_nil
  | cons a l ih =>
    rw [List.splitOn_cons_eq_if_modifyHead] at h
    split at h
    · rcases List.mem_cons.mp h with rfl | h
      · exact List.not_mem_nil
      · exact ih h
    · next hsep =>
      cases hl : l.splitOn sep with
      | nil => exact absurd hl (List.splitOn_ne_nil sep l)
      | cons first rest =>
        rw [hl, List.modifyHead_cons] at h
        rcases List.mem_cons.mp h with rfl | h
        · rw [List.mem_cons, not_or]
          refine ⟨fun heq => hsep (by simp [heq]), ih ?_⟩
          rw [hl]
          exact List.mem_cons_self
        · refine ih ?_
          rw [hl]
          exact List.mem_cons_of_mem first h

omit [DecidableEq α] in
/-- What stands in a joined list is the separator or stands in a piece. -/
theorem mem_intercalate {pieces : List (List α)} {a : α} (h : a ∈ [sep].intercalate pieces) :
    a = sep ∨ ∃ piece ∈ pieces, a ∈ piece := by
  induction pieces with
  | nil => simp at h
  | cons first rest ih =>
    by_cases hrest : rest = []
    · subst hrest
      rw [List.intercalate_singleton] at h
      exact .inr ⟨first, List.mem_singleton_self first, h⟩
    · rw [List.intercalate_cons_of_ne_nil hrest] at h
      simp only [List.append_assoc, List.mem_append, List.mem_singleton] at h
      rcases h with h | h | h
      · exact .inr ⟨first, List.mem_cons_self, h⟩
      · exact .inl h
      · rcases ih h with hsep | ⟨piece, hpiece, ha⟩
        · exact .inl hsep
        · exact .inr ⟨piece, List.mem_cons_of_mem first hpiece, ha⟩

omit [DecidableEq α] in
theorem sublist_intercalate {pieces : List (List α)} {piece : List α} (h : piece ∈ pieces) :
    piece.Sublist ([sep].intercalate pieces) := by
  induction pieces with
  | nil => simp at h
  | cons first rest ih =>
    by_cases hrest : rest = []
    · subst hrest
      rw [List.intercalate_singleton, List.mem_singleton.mp h]
    · rw [List.intercalate_cons_of_ne_nil hrest, List.append_assoc]
      rcases List.mem_cons.mp h with rfl | h
      · exact List.sublist_append_left _ _
      · exact (ih h).trans ((List.sublist_append_right _ _).trans (List.sublist_append_right _ _))

/-- A piece is a part of the list. -/
theorem sublist_of_mem_splitOn {l piece : List α} (h : piece ∈ l.splitOn sep) : piece.Sublist l := by
  have hsub : piece.Sublist ([sep].intercalate (l.splitOn sep)) := sublist_intercalate h
  rwa [List.intercalate_splitOn] at hsub

theorem mem_of_mem_splitOn {l piece : List α} {a : α} (hpiece : piece ∈ l.splitOn sep) (ha : a ∈ piece) :
    a ∈ l :=
  (sublist_of_mem_splitOn hpiece).subset ha

/-- **Splitting gives the pieces back** exactly when none holds the separator. -/
theorem splitOn_intercalate_eq_iff {pieces : List (List α)} (hne : pieces ≠ []) :
    ([sep].intercalate pieces).splitOn sep = pieces ↔ ∀ piece ∈ pieces, sep ∉ piece := by
  constructor
  · intro h piece hpiece
    rw [← h] at hpiece
    exact notMem_of_mem_splitOn hpiece
  · intro h
    exact List.splitOn_intercalate sep h hne

theorem splitOn_inj {a b : List α} (h : a.splitOn sep = b.splitOn sep) : a = b := by
  calc a = [sep].intercalate (a.splitOn sep) := (List.intercalate_splitOn sep).symm
    _ = [sep].intercalate (b.splitOn sep) := by rw [h]
    _ = b := List.intercalate_splitOn sep

/-- **A prefix at the boundary of a piece is a prefix of the pieces.** -/
theorem prefix_iff_splitOn_prefix {a b : List α} :
    a ++ [sep] <+: b ++ [sep] ↔ a.splitOn sep <+: b.splitOn sep := by
  rw [List.prefix_concat_iff, List.append_left_inj]
  constructor
  · rintro (rfl | ⟨rest, rfl⟩)
    · exact List.prefix_refl _
    · rw [List.append_assoc, List.singleton_append, List.splitOn_append_cons_self]
      exact List.prefix_append _ _
  · rintro ⟨rest, hrest⟩
    by_cases hnil : rest = []
    · rw [hnil, List.append_nil] at hrest
      exact .inl (splitOn_inj hrest)
    · right
      refine ⟨[sep].intercalate rest, ?_⟩
      have hpieces : ∀ piece ∈ rest, sep ∉ piece := by
        intro piece hpiece
        refine notMem_of_mem_splitOn (l := b) ?_
        rw [← hrest]
        exact List.mem_append_right _ hpiece
      have hsplit : (a ++ [sep] ++ [sep].intercalate rest).splitOn sep = b.splitOn sep := by
        rw [List.append_assoc, List.singleton_append, List.splitOn_append_cons_self,
          List.splitOn_intercalate sep hpieces hnil, hrest]
      exact splitOn_inj hsplit

end SplitJoin
