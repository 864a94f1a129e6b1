/-
# How often one text stands in another

An occurrence of a needle is a place where it starts.  A character that the needle does not have separates
the occurrences before it from those after it, and a front without the needle's first character has none.
Replacing a needle whose first character comes once leaves no occurrence, when the replacement cannot start
one either.

* `occurrences` : the number of places;
* `occurrences_append_of_ends` : the occurrences of a text made of closed pieces;
* `replaceFrom` : the replacement of every occurrence, left to right;
* `not_infix_replaceFrom` : none is left.
-/
import Mathlib
import Faktor.TextBytes

namespace TextBytes

/-- The places of a text at which the needle starts. -/
def occurrences (needle : Text) : Text → ℕ
  | [] => 0
  | c :: rest => (if needle.isPrefixOf (c :: rest) then 1 else 0) + occurrences needle rest

theorem occurrences_cons (needle : Text) (c : Char) (rest : Text) :
    occurrences needle (c :: rest)
      = (if needle <+: c :: rest then 1 else 0) + occurrences needle rest := by
  rw [occurrences]
  simp only [List.isPrefixOf_iff_prefix]

theorem occurrences_eq_zero_iff {needle text : Text} (hneedle : needle ≠ []) :
    occurrences needle text = 0 ↔ ¬ needle <:+: text := by
  induction text with
  | nil =>
    rw [List.infix_nil]
    exact iff_of_true rfl hneedle
  | cons c rest ih =>
    rw [occurrences_cons, List.infix_cons_iff, not_or, ← ih, Nat.add_eq_zero_iff]
    by_cases hstart : needle <+: c :: rest
    · simp [hstart]
    · simp [hstart]

/-- A needle that reaches a character it does not have starts and ends before it. -/
theorem prefix_append_cons_iff {needle front back : Text} {sep : Char} (hsep : sep ∉ needle) :
    needle <+: front ++ sep :: back ↔ needle <+: front := by
  constructor
  · intro h
    rcases List.prefix_or_prefix_of_prefix h (List.prefix_append front (sep :: back)) with h' | h'
    · exact h'
    · obtain ⟨tail, rfl⟩ := h'
      have htail := (List.prefix_append_right_inj front).mp h
      cases tail with
      | nil => exact ⟨[], by simp⟩
      | cons c tail =>
        rw [List.cons_prefix_cons] at htail
        exact absurd (by simp [htail.1]) hsep
  · intro h
    exact h.trans (List.prefix_append _ _)

section Separated

variable {needle : Text} (hneedle : needle ≠ [])
include hneedle

/-- A character that the needle does not have separates the occurrences. -/
theorem occurrences_append_cons {sep : Char} (hsep : sep ∉ needle) (front back : Text) :
    occurrences needle (front ++ sep :: back) = occurrences needle front + occurrences needle back := by
  induction front with
  | nil =>
    have hstart : ¬ needle <+: sep :: back := by
      rw [← List.nil_append (sep :: back), prefix_append_cons_iff hsep, List.prefix_nil]
      exact hneedle
    rw [List.nil_append, occurrences_cons, if_neg hstart]
    rfl
  | cons c front ih =>
    have hstart : needle <+: c :: (front ++ sep :: back) ↔ needle <+: c :: front := by
      rw [← List.cons_append, prefix_append_cons_iff hsep]
    rw [List.cons_append, occurrences_cons, occurrences_cons, ih, Nat.add_assoc]
    simp only [hstart]

/-- Pieces that end in such a character have their occurrences apart. -/
theorem occurrences_append_of_ends {sep : Char} (hsep : sep ∉ needle) {front : Text}
    (hfront : front = [] ∨ front.getLast? = some sep) (back : Text) :
    occurrences needle (front ++ back) = occurrences needle front + occurrences needle back := by
  rcases hfront with rfl | hlast
  · simp [occurrences]
  · obtain ⟨body, rfl⟩ := List.getLast?_eq_some_iff.mp hlast
    rw [List.append_assoc, List.singleton_append, occurrences_append_cons hneedle hsep,
      occurrences_append_cons hneedle hsep]
    rfl

theorem occurrences_append_singleton {sep : Char} (hsep : sep ∉ needle) (front : Text) :
    occurrences needle (front ++ [sep]) = occurrences needle front :=
  occurrences_append_cons hneedle hsep front []

/-- A front without the first character of the needle has no occurrence. -/
theorem occurrences_append_of_head {front : Text} (hfront : ∀ c ∈ needle.head?, c ∉ front) (back : Text) :
    occurrences needle (front ++ back) = occurrences needle back := by
  induction front with
  | nil => rfl
  | cons c front ih =>
    have hstart : ¬ needle <+: c :: (front ++ back) := by
      obtain ⟨first, rest, rfl⟩ := List.exists_cons_of_ne_nil hneedle
      rw [List.cons_prefix_cons]
      rintro ⟨rfl, -⟩
      exact hfront first rfl List.mem_cons_self
    rw [List.cons_append, occurrences_cons, if_neg hstart, Nat.zero_add,
      ih fun first h hmem => hfront first h (List.mem_cons_of_mem _ hmem)]

end Separated

/-! ## Replacing -/

/-- `str::replace`, with so many characters of the last occurrence left to skip. -/
def replaceFrom (needle replacement : Text) : ℕ → Text → Text
  | _, [] => []
  | skip + 1, _ :: rest => replaceFrom needle replacement skip rest
  | 0, c :: rest =>
    if needle.isPrefixOf (c :: rest) then
      replacement ++ replaceFrom needle replacement (needle.length - 1) rest
    else c :: replaceFrom needle replacement 0 rest

section Replace

variable {first : Char} {tail replacement : Text}

/-- What starts in the result without the needle's first character starts in the text. -/
theorem prefix_of_prefix_replaceFrom {w text : Text} (hw : first ∉ w)
    (hreplacement : replacement.head? = some first)
    (h : w <+: replaceFrom (first :: tail) replacement 0 text) : w <+: text := by
  induction text generalizing w with
  | nil => exact h
  | cons c rest ih =>
    rw [replaceFrom] at h
    cases w with
    | nil => exact List.nil_prefix
    | cons a w =>
      rw [List.mem_cons, not_or] at hw
      split at h
      · -- a replacement starts with the character that `w` does not have
        obtain ⟨body, rfl⟩ := List.head?_eq_some_iff.mp hreplacement
        rw [List.cons_append, List.cons_prefix_cons] at h
        exact absurd h.1.symm hw.1
      · rw [List.cons_prefix_cons] at h ⊢
        exact ⟨h.1, ih hw.2 h.2⟩

/-- **No occurrence is left**: the needle's first character comes once in it and once in the replacement,
which does not start like the needle. -/
theorem not_infix_replaceFrom (htail : first ∉ tail) {body : Text} (hbody : first ∉ body)
    (hdiffer : ∀ rest, ¬ first :: tail <+: first :: body ++ rest) (skip : ℕ) (text : Text) :
    ¬ first :: tail <:+: replaceFrom (first :: tail) (first :: body) skip text := by
  induction text generalizing skip with
  | nil => simp [replaceFrom]
  | cons c rest ih =>
    cases skip with
    | succ skip => exact ih skip
    | zero =>
      rw [replaceFrom]
      split
      · rw [List.cons_append, List.infix_cons_iff, not_or]
        refine ⟨hdiffer _, ?_⟩
        -- nothing starts in the body of the replacement
        rw [← occurrences_eq_zero_iff (List.cons_ne_nil _ _),
          occurrences_append_of_head (List.cons_ne_nil _ _) (fun a ha => ?_),
          occurrences_eq_zero_iff (List.cons_ne_nil _ _)]
        · exact ih _
        · rwa [← show first = a by simpa using ha]
      · rename_i hstart
        rw [List.infix_cons_iff, not_or]
        refine ⟨fun h => ?_, ih 0⟩
        rw [List.cons_prefix_cons] at h
        refine hstart (List.isPrefixOf_iff_prefix.mpr (List.cons_prefix_cons.mpr ⟨h.1, ?_⟩))
        exact prefix_of_prefix_replaceFrom htail rfl h.2

end Replace

end TextBytes
