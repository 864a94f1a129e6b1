/-
# The lines of a text, cut and deduplicated

A text is the concatenation of its lines, each with its end; only the last one may lack it.  A list of
lines of that form is read back from its concatenation, so an operation on the lines of a text is one on
the text.  `keepLines` keeps each line that is not blank once and one blank line of each run.

* `byteLen_takeBytes_le`, `takeBytes_append` : the cut after so many bytes;
* `hasInfix_iff` : one text stands inside another;
* `IsLines`, `splitInclusive_flatten` : the lists that are the lines of a text;
* `dropLast_splitInclusive_prefix` : the complete lines of a cut text;
* `keepLines_eq_self_iff` : when the lines stay as they are.
-/
import Mathlib
import Faktor.TextBytes

namespace TextBytes

/-! ## The cut after so many bytes -/

@[simp] theorem takeBytes_nil (max : ℕ) : takeBytes max [] = [] := rfl

theorem takeBytes_isPrefix (max : ℕ) (text : Text) : takeBytes max text <+: text := by
  induction text generalizing max with
  | nil => exact List.prefix_refl _
  | cons c rest ih =>
    rw [takeBytes]
    split
    · exact List.cons_prefix_cons.mpr ⟨rfl, ih _⟩
    · exact List.nil_prefix

theorem byteLen_takeBytes_le (max : ℕ) (text : Text) : byteLen (takeBytes max text) ≤ max := by
  induction text generalizing max with
  | nil => exact Nat.zero_le _
  | cons c rest ih =>
    rw [takeBytes]
    split
    · rename_i hc
      have hrest := ih (max - c.utf8Size)
      have hsum : byteLen (c :: takeBytes (max - c.utf8Size) rest)
          = c.utf8Size + byteLen (takeBytes (max - c.utf8Size) rest) := rfl
      omega
    · exact Nat.zero_le _

variable {front : Text}

/-- What stands before the cut is kept. -/
theorem takeBytes_append {max : ℕ} (hfront : byteLen front ≤ max) (rest : Text) :
    takeBytes max (front ++ rest) = front ++ takeBytes (max - byteLen front) rest := by
  induction front generalizing max with
  | nil => rfl
  | cons c front ih =>
    have hsum : byteLen (c :: front) = c.utf8Size + byteLen front := rfl
    rw [List.cons_append, takeBytes, if_pos (by omega), ih (by omega), hsum, Nat.sub_sub]
    rfl

theorem takeBytes_of_le {max : ℕ} {text : Text} (h : byteLen text ≤ max) : takeBytes max text = text := by
  simpa using takeBytes_append h []

/-- A sublist takes no more bytes. -/
theorem byteLen_le_of_sublist {a b : Text} (h : a.Sublist b) : byteLen a ≤ byteLen b :=
  (h.map Char.utf8Size).sum_le_sum fun _ _ => Nat.zero_le _

/-! ## Infixes -/

theorem hasInfix_iff {needle text : Text} : hasInfix needle text = true ↔ needle <:+: text := by
  rw [hasInfix, List.any_eq_true]
  constructor
  · rintro ⟨tail, htail, hprefix⟩
    exact (List.isPrefixOf_iff_prefix.mp hprefix).isInfix.trans ((List.mem_tails tail text).mp htail).isInfix
  · rintro ⟨front, back, rfl⟩
    refine ⟨needle ++ back, (List.mem_tails _ _).mpr ⟨front, by rw [List.append_assoc]⟩, ?_⟩
    exact List.isPrefixOf_iff_prefix.mpr (List.prefix_append _ _)

/-! ## Lists of lines -/

/-- The lines of a text: only at its end does a line have a `\n`, and only the last may lack it. -/
def IsLines (lines : List Text) : Prop :=
  (∀ line ∈ lines, line ≠ [] ∧ '\n' ∉ line.dropLast) ∧
    lines.Pairwise fun line _ => line.getLast? = some '\n'

variable {lines : List Text}

theorem IsLines.sublist {part : List Text} (h : IsLines lines) (hpart : part.Sublist lines) :
    IsLines part :=
  ⟨fun line hline => h.1 line (hpart.subset hline), h.2.sublist hpart⟩

theorem flatten_splitInclusive (text : Text) : (splitInclusive text).flatten = text := by
  induction text with
  | nil => rfl
  | cons c rest ih =>
    rw [splitInclusive]
    split
    · rw [List.flatten_cons, ih, List.singleton_append]
    · cases hlines : splitInclusive rest with
      | nil =>
        rw [hlines] at ih
        rw [← ih]
        rfl
      | cons line lines =>
        rw [hlines] at ih
        rw [← ih]
        rfl

theorem splitInclusive_ne_nil {text : Text} (h : text ≠ []) : splitInclusive text ≠ [] := by
  intro hnil
  have htext := flatten_splitInclusive text
  rw [hnil] at htext
  exact h htext.symm

theorem isLines_splitInclusive (text : Text) : IsLines (splitInclusive text) := by
  induction text with
  | nil => exact ⟨fun _ h => absurd h List.not_mem_nil, List.Pairwise.nil⟩
  | cons c rest ih =>
    rw [splitInclusive]
    by_cases hc : c = '\n'
    · rw [if_pos hc]
      refine ⟨fun line hline => ?_, List.Pairwise.cons (fun _ _ => by rw [hc]; rfl) ih.2⟩
      rcases List.mem_cons.mp hline with rfl | hline
      · exact ⟨List.cons_ne_nil _ _, List.not_mem_nil⟩
      · exact ih.1 line hline
    · rw [if_neg hc]
      cases hlines : splitInclusive rest with
      | nil =>
        dsimp only
        refine ⟨fun line hline => ?_, List.pairwise_singleton _ _⟩
        rw [List.mem_singleton.mp hline]
        exact ⟨List.cons_ne_nil _ _, List.not_mem_nil⟩
      | cons first lines =>
        dsimp only
        rw [hlines] at ih
        obtain ⟨hfirst, hbody⟩ := ih.1 first List.mem_cons_self
        have hlast : (c :: first).getLast? = first.getLast? := by
          rw [List.getLast?_cons, List.getLast?_eq_some_getLast hfirst]
          rfl
        refine ⟨fun line hline => ?_, List.Pairwise.cons (fun other hother => ?_)
          (List.pairwise_cons.mp ih.2).2⟩
        · rcases List.mem_cons.mp hline with rfl | hline
          · refine ⟨List.cons_ne_nil _ _, fun hmem => ?_⟩
            rw [List.dropLast_cons_of_ne_nil hfirst] at hmem
            rcases List.mem_cons.mp hmem with hc' | hmem
            · exact hc hc'.symm
            · exact hbody hmem
          · exact ih.1 line (List.mem_cons_of_mem _ hline)
        · rw [hlast]
          exact (List.pairwise_cons.mp ih.2).1 other hother

/-- A line that has its end only at its end is read first. -/
theorem splitInclusive_append {line : Text} (hline : '\n' ∉ line.dropLast)
    (hend : line.getLast? = some '\n') (rest : Text) :
    splitInclusive (line ++ rest) = line :: splitInclusive rest := by
  induction line with
  | nil => exact absurd hend (by simp)
  | cons c tail ih =>
    rcases List.eq_nil_or_concat tail with rfl | ⟨front, last, htail⟩
    · rw [show c = '\n' by simpa using hend, List.singleton_append, splitInclusive, if_pos rfl]
    · have hne : tail ≠ [] := by simp [htail]
      rw [List.dropLast_cons_of_ne_nil hne, List.mem_cons, not_or] at hline
      have htailEnd : tail.getLast? = some '\n' := by
        rw [List.getLast?_cons, List.getLast?_eq_some_getLast hne] at hend
        rw [List.getLast?_eq_some_getLast hne]
        exact hend
      rw [List.cons_append, splitInclusive, if_neg fun h => hline.1 h.symm, ih hline.2 htailEnd]

variable {rest : Text}

/-- A front without `\n` joins the first line. -/
theorem splitInclusive_append_of_not_mem (hfront : '\n' ∉ front) {line : Text}
    (hrest : splitInclusive rest = line :: lines) :
    splitInclusive (front ++ rest) = (front ++ line) :: lines := by
  induction front with
  | nil => exact hrest
  | cons c front ih =>
    rw [List.mem_cons, not_or] at hfront
    rw [List.cons_append, splitInclusive, if_neg fun h => hfront.1 h.symm, ih hfront.2]
    rfl

/-- After the end of a line the lines go on apart. -/
theorem splitInclusive_append_of_ends (hfront : front = [] ∨ front.getLast? = some '\n') (rest : Text) :
    splitInclusive (front ++ rest) = splitInclusive front ++ splitInclusive rest := by
  rcases hfront with rfl | hlast
  · rfl
  · obtain ⟨body, rfl⟩ := List.getLast?_eq_some_iff.mp hlast
    clear hlast
    induction body with
    | nil => rfl
    | cons c body ih =>
      rw [List.cons_append, List.cons_append, splitInclusive, splitInclusive, ih]
      split
      · rfl
      · have hne : splitInclusive (body ++ ['\n']) ≠ [] := splitInclusive_ne_nil (by simp)
        obtain ⟨line, lines, hlines⟩ := List.exists_cons_of_ne_nil hne
        rw [hlines]
        rfl

/-- A text without `\n` is one line. -/
theorem splitInclusive_of_not_mem {line : Text} (hline : '\n' ∉ line) (hne : line ≠ []) :
    splitInclusive line = [line] := by
  induction line with
  | nil => exact absurd rfl hne
  | cons c tail ih =>
    rw [List.mem_cons, not_or] at hline
    rw [splitInclusive, if_neg fun h => hline.1 h.symm]
    rcases eq_or_ne tail [] with rfl | htail
    · rfl
    · rw [ih hline.2 htail]

/-- **The lines are read back** from their concatenation. -/
theorem splitInclusive_flatten (h : IsLines lines) :
    splitInclusive lines.flatten = lines := by
  induction lines with
  | nil => rfl
  | cons line rest ih =>
    have hrest : IsLines rest := h.sublist (List.sublist_cons_self line rest)
    obtain ⟨hne, hbody⟩ := h.1 line List.mem_cons_self
    rw [List.flatten_cons]
    by_cases hend : line.getLast? = some '\n'
    · rw [splitInclusive_append hbody hend, ih hrest]
    · -- a line without its end is the last one
      have hnil : rest = [] := by
        refine List.eq_nil_iff_forall_not_mem.mpr fun other hother => ?_
        exact hend ((List.pairwise_cons.mp h.2).1 other hother)
      have hmem : '\n' ∉ line := by
        intro hmem
        rw [← List.dropLast_append_getLast hne, List.mem_append, List.mem_singleton] at hmem
        rcases hmem with hmem | hlast
        · exact hbody hmem
        · exact hend (by rw [List.getLast?_eq_some_getLast hne, ← hlast])
      rw [hnil, List.flatten_nil, List.append_nil, splitInclusive_of_not_mem hmem hne]

variable {c : Char}

/-- The complete lines of a text that is cut and goes on otherwise are lines of the text. -/
theorem dropLast_splitInclusive_prefix (hc : c ≠ '\n') :
    (splitInclusive (front ++ [c])).dropLast <+: splitInclusive (front ++ rest) := by
  induction front with
  | nil =>
    rw [List.nil_append, splitInclusive, if_neg hc]
    exact List.nil_prefix
  | cons a front ih =>
    have hne : splitInclusive (front ++ [c]) ≠ [] := splitInclusive_ne_nil (by simp)
    rw [List.cons_append, List.cons_append, splitInclusive, splitInclusive]
    by_cases ha : a = '\n'
    · rw [if_pos ha, if_pos ha, List.dropLast_cons_of_ne_nil hne]
      exact List.cons_prefix_cons.mpr ⟨rfl, ih⟩
    · rw [if_neg ha, if_neg ha]
      obtain ⟨line, lines, hlines⟩ := List.exists_cons_of_ne_nil hne
      rw [hlines] at ih ⊢
      dsimp only
      rcases eq_or_ne lines [] with rfl | hmore
      · exact List.nil_prefix
      · rw [List.dropLast_cons_of_ne_nil hmore] at ih ⊢
        obtain ⟨others, hothers⟩ := ih
        rw [← hothers, List.cons_append]
        exact List.cons_prefix_cons.mpr ⟨rfl, List.prefix_append _ _⟩

/-- The last line of a text that ends otherwise lacks its end. -/
theorem getLast_splitInclusive (hc : c ≠ '\n') (hne : splitInclusive (front ++ [c]) ≠ []) :
    ((splitInclusive (front ++ [c])).getLast hne).getLast? = some c := by
  induction front with
  | nil => simp [splitInclusive, hc]
  | cons a front ih =>
    have hrest : splitInclusive (front ++ [c]) ≠ [] := splitInclusive_ne_nil (by simp)
    have hlast := ih hrest
    obtain ⟨line, lines, hlines⟩ := List.exists_cons_of_ne_nil hrest
    simp only [List.cons_append, splitInclusive, hlines] at hlast ⊢
    split
    · simpa using hlast
    · rcases eq_or_ne lines [] with rfl | hmore
      · have hnonempty : line ≠ [] := by
          rintro rfl
          exact absurd hlast (by simp)
        rw [List.getLast_singleton] at hlast
        rw [List.getLast_singleton, List.getLast?_cons, hlast]
        rfl
      · rw [List.getLast_cons hmore] at hlast
        rw [List.getLast_cons hmore]
        exact hlast

/-! ## Lines kept once -/

section Keep

variable {α : Type*} [DecidableEq α] (blank : α → Bool)

/-- The lines that are not blank, each at its first occurrence, and the first of each run of blank lines.
A line that is dropped ends a run too. -/
def keepLines : List α → Bool → List α → List α
  | _, _, [] => []
  | seen, blankRun, line :: rest =>
    if blank line then
      if blankRun then keepLines seen true rest else line :: keepLines seen true rest
    else if line ∈ seen then keepLines seen false rest
    else line :: keepLines (line :: seen) false rest

/-- No two blank lines stand next to each other. -/
def NoBlankPair (lines : List α) : Prop :=
  lines.IsChain fun a b => ¬ (blank a = true ∧ blank b = true)

instance (lines : List α) : Decidable (NoBlankPair blank lines) := by
  unfold NoBlankPair
  infer_instance

theorem keepLines_sublist (seen : List α) (blankRun : Bool) (lines : List α) :
    (keepLines blank seen blankRun lines).Sublist lines := by
  induction lines generalizing seen blankRun with
  | nil => exact List.Sublist.refl _
  | cons line rest ih =>
    rw [keepLines]
    split
    · split
      · exact (ih _ _).cons _
      · exact (ih _ _).cons_cons _
    · split
      · exact (ih _ _).cons _
      · exact (ih _ _).cons_cons _

/-- The lines kept that are not blank are new, and stand there once. -/
theorem nodup_keepLines (seen : List α) (blankRun : Bool) (lines : List α) :
    ((keepLines blank seen blankRun lines).filter (!blank ·)).Nodup ∧
      ∀ line ∈ (keepLines blank seen blankRun lines).filter (!blank ·), line ∉ seen := by
  induction lines generalizing seen blankRun with
  | nil => exact ⟨List.nodup_nil, fun _ h => absurd h List.not_mem_nil⟩
  | cons line rest ih =>
    rw [keepLines]
    by_cases hblank : blank line = true
    · rw [if_pos hblank]
      split
      · exact ih _ _
      · rw [List.filter_cons_of_neg (by simp [hblank])]
        exact ih _ _
    · rw [if_neg hblank]
      split
      · exact ih _ _
      · rename_i hnew
        obtain ⟨hnodup, hseen⟩ := ih (line :: seen) false
        rw [List.filter_cons_of_pos (by simp [hblank])]
        refine ⟨List.nodup_cons.mpr ⟨fun h => hseen line h List.mem_cons_self, hnodup⟩, fun other h => ?_⟩
        rcases List.mem_cons.mp h with rfl | h
        · exact hnew
        · exact fun hmem => hseen other h (List.mem_cons_of_mem _ hmem)

variable {seen lines : List α} {blankRun : Bool}

/-- The lines stay as they are when they are new, stand there once, and no blank lines touch. -/
theorem keepLines_eq_self (hnodup : (lines.filter (!blank ·)).Nodup)
    (hnew : ∀ line ∈ lines.filter (!blank ·), line ∉ seen) (hpair : NoBlankPair blank lines)
    (hfirst : blankRun = true → ∀ line ∈ lines.head?, blank line = false) :
    keepLines blank seen blankRun lines = lines := by
  induction lines generalizing seen blankRun with
  | nil => rfl
  | cons line rest ih =>
    have hrest : NoBlankPair blank rest := hpair.tail
    rw [keepLines]
    by_cases hblank : blank line = true
    · have hrun : ¬ blankRun = true := by
        intro hrun
        rw [hfirst hrun line rfl] at hblank
        exact Bool.noConfusion hblank
      rw [List.filter_cons_of_neg (by simp [hblank])] at hnodup hnew
      rw [if_pos hblank, if_neg hrun, ih hnodup hnew hrest]
      intro _ next hnext
      cases rest with
      | nil => exact absurd hnext (by simp)
      | cons other rest =>
        have hother : other = next := by simpa using hnext
        have hnot := (List.isChain_cons_cons.mp hpair).1
        rw [← hother]
        exact Bool.eq_false_iff.mpr fun h => hnot ⟨hblank, h⟩
    · rw [List.filter_cons_of_pos (by simp [hblank])] at hnodup hnew
      have hline : line ∉ seen := hnew line List.mem_cons_self
      rw [if_neg hblank, if_neg hline, ih (List.nodup_cons.mp hnodup).2 ?_ hrest (by simp)]
      intro other hother hmem
      rcases List.mem_cons.mp hmem with rfl | hmem
      · exact (List.nodup_cons.mp hnodup).1 hother
      · exact hnew other (List.mem_cons_of_mem _ hother) hmem

/-- A list that stays as it is has no two blank lines next to each other. -/
theorem noBlankPair_of_keepLines_eq (h : keepLines blank seen blankRun lines = lines) :
    NoBlankPair blank lines ∧ (blankRun = true → ∀ line ∈ lines.head?, blank line = false) := by
  induction lines generalizing seen blankRun with
  | nil => exact ⟨List.IsChain.nil, fun _ line hline => absurd hline (by simp)⟩
  | cons line rest ih =>
    have hshort : ∀ seen run, (keepLines blank seen run rest).length < (line :: rest).length :=
      fun seen run => Nat.lt_succ_of_le (keepLines_sublist blank seen run rest).length_le
    rw [keepLines] at h
    by_cases hblank : blank line = true
    · rw [if_pos hblank] at h
      by_cases hrun : blankRun = true
      · rw [if_pos hrun] at h
        exact absurd (congrArg List.length h) (hshort _ _).ne
      · rw [if_neg hrun] at h
        obtain ⟨hpair, hnext⟩ := ih (List.cons.inj h).2
        refine ⟨List.isChain_cons.mpr ⟨fun next hmem hboth => ?_, hpair⟩, fun hr => absurd hr hrun⟩
        rw [hnext rfl next hmem] at hboth
        exact Bool.noConfusion hboth.2
    · rw [if_neg hblank] at h
      have hfirst : ∀ other ∈ (line :: rest).head?, blank other = false := by
        intro other hother
        rw [← show line = other by simpa using hother]
        exact Bool.eq_false_iff.mpr hblank
      split at h
      · exact absurd (congrArg List.length h) (hshort _ _).ne
      · obtain ⟨hpair, -⟩ := ih (List.cons.inj h).2
        exact ⟨List.isChain_cons.mpr ⟨fun _ _ hboth => hblank hboth.1, hpair⟩, fun _ => hfirst⟩

/-- **When the lines stay as they are**: those that are not blank stand there once, and no two blank
lines touch. -/
theorem keepLines_eq_self_iff (hnodup : (lines.filter (!blank ·)).Nodup) :
    keepLines blank [] false lines = lines ↔ NoBlankPair blank lines :=
  ⟨fun h => (noBlankPair_of_keepLines_eq blank h).1, fun h =>
    keepLines_eq_self blank hnodup (fun _ _ => List.not_mem_nil) h fun h => Bool.noConfusion h⟩

end Keep

end TextBytes
