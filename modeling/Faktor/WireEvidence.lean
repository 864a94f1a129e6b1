/-
# Snippets that the history already holds

A retrieved snippet is not sent when its normalized text stands in the recent history.  That text is put
together from the newest parts backwards, and the loop stops at the first part that is empty: everything
older is out of sight.  The text is cut at its bound from the front, and spaces between the parts count, so
the newest bytes can be lost as well.

* `normalizeInto_normalizedText`, `normalizedText_infix` : normalizing part by part;
* `gatherParts_eq` : the parts gathered are the newest bytes up to the newest empty part;
* `core_isInfix` : what is looked for is part of the snippet's normalized text;
* `duplicate_withheld_iff` : **when a repeated snippet is withheld**.
-/
import Mathlib
import Faktor.TextLines
import Faktor.WireRender

namespace Wire

open TextBytes Compaction

/-! ## Normalized text -/

/-- The scan from the start. -/
def normalizeScan (text : Text) : Text × Bool := text.foldl normalizeStep ([], false)

theorem normalizedText_eq (text : Text) : normalizedText text = (normalizeScan text).1 := rfl

theorem normalizeStep_of_space {s : Text × Bool} {ch : Char} (h : isWhitespace ch = true) :
    normalizeStep s ch = (s.1, if s.1 = [] then s.2 else true) := if_pos h

theorem normalizeStep_of_not_space {s : Text × Bool} {ch : Char} (h : ¬ isWhitespace ch = true) :
    normalizeStep s ch = (s.1 ++ (if s.2 then [' ', ch] else [ch]), false) := by
  rw [normalizeStep, if_neg h]
  cases s.2 <;> rfl

/-- Nothing is pending before the first word. -/
theorem normalizeScan_pending (text : Text) (h : (normalizeScan text).1 = []) :
    (normalizeScan text).2 = false := by
  induction text using List.reverseRecOn with
  | nil => rfl
  | append_singleton front ch ih =>
    rw [normalizeScan, List.foldl_append, ← normalizeScan] at h ⊢
    by_cases hch : isWhitespace ch = true
    · simp only [List.foldl_cons, List.foldl_nil, normalizeStep_of_space hch] at h ⊢
      rw [if_pos h]
      exact ih h
    · simp only [List.foldl_cons, List.foldl_nil, normalizeStep_of_not_space hch] at h
      split at h <;> simp at h

/-- After a space the scan is where `normalize_into` starts. -/
theorem normalizeScan_space (text : Text) :
    normalizeScan (text ++ [' ']) = (normalizedText text, decide (normalizedText text ≠ [])) := by
  have hspace : isWhitespace ' ' = true := by decide
  rw [normalizeScan, List.foldl_append, ← normalizeScan]
  simp only [List.foldl_cons, List.foldl_nil, normalizeStep_of_space hspace]
  rw [← normalizedText_eq]
  by_cases hnil : normalizedText text = []
  · rw [if_pos hnil, normalizeScan_pending text hnil]
    simp [hnil]
  · rw [if_neg hnil]
    simp [hnil]

/-- **Part by part**: a text is appended as if a space stood before it. -/
theorem normalizeInto_normalizedText (front text : Text) :
    normalizeInto (normalizedText front) text = normalizedText (front ++ ' ' :: text) := by
  rw [normalizeInto, ← normalizeScan_space, normalizedText_eq, normalizeScan, normalizeScan,
    ← List.foldl_append, List.append_assoc]
  rfl

/-- The parts, each after a space. -/
def spaced (parts : List Text) : Text := parts.flatMap fun part => ' ' :: part

theorem foldl_normalizeInto (parts : List Text) (front : Text) :
    parts.foldl normalizeInto (normalizedText front) = normalizedText (front ++ spaced parts) := by
  induction parts generalizing front with
  | nil =>
    rw [spaced, List.flatMap_nil, List.append_nil]
    rfl
  | cons part rest ih =>
    rw [List.foldl_cons, normalizeInto_normalizedText, ih, List.append_assoc]
    rfl

/-! ## The parts gathered -/

theorem byteLen_reverse (text : Text) : byteLen text.reverse = byteLen text := by
  rw [byteLen, List.map_reverse, List.sum_reverse]
  rfl

/-- A text that is short enough is kept whole. -/
theorem lastBytes_of_le {max : ℕ} {text : Text} (h : byteLen text ≤ max) : lastBytes max text = text := by
  rw [lastBytes, takeBytes_of_le (by rwa [byteLen_reverse]), List.reverse_reverse]

theorem lastBytes_min (max : ℕ) (text : Text) :
    lastBytes (min (byteLen text) max) text = lastBytes max text := by
  rcases le_total (byteLen text) max with h | h
  · rw [min_eq_left h, lastBytes_of_le le_rfl, lastBytes_of_le h]
  · rw [min_eq_right h]

/-- The newest `left` bytes of the parts, newest first: the oldest part is cut. -/
def newestParts : ℕ → List Text → List Text
  | _, [] => []
  | left, text :: older =>
    if left = 0 then []
    else lastBytes left text :: newestParts (left - byteLen (lastBytes left text)) older

/-- **What the loop gathers**: the newest bytes of the parts that are newer than the newest empty one. -/
theorem gatherParts_eq (max total : ℕ) (texts : List Text) :
    gatherParts max total texts = newestParts (max - total) (texts.takeWhile (· ≠ [])) := by
  induction texts generalizing total with
  | nil => rfl
  | cons text older ih =>
    rw [gatherParts]
    by_cases hempty : text = []
    · rw [if_pos (Or.inr hempty), List.takeWhile_cons_of_neg (by simpa using hempty)]
      rfl
    · rw [List.takeWhile_cons_of_pos (by simpa using hempty), newestParts]
      by_cases hfull : max ≤ total
      · rw [if_pos (Or.inl hfull), if_pos (by omega)]
      · rw [if_neg (by simp [hempty, hfull]), if_neg (by omega)]
        dsimp only
        rw [lastBytes_min, ih, Nat.sub_sub]

/-- The text that the loop can see: the newest parts after the newest empty one, normalized. -/
def seenText (history : List RequestMessage) : Text :=
  normalizedText (spaced
    (newestParts maxDedupeHistoryBytes ((historyTexts history).reverse.takeWhile (· ≠ []))).reverse)

theorem normalizedRecentHistory_eq (history : List RequestMessage) :
    normalizedRecentHistory history maxDedupeHistoryBytes
      = takeBytes maxDedupeHistoryBytes (seenText history) := by
  have hfold := foldl_normalizeInto
    (newestParts maxDedupeHistoryBytes ((historyTexts history).reverse.takeWhile (· ≠ []))).reverse []
  rw [normalizedRecentHistory, gatherParts_eq, Nat.sub_zero]
  exact congrArg (takeBytes maxDedupeHistoryBytes) hfold

/-! ## What is looked for -/

/-! ## Which snippets are withheld -/

/-- The snippet stands, normalized and with 64 bytes at least, in one text or tool result that lies wholly
in the newest 128 KiB. -/
def Duplicated (history : List RequestMessage) (ev : Evidence) : Prop :=
  64 ≤ byteLen (normalizedText ev.snippet) ∧
    ∃ older part newer, historyTexts history = older ++ part :: newer ∧
      byteLen part + (newer.map byteLen).sum ≤ maxDedupeHistoryBytes ∧
      normalizedText ev.snippet <:+: normalizedText part

/-- The condition: the snippet as it is sent has 64 bytes left when normalized, and stands in the first
128 KiB of the text that the loop can see. -/
def InSight (history : List RequestMessage) (ev : Evidence) : Prop :=
  64 ≤ byteLen ev.core ∧ ev.core <:+: takeBytes maxDedupeHistoryBytes (seenText history)

theorem repeats_iff (history : List RequestMessage) (ev : Evidence) :
    ev.repeats (if history = [] then [] else normalizedRecentHistory history maxDedupeHistoryBytes) = true ↔
      InSight history ev := by
  have hhaystack : (if history = [] then [] else normalizedRecentHistory history maxDedupeHistoryBytes)
      = takeBytes maxDedupeHistoryBytes (seenText history) := by
    rw [← normalizedRecentHistory_eq]
    split
    · rename_i hnil
      rw [hnil]
      rfl
    · rfl
  rw [hhaystack, Evidence.repeats, InSight, Bool.and_eq_true, Bool.and_eq_true, decide_eq_true_eq,
    hasInfix_iff]
  refine and_iff_right_of_imp fun h => ?_
  -- a text that holds 64 bytes is not empty
  rw [Bool.not_eq_true', List.isEmpty_eq_false_iff]
  intro hnil
  rw [hnil, List.infix_nil] at h
  rw [h.2] at h
  exact absurd h.1 (by decide)

theorem not_repeats_of_mem_shownFrom {haystack : Text} {seen : List Text} {evidence : List Evidence}
    {ev : Evidence} (h : ev ∈ shownFrom haystack seen evidence) : ¬ ev.repeats haystack = true := by
  induction evidence generalizing seen with
  | nil => exact absurd h List.not_mem_nil
  | cons first rest ih =>
    rw [shownFrom] at h
    split at h
    · exact ih h
    · rename_i hfirst
      split at h
      · exact ih h
      · rcases List.mem_cons.mp h with rfl | h
        · exact hfirst
        · exact ih h

/-- A snippet is never sent, whatever else is retrieved, exactly when the loop has it in sight. -/
theorem withheld_iff (history : List RequestMessage) (ev : Evidence) :
    (∀ evidence : List Evidence, ev ∈ evidence → ev ∉ shownEvidence evidence history) ↔
      InSight history ev := by
  rw [← repeats_iff]
  constructor
  · intro h
    by_contra hfresh
    refine h [ev] List.mem_cons_self ?_
    rw [shownEvidence]
    show ev ∈ shownFrom _ [] [ev]
    rw [shownFrom, if_neg hfresh, if_neg List.not_mem_nil]
    exact List.mem_cons_self
  · intro hrepeats evidence _ hshown
    exact not_repeats_of_mem_shownFrom hshown hrepeats

/-- **When a repeated snippet is withheld**, whatever else is retrieved with it: exactly when it is in
sight. -/
theorem duplicate_withheld_iff (history : List RequestMessage) (ev : Evidence) :
    (Duplicated history ev →
        ∀ evidence : List Evidence, ev ∈ evidence → ev ∉ shownEvidence evidence history) ↔
      (Duplicated history ev → InSight history ev) :=
  imp_congr_right fun _ => withheld_iff history ev

/-- A file that a tool read, and after it a user message with an empty text. -/
def readThenEmpty : List RequestMessage :=
  [⟨.user, [⟨.toolResult (List.replicate 80 'x') false, some "call".toList⟩]⟩, ⟨.user, [.ofText []]⟩]

/-- The file, retrieved as evidence. -/
def readFile : Evidence := ⟨"src/lib.rs".toList, List.replicate 80 'x', .finite 1⟩

/-- The file is sent again: the empty text hides it. -/
theorem emptyPart_hides_history :
    Duplicated readThenEmpty readFile ∧
      renderEvidence [readFile] readThenEmpty
        = evidenceHead ++ "\n### src/lib.rs\n".toList ++ List.replicate 80 'x' ++ ['\n'] ∧
      ¬ (Duplicated readThenEmpty readFile →
        ∀ evidence : List Evidence, readFile ∈ evidence →
          readFile ∉ shownEvidence evidence readThenEmpty) := by
  have hduplicated : Duplicated readThenEmpty readFile :=
    ⟨by decide +kernel, [], List.replicate 80 'x', [[]], by decide +kernel, by decide +kernel,
      List.infix_refl _⟩
  refine ⟨hduplicated, by decide +kernel, fun h => ?_⟩
  exact h hduplicated [readFile] List.mem_cons_self (by decide +kernel)

end Wire
