/-
# Recompacting a stable prefix

A prompt's stable prefix that is over its target is first deduplicated line by line; what is still over is
cut after three bytes a token, and an ellipsis marks the cut.  The cut text stays within a token of the
target.  The ellipsis takes three bytes, so the result can be longer than the text; and a dropped duplicate
leaves the blank lines around it next to each other, which a second recompaction collapses.

* `recompactStablePrefix` : the transform;
* `lt_estimateChars_iff` : the texts over a target;
* `recompactStablePrefix_eq_self_iff` : the texts that it leaves as they are;
* `recompact_guarantee_iff` : **when the result is bounded and stable**.
-/
import Mathlib
import Faktor.TextLines
import Faktor.ContextModel

namespace Wire

open TextBytes Compaction

/-! ## The transform -/

/-- `Estimator::estimate_tokens`. -/
def estimateTokens (text : Text) : ℕ := estimateChars text.length

/-- A line of white space only. -/
def blankLine (line : Text) : Bool := trim line = []

/-- The loop over the lines: duplicates are dropped, and runs of blank lines collapsed. -/
def dedupeLines (text : Text) : Text := (keepLines blankLine [] false (splitInclusive text)).flatten

/-- `recompact_stable_prefix`. -/
def recompactStablePrefix (stablePrefix : Text) (targetTokens : ℕ) : Text :=
  if estimateTokens stablePrefix ≤ targetTokens then stablePrefix
  else
    let deduped := dedupeLines stablePrefix
    if estimateTokens deduped ≤ targetTokens then deduped else clampTo deduped targetTokens

/-! ## The estimate -/

theorem estimateChars_le (chars : ℕ) : estimateChars chars ≤ usizeMax := by
  rw [estimateChars]
  split
  · exact Nat.zero_le _
  · refine max_le (satAdd_le _ _) ?_
    have hmul : satMul chars 10 ≤ usizeMax := min_le_right _ _
    have hbig : 33 ≤ usizeMax := by decide
    omega

/-- **The texts over a target** have three characters for each of its tokens. -/
theorem lt_estimateChars_iff {target chars : ℕ} (htarget : target < usizeMax) :
    target < estimateChars chars ↔ 0 < chars ∧ 3 * target ≤ chars := by
  rw [estimateChars]
  split
  · rename_i hzero
    omega
  · have hdense : target < satAdd (chars / 3) 1 ↔ 3 * target ≤ chars := by
      rw [satAdd]
      omega
    have hfloor : target < (satMul chars 10 + 33) / 34 → 3 * target ≤ chars := by
      have hmul : satMul chars 10 ≤ chars * 10 := min_le_left _ _
      omega
    rw [lt_max_iff, hdense]
    omega

/-- The clamped text has at most one character more than three a token. -/
theorem length_clampTo_le (text : Text) (target : ℕ) : (clampTo text target).length ≤ 3 * target + 1 := by
  have hmul : satMul target 3 ≤ 3 * target := by
    rw [satMul]
    omega
  rw [clampTo]
  split
  · exact Nat.zero_le _
  · dsimp only
    split
    · omega
    · have hcut := (length_le_byteLen _).trans (byteLen_takeBytes_le (satMul target 3) text)
      rw [List.length_append, List.length_singleton]
      omega

/-- A clamped text is within a token of its target. -/
theorem estimateTokens_clampTo_le (text : Text) (target : ℕ) :
    estimateTokens (clampTo text target) ≤ target + 1 := by
  rcases lt_or_ge (target + 1) usizeMax with htarget | htarget
  · by_contra hover
    have hlong := (lt_estimateChars_iff htarget).mp (not_le.mp hover)
    have hshort := length_clampTo_le text target
    omega
  · exact (estimateChars_le _).trans htarget

/-! ## Deduplication -/

theorem keepLines_isLines (text : Text) :
    IsLines (keepLines blankLine [] false (splitInclusive text)) :=
  (isLines_splitInclusive text).sublist (keepLines_sublist _ _ _ _)

/-- The lines of the deduplicated text are the lines kept. -/
theorem splitInclusive_dedupeLines (text : Text) :
    splitInclusive (dedupeLines text) = keepLines blankLine [] false (splitInclusive text) :=
  splitInclusive_flatten (keepLines_isLines text)

theorem dedupeLines_sublist (text : Text) : (dedupeLines text).Sublist text := by
  have hkeep := (keepLines_sublist blankLine [] false (splitInclusive text)).flatten
  rwa [flatten_splitInclusive] at hkeep

/-- A text is left as it is when its lines are. -/
theorem dedupeLines_eq_self_iff (text : Text) :
    dedupeLines text = text ↔
      keepLines blankLine [] false (splitInclusive text) = splitInclusive text := by
  constructor
  · intro h
    rw [← splitInclusive_dedupeLines, h]
  · intro h
    rw [dedupeLines, h, flatten_splitInclusive]

/-- The text has no two blank lines next to each other. -/
def BlankLinesApart (text : Text) : Prop := NoBlankPair blankLine (splitInclusive text)

instance (text : Text) : Decidable (BlankLinesApart text) := by
  unfold BlankLinesApart
  infer_instance

/-- A deduplicated text is deduplicated again into itself when its blank lines stand apart. -/
theorem dedupeLines_dedupeLines_iff (text : Text) :
    dedupeLines (dedupeLines text) = dedupeLines text ↔ BlankLinesApart (dedupeLines text) := by
  rw [dedupeLines_eq_self_iff, BlankLinesApart, splitInclusive_dedupeLines]
  exact keepLines_eq_self_iff _ (nodup_keepLines _ _ _ _).1

/-- So is a cut one: its complete lines are lines of the deduplicated text, and the line that holds the
ellipsis has no end. -/
theorem dedupeLines_cut_iff (text : Text) {front : Text} (hfront : front <+: dedupeLines text) :
    dedupeLines (front ++ ['…']) = front ++ ['…'] ↔ BlankLinesApart (front ++ ['…']) := by
  rw [dedupeLines_eq_self_iff]
  refine keepLines_eq_self_iff _ ?_
  obtain ⟨rest, hrest⟩ := hfront
  have hne : splitInclusive (front ++ ['…']) ≠ [] := splitInclusive_ne_nil (by simp)
  have hcomplete : (splitInclusive (front ++ ['…'])).dropLast <+: splitInclusive (dedupeLines text) := by
    rw [← hrest]
    exact dropLast_splitInclusive_prefix (by decide)
  have hnodup : ((splitInclusive (dedupeLines text)).filter (!blankLine ·)).Nodup := by
    rw [splitInclusive_dedupeLines]
    exact (nodup_keepLines _ _ _ _).1
  have hends := (isLines_splitInclusive (front ++ ['…'])).2
  rw [← List.dropLast_append_getLast hne] at hends ⊢
  rw [List.filter_append]
  refine List.nodup_append.mpr ⟨hnodup.sublist (hcomplete.sublist.filter _),
    (List.nodup_singleton _).filter _, fun line hline other hother heq => ?_⟩
  have hend : line.getLast? = some '\n' :=
    (List.pairwise_append.mp hends).2.2 line (List.mem_of_mem_filter hline) _ List.mem_cons_self
  rw [heq, List.mem_singleton.mp (List.mem_of_mem_filter hother),
    getLast_splitInclusive (by decide)] at hend
  exact absurd hend (by decide)

/-! ## The texts that stay as they are -/

/-- **The texts that the transform leaves as they are**: those within the target, and those that neither
deduplication nor the cut changes. -/
theorem recompactStablePrefix_eq_self_iff (text : Text) (target : ℕ) :
    recompactStablePrefix text target = text ↔
      estimateTokens text ≤ target ∨ (dedupeLines text = text ∧ clampTo text target = text) := by
  rw [recompactStablePrefix]
  split
  · rename_i hwithin
    exact iff_of_true rfl (Or.inl hwithin)
  · rename_i hover
    dsimp only
    have hsub := dedupeLines_sublist text
    have hor : ∀ p : Prop, (estimateTokens text ≤ target ∨ p) ↔ p := fun p => or_iff_right hover
    rw [hor]
    split
    · rename_i hwithin
      refine iff_of_false (fun h => ?_) (fun h => ?_)
      · rw [h] at hwithin
        exact hover hwithin
      · rw [h.1] at hwithin
        exact hover hwithin
    · constructor
      · intro h
        suffices hsame : dedupeLines text = text from ⟨hsame, by rwa [hsame] at h⟩
        refine hsub.eq_of_length_le ?_
        -- the cut of a text is no longer than the text it cuts
        have hlength : (clampTo (dedupeLines text) target).length ≤ (dedupeLines text).length := by
          rw [clampTo]
          split
          · exact Nat.zero_le _
          · dsimp only
            split
            · exact le_rfl
            · have hcut := (length_le_byteLen _).trans
                (byteLen_takeBytes_le (satMul target 3) (dedupeLines text))
              rw [List.length_append, List.length_singleton]
              omega
        rwa [h] at hlength
      · rintro ⟨hdedupe, hclamp⟩
        rw [hdedupe, hclamp]

/-- A cut text is cut again into itself. -/
theorem clampTo_cut {text : Text} {target : ℕ} (htarget : 0 < target) :
    clampTo (takeBytes (satMul target 3) text ++ ['…']) target
      = takeBytes (satMul target 3) text ++ ['…'] := by
  have hbytes := byteLen_takeBytes_le (satMul target 3) text
  have hlength := length_le_byteLen (takeBytes (satMul target 3) text)
  rw [clampTo, if_neg htarget.ne']
  dsimp only
  split
  · rfl
  · rename_i hlong
    rw [List.length_append, List.length_singleton] at hlong
    have hellipsis : Char.utf8Size '…' = 3 := by decide
    rw [takeBytes_append hbytes, takeBytes, if_neg (by omega), List.append_nil]

/-! ## When the result is bounded and stable -/

/-- What is promised of the result: a text within the target is left unchanged; the result for another is
no longer in bytes, within a token of the target, and left unchanged by the same transform. -/
def RecompactGuarantee (text : Text) (target : ℕ) : Prop :=
  (estimateTokens text ≤ target → recompactStablePrefix text target = text) ∧
    (target < estimateTokens text →
      byteLen (recompactStablePrefix text target) ≤ byteLen text ∧
        estimateTokens (recompactStablePrefix text target) ≤ target + 1 ∧
        recompactStablePrefix (recompactStablePrefix text target) target
          = recompactStablePrefix text target)

instance (text : Text) (target : ℕ) : Decidable (RecompactGuarantee text target) := by
  unfold RecompactGuarantee
  infer_instance

/-- The part of a text before the cut. -/
def keptPart (text : Text) (target : ℕ) : Text := takeBytes (satMul target 3) text

/-- The condition: the text or its deduplicated form is within the target; or the target is zero; or the
deduplicated form needs no cut and its blank lines stand apart; or the cut leaves out three bytes of the
text at least, and what is kept is short of the target or has its blank lines apart. -/
def RecompactsCleanly (text : Text) (target : ℕ) : Prop :=
  let deduped := dedupeLines text
  estimateTokens text ≤ target ∨ estimateTokens deduped ≤ target ∨ target = 0 ∨
    if deduped.length ≤ satMul target 3 then BlankLinesApart deduped
    else byteLen (keptPart deduped target) + 3 ≤ byteLen text ∧
      ((keptPart deduped target).length + 1 < 3 * target ∨
        BlankLinesApart (keptPart deduped target ++ ['…']))

instance (text : Text) (target : ℕ) : Decidable (RecompactsCleanly text target) := by
  unfold RecompactsCleanly
  infer_instance

/-- The empty text stays empty. -/
theorem recompactStablePrefix_nil (target : ℕ) : recompactStablePrefix [] target = [] := by
  rw [recompactStablePrefix]
  exact if_pos (Nat.zero_le target)

/-- The ellipsis after a cut. -/
theorem byteLen_ellipsis : byteLen ['…'] = 3 := by decide

/-- The result of the cut is bounded and stable under the last part of the condition. -/
theorem clamped_guarantee_iff {text : Text} {target : ℕ} (htarget : target < usizeMax)
    (hover : target < estimateTokens (dedupeLines text)) :
    (byteLen (clampTo (dedupeLines text) target) ≤ byteLen text ∧
        recompactStablePrefix (clampTo (dedupeLines text) target) target
          = clampTo (dedupeLines text) target) ↔
      target = 0 ∨
        if (dedupeLines text).length ≤ satMul target 3 then BlankLinesApart (dedupeLines text)
        else byteLen (keptPart (dedupeLines text) target) + 3 ≤ byteLen text ∧
          ((keptPart (dedupeLines text) target).length + 1 < 3 * target ∨
            BlankLinesApart (keptPart (dedupeLines text) target ++ ['…'])) := by
  rcases Nat.eq_zero_or_pos target with rfl | hpos
  · have hnil : clampTo (dedupeLines text) 0 = [] := by rw [clampTo, if_pos rfl]
    rw [hnil]
    exact iff_of_true ⟨Nat.zero_le _, recompactStablePrefix_nil 0⟩ (Or.inl rfl)
  · rw [or_iff_right hpos.ne']
    have hbytes := byteLen_le_of_sublist (dedupeLines_sublist text)
    by_cases hshort : (dedupeLines text).length ≤ satMul target 3
    · -- no cut: the deduplicated text itself
      have hclamp : clampTo (dedupeLines text) target = dedupeLines text := by
        rw [clampTo, if_neg hpos.ne']
        exact if_pos hshort
      rw [if_pos hshort, hclamp, and_iff_right hbytes, recompactStablePrefix_eq_self_iff,
        or_iff_right (not_le.mpr hover), and_iff_left hclamp, dedupeLines_dedupeLines_iff]
    · have hclamp : clampTo (dedupeLines text) target = keptPart (dedupeLines text) target ++ ['…'] := by
        rw [clampTo, if_neg hpos.ne']
        exact if_neg hshort
      have hwithin : estimateTokens (keptPart (dedupeLines text) target ++ ['…']) ≤ target ↔
          (keptPart (dedupeLines text) target).length + 1 < 3 * target := by
        rw [← not_lt, estimateTokens, lt_estimateChars_iff htarget, List.length_append,
          List.length_singleton]
        omega
      have hcut : dedupeLines (keptPart (dedupeLines text) target ++ ['…'])
            = keptPart (dedupeLines text) target ++ ['…'] ↔
          BlankLinesApart (keptPart (dedupeLines text) target ++ ['…']) :=
        dedupeLines_cut_iff text (takeBytes_isPrefix _ _)
      have hagain : clampTo (keptPart (dedupeLines text) target ++ ['…']) target
          = keptPart (dedupeLines text) target ++ ['…'] := clampTo_cut hpos
      rw [if_neg hshort, hclamp, byteLen_append, byteLen_ellipsis, recompactStablePrefix_eq_self_iff,
        hwithin, hcut, and_iff_left hagain]

/-- **The result is bounded and stable** exactly under the condition. -/
theorem recompact_guarantee_iff (text : Text) (target : ℕ) :
    RecompactGuarantee text target ↔ RecompactsCleanly text target := by
  rw [RecompactGuarantee, RecompactsCleanly]
  by_cases hwithin : estimateTokens text ≤ target
  · refine iff_of_true ⟨fun _ => ?_, fun hover => absurd hwithin (not_le.mpr hover)⟩ (Or.inl hwithin)
    rw [recompactStablePrefix, if_pos hwithin]
  · have hover : target < estimateTokens text := not_le.mp hwithin
    have htarget : target < usizeMax := hover.trans_le (estimateChars_le _)
    rw [or_iff_right hwithin, and_iff_right fun h => absurd h hwithin, forall_prop_of_true hover]
    by_cases hdeduped : estimateTokens (dedupeLines text) ≤ target
    · have hresult : recompactStablePrefix text target = dedupeLines text := by
        rw [recompactStablePrefix, if_neg hwithin, if_pos hdeduped]
      rw [hresult]
      refine iff_of_true ⟨byteLen_le_of_sublist (dedupeLines_sublist text), by omega, ?_⟩ (Or.inl hdeduped)
      exact (recompactStablePrefix_eq_self_iff _ _).mpr (Or.inl hdeduped)
    · have hresult : recompactStablePrefix text target = clampTo (dedupeLines text) target := by
        rw [recompactStablePrefix, if_neg hwithin, if_neg hdeduped]
      have hestimate := estimateTokens_clampTo_le (dedupeLines text) target
      rw [or_iff_right hdeduped, hresult, and_iff_right hestimate]
      exact clamped_guarantee_iff htarget (not_le.mp hdeduped)

/-- Four letters under a target of one token: the result is two bytes longer. -/
def fourLetters : Text := "abcd".toList

/-- A repeated line between blank lines: once it is dropped they touch, and collapse the next time. -/
def repeatedLine : Text := "a\n\na\n\nbcdef".toList

theorem recompact_longer_and_unstable :
    (1 < estimateTokens fourLetters ∧ byteLen fourLetters = 4 ∧
        byteLen (recompactStablePrefix fourLetters 1) = 6) ∧
      (recompactStablePrefix repeatedLine 3 = "a\n\n\nbcdef".toList ∧
        recompactStablePrefix (recompactStablePrefix repeatedLine 3) 3 = "a\n\nbcdef".toList) ∧
      ¬ RecompactGuarantee fourLetters 1 ∧ ¬ RecompactGuarantee repeatedLine 3 := by
  refine ⟨⟨by decide, by decide, by decide +kernel⟩, ⟨by decide +kernel, by decide +kernel⟩, ?_, ?_⟩
  · decide +kernel
  · decide +kernel

end Wire
