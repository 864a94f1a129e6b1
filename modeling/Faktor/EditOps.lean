/-
# What one edit operation replaces

An operation names a region of a text: by two byte offsets, by the text that stands there, or by offsets from
an anchor.  `match_indices` passes over the matches that overlap an earlier one, so a text that stands at two
overlapping places only counts as one match; and the sum of the anchor's place and an offset wraps around.

* `splitAtByte_eq_some_iff`, `replaceRange_eq_ok_iff` : the region between two offsets;
* `matchIndices_spec` : no match, one match, or two matches that do not overlap;
* `applyOp_exact_iff` : when an operation replaces the region it names.
-/
import Mathlib
import Faktor.EditModel

namespace EditTxn

open TextBytes

/-! ## Regions -/

theorem byteLen_cons (c : Char) (text : Text) : byteLen (c :: text) = c.utf8Size + byteLen text := rfl

/-- The cut at a byte offset. -/
theorem splitAtByte_eq_some_iff {text a b : Text} {n : ℕ} :
    splitAtByte text n = some (a, b) ↔ text = a ++ b ∧ byteLen a = n := by
  induction text, n using splitAtByte.induct generalizing a with
  | case1 text =>
    rw [splitAtByte, Option.some.injEq, Prod.mk.injEq]
    constructor
    · rintro ⟨rfl, rfl⟩
      exact ⟨rfl, rfl⟩
    · rintro ⟨rfl, hlen⟩
      have ha : a = [] := List.length_eq_zero_iff.mp (by have := length_le_byteLen a; omega)
      subst ha
      exact ⟨rfl, rfl⟩
  | case2 n =>
    rw [splitAtByte]
    refine iff_of_false (Option.some_ne_none _).symm ?_
    rintro ⟨happend, hlen⟩
    obtain ⟨rfl, -⟩ := List.append_eq_nil_iff.mp happend.symm
    cases hlen
  | case3 c rest n hle ih =>
    rw [splitAtByte, if_pos hle, Option.map_eq_some_iff]
    constructor
    · rintro ⟨⟨a', b'⟩, hsplit, heq⟩
      obtain ⟨rfl, rfl⟩ := Prod.mk.inj heq
      obtain ⟨rfl, hlen⟩ := ih.mp hsplit
      refine ⟨rfl, ?_⟩
      rw [byteLen_cons]
      omega
    · rintro ⟨happend, hlen⟩
      cases a with
      | nil => cases hlen
      | cons c' a =>
        obtain ⟨rfl, rfl⟩ := List.cons.inj happend
        rw [byteLen_cons] at hlen
        exact ⟨(a, b), ih.mpr ⟨rfl, by omega⟩, rfl⟩
  | case4 c rest n hgt =>
    rw [splitAtByte, if_neg hgt]
    refine iff_of_false (Option.some_ne_none _).symm ?_
    rintro ⟨happend, hlen⟩
    cases a with
    | nil => cases hlen
    | cons c' a =>
      obtain ⟨rfl, -⟩ := List.cons.inj happend
      rw [byteLen_cons] at hlen
      omega

/-- `is_char_boundary` -/
def IsCharBoundary (buf : Text) (n : ℕ) : Prop := ∃ a b, buf = a ++ b ∧ byteLen a = n

/-- The region from `start` to before `stop` is replaced, and nothing else. -/
def ReplacesRegion (buf : Text) (start stop : ℕ) (replacement result : Text) : Prop :=
  ∃ before removed after, buf = before ++ removed ++ after ∧ byteLen before = start ∧
    byteLen (before ++ removed) = stop ∧ result = before ++ replacement ++ after

/-- Of two cuts of one text, the one at the smaller offset is within the other. -/
theorem append_of_byteLen_le {a b a' b' : Text} (h : a ++ b = a' ++ b') (hle : byteLen a ≤ byteLen a') :
    ∃ mid, a' = a ++ mid := by
  rcases List.append_eq_append_iff.mp h with ⟨mid, ha, -⟩ | ⟨mid, ha, -⟩
  · exact ⟨mid, ha⟩
  · subst ha
    rw [byteLen_append] at hle
    have hmid : mid = [] := List.length_eq_zero_iff.mp (by have := length_le_byteLen mid; omega)
    subst hmid
    exact ⟨[], by simp⟩

/-- The replacement of a range: what the checks on the offsets leave. -/
theorem replaceRange_eq_ok_iff {buf replacement result : Text} {start stop : ℕ} :
    replaceRange buf start stop replacement = .ok result ↔ ReplacesRegion buf start stop replacement result := by
  constructor
  · intro h
    rw [replaceRange] at h
    by_cases hlt : stop < start
    · rw [if_pos hlt] at h
      cases h
    rw [if_neg hlt] at h
    cases hstart : splitAtByte buf start with
    | none => simp [hstart] at h
    | some cut =>
      cases hstop : splitAtByte buf stop with
      | none => simp [hstart, hstop] at h
      | some cut' =>
        obtain ⟨before, rest⟩ := cut
        obtain ⟨front, after⟩ := cut'
        obtain ⟨hbuf, hlen⟩ := splitAtByte_eq_some_iff.mp hstart
        obtain ⟨hbuf', hlen'⟩ := splitAtByte_eq_some_iff.mp hstop
        simp only [hstart, hstop] at h
        split at h
        · cases h
        · obtain rfl := Except.ok.inj h
          obtain ⟨removed, rfl⟩ := append_of_byteLen_le (hbuf.symm.trans hbuf') (by omega)
          exact ⟨before, removed, after, hbuf', hlen, hlen', rfl⟩
  · rintro ⟨before, removed, after, rfl, rfl, rfl, rfl⟩
    have hle : ¬ byteLen (before ++ removed) < byteLen before := by
      rw [byteLen_append]
      omega
    have hstart : splitAtByte (before ++ removed ++ after) (byteLen before) = some (before, removed ++ after) :=
      splitAtByte_eq_some_iff.mpr ⟨List.append_assoc _ _ _, rfl⟩
    have hstop : splitAtByte (before ++ removed ++ after) (byteLen (before ++ removed))
        = some (before ++ removed, after) := splitAtByte_eq_some_iff.mpr ⟨rfl, rfl⟩
    have hend : ¬ byteLen (before ++ removed ++ after) < byteLen (before ++ removed) := by
      rw [byteLen_append (before ++ removed)]
      omega
    rw [replaceRange, if_neg hle, hstart, hstop]
    exact if_neg hend

theorem exists_replaceRange_iff {buf replacement : Text} {start stop : ℕ} :
    (∃ result, replaceRange buf start stop replacement = .ok result) ↔
      start ≤ stop ∧ IsCharBoundary buf start ∧ IsCharBoundary buf stop := by
  constructor
  · rintro ⟨result, h⟩
    obtain ⟨before, removed, after, rfl, rfl, rfl, -⟩ := replaceRange_eq_ok_iff.mp h
    refine ⟨?_, ⟨before, removed ++ after, List.append_assoc _ _ _, rfl⟩, ⟨before ++ removed, after, rfl, rfl⟩⟩
    rw [byteLen_append]
    omega
  · rintro ⟨hle, ⟨a, b, hbuf, rfl⟩, ⟨a', b', hbuf', rfl⟩⟩
    obtain ⟨removed, rfl⟩ := append_of_byteLen_le (hbuf.symm.trans hbuf') hle
    exact ⟨a ++ replacement ++ b', replaceRange_eq_ok_iff.mpr ⟨a, removed, b', hbuf', rfl, rfl, rfl⟩⟩

/-! ## Occurrences and matches -/

/-- The pattern stands in the text after `front`. -/
def OccursAt (pattern text front : Text) : Prop := ∃ back, text = front ++ pattern ++ back

/-- The pattern stands at two places that do not overlap. -/
def OccursApart (pattern text : Text) : Prop :=
  ∃ front mid, pattern ++ mid ≠ [] ∧ OccursAt pattern text front ∧ OccursAt pattern text (front ++ pattern ++ mid)

/-- The first place where the pattern stands. -/
def FirstAt (pattern text front : Text) : Prop :=
  OccursAt pattern text front ∧ ∀ front', OccursAt pattern text front' → front.length ≤ front'.length

theorem occursAt_take {pattern text : Text} {k : ℕ} (hk : k ≤ text.length) (h : pattern <+: text.drop k) :
    OccursAt pattern text (text.take k) ∧ (text.take k).length = k := by
  obtain ⟨back, hback⟩ := h
  refine ⟨⟨back, ?_⟩, by rw [List.length_take]; omega⟩
  rw [List.append_assoc, hback, List.take_append_drop]

/-- Places are told apart by their length. -/
theorem OccursAt.eq_of_length {pattern text front front' : Text} (h : OccursAt pattern text front)
    (h' : OccursAt pattern text front') (hlen : front.length = front'.length) : front = front' := by
  obtain ⟨back, rfl⟩ := h
  obtain ⟨back', heq⟩ := h'
  rw [List.append_assoc, List.append_assoc] at heq
  exact (List.append_inj heq hlen).1

theorem exists_firstAt {pattern text front : Text} (h : OccursAt pattern text front) :
    ∃ first, FirstAt pattern text first := by
  classical
  have hex : ∃ n front, OccursAt pattern text front ∧ front.length = n := ⟨_, front, h, rfl⟩
  obtain ⟨first, hfirst, hlen⟩ := Nat.find_spec hex
  refine ⟨first, hfirst, fun front' h' => ?_⟩
  rw [hlen]
  exact Nat.find_min' hex ⟨front', h', rfl⟩

/-- The characters of a match that are still to pass. -/
theorem matchIndices_skip (pattern passed rest : Text) (offset : ℕ) :
    matchIndices pattern passed.length offset (passed ++ rest)
      = matchIndices pattern 0 (offset + byteLen passed) rest := by
  induction passed generalizing offset with
  | nil => rfl
  | cons c passed ih =>
    rw [List.length_cons, List.cons_append, matchIndices, ih, byteLen_cons, Nat.add_assoc]

theorem matchIndices_match {pattern : Text} (hne : pattern ≠ []) (rest : Text) (offset : ℕ) :
    matchIndices pattern 0 offset (pattern ++ rest)
      = offset :: matchIndices pattern 0 (offset + byteLen pattern) rest := by
  obtain ⟨c, tail, rfl⟩ := List.exists_cons_of_ne_nil hne
  have hfront : (c :: tail).isPrefixOf (c :: (tail ++ rest)) = true :=
    List.isPrefixOf_iff_prefix.mpr (List.prefix_append (c :: tail) rest)
  rw [List.cons_append, matchIndices, if_pos hfront, List.length_cons, Nat.add_sub_cancel, matchIndices_skip,
    byteLen_cons, Nat.add_assoc]

/-- Where the pattern does not stand, the search goes on. -/
theorem matchIndices_pass {pattern front rest : Text} (offset : ℕ)
    (h : ∀ k < front.length, ¬ pattern <+: (front ++ rest).drop k) :
    matchIndices pattern 0 offset (front ++ rest) = matchIndices pattern 0 (offset + byteLen front) rest := by
  induction front generalizing offset with
  | nil => rfl
  | cons c front ih =>
    have hfirst : ¬ pattern.isPrefixOf (c :: (front ++ rest)) = true := by
      rw [List.isPrefixOf_iff_prefix]
      exact h 0 (Nat.succ_pos _)
    rw [List.cons_append, matchIndices, if_neg hfirst, ih _ fun k hk => h (k + 1) (Nat.succ_lt_succ hk),
      byteLen_cons, Nat.add_assoc]

theorem matchIndices_eq_nil {pattern text : Text} (hne : pattern ≠ []) (offset : ℕ)
    (h : ∀ front, ¬ OccursAt pattern text front) : matchIndices pattern 0 offset text = [] := by
  have hpass := @matchIndices_pass pattern text [] offset (by
    intro k hk hfront
    rw [List.append_nil] at hfront
    exact h _ (occursAt_take hk.le hfront).1)
  rw [List.append_nil] at hpass
  rw [hpass, matchIndices, if_neg hne]

theorem matchIndices_first {pattern front rest : Text} (hne : pattern ≠ []) (offset : ℕ)
    (h : FirstAt pattern (front ++ pattern ++ rest) front) :
    matchIndices pattern 0 offset (front ++ pattern ++ rest) = (offset + byteLen front)
      :: matchIndices pattern 0 (offset + byteLen front + byteLen pattern) rest := by
  rw [List.append_assoc] at h ⊢
  rw [matchIndices_pass offset, matchIndices_match hne]
  intro k hk hfront
  obtain ⟨hat, hlen⟩ := occursAt_take (by rw [List.length_append]; omega) hfront
  have := h.2 _ hat
  omega

/-- After the first place, the pattern stands once more exactly when it stands at two places apart. -/
theorem occursApart_iff {pattern front rest : Text} (hne : pattern ≠ [])
    (h : FirstAt pattern (front ++ pattern ++ rest) front) :
    OccursApart pattern (front ++ pattern ++ rest) ↔ ∃ front', OccursAt pattern rest front' := by
  constructor
  · rintro ⟨front', mid, -, hat, back, heq⟩
    have hle := h.2 front' hat
    have hpre : front ++ pattern ++ rest = front' ++ pattern ++ (mid ++ pattern ++ back) := by
      rw [heq]
      simp
    obtain ⟨gap, hgap⟩ : ∃ gap, front' ++ pattern = front ++ pattern ++ gap := by
      rcases List.append_eq_append_iff.mp hpre with ⟨gap, hgap, -⟩ | ⟨gap, hgap, -⟩
      · exact ⟨gap, hgap⟩
      · have hlen := congrArg List.length hgap
        simp only [List.length_append] at hlen
        have : gap = [] := List.length_eq_zero_iff.mp (by omega)
        subst this
        exact ⟨[], by simpa using hgap.symm⟩
    refine ⟨gap ++ mid, back, ?_⟩
    rw [hgap, List.append_assoc (front ++ pattern) gap, List.append_assoc (front ++ pattern),
      List.append_assoc (front ++ pattern)] at heq
    exact List.append_cancel_left heq
  · rintro ⟨front', back, rfl⟩
    refine ⟨front, front', ?_, h.1, back, ?_⟩
    · exact fun hnil => hne (List.append_eq_nil_iff.mp hnil).1
    · simp

/-- The matches of a pattern: none, one at the first place, or several when it stands at two places apart. -/
theorem matchIndices_spec (pattern text : Text) :
    (matchIndices pattern 0 0 text = [] ∧ ∀ front, ¬ OccursAt pattern text front) ∨
      (∃ front, matchIndices pattern 0 0 text = [byteLen front] ∧ FirstAt pattern text front ∧
        ¬ OccursApart pattern text) ∨
      (1 < (matchIndices pattern 0 0 text).length ∧ OccursApart pattern text) := by
  by_cases hne : pattern = []
  · subst hne
    have hall : ∀ front back : Text, OccursAt [] (front ++ back) front := fun front back => ⟨back, by simp⟩
    cases text with
    | nil =>
      refine .inr (.inl ⟨[], rfl, ⟨hall [] [], fun _ _ => Nat.zero_le _⟩, ?_⟩)
      rintro ⟨front, mid, hmid, -, back, heq⟩
      simp only [List.append_nil, List.nil_append] at hmid heq
      exact hmid (List.append_eq_nil_iff.mp (List.append_eq_nil_iff.mp heq.symm).1).2
    | cons c text =>
      refine .inr (.inr ⟨?_, [], [c], by simp, hall [] (c :: text), ?_⟩)
      · have hnonempty : ∀ (offset : ℕ) (t : Text), 0 < (matchIndices [] 0 offset t).length := by
          intro offset t
          cases t with
          | nil => exact Nat.one_pos
          | cons c t =>
            rw [matchIndices, if_pos (show List.isPrefixOf [] (c :: t) = true from rfl)]
            exact Nat.succ_pos _
        rw [matchIndices, if_pos (show List.isPrefixOf [] (c :: text) = true from rfl), List.length_cons]
        exact Nat.succ_lt_succ (hnonempty _ text)
      · simpa using hall [c] text
  · by_cases hocc : ∃ front, OccursAt pattern text front
    · obtain ⟨front₀, h₀⟩ := hocc
      obtain ⟨front, hfirst⟩ := exists_firstAt h₀
      obtain ⟨rest, rfl⟩ := hfirst.1
      have hmatch := matchIndices_first hne 0 hfirst
      by_cases hagain : ∃ front', OccursAt pattern rest front'
      · refine .inr (.inr ⟨?_, (occursApart_iff hne hfirst).mpr hagain⟩)
        obtain ⟨front₁, h₁⟩ := hagain
        obtain ⟨front', hfirst'⟩ := exists_firstAt h₁
        obtain ⟨rest', rfl⟩ := hfirst'.1
        rw [hmatch, matchIndices_first hne _ hfirst', List.length_cons, List.length_cons]
        omega
      · refine .inr (.inl ⟨front, ?_, hfirst, fun hapart => hagain ((occursApart_iff hne hfirst).mp hapart)⟩)
        rw [hmatch, matchIndices_eq_nil hne _ fun front' h' => hagain ⟨front', h'⟩, Nat.zero_add]
    · exact .inl ⟨matchIndices_eq_nil hne 0 fun front h => hocc ⟨front, h⟩, fun front h => hocc ⟨front, h⟩⟩

/-! ## Operations -/

/-- The offsets of an operation are `usize`. -/
def EditOp.InUsize : EditOp → Prop
  | .range start stop _ => start < 2 ^ 64 ∧ stop < 2 ^ 64
  | .searchReplace _ _ => True
  | .boundedRegion _ regionStart regionEnd _ => regionStart < 2 ^ 64 ∧ regionEnd < 2 ^ 64

/-- An operation fails or replaces exactly the region it names; the search succeeds exactly when its text stands
at one place. -/
def EditOp.Exact (buf : Text) (op : EditOp) : Prop :=
  match op with
  | .range start stop replacement =>
    ∀ result, applyOp buf op = .ok result → ReplacesRegion buf start stop replacement result
  | .searchReplace before after =>
    ((∃ result, applyOp buf op = .ok result) ↔ ∃! front, OccursAt before buf front) ∧
      ∀ result, applyOp buf op = .ok result →
        ∃ front, OccursAt before buf front ∧
          ReplacesRegion buf (byteLen front) (byteLen (front ++ before)) after result
  | .boundedRegion anchor regionStart regionEnd replacement =>
    ∀ result, applyOp buf op = .ok result →
      ∃ front, FirstAt anchor buf front ∧
        ReplacesRegion buf (byteLen front + regionStart) (byteLen front + regionEnd) replacement result

/-- Where the search text stands at two places, it stands at two that do not overlap; and where the start of a
region wraps around, the checks refuse the wrapped offsets. -/
def EditOp.Checked (buf : Text) : EditOp → Prop
  | .range _ _ _ => True
  | .searchReplace before _ =>
    (∃ front front', OccursAt before buf front ∧ OccursAt before buf front' ∧ front ≠ front') →
      OccursApart before buf
  | .boundedRegion anchor regionStart regionEnd _ =>
    ∀ front, FirstAt anchor buf front → ¬ OccursApart anchor buf → 2 ^ 64 ≤ byteLen front + regionStart →
      ¬ (wrappingAdd (byteLen front) regionStart ≤ wrappingAdd (byteLen front) regionEnd ∧
        IsCharBoundary buf (wrappingAdd (byteLen front) regionStart) ∧
        IsCharBoundary buf (wrappingAdd (byteLen front) regionEnd))

theorem FirstAt.unique {pattern text front front' : Text} (h : FirstAt pattern text front)
    (h' : FirstAt pattern text front') : front = front' :=
  h.1.eq_of_length h'.1 (le_antisymm (h.2 _ h'.1) (h'.2 _ h.1))

theorem OccursAt.byteLen_le {pattern text front : Text} (h : OccursAt pattern text front) :
    byteLen (front ++ pattern) ≤ byteLen text := by
  obtain ⟨back, rfl⟩ := h
  rw [byteLen_append (front ++ pattern)]
  omega

theorem searchReplace_exact_iff (buf before after : Text) :
    (EditOp.searchReplace before after).Exact buf ↔ (EditOp.searchReplace before after).Checked buf := by
  rcases matchIndices_spec before buf with ⟨hmatch, hnone⟩ | ⟨front, hmatch, hfirst, hapart⟩ | ⟨hmany, hapart⟩
  · have happly : ∀ result, applyOp buf (.searchReplace before after) ≠ .ok result := by
      intro result h
      rw [applyOp, hmatch] at h
      cases h
    refine iff_of_true ⟨iff_of_false ?_ ?_, fun result h => absurd h (happly result)⟩ ?_
    · exact fun ⟨result, h⟩ => happly result h
    · exact fun ⟨front, h, _⟩ => hnone front h
    · exact fun ⟨front, _, h, _⟩ => absurd h (hnone front)
  · obtain ⟨back, hback⟩ := hfirst.1
    have hregion : ReplacesRegion buf (byteLen front) (byteLen front + byteLen before) after
        (front ++ after ++ back) := ⟨front, before, back, hback, rfl, byteLen_append _ _, rfl⟩
    have happly : applyOp buf (.searchReplace before after) = .ok (front ++ after ++ back) := by
      rw [applyOp, hmatch]
      exact replaceRange_eq_ok_iff.mpr hregion
    constructor
    · rintro ⟨hiff, -⟩ ⟨first, second, h₁, h₂, hne⟩
      exact absurd ((hiff.mp ⟨_, happly⟩).unique h₁ h₂) hne
    · intro hchecked
      have honly : ∀ front', OccursAt before buf front' → front' = front := by
        intro front' h'
        by_contra hne
        exact hapart (hchecked ⟨front', front, h', hfirst.1, hne⟩)
      refine ⟨iff_of_true ⟨_, happly⟩ ⟨front, hfirst.1, honly⟩, fun result h => ⟨front, hfirst.1, ?_⟩⟩
      obtain rfl := Except.ok.inj (happly.symm.trans h)
      rwa [byteLen_append front before]
  · have happly : ∀ result, applyOp buf (.searchReplace before after) ≠ .ok result := by
      intro result h
      rw [applyOp] at h
      split at h
      · cases h
      · next start hone =>
        rw [hone] at hmany
        exact absurd hmany (lt_irrefl 1)
      · cases h
    refine iff_of_true ⟨iff_of_false ?_ ?_, fun result h => absurd h (happly result)⟩ fun _ => hapart
    · exact fun ⟨result, h⟩ => happly result h
    · rintro hunique
      obtain ⟨front, mid, hne, h₁, h₂⟩ := hapart
      have heq := hunique.unique h₁ h₂
      rw [List.append_assoc] at heq
      exact hne (List.append_right_eq_self.mp heq.symm)

theorem boundedRegion_exact_iff {buf anchor replacement : Text} {regionStart regionEnd : ℕ}
    (hbuf : byteLen buf < 2 ^ 64) (hstart : regionStart < 2 ^ 64) (hend : regionEnd < 2 ^ 64) :
    (EditOp.boundedRegion anchor regionStart regionEnd replacement).Exact buf ↔
      (EditOp.boundedRegion anchor regionStart regionEnd replacement).Checked buf := by
  have hrefused : (∀ base, matchIndices anchor 0 0 buf ≠ [base]) →
      ∀ result, applyOp buf (.boundedRegion anchor regionStart regionEnd replacement) ≠ .ok result := by
    intro hmatch result h
    rw [applyOp] at h
    split at h
    · next base hone => exact hmatch base hone
    · cases h
  rcases matchIndices_spec anchor buf with ⟨hmatch, hnone⟩ | ⟨front, hmatch, hfirst, hapart⟩ | ⟨hmany, hapart⟩
  · have hno := hrefused fun base h => by rw [hmatch] at h; cases h
    exact iff_of_true (fun result h => absurd h (hno result)) fun front h => absurd h.1 (hnone front)
  · have hfront := hfirst.1.byteLen_le
    rw [byteLen_append] at hfront
    have happly : applyOp buf (.boundedRegion anchor regionStart regionEnd replacement)
        = replaceRange buf (wrappingAdd (byteLen front) regionStart) (wrappingAdd (byteLen front) regionEnd)
          replacement := by
      rw [applyOp, hmatch]
    simp only [EditOp.Exact, EditOp.Checked, happly]
    by_cases hwrap : 2 ^ 64 ≤ byteLen front + regionStart
    · constructor
      · intro hexact front' hfirst' _ _ hvalid
        obtain rfl := hfirst.unique hfirst'
        -- an offset past every text cannot be where a region starts
        obtain ⟨result, hresult⟩ := exists_replaceRange_iff.mpr hvalid
        obtain ⟨front', hfirst'', before, removed, after, hcut, hlen, -⟩ := hexact result hresult
        obtain rfl := hfirst.unique hfirst''
        have htotal := congrArg byteLen hcut
        rw [byteLen_append, byteLen_append] at htotal
        omega
      · intro hchecked result hresult
        exact absurd (exists_replaceRange_iff.mp ⟨result, hresult⟩) (hchecked front hfirst hapart hwrap)
    · have hstart' : wrappingAdd (byteLen front) regionStart = byteLen front + regionStart :=
        Nat.mod_eq_of_lt (by omega)
      refine iff_of_true (fun result hresult => ⟨front, hfirst, ?_⟩) fun front' hfirst' _ hwrap' => ?_
      · rw [hstart'] at hresult
        by_cases hwrapEnd : 2 ^ 64 ≤ byteLen front + regionEnd
        · -- where only the end wraps around, it comes before the start
          have hend' : wrappingAdd (byteLen front) regionEnd = byteLen front + regionEnd - 2 ^ 64 := by
            rw [wrappingAdd, Nat.mod_eq_sub_mod hwrapEnd, Nat.mod_eq_of_lt (by omega)]
          have hle := (exists_replaceRange_iff.mp ⟨result, hresult⟩).1
          omega
        · rw [wrappingAdd, Nat.mod_eq_of_lt (not_le.mp hwrapEnd)] at hresult
          exact replaceRange_eq_ok_iff.mp hresult
      · obtain rfl := hfirst.unique hfirst'
        exact absurd hwrap' hwrap
  · have hno := hrefused fun base h => by
      rw [h] at hmany
      exact absurd hmany (lt_irrefl 1)
    exact iff_of_true (fun result h => absurd h (hno result)) fun front _ hne => absurd hapart hne

/-- **An operation replaces the region it names** exactly when overlapping matches and wrapped offsets are out. -/
theorem apply_op_exact_iff {buf : Text} {op : EditOp} (hbuf : byteLen buf < 2 ^ 64) (hop : op.InUsize) :
    op.Exact buf ↔ op.Checked buf := by
  cases op with
  | range start stop replacement =>
    refine iff_of_true (fun result h => ?_) trivial
    exact replaceRange_eq_ok_iff.mp h
  | searchReplace before after => exact searchReplace_exact_iff buf before after
  | boundedRegion anchor regionStart regionEnd replacement => exact boundedRegion_exact_iff hbuf hop.1 hop.2

/-- The anchor stands in the text and the region after it is replaced. -/
theorem apply_op_exact_after_anchor :
    (EditOp.boundedRegion "b".toList 1 2 "x".toList).Exact "abc".toList ↔
      (EditOp.boundedRegion "b".toList 1 2 "x".toList).Checked "abc".toList :=
  apply_op_exact_iff (by decide) ⟨by decide, by decide⟩

/-- A search text that overlaps itself stands at two places and is replaced at the first; an offset that wraps
around replaces what stands before the anchor. -/
theorem apply_op_overlap_and_wrap :
    (applyOp "aaa".toList (.searchReplace "aa".toList "x".toList) = .ok "xa".toList ∧
      OccursAt "aa".toList "aaa".toList [] ∧ OccursAt "aa".toList "aaa".toList "a".toList ∧
      ¬ (EditOp.searchReplace "aa".toList "x".toList).Exact "aaa".toList) ∧
    applyOp "abc".toList (.boundedRegion "b".toList (2 ^ 64 - 1) 0 "x".toList) = .ok "xbc".toList ∧
      ¬ (EditOp.boundedRegion "b".toList (2 ^ 64 - 1) 0 "x".toList).Exact "abc".toList := by
  have hfirst : OccursAt "aa".toList "aaa".toList [] := ⟨"a".toList, rfl⟩
  have hsecond : OccursAt "aa".toList "aaa".toList "a".toList := ⟨[], rfl⟩
  refine ⟨⟨rfl, hfirst, hsecond, ?_⟩, by decide +kernel, ?_⟩
  · rintro ⟨hiff, -⟩
    have hsame := (hiff.mp ⟨"xa".toList, rfl⟩).unique hfirst hsecond
    cases hsame
  · intro hexact
    obtain ⟨front, -, before, removed, after, hcut, hlen, -⟩ := hexact "xbc".toList (by decide +kernel)
    have htotal := congrArg byteLen hcut
    rw [show byteLen "abc".toList = 3 by decide, byteLen_append, byteLen_append] at htotal
    omega

end EditTxn
