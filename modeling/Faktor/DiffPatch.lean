/-
# The hunks lead from the old lines to the new

The events of a script show the old lines and the new lines in order.  The walk cuts them into hunks and the
stretches between them, and only context stands in those; so the hunks, applied to the old lines, give the new
ones.  The single hunk of the fallback does so as well, unless there are no old lines: it then names line 1
as the place to insert after.

* `Chain` : events cut into hunks and context;
* `walk_chain` : the walk cuts them so;
* `Chain.patches` : what such hunks do;
* `prefixSuffixHunk_patches_iff` : the single hunk.
-/
import Mathlib
import Faktor.DiffHunks
import Faktor.DiffScript

namespace Diff

open EditGraph TextBytes

section Events

variable {α : Type}

/-! ## The two sides of the events -/

/-- The old lines of a list of events. -/
def olds (evs : List (Ev α)) : List α := evs.filterMap fun ev => ev.line.old?

/-- The new lines of a list of events. -/
def news (evs : List (Ev α)) : List α := evs.filterMap fun ev => ev.line.new?

theorem olds_append (front evs : List (Ev α)) : olds (front ++ evs) = olds front ++ olds evs :=
  List.filterMap_append

theorem news_append (front evs : List (Ev α)) : news (front ++ evs) = news front ++ news evs :=
  List.filterMap_append

/-- An event is context exactly when it is on both sides; these are the sides of one event. -/
theorem olds_cons (ev : Ev α) (evs : List (Ev α)) :
    olds (ev :: evs) = if ev.kind = .add then olds evs else ev.text :: olds evs := by
  rw [olds, List.filterMap_cons]
  cases h : ev.kind <;> simp [Ev.line, h, DiffLine.old?, olds]

theorem news_cons (ev : Ev α) (evs : List (Ev α)) :
    news (ev :: evs) = if ev.kind = .del then news evs else ev.text :: news evs := by
  rw [news, List.filterMap_cons]
  cases h : ev.kind <;> simp [Ev.line, h, DiffLine.new?, news]

variable {evs : List (Ev α)}

/-- Context shows the same lines on both sides. -/
theorem olds_eq_news (h : ∀ ev ∈ evs, ev.kind = .ctx) : olds evs = news evs := by
  induction evs with
  | nil => rfl
  | cons ev evs ih =>
    have hev := h ev List.mem_cons_self
    rw [olds_cons, news_cons, hev, if_neg (by decide), if_neg (by decide),
      ih fun e he => h e (List.mem_cons_of_mem ev he)]

theorem countP_eq_length_olds (evs : List (Ev α)) : evs.countP (·.kind ≠ .add) = (olds evs).length := by
  induction evs with
  | nil => rfl
  | cons ev evs ih =>
    rw [List.countP_cons, ih, olds_cons]
    by_cases h : ev.kind = .add <;> simp [h]

/-- The old numbers of the events, when `n` old lines come before them. -/
def Numbered : ℕ → List (Ev α) → Prop
  | _, [] => True
  | n, ev :: evs => (ev.kind ≠ .add → ev.old = n + 1) ∧ Numbered (if ev.kind = .add then n else n + 1) evs

variable {n : ℕ} {front : List (Ev α)}

theorem Numbered.of_append (h : Numbered n (front ++ evs)) :
    Numbered (n + (olds front).length) evs := by
  induction front generalizing n with
  | nil => exact h
  | cons ev front ih =>
    have hrest := ih h.2
    rw [olds_cons]
    by_cases hadd : ev.kind = .add
    · rwa [if_pos hadd] at hrest ⊢
    · rw [if_neg hadd] at hrest ⊢
      rwa [List.length_cons, Nat.add_comm _ 1, ← Nat.add_assoc]

theorem Numbered.append_left (h : Numbered n (front ++ evs)) :
    Numbered n front := by
  induction front generalizing n with
  | nil => trivial
  | cons ev front ih => exact ⟨h.1, ih h.2⟩

theorem Numbered.append (h : Numbered n front) (hrest : Numbered (n + (olds front).length) evs) :
    Numbered n (front ++ evs) := by
  induction front generalizing n with
  | nil => exact hrest
  | cons ev front ih =>
    refine ⟨h.1, ih h.2 ?_⟩
    rw [olds_cons] at hrest
    by_cases hadd : ev.kind = .add
    · rwa [if_pos hadd] at hrest ⊢
    · rw [if_neg hadd] at hrest ⊢
      rwa [List.length_cons, Nat.add_comm _ 1, ← Nat.add_assoc] at hrest

/-- The first event on the old side carries the next number. -/
theorem Numbered.find_old (h : Numbered n evs) :
    ((evs.find? (·.kind ≠ .add)).map Ev.old).getD 0 = if olds evs = [] then 0 else n + 1 := by
  induction evs with
  | nil => rfl
  | cons ev evs ih =>
    rw [olds_cons]
    by_cases hadd : ev.kind = .add
    · have hrest := h.2
      rw [if_pos hadd] at hrest
      rw [List.find?_cons_of_neg (by simp [hadd]), ih hrest, if_pos hadd]
    · rw [List.find?_cons_of_pos (by simp [hadd]), if_neg hadd, if_neg (List.cons_ne_nil _ _)]
      exact h.1 hadd

/-! ## Chains of hunks -/

/-- `Chain front rest hunks` : after the events `front`, the events `rest` are cut into the hunks and the
context between them.  A hunk that shows no old line stands at the very start. -/
inductive Chain : List (Ev α) → List (Ev α) → List (DiffHunk α) → Prop
  | nil {front gap : List (Ev α)} : (∀ ev ∈ gap, ev.kind = .ctx) → Chain front gap []
  | cons {front gap slice rest : List (Ev α)} {hunks : List (DiffHunk α)} :
      (∀ ev ∈ gap, ev.kind = .ctx) → (front ++ gap = [] ∨ olds slice ≠ []) →
      Chain (front ++ gap ++ slice) rest hunks →
      Chain front (gap ++ slice ++ rest) (hunkOf slice :: hunks)

theorem hunkOf_oldSide (slice : List (Ev α)) : (hunkOf slice).oldSide = olds slice := by
  rw [DiffHunk.oldSide, hunkOf, List.filterMap_map]
  rfl

theorem hunkOf_newSide (slice : List (Ev α)) : (hunkOf slice).newSide = news slice := by
  rw [DiffHunk.newSide, hunkOf, List.filterMap_map]
  rfl

theorem hunkOf_oldCount (slice : List (Ev α)) : (hunkOf slice).oldCount = (olds slice).length :=
  countP_eq_length_olds slice

theorem hunkOf_oldStart {slice : List (Ev α)} (h : Numbered n slice) :
    (hunkOf slice).oldStart = if olds slice = [] then 0 else n + 1 := h.find_old

theorem hunkOf_skips {slice : List (Ev α)} (hnum : Numbered (olds front).length slice)
    (hplace : front = [] ∨ olds slice ≠ []) : (hunkOf slice).skips = some (olds front).length := by
  rw [DiffHunk.skips, hunkOf_oldCount, hunkOf_oldStart hnum]
  by_cases hold : olds slice = []
  · rcases hplace with rfl | hne
    · rw [hold]
      rfl
    · exact absurd hold hne
  · rw [if_neg hold, if_neg (by simpa using hold), if_neg (Nat.succ_ne_zero _)]
    rfl

variable {rest : List (Ev α)} {hunks : List (DiffHunk α)}

section

variable (h : Chain front rest hunks) (hnum : Numbered 0 (front ++ rest))
include h hnum

theorem Chain.applied :
    applyHunks (olds (front ++ rest)) (olds front).length hunks = some (news rest) := by
  induction h with
  | @nil front gap hgap =>
    rw [applyHunks, olds_append, List.drop_left, olds_eq_news hgap]
  | @cons front gap slice rest hunks hgap hplace _ ih =>
    rw [show front ++ (gap ++ slice ++ rest) = front ++ gap ++ slice ++ rest by simp] at hnum ⊢
    have hrest := ih hnum
    have hskips : (hunkOf slice).skips = some (olds (front ++ gap)).length := by
      refine hunkOf_skips ?_ hplace
      simpa using hnum.append_left.of_append
    have hlen : (olds (front ++ gap)).length + (olds slice).length = (olds (front ++ gap ++ slice)).length := by
      rw [olds_append (front ++ gap), List.length_append]
    have hgap' : ((olds (front ++ gap ++ slice ++ rest)).drop (olds front).length).take
        ((olds (front ++ gap)).length - (olds front).length) = news gap := by
      simp only [List.append_assoc, olds_append, List.length_append, List.drop_left, Nat.add_sub_cancel_left,
        List.take_left]
      exact olds_eq_news hgap
    rw [applyHunks, hskips, Option.bind_eq_bind, Option.bind_some, hunkOf_oldCount, if_pos, hlen, hrest, hgap',
      hunkOf_newSide, news_append, news_append]
    · rfl
    · rw [hlen, olds_append _ rest, olds_append front gap, List.length_append, List.length_append]
      exact ⟨Nat.le_add_right _ _, Nat.le_add_right _ _⟩

/-- What a hunk of a chain shows stands where it says. -/
theorem Chain.matched :
    ∀ hunk ∈ hunks, ∃ start, hunk.skips = some start ∧ hunk.oldSide.length = hunk.oldCount ∧
      ((olds (front ++ rest)).drop start).take hunk.oldCount = hunk.oldSide := by
  induction h with
  | nil => exact fun _ hmem => absurd hmem List.not_mem_nil
  | @cons front gap slice rest hunks _ hplace _ ih =>
    rw [show front ++ (gap ++ slice ++ rest) = front ++ gap ++ slice ++ rest by simp] at hnum ⊢
    intro hunk hmem
    rcases List.mem_cons.mp hmem with rfl | hmem
    · refine ⟨(olds (front ++ gap)).length, hunkOf_skips ?_ hplace, ?_, ?_⟩
      · simpa using hnum.append_left.of_append
      · rw [hunkOf_oldSide, hunkOf_oldCount]
      · rw [hunkOf_oldCount, hunkOf_oldSide, List.append_assoc _ slice, olds_append (front ++ gap), List.drop_left,
          olds_append, List.take_left]
    · exact ih hnum hunk hmem

/-- A hunk of a chain starts after the events before it, or is an insertion at the very start. -/
theorem Chain.start :
    ∀ hunk ∈ hunks, (olds front).length < hunk.oldStart ∨ front = [] := by
  induction h with
  | nil => exact fun _ hmem => absurd hmem List.not_mem_nil
  | @cons front gap slice rest hunks _ hplace _ ih =>
    rw [show front ++ (gap ++ slice ++ rest) = front ++ gap ++ slice ++ rest by simp] at hnum
    intro hunk hmem
    rcases List.mem_cons.mp hmem with rfl | hmem
    · rcases hplace with hstart | hne
      · exact .inr (List.append_eq_nil_iff.mp hstart).1
      · have hnumbered : Numbered (olds (front ++ gap)).length slice := by
          simpa using hnum.append_left.of_append
        rw [hunkOf_oldStart hnumbered, if_neg hne, olds_append, List.length_append]
        exact .inl (by omega)
    · rcases ih hnum hunk hmem with hlt | hnil
      · rw [olds_append, olds_append, List.length_append, List.length_append] at hlt
        exact .inl (by omega)
      · simp only [List.append_eq_nil_iff] at hnil
        exact .inr hnil.1.1

theorem Chain.ordered :
    hunks.Pairwise fun hunk hunk' => hunk.oldStart + hunk.oldCount ≤ hunk'.oldStart := by
  induction h with
  | nil => exact .nil
  | @cons front gap slice rest hunks _ hplace hchain ih =>
    rw [show front ++ (gap ++ slice ++ rest) = front ++ gap ++ slice ++ rest by simp] at hnum
    refine List.pairwise_cons.mpr ⟨fun hunk' hmem => ?_, ih hnum⟩
    have hnumbered : Numbered (olds (front ++ gap)).length slice := by
      simpa using hnum.append_left.of_append
    rw [hunkOf_oldStart hnumbered, hunkOf_oldCount]
    rcases hchain.start hnum hunk' hmem with hlt | hnil
    · rw [olds_append _ slice, List.length_append] at hlt
      split
      · omega
      · omega
    · rw [List.append_eq_nil_iff] at hnil
      rw [hnil.2]
      exact Nat.zero_le _

end

/-! ## The walk -/

/-- From `lo` to before `hi` the events are context. -/
def CtxOn (evs : List (Ev α)) (lo hi : ℕ) : Prop :=
  ∀ i ev, lo ≤ i → i < hi → evs[i]? = some ev → ev.kind = .ctx

variable {lo hi : ℕ}

theorem CtxOn.mem_slice (h : CtxOn evs lo hi) :
    ∀ ev ∈ (evs.drop lo).take (hi - lo), ev.kind = .ctx := by
  intro ev hev
  obtain ⟨i, hi', hget⟩ := List.getElem_of_mem hev
  rw [List.length_take, List.length_drop] at hi'
  rw [List.getElem_take, List.getElem_drop] at hget
  exact h (lo + i) ev (by omega) (by omega) (List.getElem?_eq_some_iff.mpr ⟨by omega, hget⟩)

/-- The next hunk of a chain, by its places. -/
theorem chain_cons {pos s e : ℕ} (hpos : pos ≤ s) (hse : s ≤ e) (he : e < evs.length)
    (hgap : CtxOn evs pos s) (hplace : s = 0 ∨ CtxOn evs s (s + 1))
    (hrest : Chain (evs.take (e + 1)) (evs.drop (e + 1)) hunks) :
    Chain (evs.take pos) (evs.drop pos) (buildHunk evs s e :: hunks) := by
  have hfront : evs.take pos ++ (evs.drop pos).take (s - pos) = evs.take s := by
    rw [← List.take_add, show pos + (s - pos) = s by omega]
  have hslice : evs.take s ++ (evs.drop s).take (e + 1 - s) = evs.take (e + 1) := by
    rw [← List.take_add, show s + (e + 1 - s) = e + 1 by omega]
  have hcut : evs.drop pos
      = (evs.drop pos).take (s - pos) ++ (evs.drop s).take (e + 1 - s) ++ evs.drop (e + 1) := by
    apply @List.append_cancel_left _ (evs.take pos)
    rw [List.take_append_drop, ← List.append_assoc, ← List.append_assoc, hfront, hslice, List.take_append_drop]
  rw [hcut, buildHunk]
  refine .cons hgap.mem_slice ?_ ?_
  · rw [hfront]
    rcases hplace with rfl | hctx
    · exact .inl rfl
    · have hs : s < evs.length := by omega
      have hkind := hctx s evs[s] le_rfl (Nat.lt_succ_self s) (List.getElem?_eq_getElem hs)
      refine .inr ?_
      rw [List.drop_eq_getElem_cons hs, show e + 1 - s = e - s + 1 by omega, List.take_succ_cons, olds_cons, hkind,
        if_neg (by decide)]
      exact List.cons_ne_nil _ _
  · rw [hfront, hslice]
    exact hrest

variable {i : ℕ}

theorem CtxOn.extend {ev : Ev α} (h : CtxOn evs lo i) (hget : evs[i]? = some ev) (hctx : ev.kind = .ctx) :
    CtxOn evs lo (i + 1) := by
  intro j ev' hlo hj hget'
  rcases Nat.lt_succ_iff_lt_or_eq.mp hj with hj | rfl
  · exact h j ev' hlo hj hget'
  · rw [hget, Option.some.injEq] at hget'
    exact hget' ▸ hctx

theorem CtxOn.mono {lo' hi' : ℕ} (h : CtxOn evs lo hi) (hlo : lo ≤ lo') (hhi : hi' ≤ hi) :
    CtxOn evs lo' hi' := fun i ev hi₁ hi₂ => h i ev (hlo.trans hi₁) (lt_of_lt_of_le hi₂ hhi)

/-- The walk with an open hunk from `s` on, whose last change is at `last`. -/
theorem walk_open {evs rest : List (Ev α)} {pos s last i : ℕ} (hdrop : evs.drop i = rest) (hpos : pos ≤ s)
    (hs : s ≤ last) (hlast : last < i) (hi : i ≤ evs.length) (hgap : CtxOn evs pos s)
    (hplace : s = 0 ∨ CtxOn evs s (s + 1)) (hsince : CtxOn evs (last + 1) i) :
    Chain (evs.take pos) (evs.drop pos)
      (walk evs rest i (some (s, min (last + DIFF_CONTEXT_LINES) (evs.length - 1))) last) := by
  induction rest generalizing pos s last i with
  | nil =>
    rw [List.drop_eq_nil_iff] at hdrop
    rw [walk]
    refine chain_cons hpos (by simp only [DIFF_CONTEXT_LINES]; omega) (by omega) hgap hplace (.nil ?_)
    intro ev hev
    obtain ⟨j, hj, hget⟩ := List.getElem_of_mem hev
    rw [List.length_drop] at hj
    rw [List.getElem_drop] at hget
    simp only [DIFF_CONTEXT_LINES] at hj hget
    exact hsince _ ev (by omega) (by omega) (List.getElem?_eq_some_iff.mpr ⟨by omega, hget⟩)
  | cons ev rest ih =>
    have hlt : i < evs.length := by
      by_contra hge
      rw [List.drop_eq_nil_iff.mpr (by omega)] at hdrop
      cases hdrop
    rw [List.drop_eq_getElem_cons hlt, List.cons.injEq] at hdrop
    have hget : evs[i]? = some ev := List.getElem?_eq_some_iff.mpr ⟨hlt, hdrop.1⟩
    rw [walk]
    by_cases hctx : ev.kind = .ctx
    · rw [if_pos hctx]
      exact ih hdrop.2 hpos hs (by omega) hlt hgap hplace (hsince.extend hget hctx)
    · rw [if_neg hctx]
      have hempty : CtxOn evs (i + 1) (i + 1) := fun j _ h₁ h₂ => by omega
      by_cases hnear : i - last ≤ 2 * DIFF_CONTEXT_LINES
      · simp only [hnear, if_true]
        exact ih hdrop.2 hpos (by omega) (Nat.lt_succ_self i) hlt hgap hplace hempty
      · -- more than six lines on, the open hunk ends before the next one starts
        simp only [hnear, if_false]
        simp only [DIFF_CONTEXT_LINES] at hnear ⊢
        rw [show min (last + 3) (evs.length - 1) = last + 3 by omega]
        refine chain_cons hpos (by omega) (by omega) hgap hplace ?_
        exact ih hdrop.2 (by omega) (by omega) (Nat.lt_succ_self i) hlt (hsince.mono (by omega) (by omega))
          (.inr (hsince.mono (by omega) (by omega))) hempty

/-- The walk before the first change. -/
theorem walk_closed {evs rest : List (Ev α)} {last i : ℕ} (hdrop : evs.drop i = rest) (hbefore : CtxOn evs 0 i) :
    Chain [] evs (walk evs rest i none last) := by
  induction rest generalizing i with
  | nil =>
    rw [List.drop_eq_nil_iff] at hdrop
    refine .nil fun ev hev => ?_
    obtain ⟨j, hj, hget⟩ := List.getElem_of_mem hev
    exact hbefore j ev (Nat.zero_le j) (by omega) (List.getElem?_eq_some_iff.mpr ⟨hj, hget⟩)
  | cons ev rest ih =>
    have hlt : i < evs.length := by
      by_contra hge
      rw [List.drop_eq_nil_iff.mpr (by omega)] at hdrop
      cases hdrop
    rw [List.drop_eq_getElem_cons hlt, List.cons.injEq] at hdrop
    have hget : evs[i]? = some ev := List.getElem?_eq_some_iff.mpr ⟨hlt, hdrop.1⟩
    rw [walk]
    by_cases hctx : ev.kind = .ctx
    · rw [if_pos hctx]
      exact ih hdrop.2 (hbefore.extend hget hctx)
    · rw [if_neg hctx]
      have hplace : i - DIFF_CONTEXT_LINES = 0 ∨
          CtxOn evs (i - DIFF_CONTEXT_LINES) (i - DIFF_CONTEXT_LINES + 1) := by
        rcases Nat.eq_zero_or_pos (i - DIFF_CONTEXT_LINES) with h | h
        · exact .inl h
        · simp only [DIFF_CONTEXT_LINES] at h ⊢
          exact .inr (hbefore.mono (Nat.zero_le _) (by omega))
      exact @walk_open _ _ _ 0 _ _ _ hdrop.2 (Nat.zero_le _) (Nat.sub_le _ _) (Nat.lt_succ_self i) hlt
        (hbefore.mono le_rfl (Nat.sub_le _ _)) hplace fun j _ h₁ h₂ => by omega

/-! ## The events of a script -/

variable {a : List α}

theorem readAt_of_drop {rest : List α} {line : α} (h : a.drop i = line :: rest) :
    readAt a i = .ok line ∧ a.drop (i + 1) = rest := by
  have hlt : i < a.length := by
    by_contra hge
    rw [List.drop_eq_nil_iff.mpr (by omega)] at h
    cases h
  rw [List.drop_eq_getElem_cons hlt, List.cons.injEq] at h
  refine ⟨readAt_eq ?_, h.2⟩
  rw [itemAt_natCast, List.getElem?_eq_some_iff]
  exact ⟨hlt, h.1⟩

theorem expandRun_spec {run rest : List α} {ai : ℕ} (bi : ℕ) (h : a.drop ai = run ++ rest) :
    ∃ evs, expandRun a run.length ai bi = .ok evs ∧ olds evs = run ∧ news evs = run ∧ Numbered ai evs ∧
      a.drop (ai + run.length) = rest := by
  induction run generalizing ai bi with
  | nil => exact ⟨[], rfl, rfl, rfl, trivial, h⟩
  | cons line run ih =>
    obtain ⟨hread, hdrop⟩ := readAt_of_drop h
    obtain ⟨evs, hevs, hold, hnew, hnum, hrest⟩ := ih (bi + 1) hdrop
    refine ⟨⟨.ctx, ai + 1, bi + 1, line⟩ :: evs, ?_, ?_, ?_, ⟨fun _ => rfl, hnum⟩, ?_⟩
    · rw [List.length_cons, expandRun, hread, hevs]
      rfl
    · rw [olds_cons, if_neg (by simp), hold]
    · rw [news_cons, if_neg (by simp), hnew]
    · rw [← hrest, List.length_cons, Nat.add_right_comm, Nat.add_assoc]

/-- The events of a script show both lists in order, with the old numbers. -/
theorem expand_spec {a b restA restB : List α} {ops : List (Op α)} (h : Transforms ops restA restB) :
    ∀ {ai bi : ℕ}, a.drop ai = restA → b.drop bi = restB →
      ∃ evs, expand a b ai bi ops = .ok evs ∧ olds evs = restA ∧ news evs = restB ∧ Numbered ai evs := by
  induction h with
  | nil => exact fun _ _ => ⟨[], rfl, rfl, rfl, trivial⟩
  | @eq run ops restA restB _ ih =>
    intro ai bi ha hb
    obtain ⟨front, hfront, hold, hnew, hnum, ha'⟩ := expandRun_spec bi ha
    have hb' : b.drop (bi + run.length) = restB := by
      rw [← List.drop_drop, hb, List.drop_left]
    obtain ⟨evs, hevs, hold', hnew', hnum'⟩ := ih ha' hb'
    refine ⟨front ++ evs, ?_, by rw [olds_append, hold, hold'], by rw [news_append, hnew, hnew'], ?_⟩
    · rw [expand, hfront]
      simp only [bind, Except.bind, hevs, pure, Except.pure]
    · exact hnum.append (by rwa [hold])
  | @del line ops restA restB _ ih =>
    intro ai bi ha hb
    obtain ⟨hread, ha'⟩ := readAt_of_drop ha
    obtain ⟨evs, hevs, hold, hnew, hnum⟩ := ih ha' hb
    refine ⟨⟨.del, ai + 1, 0, line⟩ :: evs, ?_, ?_, ?_, fun _ => rfl, hnum⟩
    · rw [expand, hread]
      simp only [bind, Except.bind, hevs, pure, Except.pure]
    · rw [olds_cons, if_neg (by simp), hold]
    · rw [news_cons, if_pos rfl, hnew]
  | @ins line ops restA restB _ ih =>
    intro ai bi ha hb
    obtain ⟨hread, hb'⟩ := readAt_of_drop hb
    obtain ⟨evs, hevs, hold, hnew, hnum⟩ := ih ha hb'
    refine ⟨⟨.add, 0, bi + 1, line⟩ :: evs, ?_, ?_, ?_, fun hadd => absurd rfl hadd, hnum⟩
    · rw [expand, hread]
      simp only [bind, Except.bind, hevs, pure, Except.pure]
    · rw [olds_cons, if_pos rfl, hold]
    · rw [news_cons, if_neg (by simp), hnew]

/-- **The hunks of a script** lead from the old lines to the new. -/
theorem hunksFromOps_patches {b : List α} {ops : List (Op α)} (h : Transforms ops a b) :
    ∃ hunks, hunksFromOps a b ops = .ok hunks ∧ Patches a b hunks := by
  obtain ⟨evs, hevs, hold, hnew, hnum⟩ := @expand_spec _ _ _ _ _ _ h 0 0 rfl rfl
  have hchain := @walk_closed _ evs evs 0 _ List.drop_zero fun i _ _ hi => absurd hi (Nat.not_lt_zero i)
  refine ⟨walk evs evs 0 none 0, ?_, ?_, hchain.ordered hnum, ?_⟩
  · rw [hunksFromOps, hevs]
    rfl
  · rw [← hold, ← hnew]
    exact hchain.applied hnum
  · rw [← hold]
    exact hchain.matched hnum

end Events

/-! ## The single hunk -/

section PrefixSuffix

variable {α : Type}

theorem countP_old (lines : List (DiffLine α)) :
    (lines.countP fun l => match l with | .context _ | .removed _ => true | .added _ => false)
      = (lines.filterMap DiffLine.old?).length := by
  induction lines with
  | nil => rfl
  | cons l lines ih =>
    rw [List.countP_cons, ih, List.filterMap_cons]
    cases l <;> rfl

/-- One hunk that stands where its old lines are. -/
theorem patches_single {front oldMid newMid back : List α} {h : DiffHunk α} (hold : h.oldSide = oldMid)
    (hnew : h.newSide = newMid) (hcount : h.oldCount = oldMid.length) (hskips : h.skips = some front.length) :
    Patches (front ++ oldMid ++ back) (front ++ newMid ++ back) [h] where
  applied := by
    rw [applyHunks, hskips, Option.bind_eq_bind, Option.bind_some, applyHunks, hcount, hnew, if_pos]
    · simp
    · simp
  ordered := List.pairwise_singleton _ _
  matched := by
    intro h' hmem
    obtain rfl := List.mem_singleton.mp hmem
    refine ⟨front.length, hskips, by rw [hold, hcount], ?_⟩
    rw [hold, hcount, List.append_assoc, List.drop_left, List.take_left]

variable [DecidableEq α]

theorem take_takeWhile_zip (a b : List α) :
    let front := ((a.zip b).takeWhile fun (x, y) => x = y).length
    front ≤ a.length ∧ front ≤ b.length ∧ a.take front = b.take front := by
  induction a generalizing b with
  | nil => simp
  | cons x a ih =>
    cases b with
    | nil => simp
    | cons y b =>
      by_cases hxy : x = y
      · obtain ⟨ha, hb, htake⟩ := ih b
        simp only [List.zip_cons_cons, List.takeWhile_cons, hxy, decide_true, if_true, List.length_cons,
          List.take_succ_cons] at *
        exact ⟨by omega, by omega, by rw [htake]⟩
      · simp [hxy]

theorem commonSuffix_spec {a b : List α} {front suffix : ℕ} (hfa : front ≤ a.length) (hfb : front ≤ b.length)
    (ha : suffix ≤ a.length - front) (hb : suffix ≤ b.length - front)
    (heq : a.drop (a.length - suffix) = b.drop (b.length - suffix)) :
    commonSuffix a b front suffix ≤ a.length - front ∧ commonSuffix a b front suffix ≤ b.length - front ∧
      a.drop (a.length - commonSuffix a b front suffix) = b.drop (b.length - commonSuffix a b front suffix) := by
  induction suffix using commonSuffix.induct a b front with
  | case1 suffix h hline ih =>
    rw [commonSuffix, dif_pos h, if_pos hline]
    refine ih (by omega) (by omega) ?_
    rw [show a.length - (suffix + 1) = a.length - 1 - suffix by omega,
      show b.length - (suffix + 1) = b.length - 1 - suffix by omega, List.drop_eq_getElem_cons (by omega),
      List.drop_eq_getElem_cons (l := b) (by omega), hline,
      show a.length - 1 - suffix + 1 = a.length - suffix by omega,
      show b.length - 1 - suffix + 1 = b.length - suffix by omega, heq]
  | case2 suffix h hline =>
    rw [commonSuffix, dif_pos h, if_neg hline]
    exact ⟨ha, hb, heq⟩
  | case3 suffix h =>
    rw [commonSuffix, dif_neg h]
    exact ⟨ha, hb, heq⟩

omit [DecidableEq α] in
theorem filterMap_old_shown (c r d e : List α) :
    (c.map DiffLine.context ++ r.map DiffLine.removed ++ d.map DiffLine.added ++ e.map DiffLine.context).filterMap DiffLine.old?
      = c ++ r ++ e := by
  simp [List.filterMap_append, List.filterMap_map, Function.comp_def, DiffLine.old?]

omit [DecidableEq α] in
theorem filterMap_new_shown (c r d e : List α) :
    (c.map DiffLine.context ++ r.map DiffLine.removed ++ d.map DiffLine.added ++ e.map DiffLine.context).filterMap DiffLine.new?
      = c ++ d ++ e := by
  simp [List.filterMap_append, List.filterMap_map, Function.comp_def, DiffLine.new?]

variable {a b : List α}

/-- Where the single hunk stands, and the lines it replaces. -/
theorem prefixSuffixHunk_cut (hne : a ≠ b) :
    ∃ front oldMid newMid back : List α, a = front ++ oldMid ++ back ∧ b = front ++ newMid ++ back ∧
      (prefixSuffixHunk a b).oldSide = oldMid ∧ (prefixSuffixHunk a b).newSide = newMid ∧
      (prefixSuffixHunk a b).oldCount = oldMid.length ∧ (prefixSuffixHunk a b).oldStart = front.length + 1 ∧
      (oldMid = [] → a = []) := by
  obtain ⟨hfa, hfb, htake⟩ := take_takeWhile_zip a b
  have hcount : (prefixSuffixHunk a b).oldCount = (prefixSuffixHunk a b).oldSide.length := by
    rw [prefixSuffixHunk, if_neg hne]
    exact countP_old _
  rw [hcount]
  simp only [prefixSuffixHunk, if_neg hne, DiffHunk.oldSide, DiffHunk.newSide, filterMap_old_shown,
    filterMap_new_shown]
  generalize ((a.zip b).takeWhile fun (x, y) => x = y).length = front at hfa hfb htake ⊢
  obtain ⟨hsa, hsb, hdrop⟩ := @commonSuffix_spec _ _ _ _ _ 0 hfa hfb (Nat.zero_le _) (Nat.zero_le _) (by simp)
  generalize commonSuffix a b front 0 = suffix at hsa hsb hdrop ⊢
  generalize hctx : front - DIFF_CONTEXT_LINES = ctx
  generalize hshown : min (b.length - suffix + DIFF_CONTEXT_LINES) b.length - (b.length - suffix) = shown
  have hfront : a.take ctx ++ (a.drop ctx).take (front - ctx) = a.take front := by
    rw [← List.take_add, show ctx + (front - ctx) = front by omega]
  refine ⟨a.take ctx, _, _, (b.drop (b.length - suffix)).drop shown, ?_, ?_, rfl, rfl, rfl, ?_, ?_⟩
  · rw [← List.append_assoc, ← List.append_assoc, hfront, ← List.take_add,
      show front + (a.length - suffix - front) = a.length - suffix by omega, List.append_assoc,
      List.take_append_drop, ← hdrop, List.take_append_drop]
  · rw [← List.append_assoc, ← List.append_assoc, hfront, htake, ← List.take_add,
      show front + (b.length - suffix - front) = b.length - suffix by omega, List.append_assoc,
      List.take_append_drop, List.take_append_drop]
  · rw [List.length_take]
    omega
  · -- no old line is shown only where there is none: neither context nor a removed line is left
    intro hnil
    have hlen := congrArg List.length hnil
    simp only [List.length_append, List.length_take, List.length_drop, List.length_nil, DIFF_CONTEXT_LINES]
      at hlen hctx hshown
    exact List.length_eq_zero_iff.mp (by omega)

/-- **The single hunk** leads from the old lines to the new exactly when there are old lines. -/
theorem prefixSuffixHunk_patches_iff (hne : a ≠ b) :
    Patches a b [prefixSuffixHunk a b] ↔ a ≠ [] := by
  obtain ⟨front, oldMid, newMid, back, ha, hb, hold, hnew, hcount, hstart, hnil⟩ := prefixSuffixHunk_cut hne
  constructor
  · rintro hpatch rfl
    -- line 1 of an empty list is not there to insert after
    have hmid : oldMid = [] := by
      have := congrArg List.length ha
      simp only [List.length_nil, List.length_append] at this
      exact List.length_eq_zero_iff.mp (by omega)
    have happlied := hpatch.applied
    rw [applyHunks, DiffHunk.skips, if_pos (by rw [hcount, hmid]; rfl), Option.bind_eq_bind, Option.bind_some,
      if_neg (by rw [hstart, List.length_nil]; omega)] at happlied
    cases happlied
  · intro hne'
    have hskips : (prefixSuffixHunk a b).skips = some front.length := by
      rw [DiffHunk.skips, if_neg, if_neg, hstart, Nat.add_sub_cancel]
      · omega
      · rw [hcount, List.length_eq_zero_iff]
        exact fun h => hne' (hnil h)
    have hpatch := @patches_single _ front _ _ back _ hold hnew hcount hskips
    rwa [← ha, ← hb] at hpatch

end PrefixSuffix

/-! ## The whole diff -/

/-- Past the number of edits of the search, the diff is the single hunk. -/
theorem diffHunks_eq_prefixSuffix {before after : Text}
    (hbytes : ¬ (MAX_DIFF_BYTES < byteLen before ∨ MAX_DIFF_BYTES < byteLen after))
    (hlines : ¬ (MAX_DIFF_LINES < (splitLines before).length ∨ MAX_DIFF_LINES < (splitLines after).length))
    (hfar : 2828 + 2 * lcs (splitLines before) (splitLines after)
      < (splitLines before).length + (splitLines after).length) :
    splitLines before ≠ splitLines after ∧
      diffHunks before after
        = .ok ⟨[prefixSuffixHunk (splitLines before) (splitLines after)], .prefixSuffix⟩ := by
  generalize ha : splitLines before = a at hlines hfar
  generalize hb : splitLines after = b at hlines hfar
  constructor
  · rintro rfl
    have := length_le_lcs (List.Sublist.refl a) (List.Sublist.refl a)
    omega
  · obtain ⟨res, hres, hnone, -⟩ := @editScriptWithin_spec _ _ dCap (by rw [dCap_eq]; decide) a b
    rw [hnone.mpr (by rw [dCap_eq]; exact hfar), ← myersEditScript] at hres
    rw [diffHunks, if_neg hbytes, ha, hb]
    simp only [if_neg hlines, hres]
    rfl

/-- Where the diff of two texts is not coarse, its hunks lead from the old lines to the new, unless the old text
has no line and the new one more lines than the search has edits. -/
theorem diff_hunks_patches_iff (before after : Text) :
    ∃ outcome, diffHunks before after = .ok outcome ∧
      (outcome.mode ≠ .coarse →
        (Patches (splitLines before) (splitLines after) outcome.hunks ↔
          ¬ (splitLines before = [] ∧ 2828 < (splitLines after).length))) := by
  by_cases hbytes : MAX_DIFF_BYTES < byteLen before ∨ MAX_DIFF_BYTES < byteLen after
  · refine ⟨coarse before after, ?_, fun h => absurd rfl h⟩
    rw [diffHunks, if_pos hbytes]
  by_cases hlines : MAX_DIFF_LINES < (splitLines before).length ∨ MAX_DIFF_LINES < (splitLines after).length
  · refine ⟨coarse before after, ?_, fun h => absurd rfl h⟩
    rw [diffHunks, if_neg hbytes]
    exact if_pos hlines
  by_cases hfar : 2828 + 2 * lcs (splitLines before) (splitLines after)
      < (splitLines before).length + (splitLines after).length
  · obtain ⟨hne, hdiff⟩ := diffHunks_eq_prefixSuffix hbytes hlines hfar
    refine ⟨_, hdiff, fun _ => (prefixSuffixHunk_patches_iff hne).trans ?_⟩
    constructor
    · exact fun ha h => ha h.1
    · intro hnot hnil
      rw [hnil] at hfar
      simp only [lcs, List.length_nil] at hfar
      exact hnot ⟨hnil, by omega⟩
  · rw [diffHunks, if_neg hbytes]
    generalize splitLines before = a at hlines hfar ⊢
    generalize splitLines after = b at hlines hfar ⊢
    obtain ⟨res, hres, hnone, hsome⟩ := @editScriptWithin_spec _ _ dCap (by rw [dCap_eq]; decide) a b
    rw [← myersEditScript] at hres
    rw [dCap_eq] at hnone
    obtain ⟨ops, rfl⟩ := Option.ne_none_iff_exists'.mp (mt hnone.mp hfar)
    obtain ⟨hunks, hhunks, hpatch⟩ := hunksFromOps_patches (hsome ops rfl).1
    refine ⟨⟨hunks, .myers⟩, ?_, fun _ => iff_of_true hpatch ?_⟩
    · simp only [if_neg hlines, hres, bind, Except.bind, hhunks, pure, Except.pure]
    · rintro ⟨rfl, hlen⟩
      simp only [lcs, List.length_nil] at hfar
      omega

theorem splitOn_replicate (n : ℕ) : (List.replicate n '\n').splitOn '\n' = List.replicate (n + 1) [] := by
  induction n with
  | zero => rfl
  | succ n ih =>
    rw [List.replicate_succ, List.splitOn_cons_eq_if_modifyHead, if_pos (by decide), ih]
    rfl

theorem splitLines_replicate (n : ℕ) : splitLines (List.replicate n '\n') = List.replicate n [] := by
  rw [splitLines, splitOn_replicate]
  simp [List.getLast?_replicate]

/-- 2829 empty lines are added to a text without a line: the hunk says to insert them after line 1. -/
theorem diff_hunks_into_empty :
    ∃ outcome, diffHunks [] (List.replicate 2829 '\n') = .ok outcome ∧ outcome.mode = .prefixSuffix ∧
      (outcome.hunks.map fun h => (h.oldStart, h.oldCount)) = [(1, 0)] ∧
      ¬ Patches (splitLines []) (splitLines (List.replicate 2829 '\n')) outcome.hunks := by
  have hold : splitLines [] = [] := splitLines_replicate 0
  have hnew := splitLines_replicate 2829
  have hbytes : byteLen (List.replicate 2829 '\n') = 2829 := by
    rw [byteLen, List.map_replicate, List.sum_replicate]
    decide
  obtain ⟨hne, hdiff⟩ := @diffHunks_eq_prefixSuffix [] (List.replicate 2829 '\n')
    (by rw [hbytes, MAX_DIFF_BYTES]; simp) (by rw [hold, hnew, List.length_replicate, MAX_DIFF_LINES]; simp)
    (by rw [hold, hnew, List.length_replicate]; simp [lcs])
  refine ⟨_, hdiff, rfl, ?_, ?_⟩
  · obtain ⟨front, oldMid, _, back, ha, -, -, -, hcount, hstart, -⟩ := prefixSuffixHunk_cut hne
    rw [hold] at ha
    have hlen := congrArg List.length ha
    simp only [List.length_nil, List.length_append] at hlen
    rw [List.map_singleton, hcount, hstart, show front.length = 0 by omega, show oldMid.length = 0 by omega]
  · rw [prefixSuffixHunk_patches_iff hne]
    exact fun h => h hold

end Diff
