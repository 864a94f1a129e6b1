/-
# The first occurrences of a list

`keepFirst` goes through a list and keeps an element the first time it stands there.  What it keeps has no
duplicates and holds every element of the list; it keeps the last element in its place exactly when nothing
is new after that element's first occurrence.
-/
import Mathlib

variable {α : Type*} [DecidableEq α]

/-- The elements of a list that are not in `seen`, each at its first occurrence. -/
def keepFirst : List α → List α → List α
  | _, [] => []
  | seen, a :: rest => if a ∈ seen then keepFirst seen rest else a :: keepFirst (a :: seen) rest

variable {seen l : List α}

theorem mem_keepFirst {a : α} : a ∈ keepFirst seen l ↔ a ∈ l ∧ a ∉ seen := by
  induction l generalizing seen with
  | nil => simp [keepFirst]
  | cons b rest ih =>
    rw [keepFirst]
    by_cases hb : b ∈ seen
    · rw [if_pos hb, ih, List.mem_cons]
      constructor
      · rintro ⟨ha, hseen⟩
        exact ⟨Or.inr ha, hseen⟩
      · rintro ⟨rfl | ha, hseen⟩
        · exact absurd hb hseen
        · exact ⟨ha, hseen⟩
    · rw [if_neg hb, List.mem_cons, ih, List.mem_cons, List.mem_cons]
      by_cases hab : a = b
      · subst hab
        exact ⟨fun _ => ⟨Or.inl rfl, hb⟩, fun _ => Or.inl rfl⟩
      · simp [hab]

theorem nodup_keepFirst (seen l : List α) : (keepFirst seen l).Nodup := by
  induction l generalizing seen with
  | nil => exact List.nodup_nil
  | cons b rest ih =>
    rw [keepFirst]
    split
    · exact ih seen
    · refine List.nodup_cons.mpr ⟨fun hb => ?_, ih (b :: seen)⟩
      exact (mem_keepFirst.mp hb).2 List.mem_cons_self

/-- A list without duplicates, none of them seen, is kept whole. -/
theorem keepFirst_eq_self (hnodup : l.Nodup) (hseen : ∀ a ∈ l, a ∉ seen) :
    keepFirst seen l = l := by
  induction l generalizing seen with
  | nil => rfl
  | cons b rest ih =>
    obtain ⟨hb, hrest⟩ := List.nodup_cons.mp hnodup
    rw [keepFirst, if_neg (hseen b List.mem_cons_self)]
    congr 1
    refine ih hrest fun a ha => ?_
    rw [List.mem_cons, not_or]
    exact ⟨fun hab => hb (hab ▸ ha), hseen a (List.mem_cons_of_mem b ha)⟩

theorem keepFirst_eq_nil : keepFirst seen l = [] ↔ ∀ a ∈ l, a ∈ seen := by
  rw [List.eq_nil_iff_forall_not_mem]
  constructor
  · intro h a ha
    by_contra hseen
    exact h a (mem_keepFirst.mpr ⟨ha, hseen⟩)
  · intro h a ha
    obtain ⟨hmem, hseen⟩ := mem_keepFirst.mp ha
    exact hseen (h a hmem)

/-- What is kept depends on the elements seen, not on their order. -/
theorem keepFirst_congr {seen' : List α} (h : ∀ a ∈ l, a ∈ seen ↔ a ∈ seen') :
    keepFirst seen l = keepFirst seen' l := by
  induction l generalizing seen seen' with
  | nil => rfl
  | cons b rest ih =>
    have hb := h b List.mem_cons_self
    have hrest : ∀ a ∈ rest, a ∈ seen ↔ a ∈ seen' := fun a ha => h a (List.mem_cons_of_mem b ha)
    rw [keepFirst, keepFirst]
    by_cases hseen : b ∈ seen
    · rw [if_pos hseen, if_pos (hb.mp hseen), ih hrest]
    · have hcons : ∀ a ∈ rest, a ∈ b :: seen ↔ a ∈ b :: seen' := fun a ha => by
        rw [List.mem_cons, List.mem_cons, hrest a ha]
      rw [if_neg hseen, if_neg (fun h' => hseen (hb.mpr h')), ih hcons]

theorem keepFirst_append (seen a b : List α) :
    keepFirst seen (a ++ b) = keepFirst seen a ++ keepFirst (a ++ seen) b := by
  induction a generalizing seen with
  | nil => rfl
  | cons c rest ih =>
    rw [List.cons_append, keepFirst, keepFirst]
    by_cases hc : c ∈ seen
    · rw [if_pos hc, if_pos hc, ih]
      congr 1
      refine keepFirst_congr fun x _ => ?_
      simp only [List.mem_append, List.mem_cons]
      constructor
      · tauto
      · rintro ((rfl | hx) | hx)
        · exact Or.inr hc
        · exact Or.inl hx
        · exact Or.inr hx
    · rw [if_neg hc, if_neg hc, ih, List.cons_append]
      congr 2
      refine keepFirst_congr fun x _ => ?_
      simp only [List.mem_append, List.mem_cons]
      tauto

/-- Keeping first occurrences and keeping the elements with a property commute. -/
theorem filter_keepFirst (p : α → Bool) (seen l : List α) :
    (keepFirst seen l).filter p = keepFirst seen (l.filter p) := by
  induction l generalizing seen with
  | nil => rfl
  | cons b rest ih =>
    by_cases hp : p b = true
    · rw [List.filter_cons_of_pos hp, keepFirst, keepFirst]
      by_cases hb : b ∈ seen
      · rw [if_pos hb, if_pos hb, ih]
      · rw [if_neg hb, if_neg hb, List.filter_cons_of_pos hp, ih]
    · rw [List.filter_cons_of_neg hp, keepFirst]
      by_cases hb : b ∈ seen
      · rw [if_pos hb, ih]
      · rw [if_neg hb, List.filter_cons_of_neg hp, ih]
        refine keepFirst_congr fun a ha => ?_
        have hab : a ≠ b := fun h => hp (h ▸ (List.mem_filter.mp ha).2)
        rw [List.mem_cons, or_iff_right hab]

/-- A list from the first occurrence of one of its elements on. -/
theorem exists_dropWhile_ne_eq_cons {u : α} (hu : u ∈ l) :
    ∃ post, l.dropWhile (· ≠ u) = u :: post := by
  induction l with
  | nil => cases hu
  | cons b rest ih =>
    by_cases hb : b = u
    · exact ⟨rest, by rw [List.dropWhile_cons, if_neg (by simpa using hb), hb]⟩
    · obtain ⟨post, hpost⟩ := ih ((List.mem_cons.mp hu).resolve_left (Ne.symm hb))
      exact ⟨post, by rw [List.dropWhile_cons, if_pos (by simpa using hb), hpost]⟩

theorem notMem_takeWhile_ne {u : α} : u ∉ l.takeWhile (· ≠ u) := by
  intro hu
  simpa using List.mem_takeWhile_imp hu

/-- **The last element stays last** exactly when every element after its first occurrence is the element
itself or stood before it. -/
theorem getLast?_keepFirst :
    (keepFirst [] l).getLast? = l.getLast? ↔
      ∀ u ∈ l.getLast?, ∀ v ∈ l.dropWhile (· ≠ u), v = u ∨ v ∈ l.takeWhile (· ≠ u) := by
  cases hlast : l.getLast? with
  | none =>
    rw [List.getLast?_eq_none_iff] at hlast
    simp [hlast, keepFirst]
  | some u =>
    obtain ⟨post, hdrop⟩ := exists_dropWhile_ne_eq_cons (List.mem_of_getLast? hlast)
    have hsplit : l = l.takeWhile (· ≠ u) ++ u :: post := by
      rw [← hdrop, List.takeWhile_append_dropWhile]
    have hkeep : keepFirst [] l
        = keepFirst [] (l.takeWhile (· ≠ u)) ++ u :: keepFirst (u :: l.takeWhile (· ≠ u)) post := by
      conv_lhs => rw [hsplit]
      rw [keepFirst_append, List.append_nil, keepFirst, if_neg notMem_takeWhile_ne]
    -- the kept list ends in `u` exactly when nothing after `u` is kept
    have hnew : (∀ w ∈ some u, ∀ v ∈ l.dropWhile (· ≠ w), v = w ∨ v ∈ l.takeWhile (· ≠ w)) ↔
        keepFirst (u :: l.takeWhile (· ≠ u)) post = [] := by
      rw [keepFirst_eq_nil]
      constructor
      · intro h v hv
        exact List.mem_cons.mpr (h u rfl v (hdrop ▸ List.mem_cons_of_mem u hv))
      · rintro h w ⟨⟩ v hv
        rw [hdrop] at hv
        rcases List.mem_cons.mp hv with rfl | hv
        · exact Or.inl rfl
        · exact List.mem_cons.mp (h v hv)
    rw [hnew, hkeep, List.getLast?_append_cons]
    constructor
    · intro h
      by_contra hne
      rw [List.getLast?_cons, List.getLast?_eq_some_getLast hne, Option.getD_some, Option.some.injEq] at h
      have hin := List.getLast_mem hne
      rw [h] at hin
      exact (mem_keepFirst.mp hin).2 List.mem_cons_self
    · intro h
      rw [h]
      rfl
