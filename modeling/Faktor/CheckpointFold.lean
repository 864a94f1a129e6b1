/-
# Folding a log from a checkpoint

A log is a list of entries with increasing keys.  A projection folds the log into a value that
remembers the key of the last entry it folded, its *checkpoint*, so that folding can be resumed
from any value met on the way, and the entries at or below the checkpoint need not be kept.

* `CheckpointFold.Covers` : a value, together with the entries that are still stored, determines
  the projection of the whole log;
* `CheckpointFold.Covers.resume` : folding the stored entries above the checkpoint onto a covering
  value gives the projection of the whole log;
* `CheckpointFold.Covers.concat`, `CheckpointFold.Covers.filter`, `CheckpointFold.covers_all` : the
  ways a value stays, or becomes, covering.
-/
import Mathlib

/-- A fold whose values remember the key of the last entry folded. -/
structure CheckpointFold (α β : Type*) where
  /-- The key of an entry. -/
  key : α → ℕ
  /-- Fold one entry. -/
  step : β → α → β
  /-- The projection of the empty log. -/
  init : β
  /-- The key of the last entry folded, `0` when there is none. -/
  checkpoint : β → ℕ
  checkpoint_init : checkpoint init = 0
  checkpoint_step : ∀ b x, checkpoint (step b x) = key x

namespace CheckpointFold

variable {α β : Type*} (F : CheckpointFold α β)

/-! ## Cutting a log at a key -/

/-- The keys of the log increase. -/
def Increasing (l : List α) : Prop := l.Pairwise (F.key · < F.key ·)

/-- The entries up to a key. -/
def upTo (c : ℕ) (l : List α) : List α := l.filter fun x => F.key x ≤ c

/-- The entries above a key. -/
def after (c : ℕ) (l : List α) : List α := l.filter fun x => c < F.key x

/-- The greatest key of the log, `0` when it is empty. -/
def top (l : List α) : ℕ := (l.map F.key).foldl max 0

/-- The projection of a log. -/
def project (l : List α) : β := l.foldl F.step F.init

@[simp] theorem top_nil : F.top [] = 0 := rfl

@[simp] theorem top_concat (l : List α) (x : α) : F.top (l ++ [x]) = max (F.top l) (F.key x) := by
  simp [top]

variable {l : List α} {x : α}

theorem le_top (hx : x ∈ l) : F.key x ≤ F.top l := by
  induction l using List.reverseRecOn with
  | nil => simp at hx
  | append_singleton l y ih =>
    rw [top_concat]
    rcases List.mem_append.mp hx with h | h
    · exact (ih h).trans (le_max_left _ _)
    · rw [List.mem_singleton.mp h]
      exact le_max_right _ _

theorem top_le {n : ℕ} (h : ∀ x ∈ l, F.key x ≤ n) : F.top l ≤ n := by
  induction l using List.reverseRecOn with
  | nil => exact Nat.zero_le n
  | append_singleton l y ih =>
    rw [top_concat]
    exact max_le (ih fun x hx => h x (List.mem_append_left _ hx)) (h y (by simp))

/-- A nonempty log has an entry with the greatest key. -/
theorem exists_key_eq_top (h : l ≠ []) : ∃ x ∈ l, F.key x = F.top l := by
  induction l using List.reverseRecOn with
  | nil => exact absurd rfl h
  | append_singleton l y ih =>
    rw [top_concat]
    rcases le_total (F.top l) (F.key y) with hle | hle
    · exact ⟨y, by simp, by omega⟩
    · by_cases hl : l = []
      · subst hl
        exact ⟨y, by simp, by simp⟩
      · obtain ⟨x, hx, hxt⟩ := ih hl
        exact ⟨x, List.mem_append_left _ hx, by omega⟩

variable {F}

variable {c : ℕ}

theorem mem_after : x ∈ F.after c l ↔ x ∈ l ∧ c < F.key x := by
  simp [after]

theorem after_eq_nil : F.after c l = [] ↔ F.top l ≤ c := by
  rw [after, List.filter_eq_nil_iff]
  constructor
  · intro h
    exact F.top_le fun x hx => by simpa using h x hx
  · intro h x hx
    have := F.le_top hx
    simp
    omega

/-- Above every key of the log nothing is left. -/
theorem upTo_eq_self (h : F.top l ≤ c) : F.upTo c l = l := by
  rw [upTo, List.filter_eq_self]
  intro x hx
  have := F.le_top hx
  simp
  omega

section

variable (h : F.Increasing l)
include h

/-- A log is its entries up to a key followed by those above it. -/
theorem Increasing.upTo_append_after (c : ℕ) :
    F.upTo c l ++ F.after c l = l := by
  induction l with
  | nil => rfl
  | cons x l ih =>
    obtain ⟨hx, hl⟩ := List.pairwise_cons.mp h
    by_cases hc : F.key x ≤ c
    · have hxc : ¬ c < F.key x := by omega
      simpa [upTo, after, hc, hxc] using ih hl
    · -- every later key is above `c` too
      have hup : F.upTo c l = [] := by
        rw [upTo, List.filter_eq_nil_iff]
        intro y hy
        have := hx y hy
        simp
        omega
      have haf : F.after c l = l := by simpa [hup] using ih hl
      have hup' : F.upTo c (x :: l) = F.upTo c l := by simp [upTo, hc]
      have haf' : F.after c (x :: l) = x :: F.after c l := by simp [after, Nat.lt_of_not_le hc]
      rw [hup', haf', hup, haf, List.nil_append]

theorem Increasing.concat (hx : F.top l < F.key x) :
    F.Increasing (l ++ [x]) := by
  refine List.pairwise_append.mpr ⟨h, List.pairwise_singleton _ _, fun y hy z hz => ?_⟩
  rw [List.mem_singleton.mp hz]
  exact (F.le_top hy).trans_lt hx

theorem Increasing.filter (p : α → Bool) :
    F.Increasing (l.filter p) := List.Pairwise.filter p h

/-- A key stands once in an increasing log. -/
theorem Increasing.eq_of_key_eq {y : α} (hx : x ∈ l) (hy : y ∈ l) (hkey : F.key x = F.key y) : x = y := by
  induction l with
  | nil => cases hx
  | cons a l ih =>
    obtain ⟨ha, hl⟩ := List.pairwise_cons.mp h
    rcases List.mem_cons.mp hx with rfl | hx' <;> rcases List.mem_cons.mp hy with rfl | hy'
    · rfl
    · exact absurd hkey (ha y hy').ne
    · exact absurd hkey (ha x hx').ne'
    · exact ih hl hx' hy'

/-- The last entry of an increasing log has the greatest key. -/
theorem Increasing.getLast_key (hx : l.getLast? = some x) : F.key x = F.top l := by
  obtain ⟨ys, rfl⟩ := List.getLast?_eq_some_iff.mp hx
  have hle : F.top ys ≤ F.key x :=
    F.top_le fun y hy => ((List.pairwise_append.mp h).2.2 y hy x (by simp)).le
  rw [top_concat, max_eq_right hle]

end

/-! ## Values that cover the log -/

/-- The checkpoint of a projection is the key of the log's last entry. -/
theorem checkpoint_project (h : F.Increasing l) :
    F.checkpoint (F.project l) = F.top l := by
  induction l using List.reverseRecOn with
  | nil => exact F.checkpoint_init
  | append_singleton l x ih =>
    have hx := h.getLast_key (x := x) (by simp)
    rw [← hx, project, List.foldl_concat, F.checkpoint_step]

/-- `value` and the stored entries together determine the projection of the log: the value is
the projection of the log up to its checkpoint, and everything above the checkpoint is stored. -/
structure Covers (log stored : List α) (value : β) : Prop where
  value_eq : value = F.project (F.upTo (F.checkpoint value) log)
  stored_eq : F.after (F.checkpoint value) stored = F.after (F.checkpoint value) log

variable {log stored : List α} {value : β}

section

variable (h : F.Covers log stored value) (hlog : F.Increasing log)
include h hlog

/-- **Resumption**: the stored entries above the checkpoint complete a covering value to the
projection of the whole log. -/
theorem Covers.resume :
    (F.after (F.checkpoint value) stored).foldl F.step value = F.project log := by
  have hcut := hlog.upTo_append_after (F.checkpoint value)
  calc (F.after (F.checkpoint value) stored).foldl F.step value
      = (F.after (F.checkpoint value) log).foldl F.step
          (F.project (F.upTo (F.checkpoint value) log)) := by
        rw [h.stored_eq, ← h.value_eq]
    _ = F.project (F.upTo (F.checkpoint value) log ++ F.after (F.checkpoint value) log) := by
        rw [project, project, List.foldl_append]
    _ = F.project log := by rw [hcut]

/-- A covering value with nothing stored above its checkpoint is the projection of the log. -/
theorem Covers.eq_project (htop : F.top stored ≤ F.checkpoint value) : value = F.project log := by
  have hres := h.resume hlog
  rw [after_eq_nil.mpr htop] at hres
  exact hres

/-- The checkpoint of a covering value is not past the log. -/
theorem Covers.checkpoint_le :
    F.checkpoint value ≤ F.top log := by
  have hup : F.Increasing (F.upTo (F.checkpoint value) log) := hlog.filter _
  calc F.checkpoint value = F.checkpoint (F.project (F.upTo (F.checkpoint value) log)) := by
        rw [← h.value_eq]
    _ = F.top (F.upTo (F.checkpoint value) log) := checkpoint_project hup
    _ ≤ F.top log := F.top_le fun x hx => F.le_top (List.mem_of_mem_filter hx)

end

/-- The log's last key is stored, or at the checkpoint. -/
theorem Covers.top_le (h : F.Covers log stored value) :
    F.top log ≤ max (F.top stored) (F.checkpoint value) := by
  refine F.top_le fun x hx => ?_
  by_cases hc : F.key x ≤ F.checkpoint value
  · exact hc.trans (le_max_right _ _)
  · have hmem : x ∈ F.after (F.checkpoint value) stored := by
      rw [h.stored_eq]
      exact mem_after.mpr ⟨hx, by omega⟩
    exact (F.le_top (mem_after.mp hmem).1).trans (le_max_left _ _)

/-- The initial value covers a log of which everything is stored. -/
theorem covers_init (hpos : ∀ x ∈ log, 0 < F.key x)
    (hstored : F.after 0 stored = F.after 0 log) : F.Covers log stored F.init := by
  constructor
  · have hnil : F.upTo 0 log = [] := by
      rw [upTo, List.filter_eq_nil_iff]
      intro x hx
      have := hpos x hx
      simp
      omega
    rw [F.checkpoint_init, hnil]
    rfl
  · rw [F.checkpoint_init]
    exact hstored

/-- The projection of the whole log covers it, whatever is stored of it. -/
theorem covers_all (hlog : F.Increasing log) (hsub : ∀ x ∈ stored, x ∈ log) :
    F.Covers log stored (F.project log) := by
  have htop := checkpoint_project hlog
  constructor
  · rw [htop, upTo_eq_self le_rfl]
  · rw [htop, after_eq_nil.mpr le_rfl]
    exact after_eq_nil.mpr (F.top_le fun x hx => F.le_top (hsub x hx))

/-- A new last entry that is stored leaves a value covering. -/
theorem Covers.concat (h : F.Covers log stored value) (hlog : F.Increasing log) (hx : F.top log < F.key x) :
    F.Covers (log ++ [x]) (stored ++ [x]) value := by
  have hc : F.checkpoint value < F.key x := (h.checkpoint_le hlog).trans_lt hx
  constructor
  · have hup : F.upTo (F.checkpoint value) (log ++ [x]) = F.upTo (F.checkpoint value) log := by
      simp [upTo, hc]
    rw [hup]
    exact h.value_eq
  · have heq := h.stored_eq
    simp only [after] at heq
    simp [after, heq]

/-- Deleting stored entries at or below the checkpoint leaves a value covering. -/
theorem Covers.filter (h : F.Covers log stored value) {p : α → Bool}
    (hp : ∀ x ∈ stored, p x = false → F.key x ≤ F.checkpoint value) :
    F.Covers log (stored.filter p) value := by
  refine ⟨h.value_eq, ?_⟩
  rw [← h.stored_eq, after, after, List.filter_filter]
  refine List.filter_congr fun x hx => ?_
  cases hpx : p x with
  | true => simp
  | false =>
    have := hp x hx hpx
    simp
    omega

end CheckpointFold
