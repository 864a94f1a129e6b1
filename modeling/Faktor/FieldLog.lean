/-
# Whole-row writes, field by field

A writer reads a row, changes some of its fields in the copy, and writes the whole copy back.  The
fields that it does not change come from its copy, which may be out of date by then.  The log of the
writes, newest first, says of each one what it set, so it says for each field which write set it last.

* `FieldLog.last` : the row as it was when a field was last set;
* `FieldLog.LastWritten` : every field of the row is what the last write that set it left there;
* `FieldLog.lastWritten_write_iff` : a write keeps this exactly when its copy is up to date on the fields
  that it does not set.

Nothing here depends on what the rows and their fields are.
-/
import Mathlib

namespace FieldLog

variable {Row Field : Type} {Value : Field → Type} [DecidableEq Field]
  (get : (f : Field) → Row → Value f)

/-- A row that was written, and the fields that the writer set in it. -/
structure Write (Row Field : Type) where
  sets : List Field
  row : Row

/-- The row that the last write which sets the field left, or else the one at the origin. -/
def last (f : Field) (origin : Row) : List (Write Row Field) → Row
  | [] => origin
  | w :: log => if f ∈ w.sets then w.row else last f origin log

/-- Every field of the row has the value that the last write setting it gave it. -/
def LastWritten (origin : Row) (log : List (Write Row Field)) (row : Row) : Prop :=
  ∀ f, get f row = get f (last f origin log)

/-- The two rows agree on the fields outside the list. -/
def AgreeOutside (sets : List Field) (row row' : Row) : Prop := ∀ f ∉ sets, get f row = get f row'

variable {get} {origin row row' copy : Row} {log : List (Write Row Field)} {sets : List Field}

theorem AgreeOutside.symm (h : AgreeOutside get sets row row') : AgreeOutside get sets row' row :=
  fun f hf => (h f hf).symm

theorem AgreeOutside.trans (h : AgreeOutside get sets row row')
    (h' : AgreeOutside get sets row' copy) : AgreeOutside get sets row copy :=
  fun f hf => (h f hf).trans (h' f hf)

theorem lastWritten_origin (row : Row) : LastWritten get row [] row := fun _ => rfl

/-- A write keeps the log right exactly when it agrees with the row it replaces outside the fields that
it sets. -/
theorem lastWritten_cons_iff (h : LastWritten get origin log row) :
    LastWritten get origin (⟨sets, row'⟩ :: log) row' ↔ AgreeOutside get sets row' row := by
  constructor
  · intro h' f hf
    have hf' := h' f
    rw [last, if_neg hf] at hf'
    exact hf'.trans (h f).symm
  · intro hagree f
    rw [last]
    split_ifs with hf
    · rfl
    · exact (hagree f hf).trans (h f)

/-- **A copy that is written back** loses nothing exactly when it is up to date on every field that its
writer does not set. -/
theorem lastWritten_write_iff (h : LastWritten get origin log row)
    (hframe : AgreeOutside get sets row' copy) :
    LastWritten get origin (⟨sets, row'⟩ :: log) row' ↔ AgreeOutside get sets copy row := by
  rw [lastWritten_cons_iff h]
  exact ⟨fun h' => hframe.symm.trans h', fun h' => hframe.trans h'⟩

/-- A write that sets every field it changes loses nothing. -/
theorem LastWritten.write (h : LastWritten get origin log row)
    (hsets : ∀ f, get f row' ≠ get f row → f ∈ sets) :
    LastWritten get origin (⟨sets, row'⟩ :: log) row' :=
  (lastWritten_cons_iff h).mpr fun f hf => by
    by_contra hne
    exact hf (hsets f hne)

end FieldLog
