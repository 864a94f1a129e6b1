/-
# Length-prefixed fields

A sequence of byte strings is written one after the other, each behind its length in a fixed number of
bytes, the least significant first.  As long as every length fits its prefix the sequence can be read back
in one way only (`frames_injOn`), also when something else follows (`frame_append_inj`).
-/
import Mathlib

namespace ByteFraming

/-- The lowest bytes of a number, the least significant first. -/
def littleEndian (width n : ℕ) : List UInt8 :=
  (List.range width).map fun i => UInt8.ofNat (n / 256 ^ i)

@[simp] theorem length_littleEndian (width n : ℕ) : (littleEndian width n).length = width := by
  simp [littleEndian]

/-- The bytes tell the number, up to what they leave out. -/
theorem mod_eq_of_littleEndian {width a b : ℕ} (h : littleEndian width a = littleEndian width b) :
    a % 256 ^ width = b % 256 ^ width := by
  have hdigit : ∀ i < width, a / 256 ^ i % 256 = b / 256 ^ i % 256 := by
    intro i hi
    have hbyte := List.map_inj_left.mp h i (List.mem_range.mpr hi)
    simpa using congrArg UInt8.toNat hbyte
  clear h
  induction width with
  | zero => simp [Nat.mod_one]
  | succ width ih =>
    rw [Nat.mod_pow_succ, Nat.mod_pow_succ, ih fun i hi => hdigit i (Nat.lt_succ_of_lt hi),
      hdigit width (Nat.lt_succ_self width)]

theorem littleEndian_inj {width a b : ℕ} (ha : a < 256 ^ width) (hb : b < 256 ^ width)
    (h : littleEndian width a = littleEndian width b) : a = b := by
  have hmod := mod_eq_of_littleEndian h
  rwa [Nat.mod_eq_of_lt ha, Nat.mod_eq_of_lt hb] at hmod

/-- A number in front of other bytes. -/
theorem littleEndian_append_inj {width a b : ℕ} {s t : List UInt8} (ha : a < 256 ^ width)
    (hb : b < 256 ^ width) (h : littleEndian width a ++ s = littleEndian width b ++ t) :
    a = b ∧ s = t := by
  obtain ⟨hnumber, hrest⟩ := List.append_inj h (by simp)
  exact ⟨littleEndian_inj ha hb hnumber, hrest⟩

/-- A byte string behind its length. -/
def frame (width : ℕ) (bytes : List UInt8) : List UInt8 := littleEndian width bytes.length ++ bytes

/-- A framed byte string in front of other bytes. -/
theorem frame_append_inj {width : ℕ} {a b s t : List UInt8} (ha : a.length < 256 ^ width)
    (hb : b.length < 256 ^ width) (h : frame width a ++ s = frame width b ++ t) : a = b ∧ s = t := by
  unfold frame at h
  rw [List.append_assoc, List.append_assoc] at h
  obtain ⟨hlength, hrest⟩ := littleEndian_append_inj ha hb h
  exact List.append_inj hrest hlength

/-- Framed byte strings, one after the other. -/
def frames (width : ℕ) (fields : List (List UInt8)) : List UInt8 := fields.flatMap (frame width)

theorem frames_cons (width : ℕ) (field : List UInt8) (fields : List (List UInt8)) :
    frames width (field :: fields) = frame width field ++ frames width fields := List.flatMap_cons

/-- A framed byte string takes at least the bytes of its length. -/
theorem frames_cons_ne_nil {width : ℕ} (hwidth : 0 < width) (field : List UInt8)
    (fields : List (List UInt8)) : frames width (field :: fields) ≠ [] := by
  intro h
  have hlength := congrArg List.length h
  rw [frames_cons, frame] at hlength
  simp at hlength
  omega

/-- **Framed fields are read back in one way only.** -/
theorem frames_injOn {width : ℕ} (hwidth : 0 < width) {fields fields' : List (List UInt8)}
    (hfields : ∀ f ∈ fields, f.length < 256 ^ width) (hfields' : ∀ f ∈ fields', f.length < 256 ^ width)
    (h : frames width fields = frames width fields') : fields = fields' := by
  induction fields generalizing fields' with
  | nil =>
    cases fields' with
    | nil => rfl
    | cons g gs => exact absurd h.symm (frames_cons_ne_nil hwidth g gs)
  | cons f fs ih =>
    cases fields' with
    | nil => exact absurd h (frames_cons_ne_nil hwidth f fs)
    | cons g gs =>
      rw [frames_cons, frames_cons] at h
      obtain ⟨hfirst, hrest⟩ := frame_append_inj (hfields f List.mem_cons_self)
        (hfields' g List.mem_cons_self) h
      rw [hfirst, ih (fun x hx => hfields x (List.mem_cons_of_mem f hx))
        (fun x hx => hfields' x (List.mem_cons_of_mem g hx)) hrest]

end ByteFraming
