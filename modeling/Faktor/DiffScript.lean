/-
# The edit script is a shortest one

After round `d` the list holds the furthest point of every diagonal of that round, and the entries of the
round before are still there, since the two use diagonals of different parity.  The first round that comes to
the end of both lists does so at the end itself, and the way back finds the choices of the rounds again.

* `choose_spec` : the choice between deletion and insertion, read from a list or a snapshot;
* `sweep_spec`, `search_spec` : what one round and all rounds do;
* `backtrack_spec` : the way back builds a script;
* `editScriptWithin_spec` : the result, with every index in range.
-/
import Mathlib
import Faktor.DiffModel

namespace Diff

open EditGraph

variable {α : Type} {a b : List α}

/-! ## Reads and writes -/

variable {i : ℤ}

theorem readAt_eq {β : Type} {v : List β} {x : β} (h : itemAt v i = some x) : readAt v i = .ok x := by
  rw [readAt, h]

theorem writeAt_eq {β : Type} {v : List β} (x : β) (h0 : 0 ≤ i) (hi : i < v.length) :
    writeAt v i x = .ok (v.set i.toNat x) := if_pos ⟨h0, hi⟩

theorem itemAt_set_self {β : Type} {v : List β} {x : β} (h0 : 0 ≤ i) (hi : i < v.length) :
    itemAt (v.set i.toNat x) i = some x := by
  rw [itemAt, if_pos h0, List.getElem?_set_self (by omega)]

theorem itemAt_set_ne {β : Type} {v : List β} {j : ℤ} {x : β} (h0 : 0 ≤ i) (hij : j ≠ i) :
    itemAt (v.set i.toNat x) j = itemAt v j := by
  rw [itemAt, itemAt]
  split
  · rw [List.getElem?_set_ne (by omega)]
  · rfl

/-! ## What the lists hold -/

/-- The furthest points of `e` edits, diagonal `k` standing at place `k + offset`. -/
def Holds (a b : List α) (offset : ℤ) (e : ℕ) (v : List ℤ) : Prop :=
  ∀ i : ℕ, i ≤ e → ∃ x, itemAt v (2 * i - e + offset) = some x ∧ Furthest a b e (2 * i - e) x

/-- What round `d` reads. -/
def Prior (a b : List α) (offset : ℤ) : ℕ → List ℤ → Prop
  | 0, v => itemAt v (0 + 1 + offset) = some 0
  | e + 1, v => Holds a b offset e v

variable {offset : ℤ} {v : List ℤ}

theorem Holds.read {e j : ℕ} {k : ℤ} (h : Holds a b offset e v) (hj : j ≤ e)
    (hk : k = 2 * j - e) : ∃ x, itemAt v (k + offset) = some x ∧ Furthest a b e k x := by
  subst hk
  exact h j hj

/-- The choice of round `d` on diagonal `k`: the entry `p` that is read and where the edit lands. -/
theorem choose_spec {offset k : ℤ} {d i : ℕ} {v : List ℤ} (hi : i ≤ d) (hk : k = 2 * i - d)
    (hprior : Prior a b offset d v) :
    ∃ came p, cameFromKplus1 v (k + offset) k d = .ok came ∧
      itemAt v ((if came then k + 1 else k - 1) + offset) = some p ∧
      Lands a b d k (if came then p else p + 1) ∧
      ∀ e, d = e + 1 → Furthest a b e (if came then k + 1 else k - 1) p := by
  cases d with
  | zero =>
    obtain rfl : k = 0 := by omega
    exact ⟨true, 0, rfl, hprior, ⟨.start, fun _ => rfl, fun e x he => by omega, fun e x he => by omega⟩,
      fun e he => by omega⟩
  | succ e =>
    have hcast : ((e + 1 : ℕ) : ℤ) = e + 1 := by push_cast; rfl
    by_cases hlow : k = -((e + 1 : ℕ) : ℤ)
    · -- the lowest diagonal: nothing below it has been reached
      obtain ⟨p, hp, hfar⟩ := Holds.read hprior (Nat.zero_le e) (show k + 1 = 2 * (0 : ℕ) - e by omega)
      refine ⟨true, p, if_pos hlow, hp, hfar.lands_insert fun x hx => ?_, fun e' he' => ?_⟩
      · obtain ⟨j, hj, hdiag⟩ := hx.diagonal
        omega
      · obtain rfl : e = e' := by omega
        exact hfar
    · obtain ⟨q, hq, hbelow⟩ := Holds.read (j := i - 1) hprior (by omega) (show k - 1 = 2 * (i - 1 : ℕ) - e by omega)
      by_cases hhigh : k = ((e + 1 : ℕ) : ℤ)
      · -- the highest diagonal: nothing above it has been reached
        refine ⟨false, q, ?_, hq, hbelow.lands_delete fun x hx => ?_, fun e' he' => ?_⟩
        · rw [cameFromKplus1, if_neg hlow, if_neg (not_not.mpr hhigh)]
        · obtain ⟨j, hj, hdiag⟩ := hx.diagonal
          omega
        · obtain rfl : e = e' := by omega
          exact hbelow
      · obtain ⟨p, hp, habove⟩ := Holds.read (j := i) hprior (by omega) (show k + 1 = 2 * (i : ℕ) - e by omega)
        have hcame : cameFromKplus1 v (k + offset) k ((e + 1 : ℕ) : ℤ) = .ok (decide (q < p)) := by
          rw [cameFromKplus1, if_neg hlow, if_pos hhigh, show k + offset - 1 = k - 1 + offset by ring,
            show k + offset + 1 = k + 1 + offset by ring, readAt_eq hq, readAt_eq hp]
          rfl
        by_cases hlt : q < p
        · refine ⟨true, p, by rw [hcame, decide_eq_true hlt], hp, habove.lands_insert fun x hx => ?_,
            fun e' he' => ?_⟩
          · have := hbelow.le x hx
            omega
          · obtain rfl : e = e' := by omega
            exact habove
        · refine ⟨false, q, by rw [hcame, decide_eq_false hlt], hq, hbelow.lands_delete fun x hx => ?_,
            fun e' he' => ?_⟩
          · have := habove.le x hx
            omega
          · obtain rfl : e = e' := by omega
            exact hbelow

/-- Round `d` has passed the first `i` diagonals, and none of them has come to the end of both lists. -/
def Swept (a b : List α) (offset : ℤ) (d i : ℕ) (v : List ℤ) : Prop :=
  ∀ j < i, ∃ x, itemAt v (2 * j - d + offset) = some x ∧ Furthest a b d (2 * j - d) x ∧
    ¬ (a.length ≤ x ∧ b.length ≤ x - (2 * (j : ℤ) - d))

theorem Swept.holds {d : ℕ} (h : Swept a b offset d (d + 1) v) :
    Holds a b offset d v := by
  intro i hi
  obtain ⟨x, hx, hfar, -⟩ := h i (by omega)
  exact ⟨x, hx, hfar⟩

theorem Swept.not_reach {d : ℕ} (h : Swept a b offset d (d + 1) v) :
    ¬ Reach a b d a.length b.length := by
  intro hend
  obtain ⟨i, hi, hdiag⟩ := hend.diagonal
  obtain ⟨x, -, hfar, hshort⟩ := h i (by omega)
  rw [show (b.length : ℤ) = a.length - (2 * i - d) by omega] at hend
  have := hfar.le _ hend
  exact hshort (by omega)

/-- What round `d` writes is of the parity of `d`, so what it reads is not overwritten. -/
theorem Prior.set {k x : ℤ} {d i : ℕ} (h : Prior a b offset d v) (hk : k = 2 * i - d)
    (h0 : 0 ≤ k + offset) : Prior a b offset d (v.set (k + offset).toNat x) := by
  cases d with
  | zero =>
    rw [Prior, itemAt_set_ne h0 (by omega)]
    exact h
  | succ e =>
    intro j hj
    rw [itemAt_set_ne h0 (by push_cast at hk; omega)]
    exact h j hj

theorem Swept.set {k x : ℤ} {d i : ℕ} (h : Swept a b offset d i v) (hk : k = 2 * i - d)
    (h0 : 0 ≤ k + offset) (hlt : k + offset < v.length) (hfar : Furthest a b d k x)
    (hshort : ¬ (a.length ≤ x ∧ b.length ≤ x - k)) :
    Swept a b offset d (i + 1) (v.set (k + offset).toNat x) := by
  intro j hj
  by_cases hji : j = i
  · subst hji
    subst hk
    exact ⟨x, itemAt_set_self h0 hlt, hfar, hshort⟩
  · rw [itemAt_set_ne h0 (by omega)]
    exact h j (by omega)

/-! ## One round -/

variable [DecidableEq α]

theorem snake_spec (a b : List α) {x y : ℤ} (hx : 0 ≤ x) (hy : 0 ≤ y) :
    ∃ len : ℕ, snake a b x y = .ok (x + len, y + len) ∧ Keeps a b x y len ∧ Stops a b (x + len) (y + len) := by
  generalize hleft : (a.length - x).toNat = left
  induction left using Nat.strong_induction_on generalizing x y with
  | _ left ih =>
    by_cases hin : (0 ≤ x ∧ x < a.length) ∧ 0 ≤ y ∧ y < b.length
    · obtain ⟨p, hp⟩ := exists_itemAt hin.1.1 hin.1.2
      obtain ⟨q, hq⟩ := exists_itemAt hin.2.1 hin.2.2
      have hstep : snake a b x y = if p = q then snake a b (x + 1) (y + 1) else .ok (x, y) := by
        rw [snake, dif_pos hin, readAt_eq hp, readAt_eq hq]
        rfl
      by_cases hpq : p = q
      · subst hpq
        obtain ⟨len, hrun, hkeeps, hstops⟩ :=
          ih (a.length - (x + 1)).toNat (by omega) (by omega) (show 0 ≤ y + 1 by omega) rfl
        refine ⟨len + 1, ?_, hkeeps.succ hp hq, ?_⟩
        · rw [hstep, if_pos rfl, hrun]
          congr 2 <;> push_cast <;> ring
        · rwa [show x + ((len + 1 : ℕ) : ℤ) = x + 1 + len by push_cast; ring,
            show y + ((len + 1 : ℕ) : ℤ) = y + 1 + len by push_cast; ring]
      · refine ⟨0, ?_, Keeps.zero x y, ?_⟩
        · rw [hstep, if_neg hpq]
          simp
        · rintro item ⟨ha, hb⟩
          simp only [Nat.cast_zero, add_zero] at ha hb
          rw [hp, Option.some.injEq] at ha
          rw [hq, Option.some.injEq] at hb
          exact hpq (ha.trans hb.symm)
    · refine ⟨0, ?_, Keeps.zero x y, ?_⟩
      · rw [snake, dif_neg hin]
        simp
      · rintro item ⟨ha, hb⟩
        simp only [Nat.cast_zero, add_zero] at ha hb
        exact hin ⟨itemAt_bounds ha, itemAt_bounds hb⟩

theorem advance_spec {k : ℤ} {d i : ℕ} (hi : i ≤ d) (hk : k = 2 * i - d)
    (hprior : Prior a b offset d v) (hlen : v.length = 2 * offset + 1) (hd : d ≤ offset) :
    ∃ x, advance a b offset d k v = .ok (x, x - k, v.set (k + offset).toNat x) ∧ Furthest a b d k x := by
  obtain ⟨came, p, hcame, hp, hlands, -⟩ := choose_spec hi hk hprior
  have hnonneg := hlands.reach.nonneg
  obtain ⟨len, hsnake, hkeeps, hstops⟩ := snake_spec a b hnonneg.1 hnonneg.2
  refine ⟨(if came then p else p + 1) + len, ?_, hlands.furthest hkeeps hstops⟩
  have hwrite := writeAt_eq (v := v) (i := k + offset) ((if came then p else p + 1) + (len : ℤ))
    (by omega) (by omega)
  cases came with
  | true =>
    simp only [if_true] at hp hsnake hwrite ⊢
    rw [show k + 1 + offset = k + offset + 1 by ring] at hp
    simp only [advance, hcame, readAt_eq hp, hsnake, hwrite, bind, Except.bind, if_true, pure, Except.pure]
    congr 3
    ring
  | false =>
    simp only [Bool.false_eq_true, if_false] at hp hsnake hwrite ⊢
    rw [show k - 1 + offset = k + offset - 1 by ring] at hp
    simp only [advance, hcame, readAt_eq hp, hsnake, hwrite, bind, Except.bind, Bool.false_eq_true, if_false,
      pure, Except.pure]
    congr 3
    ring

theorem sweep_spec {offset k : ℤ} {d i : ℕ} {v : List ℤ} (hi : i ≤ d + 1) (hk : k = 2 * i - d)
    (hprior : Prior a b offset d v) (hswept : Swept a b offset d i v) (hlen : v.length = 2 * offset + 1)
    (hd : d ≤ offset) :
    ∃ hit v', sweep a b offset d k v = .ok (hit, v') ∧ v'.length = v.length ∧
      (hit = true → ∃ x y, Reach a b d x y ∧ a.length ≤ x ∧ b.length ≤ y) ∧
      (hit = false → Swept a b offset d (d + 1) v') := by
  generalize hleft : d + 1 - i = left
  induction left generalizing i k v with
  | zero =>
    refine ⟨false, v, ?_, rfl, fun h => absurd h Bool.false_ne_true, fun _ => ?_⟩
    · rw [sweep, if_neg (by omega)]
    · rwa [show i = d + 1 by omega] at hswept
  | succ left ih =>
    obtain ⟨x, hadvance, hfar⟩ := advance_spec (by omega) hk hprior hlen hd
    have hstep : sweep a b offset d k v = if a.length ≤ x ∧ b.length ≤ x - k
        then .ok (true, v.set (k + offset).toNat x)
        else sweep a b offset d (k + 2) (v.set (k + offset).toNat x) := by
      rw [sweep, if_pos (by omega), hadvance]
      rfl
    by_cases hend : a.length ≤ x ∧ b.length ≤ x - k
    · refine ⟨true, v.set (k + offset).toNat x, ?_, List.length_set, fun _ => ?_,
        fun h => absurd h.symm Bool.false_ne_true⟩
      · rw [hstep, if_pos hend]
      · exact ⟨x, x - k, hfar.reach, hend⟩
    · obtain ⟨hit, v', hrun, hlen', htrue, hfalse⟩ :=
        ih (i := i + 1) (k := k + 2) (v := v.set (k + offset).toNat x) (by omega) (by push_cast; omega)
          (hprior.set hk (by omega)) (hswept.set hk (by omega) (by omega) hfar hend)
          (by rw [List.length_set]; exact hlen) (by omega)
      refine ⟨hit, v', ?_, by rw [hlen', List.length_set], htrue, hfalse⟩
      rw [hstep, if_neg hend, hrun]

/-! ## All rounds -/

/-- The snapshots of the rounds `1` to `d`. -/
def Snapshots (a b : List α) (d : ℕ) (trace : List (List ℤ)) : Prop :=
  ∀ e : ℕ, e + 1 ≤ d → ∃ row, itemAt trace (e + 1) = some row ∧ Holds a b (e + 1) e row

omit [DecidableEq α] in
/-- A snapshot holds what the list holds, shifted. -/
theorem Holds.slice {cap e : ℕ} (h : Holds a b cap e v) (hlen : v.length = 2 * cap + 1)
    (he : e + 1 ≤ cap) :
    ∃ row, sliceOf v (cap - (e + 1 : ℕ)) (cap + (e + 1 : ℕ) + 1) = .ok row ∧ Holds a b (e + 1) e row := by
  refine ⟨_, if_pos ⟨by omega, by omega, by omega⟩, fun i hi => ?_⟩
  obtain ⟨x, hx, hfar⟩ := h i hi
  refine ⟨x, ?_, hfar⟩
  rw [← hx, itemAt, itemAt, if_pos (by omega), if_pos (by omega), List.getElem?_take, if_pos (by omega),
    List.getElem?_drop]
  congr 1
  omega

omit [DecidableEq α] in
variable {trace : List (List ℤ)}

/-- The snapshot before round `d` is in range and extends the trace. -/
theorem exists_snapshot {cap d : ℕ} (hprior : Prior a b cap d v)
    (hlen : v.length = 2 * cap + 1) (hd : d ≤ cap) (htrace : trace.length = d)
    (hsnap : Snapshots a b (d - 1) trace) :
    ∃ row, sliceOf v (cap - d) (cap + d + 1) = .ok row ∧ Snapshots a b d (trace ++ [row]) := by
  cases d with
  | zero => exact ⟨_, if_pos ⟨by omega, by omega, by omega⟩, fun e he => by omega⟩
  | succ d =>
    obtain ⟨row, hrow, hholds⟩ := Holds.slice hprior hlen hd
    refine ⟨row, hrow, fun e he => ?_⟩
    rw [← Nat.cast_succ, itemAt_natCast]
    by_cases hlast : e = d
    · subst hlast
      rw [List.getElem?_append_right (by omega), htrace, Nat.sub_self]
      exact ⟨row, rfl, hholds⟩
    · obtain ⟨row', hrow', hholds'⟩ := hsnap e (by omega)
      rw [← Nat.cast_succ, itemAt_natCast] at hrow'
      rw [List.getElem?_append_left (by omega)]
      exact ⟨row', hrow', hholds'⟩

theorem search_spec {cap rounds d : ℕ} {v : List ℤ} {trace : List (List ℤ)}
    (hrounds : d + rounds = cap + 1) (hlen : v.length = 2 * cap + 1) (hprior : Prior a b cap d v)
    (htrace : trace.length = d) (hsnap : Snapshots a b (d - 1) trace)
    (hleast : ∀ e < d, ¬ Reach a b e a.length b.length) :
    ∃ res, search a b cap rounds d v trace = .ok res ∧
      (res = none → ∀ e ≤ cap, ¬ Reach a b e a.length b.length) ∧
      ∀ found trace', res = some (found, trace') →
        found ≤ cap ∧ Reach a b found a.length b.length ∧ (∀ e < found, ¬ Reach a b e a.length b.length) ∧
          Snapshots a b found trace' := by
  induction rounds generalizing d v trace with
  | zero => exact ⟨none, rfl, fun _ e he => hleast e (by omega), fun _ _ h => by cases h⟩
  | succ rounds ih =>
    obtain ⟨row, hrow, hsnap'⟩ := exists_snapshot hprior hlen (show d ≤ cap by omega) htrace hsnap
    obtain ⟨hit, v', hsweep, hlen', htrue, hfalse⟩ :=
      @sweep_spec _ a b _ cap (-d) _ _ _ (Nat.zero_le _) (by simp) hprior
        (fun j hj => absurd hj (Nat.not_lt_zero j)) (by rw [hlen]; push_cast; ring) (by omega)
    have hstep : search a b cap (rounds + 1) d v trace = if hit
        then .ok (some (d, trace ++ [row])) else search a b cap rounds (d + 1) v' (trace ++ [row]) := by
      rw [search, hrow]
      simp only [bind, Except.bind, hsweep]
      rfl
    cases hit with
    | true =>
      obtain ⟨x, y, hreach, hx, hy⟩ := htrue rfl
      obtain ⟨rfl, rfl⟩ := hreach.eq_end hx hy hleast
      refine ⟨some (d, trace ++ [row]), hstep, fun h => (Option.some_ne_none _ h).elim, ?_⟩
      rintro found trace' heq
      obtain ⟨rfl, rfl⟩ := Prod.mk.inj (Option.some.inj heq)
      exact ⟨by omega, hreach, hleast, hsnap'⟩
    | false =>
      have hnext := hfalse rfl
      have hlater : ∀ e < d + 1, ¬ Reach a b e a.length b.length := by
        intro e he
        rcases Nat.lt_succ_iff_lt_or_eq.mp he with he | rfl
        · exact hleast e he
        · exact hnext.not_reach
      rw [hstep]
      exact ih (by omega) (hlen'.trans hlen) hnext.holds (by rw [List.length_append, htrace]; rfl) hsnap' hlater

/-! ## The way back -/

omit [DecidableEq α] in
theorem edits_append (front ops : List (Op α)) : edits (front ++ ops) = edits front + edits ops := by
  induction front with
  | nil => simp [edits]
  | cons op front ih => cases op <;> simp [edits, ih] <;> omega

omit [DecidableEq α] in
theorem edits_replicate_eq (len n : ℕ) : edits (List.replicate len (Op.eq n : Op α)) = 0 := by
  induction len with
  | zero => rfl
  | succ len ih => exact ih

omit [DecidableEq α] in
theorem rewind_eq (sx sy : ℤ) (len : ℕ) (ops : List (Op α)) :
    rewind sx sy (sx + len) (sy + len) ops = (sx, sy, List.replicate len (.eq 1) ++ ops) := by
  induction len generalizing ops with
  | zero => rw [rewind, if_neg (by simp)]; simp
  | succ len ih =>
    rw [rewind, if_pos (by omega), show sx + ((len + 1 : ℕ) : ℤ) - 1 = sx + len by omega,
      show sy + ((len + 1 : ℕ) : ℤ) - 1 = sy + len by omega, ih, List.replicate_succ', List.append_assoc]
    rfl

omit [DecidableEq α] in
/-- Steps that keep one line each stand for the run between two points. -/
theorem Transforms.keeps {x y : ℤ} {len : ℕ} {ops : List (Op α)} (hkeeps : Keeps a b x y len)
    (h : Transforms ops (a.drop (x + len).toNat) (b.drop (y + len).toNat)) :
    Transforms (List.replicate len (.eq 1) ++ ops) (a.drop x.toNat) (b.drop y.toNat) := by
  induction len generalizing x y with
  | zero => simpa using h
  | succ len ih =>
    obtain ⟨item, ha, hb⟩ := hkeeps 0 (Nat.succ_pos len)
    simp only [Nat.cast_zero, add_zero] at ha hb
    rw [drop_eq_cons_of_itemAt ha, drop_eq_cons_of_itemAt hb]
    refine Transforms.eq [item] (ih (fun i hi => ?_) ?_)
    · obtain ⟨next, hna, hnb⟩ := hkeeps (i + 1) (by omega)
      refine ⟨next, ?_, ?_⟩
      · rw [← hna]
        congr 1
        push_cast
        ring
      · rw [← hnb]
        congr 1
        push_cast
        ring
    · rwa [show x + 1 + (len : ℤ) = x + ((len + 1 : ℕ) : ℤ) by push_cast; ring,
        show y + 1 + (len : ℤ) = y + ((len + 1 : ℕ) : ℤ) by push_cast; ring]

omit [DecidableEq α] in
theorem backtrack_insert {row : List ℤ} {e : ℕ} {x y px : ℤ} {ops ops' : List (Op α)}
    {line : α} (hrow : itemAt trace (e + 1) = some row)
    (hcame : cameFromKplus1 row (x - y + (e + 1)) (x - y) (e + 1) = .ok true)
    (hpx : itemAt row (x - y + 1 + (e + 1)) = some px)
    (hrewind : rewind px (px - (x - y + 1) + 1) x y ops = (px, px - (x - y + 1) + 1, ops'))
    (hline : itemAt b (px - (x - y + 1)) = some line) :
    backtrack a b trace (e + 1) x y ops
      = backtrack a b trace e px (px - (x - y + 1)) (.ins line :: ops') := by
  rw [← add_sub_cancel_right (px - (x - y + 1)) 1] at hline
  rw [backtrack]
  simp only [readAt_eq hrow, hcame, bind, Except.bind, if_true, readAt_eq hpx, hrewind, readAt_eq hline]
  rw [add_sub_cancel_right]

omit [DecidableEq α] in
theorem backtrack_delete {row : List ℤ} {e : ℕ} {x y px : ℤ} {ops ops' : List (Op α)}
    {line : α} (hrow : itemAt trace (e + 1) = some row)
    (hcame : cameFromKplus1 row (x - y + (e + 1)) (x - y) (e + 1) = .ok false)
    (hpx : itemAt row (x - y - 1 + (e + 1)) = some px)
    (hrewind : rewind (px + 1) (px - (x - y - 1)) x y ops = (px + 1, px - (x - y - 1), ops'))
    (hline : itemAt a px = some line) :
    backtrack a b trace (e + 1) x y ops
      = backtrack a b trace e px (px - (x - y - 1)) (.del line :: ops') := by
  rw [← add_sub_cancel_right px 1] at hline
  rw [backtrack]
  simp only [readAt_eq hrow, hcame, bind, Except.bind, Bool.false_eq_true, if_false, readAt_eq hpx, hrewind,
    readAt_eq hline]
  rw [add_sub_cancel_right]

/-- The way back from the furthest point of `d` edits makes those edits again. -/
theorem backtrack_spec {trace : List (List ℤ)} {d : ℕ} {x y : ℤ} {ops : List (Op α)}
    (hsnap : Snapshots a b d trace) (hfar : Furthest a b d (x - y) x) (hx : x ≤ a.length) (hy : y ≤ b.length)
    (hops : Transforms ops (a.drop x.toNat) (b.drop y.toNat)) :
    ∃ x₀ ops', backtrack a b trace d x y ops = .ok (x₀, x₀, ops') ∧ Reach a b 0 x₀ x₀ ∧ x₀ ≤ a.length ∧
      Transforms ops' (a.drop x₀.toNat) (b.drop x₀.toNat) ∧ edits ops' = edits ops + d := by
  induction d generalizing x y ops with
  | zero =>
    have hreach := hfar.reach
    rw [sub_sub_cancel] at hreach
    obtain ⟨rfl, -⟩ := hreach.take_eq
    exact ⟨x, ops, rfl, hreach, hx, hops, rfl⟩
  | succ e ih =>
    obtain ⟨row, hrow, hholds⟩ := hsnap e le_rfl
    obtain ⟨i, hi, hdiag⟩ := hfar.reach.diagonal
    rw [sub_sub_cancel] at hdiag
    obtain ⟨came, px, hcame, hpx, hlands, hprev⟩ :=
      @choose_spec _ _ _ (e + 1) (x - y) _ _ row hi hdiag hholds
    -- the run from where the edit lands is the one that led to `x`
    obtain ⟨len, -, hkeeps, hstops⟩ := snake_spec a b hlands.reach.nonneg.1 hlands.reach.nonneg.2
    have hxlen : x = (if came then px else px + 1) + len := hfar.unique (hlands.furthest hkeeps hstops)
    have hpfar := hprev e rfl
    have hsnap' : Snapshots a b e trace := fun j hj => hsnap j (by omega)
    rw [Nat.cast_succ] at hcame
    cases came with
    | true =>
      simp only [if_true] at hpx hkeeps hxlen hpfar
      have hpy : px - (x - y + 1) + 1 = px - (x - y) := by ring
      have hnonneg := hpfar.reach.nonneg
      obtain ⟨line, hline⟩ := exists_itemAt (l := b) hnonneg.2 (by omega)
      have hrewind := rewind_eq px (px - (x - y + 1) + 1) len ops
      rw [← hxlen, show px - (x - y + 1) + 1 + (len : ℤ) = y by omega] at hrewind
      have hrun : Transforms (List.replicate len (.eq 1) ++ ops) (a.drop px.toNat)
          (b.drop (px - (x - y)).toNat) := by
        refine Transforms.keeps hkeeps ?_
        rwa [← hxlen, show px - (x - y) + (len : ℤ) = y by omega]
      rw [backtrack_insert hrow hcame hpx hrewind hline]
      obtain ⟨x₀, ops', hback, hzero, hle, htransforms, hedits⟩ :=
        @ih px (px - (x - y + 1)) (.ins line :: (List.replicate len (.eq 1) ++ ops)) hsnap'
          (by rwa [sub_sub_cancel]) (by omega) (by omega)
          (by rw [drop_eq_cons_of_itemAt hline, hpy]; exact .ins line hrun)
      refine ⟨x₀, ops', hback, hzero, hle, htransforms, ?_⟩
      rw [hedits, edits, edits_append, edits_replicate_eq]
      omega
    | false =>
      simp only [Bool.false_eq_true, if_false] at hpx hkeeps hxlen hpfar
      have hpy : px + 1 - (x - y) = px - (x - y - 1) := by ring
      have hnonneg := hpfar.reach.nonneg
      obtain ⟨line, hline⟩ := exists_itemAt (l := a) hnonneg.1 (by omega)
      have hrewind := rewind_eq (px + 1) (px - (x - y - 1)) len ops
      rw [← hxlen, show px - (x - y - 1) + (len : ℤ) = y by omega] at hrewind
      have hrun : Transforms (List.replicate len (.eq 1) ++ ops) (a.drop (px + 1).toNat)
          (b.drop (px + 1 - (x - y)).toNat) := by
        refine Transforms.keeps hkeeps ?_
        rwa [← hxlen, show px + 1 - (x - y) + (len : ℤ) = y by omega]
      rw [backtrack_delete hrow hcame hpx hrewind hline]
      obtain ⟨x₀, ops', hback, hzero, hle, htransforms, hedits⟩ :=
        @ih px (px - (x - y - 1)) (.del line :: (List.replicate len (.eq 1) ++ ops)) hsnap'
          (by rwa [sub_sub_cancel]) (by omega) (by omega)
          (by rw [drop_eq_cons_of_itemAt hline, ← hpy]; exact .del line hrun)
      refine ⟨x₀, ops', hback, hzero, hle, htransforms, ?_⟩
      rw [hedits, edits, edits_append, edits_replicate_eq]
      omega

/-! ## The whole script -/

omit [DecidableEq α] in
/-- Merging two runs next to each other. -/
theorem Transforms.merge {front ops : List (Op α)} {run n : ℕ} {a b : List α}
    (h : Transforms (front ++ .eq run :: .eq n :: ops) a b) : Transforms (front ++ .eq (run + n) :: ops) a b := by
  induction front generalizing a b with
  | nil =>
    rw [List.nil_append] at h ⊢
    obtain - | @⟨first, _, a', b', h'⟩ := h
    obtain - | @⟨second, _, a'', b'', h''⟩ := h'
    rw [← List.append_assoc, ← List.append_assoc, ← List.length_append]
    exact .eq (first ++ second) h''
  | cons op front ih =>
    cases h with
    | eq first h' => exact .eq first (ih h')
    | del line h' => exact .del line (ih h')
    | ins line h' => exact .ins line (ih h')

omit [DecidableEq α] in
/-- The merge of adjacent runs keeps what the script does and its number of edits. -/
theorem foldl_pushMerged_spec {merged ops : List (Op α)} {a b : List α}
    (h : Transforms (merged.reverse ++ ops) a b) :
    Transforms (ops.foldl pushMerged merged).reverse a b ∧
      edits (ops.foldl pushMerged merged).reverse = edits merged.reverse + edits ops := by
  induction ops generalizing merged with
  | nil => exact ⟨by simpa using h, by simp [edits]⟩
  | cons op ops ih =>
    have hplain : Transforms ((op :: merged).reverse ++ ops) a b := by simpa using h
    have hedits : edits (op :: merged).reverse + edits ops = edits merged.reverse + edits (op :: ops) := by
      rw [List.reverse_cons, edits_append, show op :: ops = [op] ++ ops from rfl, edits_append [op]]
      omega
    rw [List.foldl_cons]
    by_cases hruns : ∃ run n rest, merged = .eq run :: rest ∧ op = .eq n
    · obtain ⟨run, n, rest, rfl, rfl⟩ := hruns
      rw [List.reverse_cons, List.append_assoc] at h
      have hmerged : Transforms ((.eq (run + n) :: rest).reverse ++ ops) a b := by
        rw [List.reverse_cons, List.append_assoc]
        exact h.merge
      obtain ⟨htransforms, hsum⟩ := ih hmerged
      refine ⟨htransforms, hsum.trans ?_⟩
      simp [edits_append, edits]
    · have hpush : pushMerged merged op = op :: merged := by
        cases merged with
        | nil => rfl
        | cons last rest =>
          cases last <;> cases op <;> first | rfl | exact absurd ⟨_, _, _, rfl, rfl⟩ hruns
      rw [hpush, ← hedits]
      exact ih hplain

omit [DecidableEq α] in
theorem prior_zero {cap : ℕ} (hcap : 1 ≤ cap) : Prior a b cap 0 (List.replicate (2 * cap + 1) 0) := by
  rw [Prior, itemAt, if_pos (by omega), List.getElem?_replicate, if_pos (by omega)]

/-- The whole run: no index is out of range, a script is returned unless more than `cap` edits are needed, and
it makes the fewest edits. -/
theorem editScriptWithin_spec {cap : ℕ} (hcap : 1 ≤ cap) (a b : List α) :
    ∃ res, editScriptWithin cap a b = .ok res ∧
      (res = none ↔ cap + 2 * lcs a b < a.length + b.length) ∧
      ∀ ops, res = some ops → Transforms ops a b ∧ edits ops + 2 * lcs a b = a.length + b.length := by
  by_cases hempty : a.length = 0 ∧ b.length = 0
  · obtain ⟨ha, hb⟩ := hempty
    rw [List.length_eq_zero_iff] at ha hb
    subst ha hb
    refine ⟨some [], rfl, ?_, ?_⟩
    · simp [lcs]
    · rintro ops heq
      obtain rfl := Option.some.inj heq
      exact ⟨.nil, by simp [edits, lcs]⟩
  · obtain ⟨res, hsearch, hnone, hsome⟩ :=
      @search_spec _ a b _ cap (cap + 1) 0 _ [] (by omega)
        List.length_replicate (prior_zero hcap) rfl (fun e he => by omega) (fun e he => by omega)
    rw [editScriptWithin, if_neg hempty, hsearch]
    obtain ⟨d, hend, hlcs⟩ := exists_reach_lcs a b
    cases res with
    | none =>
      refine ⟨none, rfl, iff_of_true rfl ?_, fun ops heq => by cases heq⟩
      have hpast : ¬ d ≤ cap := fun hd => hnone rfl d hd hend
      omega
    | some pair =>
      obtain ⟨found, trace⟩ := pair
      obtain ⟨hfound, hreach, hleast, hsnap⟩ := hsome found trace rfl
      -- the first round that comes to the end makes as many edits as an alignment with the longest sublist
      have hd : found = d := by
        have hge : ¬ d < found := fun hlt => hleast d hlt hend
        have hle := hreach.le
        omega
      obtain ⟨x, ops, hback, hzero, hx, htransforms, hedits⟩ :=
        @backtrack_spec _ a b _ _ _ _ _ [] hsnap (hreach.furthest_end hleast) le_rfl le_rfl (by simpa using Transforms.nil)
      have hwhole : Transforms (if 0 < x then .eq x.toNat :: ops else ops) a b ∧
          edits (if 0 < x then Op.eq x.toNat :: ops else ops) = found := by
        rw [edits, zero_add] at hedits
        split
        · have hlen : (a.take x.toNat).length = x.toNat := by
            rw [List.length_take]
            omega
          have hrun := Transforms.eq (a.take x.toNat) htransforms
          rw [hlen, List.take_append_drop] at hrun
          rw [hzero.take_eq.2, List.take_append_drop] at hrun
          exact ⟨hrun, hedits⟩
        · obtain rfl : x = 0 := le_antisymm (by omega) hzero.nonneg.1
          exact ⟨by simpa using htransforms, hedits⟩
      obtain ⟨hmerged, hmergedEdits⟩ := @foldl_pushMerged_spec _ [] _ _ _ (by simpa using hwhole.1)
      refine ⟨some ((if 0 < x then .eq x.toNat :: ops else ops).foldl pushMerged []).reverse, ?_,
        iff_of_false (Option.some_ne_none _) (by omega), ?_⟩
      · simp only [Except.bind, hback, bind, pure, Except.pure]
      · rintro script heq
        obtain rfl := Option.some.inj heq
        refine ⟨hmerged, ?_⟩
        rw [hmergedEdits, hwhole.2, List.reverse_nil, edits]
        omega

omit [DecidableEq α] in
/-- A script is an alignment with as many edits. -/
theorem Transforms.align {ops : List (Op α)} {a b : List α} (h : Transforms ops a b) : Align a b (edits ops) := by
  induction h with
  | nil => exact .nil
  | eq run _ ih => exact ih.append_left run
  | del line _ ih => exact .delete line ih
  | ins line _ ih => exact .insert line ih

/-- **The script consumes both lists with the fewest edits.**  No index is out of range, and a script that is
returned makes `length a + length b - 2 * lcs a b` edits, which no other script undercuts. -/
theorem myers_edit_script_least (a b : List α) :
    ∃ res, myersEditScript a b = .ok res ∧
      ∀ ops, res = some ops →
        Transforms ops a b ∧ edits ops + 2 * lcs a b = a.length + b.length ∧
          ∀ other, Transforms other a b → edits ops ≤ edits other := by
  obtain ⟨res, hres, -, hsome⟩ := @editScriptWithin_spec _ _ dCap (by rw [dCap_eq]; decide) a b
  refine ⟨res, hres, fun ops hops => ?_⟩
  obtain ⟨htransforms, hedits⟩ := hsome ops hops
  refine ⟨htransforms, hedits, fun other hother => ?_⟩
  have hle := hother.align.le
  omega

end Diff
