/-
# The split of an order among its suppliers

Each supplier gets the floor of its share, and those with the largest remainders one unit more.  The
remainders add up to the units that are left over, so each of these goes to a supplier whose share was
rounded down.

* `remainder_pos` : an entry of descending remainders that gets a unit has a remainder;
* `allocate_exact` : the split of every quantity over every list of shares.
-/
import Faktor.SupplyNetting

namespace Supply

/-! ## Shares -/

theorem checkedShareTotal_ok {shares : List SupplyShare} {total : ℤ}
    (hrange : ∀ share ∈ shares, 0 ≤ share.sharePpm ∧ share.sharePpm ≤ 1000000) :
    shares.foldlM (fun total share => do
      refuseWhen (¬ (0 ≤ share.sharePpm ∧ share.sharePpm ≤ 1000000))
        (.invalid "supplier share outside 0..=1,000,000 ppm")
      return total + share.sharePpm) total =
      (.ok (total + (shares.map (·.sharePpm)).sum) : Planning ℤ) := by
  induction shares generalizing total with
  | nil => simp [pure, Except.pure]
  | cons share rest ih =>
    have hshare := hrange share List.mem_cons_self
    rw [List.foldlM_cons, refuseWhen, if_neg (not_not.mpr hshare)]
    show rest.foldlM _ (total + share.sharePpm) = _
    rw [ih fun s hs => hrange s (List.mem_cons_of_mem share hs), List.map_cons, List.sum_cons, add_assoc]

/-- Of shares that add up to a million none is above it. -/
theorem share_le {shares : List SupplyShare} (hnonneg : ∀ share ∈ shares, 0 ≤ share.sharePpm)
    (hsum : (shares.map (·.sharePpm)).sum = 1000000) :
    ∀ share ∈ shares, 0 ≤ share.sharePpm ∧ share.sharePpm ≤ 1000000 := by
  intro share hshare
  refine ⟨hnonneg share hshare, hsum ▸ List.single_le_sum ?_ _ (List.mem_map_of_mem hshare)⟩
  intro x hx
  obtain ⟨s, hs, rfl⟩ := List.mem_map.mp hx
  exact hnonneg s hs

theorem mapM_eq_ok {α β : Type} {f : α → Planning β} {g : α → β} {l : List α}
    (h : ∀ a ∈ l, f a = .ok (g a)) : l.mapM f = .ok (l.map g) := by
  induction l with
  | nil => rfl
  | cons a l ih =>
    rw [List.mapM_cons, h a List.mem_cons_self, ih fun b hb => h b (List.mem_cons_of_mem a hb)]
    rfl

/-! ## Remainders -/

/-- **In descending order the entries before the count of left-over units have a remainder.** -/
theorem remainder_pos {m leftover : ℕ} {remainders : List ℕ} (hm : 0 < m)
    (hsorted : remainders.Pairwise (· ≥ ·)) (hlt : ∀ r ∈ remainders, r < m)
    (hsum : remainders.sum = m * leftover) {i : ℕ} (hi : i < leftover) (hlen : i < remainders.length) :
    0 < remainders[i] := by
  by_contra hzero
  have hpair : (remainders.drop i).Pairwise (· ≥ ·) := hsorted.drop
  rw [List.drop_eq_getElem_cons hlen, List.pairwise_cons] at hpair
  have hrest : ∀ r ∈ remainders.drop i, r = 0 := by
    intro r hr
    rw [List.drop_eq_getElem_cons hlen] at hr
    obtain rfl | hr := List.mem_cons.mp hr
    · omega
    · have := hpair.1 r hr
      omega
  have hfront : (remainders.take i).sum ≤ i * (m - 1) := by
    have := List.sum_le_card_nsmul (remainders.take i) (m - 1) fun r hr => by
      have := hlt r (List.mem_of_mem_take hr)
      omega
    rw [List.length_take, min_eq_left hlen.le, smul_eq_mul] at this
    exact this
  have hsplit : remainders.sum = (remainders.take i).sum := by
    rw [← List.sum_take_add_sum_drop remainders i, List.sum_eq_zero hrest, add_zero]
  have hle : m * (i + 1) ≤ m * leftover := Nat.mul_le_mul_left m hi
  have hdrop : i * (m - 1) ≤ i * m := Nat.mul_le_mul_left i (Nat.sub_le m 1)
  rw [Nat.mul_add, mul_one, mul_comm m i] at hle
  omega

/-- The floors and the remainders of the shares make up what is shared. -/
theorem share_parts (q : ℕ) {shares : List SupplyShare}
    (hnonneg : ∀ share ∈ shares, 0 ≤ share.sharePpm) :
    ((1000000 * (shares.map fun share => q * share.sharePpm.toNat / 1000000).sum +
      (shares.map fun share => q * share.sharePpm.toNat % 1000000).sum : ℕ) : ℤ) =
      q * (shares.map (·.sharePpm)).sum := by
  induction shares with
  | nil => rfl
  | cons share rest ih =>
    have hrest := ih fun s hs => hnonneg s (List.mem_cons_of_mem share hs)
    have hdiv := Nat.div_add_mod (q * share.sharePpm.toNat) 1000000
    have hcast : ((q * share.sharePpm.toNat : ℕ) : ℤ) = q * share.sharePpm := by
      rw [Int.natCast_mul, Int.toNat_of_nonneg (hnonneg share List.mem_cons_self)]
    simp only [List.map_cons, List.sum_cons, mul_add]
    rw [← hrest, ← hcast]
    omega

theorem sum_ite_zipIdx (f : α → ℕ) (leftover : ℕ) (l : List α) (start : ℕ) :
    ((l.zipIdx start).map fun p => if p.2 < leftover then f p.1 + 1 else f p.1).sum =
      (l.map f).sum + min l.length (leftover - start) := by
  induction l generalizing start with
  | nil => simp
  | cons a l ih =>
    rw [List.zipIdx_cons, List.map_cons, List.sum_cons, ih, List.map_cons, List.sum_cons,
      List.length_cons]
    simp only
    split_ifs <;> omega

/-! ## The split -/

/-- What a supplier gets of a quantity for its share. -/
structure Allots (quantity : ℕ) (share : SupplyShare) (allocation : ℕ × Units) : Prop where
  supplier : allocation.1 = share.supplier
  units : allocation.2.get = quantity * share.sharePpm.toNat / 1000000 ∨
    allocation.2.get = quantity * share.sharePpm.toNat ⌈/⌉ 1000000
  none : share.sharePpm = 0 → allocation.2.get = 0

/-- **An order is split exactly**: for every quantity and all shares that add up to a million, the
allocations add up to the quantity, there is one for each share, of the floor or the ceiling of the
quantity times the share, and of nothing for a share of zero. -/
theorem allocate_exact (quantity : Units) (shares : List SupplyShare)
    (hnonneg : ∀ share ∈ shares, 0 ≤ share.sharePpm)
    (hsum : (shares.map (·.sharePpm)).sum = 1000000) :
    ∃ result allocations, allocate quantity shares = .ok result ∧
      (result.map (·.2.get)).sum = quantity.get ∧ allocations.Perm result ∧
      List.Forall₂ (Allots quantity.get) shares allocations := by
  have hne : shares ≠ [] := by
    rintro rfl
    cases hsum
  have htotal : checkedShareTotal shares = .ok 1000000 := by
    rw [checkedShareTotal, checkedShareTotal_ok (share_le hnonneg hsum), hsum, zero_add]
  have hparts := share_parts quantity.get hnonneg
  rw [hsum] at hparts
  set floors := shares.map fun share => (share.supplier, quantity.get * share.sharePpm.toNat / 1000000,
    quantity.get * share.sharePpm.toNat % 1000000) with hfloors
  have hfloor : shares.map (fun share => quantity.get * share.sharePpm.toNat / 1000000) =
      floors.map (·.2.1) := by rw [hfloors, List.map_map]; rfl
  have hremainder : shares.map (fun share => quantity.get * share.sharePpm.toNat % 1000000) =
      floors.map (·.2.2) := by rw [hfloors, List.map_map]; rfl
  rw [hfloor, hremainder] at hparts
  set leftover := quantity.get - (floors.map (·.2.1)).sum with hleftover
  set sorted := floors.insertionSort fun left right =>
    right.2.2 < left.2.2 ∨ left.2.2 = right.2.2 ∧ left.1 ≤ right.1 with hsorted
  have hperm : sorted.Perm floors := List.perm_insertionSort _ _
  have hlt : ∀ r ∈ sorted.map (·.2.2), r < 1000000 := by
    intro r hr
    obtain ⟨floor, hfloor, rfl⟩ := List.mem_map.mp hr
    obtain ⟨share, -, rfl⟩ := List.mem_map.mp (hperm.mem_iff.mp hfloor)
    exact Nat.mod_lt _ (by decide)
  have hsumr : (sorted.map (·.2.2)).sum = 1000000 * leftover := by
    rw [(hperm.map _).sum_eq]
    omega
  have hdesc : (sorted.map (·.2.2)).Pairwise (· ≥ ·) := by
    have : Std.Total fun left right : ℕ × ℕ × ℕ =>
        right.2.2 < left.2.2 ∨ left.2.2 = right.2.2 ∧ left.1 ≤ right.1 := ⟨fun a b => by omega⟩
    have : IsTrans (ℕ × ℕ × ℕ) fun left right =>
        right.2.2 < left.2.2 ∨ left.2.2 = right.2.2 ∧ left.1 ≤ right.1 := ⟨fun a b c => by omega⟩
    rw [List.pairwise_map]
    refine (List.pairwise_insertionSort _ floors).imp fun h => ?_
    obtain h | ⟨h, -⟩ := h
    · exact h.le
    · exact h.ge
  -- an entry that gets one unit more was rounded down
  have hpos : ∀ p ∈ sorted.zipIdx, p.2 < leftover → 0 < p.1.2.2 := by
    rintro ⟨floor, i⟩ hp hi
    obtain ⟨hlen, hget⟩ := List.getElem?_eq_some_iff.mp (List.mk_mem_zipIdx_iff_getElem?.mp hp)
    have := remainder_pos (by decide) hdesc hlt hsumr hi (by rwa [List.length_map])
    rwa [List.getElem_map, hget] at this
  have hunits : ∀ floor ∈ sorted, floor.2.1 ≤ quantity.get ∧
      (0 < floor.2.2 → floor.2.1 + 1 ≤ quantity.get) := by
    intro floor hmem
    obtain ⟨share, hshare, rfl⟩ := List.mem_map.mp (hperm.mem_iff.mp hmem)
    have hp : share.sharePpm.toNat ≤ 1000000 := by
      have := (share_le hnonneg hsum share hshare).2
      omega
    have hle : quantity.get * share.sharePpm.toNat ≤ quantity.get * 1000000 := Nat.mul_le_mul_left _ hp
    dsimp only
    omega
  have hle : ∀ p ∈ sorted.zipIdx, (if p.2 < leftover then p.1.2.1 + 1 else p.1.2.1) ≤ maxUnits := by
    intro p hp
    have hq := quantity.le
    obtain ⟨hfloor, hceil⟩ := hunits p.1 (List.mem_zipIdx_iff_getElem?.mp hp |> List.mem_of_getElem?)
    split_ifs with hi
    · exact (hceil (hpos p hp hi)).trans hq
    · exact hfloor.trans hq
  set g : (ℕ × ℕ × ℕ) × ℕ → ℕ × Units := fun p =>
    (p.1.1, if h : (if p.2 < leftover then p.1.2.1 + 1 else p.1.2.1) ≤ maxUnits then ⟨_, h⟩ else .zero)
  have hget : ∀ p ∈ sorted.zipIdx,
      (g p).2.get = if p.2 < leftover then p.1.2.1 + 1 else p.1.2.1 := by
    intro p hp
    show Units.get (dite _ _ _) = _
    rw [dif_pos (hle p hp)]
  have hmap : sorted.zipIdx.mapM (fun p => do
      let units ← Units.new (if p.2 < leftover then p.1.2.1 + 1 else p.1.2.1)
      return (p.1.1, units)) = .ok (sorted.zipIdx.map g) := by
    refine mapM_eq_ok fun p hp => ?_
    show (Units.new _).bind _ = Except.ok (p.1.1, dite _ _ _)
    rw [Units.new, dif_pos (hle p hp), dif_pos (hle p hp)]
    rfl
  have hsplit : List.Forall₂ (fun (floor : ℕ × ℕ × ℕ) (a : ℕ × Units) => a.1 = floor.1 ∧
      (a.2.get = floor.2.1 ∨ a.2.get = floor.2.1 + 1 ∧ 0 < floor.2.2)) sorted (sorted.zipIdx.map g) := by
    conv => arg 2; rw [← List.zipIdx_map_fst 0 sorted]
    rw [List.forall₂_map_left_iff, List.forall₂_map_right_iff, List.forall₂_same]
    intro p hp
    refine ⟨rfl, ?_⟩
    rw [hget p hp]
    split_ifs with hi
    · exact .inr ⟨rfl, hpos p hp hi⟩
    · exact .inl rfl
  obtain ⟨allocations, hall, hsame⟩ := List.perm_comp_forall₂ hperm.symm hsplit
  refine ⟨(sorted.zipIdx.map g).insertionSort fun left right => left.1 ≤ right.1, allocations, ?_, ?_,
    hsame.trans (List.perm_insertionSort _ _).symm, ?_⟩
  · unfold allocate
    rw [htotal]
    show (refuseWhen (shares = []) _).bind _ = _
    rw [refuseWhen, if_neg hne]
    show Except.bind (List.mapM _ _) _ = _
    rw [hmap]
    rfl
  · have hfit : leftover ≤ sorted.length := by
      by_contra hlong
      have := List.sum_le_card_nsmul (sorted.map (·.2.2)) 999999 fun r hr => Nat.le_pred_of_lt (hlt r hr)
      rw [hsumr, List.length_map, smul_eq_mul] at this
      omega
    rw [((List.perm_insertionSort _ _).map _).sum_eq, List.map_map,
      List.map_congr_left (g := fun p => if p.2 < leftover then p.1.2.1 + 1 else p.1.2.1) hget,
      sum_ite_zipIdx (fun floor : ℕ × ℕ × ℕ => floor.2.1), (hperm.map _).sum_eq]
    omega
  · rw [hfloors, List.forall₂_map_left_iff] at hall
    refine hall.imp fun share a ha => ?_
    obtain ⟨hsupplier, hunits⟩ := ha
    refine ⟨hsupplier, ?_, fun hzero => ?_⟩
    · obtain h | ⟨h, hr⟩ := hunits
      · exact .inl h
      · right
        rw [h, Nat.ceilDiv_eq_add_pred_div]
        dsimp only at hr ⊢
        omega
    · rw [hzero] at hunits
      simpa using hunits

/-- Three suppliers with a third each, nearly. -/
theorem allocate_exact_thirds : ∃ result allocations,
    allocate ⟨7, by decide⟩ [⟨1, 333333⟩, ⟨2, 333333⟩, ⟨3, 333334⟩] = .ok result ∧
      (result.map (·.2.get)).sum = 7 ∧ allocations.Perm result ∧
      List.Forall₂ (Allots 7) [⟨1, 333333⟩, ⟨2, 333333⟩, ⟨3, 333334⟩] allocations :=
  allocate_exact ⟨7, by decide⟩ _ (by decide) (by decide)

end Supply
