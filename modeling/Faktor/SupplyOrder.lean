/-
# The order of a bill of materials

The parts are ordered so that each comes after the parts that it goes into: a part is ready when all of
its lines wait for no parent any more, and the least part that is ready is the next one.

* `Uses` : the relation from a parent to its components;
* `Ordering` : what the loop keeps, from the parts that are ordered so far;
* `topologicalOrder_spec` : an order that is returned is topological, and there is none exactly when the
  relation has a cycle.
-/
import Faktor.GraphPush
import Faktor.SupplyNetting

namespace Supply

namespace PlanningInput

variable (input : PlanningInput)

/-- A parent uses its components. -/
def Uses (parent child : PartId) : Prop :=
  ∃ line ∈ input.bom, line.parent = parent ∧ line.child = child

/-- **What the validation checks before the order**, and the ranges of the types of the source: every
part has one record, a line is between parts with a record, of a positive quantity and with a usable
yield, and a demand is for a part with a record and inside the horizon. -/
structure Referenced : Prop where
  nodup : (input.parts.map (·.part)).Nodup
  parent : ∀ line ∈ input.bom, input.hasPart line.parent = true
  child : ∀ line ∈ input.bom, input.hasPart line.child = true
  quantity : ∀ line ∈ input.bom, 0 < line.quantityPerMicros ∧ line.quantityPerMicros < 2 ^ 63
  scrap : ∀ line ∈ input.bom, 0 ≤ line.scrapRatePpm ∧ line.scrapRatePpm < 1000000
  demand : ∀ line ∈ input.demand, input.hasPart line.part = true ∧ line.period < input.periods

variable {input}

theorem hasPart_iff {part : PartId} :
    input.hasPart part = true ↔ part ∈ input.parts.map (·.part) := by
  unfold hasPart
  rw [List.any_eq_true, List.mem_map]
  simp only [beq_iff_eq]

/-! ## The loop -/

/-- **What the loop keeps.**  The parts that are ordered come after the parts that they go into; the
degree of a part counts its lines whose parent is not ordered; and the parts of degree zero that are not
ordered are ready. -/
structure Ordering (input : PlanningInput) (done : List PartId) (indegree : PartId → ℕ)
    (ready : List PartId) : Prop where
  nodup : done.Nodup
  known : ∀ part ∈ done, input.hasPart part = true
  earlier : ∀ pre part post, done = pre ++ part :: post →
    ∀ line ∈ input.bom, line.child = part → line.parent ∈ pre
  degree : ∀ part, indegree part =
    input.bom.countP fun line => line.child = part && line.parent ∉ done
  ready_nodup : ready.Nodup
  mem_ready : ∀ part, part ∈ ready ↔ input.hasPart part = true ∧ part ∉ done ∧ indegree part = 0

/-- In the middle of the lines of a part: those that are left still count. -/
structure Releasing (input : PlanningInput) (done : List PartId) (rest : List BomLine)
    (s : (PartId → ℕ) × List PartId) : Prop where
  degree : ∀ part, s.1 part = (input.bom.countP fun line => line.child = part && line.parent ∉ done) +
    rest.countP fun line => line.child = part
  nodup : s.2.Nodup
  mem : ∀ part, part ∈ s.2 ↔ input.hasPart part = true ∧ part ∉ done ∧ s.1 part = 0

variable {done : List PartId} {rest : List BomLine} {s : (PartId → ℕ) × List PartId}

/-- One line is released. -/
theorem Releasing.step {line : BomLine} (h : Releasing input done (line :: rest) s)
    (hknown : input.hasPart line.child = true) (hnew : line.child ∉ done) :
    Releasing input done rest (release line s) := by
  have hcount : ∀ part, (line :: rest).countP (fun l => decide (l.child = part)) =
      rest.countP (fun l => decide (l.child = part)) + if line.child = part then 1 else 0 := by
    intro part
    rw [List.countP_cons]
    simp
  have hdegree := h.degree line.child
  rw [hcount, if_pos rfl] at hdegree
  have hchild : (release line s).1 line.child = s.1 line.child - 1 := by
    show Function.update s.1 line.child _ line.child = _
    rw [Function.update_self]
  have hother : ∀ part, part ≠ line.child → (release line s).1 part = s.1 part := by
    intro part hne
    show Function.update s.1 line.child _ part = _
    rw [Function.update_of_ne hne]
  have hready : (release line s).2 =
      if s.1 line.child - 1 = 0 then line.child :: s.2 else s.2 := by
    show (if Function.update s.1 line.child _ line.child = 0 then _ else _) = _
    rw [Function.update_self]
  constructor
  case degree =>
    intro part
    by_cases hpart : part = line.child
    · subst hpart
      omega
    · rw [hother part hpart, h.degree part, hcount, if_neg (Ne.symm hpart)]
      rfl
  case nodup =>
    rw [hready]
    split
    · refine List.nodup_cons.mpr ⟨fun hmem => ?_, h.nodup⟩
      have := ((h.mem _).mp hmem).2.2
      omega
    · exact h.nodup
  case mem =>
    intro part
    rw [hready]
    by_cases hpart : part = line.child
    · subst hpart
      rw [hchild]
      split
      · next hzero => simp [hknown, hnew, hzero]
      · next hzero =>
        rw [h.mem]
        have : s.1 line.child ≠ 0 := by omega
        simp [this, hzero]
    · rw [hother part hpart, ← h.mem part]
      split
      · simp [hpart]
      · rfl

/-- The lines of a part are released one after the other. -/
theorem Releasing.foldl (h : Releasing input done rest s)
    (hlines : ∀ line ∈ rest, input.hasPart line.child = true ∧ line.child ∉ done) :
    Releasing input done [] (rest.foldl (fun s line => release line s) s) := by
  induction rest generalizing s with
  | nil => exact h
  | cons line rest ih =>
    obtain ⟨hknown, hnew⟩ := hlines line List.mem_cons_self
    exact ih (h.step hknown hnew) fun l hl => hlines l (List.mem_cons_of_mem line hl)

variable {indegree : PartId → ℕ} {ready : List PartId}

/-- **One round of the loop.** -/
theorem Ordering.step (href : input.Referenced) (h : Ordering input done indegree ready) {part : PartId}
    (hpart : part ∈ ready) :
    Ordering input (done ++ [part])
      ((input.children part).foldl (fun s line => release line s) (indegree, ready.erase part)).1
      ((input.children part).foldl (fun s line => release line s) (indegree, ready.erase part)).2 := by
  obtain ⟨hknown, hnew, hzero⟩ := (h.mem_ready part).mp hpart
  -- no line of a part that is ready waits for a parent
  have hfed : ∀ line ∈ input.bom, line.child = part → line.parent ∈ done := by
    intro line hline hchild
    rw [h.degree, List.countP_eq_zero] at hzero
    have := hzero line hline
    simpa [hchild] using this
  have hearlier : ∀ pre v post, done ++ [part] = pre ++ v :: post →
      ∀ line ∈ input.bom, line.child = v → line.parent ∈ pre := by
    intro pre v post hsplit line hline hchild
    obtain rfl | ⟨mid, last, rfl⟩ := List.eq_nil_or_concat post
    · obtain ⟨rfl, hv⟩ := List.append_inj' hsplit rfl
      obtain rfl := List.singleton_inj.mp hv
      exact hfed line hline hchild
    · rw [List.concat_eq_append, ← List.cons_append, ← List.append_assoc] at hsplit
      obtain ⟨hdone, -⟩ := List.append_inj' hsplit rfl
      exact h.earlier pre v mid hdone line hline hchild
  have hlines : ∀ line ∈ input.children part,
      input.hasPart line.child = true ∧ line.child ∉ done ++ [part] := by
    intro line hline
    obtain ⟨hline, hparent⟩ := List.mem_filter.mp hline
    rw [beq_iff_eq] at hparent
    refine ⟨href.child line hline, fun hmem => hnew (hparent ▸ ?_)⟩
    obtain hmem | hmem := List.mem_append.mp hmem
    · obtain ⟨pre, post, hsplit⟩ := List.append_of_mem hmem
      have hpre := h.earlier pre _ post hsplit line hline rfl
      rw [hsplit]
      exact List.mem_append_left _ hpre
    · exact hfed line hline (List.mem_singleton.mp hmem)
  have hstart : Releasing input (done ++ [part]) (input.children part)
      (indegree, ready.erase part) := by
    constructor
    case degree =>
      intro v
      show indegree v = _
      rw [h.degree v, List.countP_eq_countP_filter_add _ _ fun line => line.parent == part, add_comm]
      congr 1
      · rw [List.countP_filter]
        refine List.countP_congr fun line _ => ?_
        simp only [Bool.and_eq_true, decide_eq_true_eq, Bool.not_eq_true', beq_eq_false_iff_ne,
          List.mem_append, List.mem_singleton]
        tauto
      · refine List.countP_congr fun line hline => ?_
        have hparent := (List.mem_filter.mp hline).2
        rw [beq_iff_eq] at hparent
        simp [hparent, hnew]
    case nodup => exact h.ready_nodup.erase part
    case mem =>
      intro v
      show v ∈ ready.erase part ↔ _ ∧ _ ∧ indegree v = 0
      rw [h.ready_nodup.mem_erase_iff, h.mem_ready, List.mem_append, List.mem_singleton]
      tauto
  have hend := hstart.foldl hlines
  constructor
  case nodup =>
    exact List.nodup_append.mpr ⟨h.nodup, List.nodup_singleton _, fun a ha b hb hab => by
      rw [List.mem_singleton.mp hb] at hab
      exact hnew (hab ▸ ha)⟩
  case known =>
    intro v hv
    obtain hv | hv := List.mem_append.mp hv
    · exact h.known v hv
    · rwa [List.mem_singleton.mp hv]
  case earlier => exact hearlier
  case degree =>
    intro v
    rw [hend.degree v]
    rfl
  case ready_nodup => exact hend.nodup
  case mem_ready => exact hend.mem

/-- As many rounds as there are parts are enough: in the end no part is ready. -/
theorem orderFrom_ordering (href : input.Referenced) (fuel : ℕ)
    (h : Ordering input done indegree ready) (hfuel : input.parts.length ≤ fuel + done.length) :
    ∃ indegree', Ordering input (done ++ input.orderFrom fuel indegree ready) indegree' [] := by
  induction fuel generalizing done indegree ready with
  | zero =>
    have hempty : ready = [] := by
      by_contra hne
      obtain ⟨part, hpart⟩ := List.exists_mem_of_ne_nil ready hne
      obtain ⟨hknown, hnew, -⟩ := (h.mem_ready part).mp hpart
      have hsub : part :: done ⊆ input.parts.map (·.part) := by
        intro v hv
        obtain rfl | hv := List.mem_cons.mp hv
        · exact hasPart_iff.mp hknown
        · exact hasPart_iff.mp (h.known v hv)
      have hle := ((List.nodup_cons.mpr ⟨hnew, h.nodup⟩).subperm hsub).length_le
      rw [List.length_cons, List.length_map] at hle
      omega
    subst hempty
    refine ⟨indegree, ?_⟩
    simpa [orderFrom] using h
  | succ fuel ih =>
    unfold orderFrom
    cases hmin : ready.min? with
    | none =>
      obtain rfl := List.min?_eq_none_iff.mp hmin
      exact ⟨indegree, by simpa using h⟩
    | some part =>
      have hpart : part ∈ ready := List.min?_mem hmin
      obtain ⟨indegree', h'⟩ := ih (h.step href hpart) (by simp; omega)
      refine ⟨indegree', ?_⟩
      rw [List.append_assoc] at h'
      exact h'

/-! ## Cycles -/

/-- The graph of the lines, as an order sees it: without values. -/
def graph (input : PlanningInput) : GraphPush PartId BomLine Unit where
  edges := input.bom
  src := BomLine.parent
  dst := BomLine.child
  base := fun _ => ()
  op := fun _ _ => ()
  amount := fun _ _ => ()

/-- The loop's order, when it has all the parts. -/
theorem topologicalOrder_cases (href : input.Referenced) : ∃ order indegree,
    Ordering input order indegree [] ∧
      (input.topologicalOrder = .ok order ∧ order.Perm (input.parts.map (·.part)) ∨
        input.topologicalOrder = .error .bomCycle ∧ ∃ part, input.hasPart part = true ∧ part ∉ order) := by
  have hstart : Ordering input [] (fun part => input.bom.countP (·.child == part))
      ((input.parts.map (·.part)).filter fun part => input.bom.countP (·.child == part) = 0) := by
    constructor
    case nodup => exact List.nodup_nil
    case known =>
      intro part hpart
      cases hpart
    case earlier =>
      intro pre part post hsplit
      simp at hsplit
    case degree =>
      intro part
      refine List.countP_congr fun line _ => ?_
      simp
    case ready_nodup => exact href.nodup.filter _
    case mem_ready =>
      intro part
      rw [List.mem_filter, hasPart_iff]
      simp
  obtain ⟨indegree, h⟩ := orderFrom_ordering href (input.parts.map (·.part)).length hstart (by simp)
  rw [List.nil_append] at h
  refine ⟨_, indegree, h, ?_⟩
  have hsub : input.orderFrom _ _ _ ⊆ input.parts.map (·.part) :=
    fun v hv => hasPart_iff.mp (h.known v hv)
  have hsubperm := h.nodup.subperm hsub
  unfold topologicalOrder
  simp only
  split
  · next hlength =>
    right
    refine ⟨rfl, ?_⟩
    by_contra hall
    push Not at hall
    refine hlength (le_antisymm hsubperm.length_le ?_)
    exact (href.nodup.subperm fun v hv => hall v (hasPart_iff.mpr hv)).length_le
  · next hlength =>
    left
    exact ⟨rfl, hsubperm.perm_of_length_le (le_of_eq (not_not.mp hlength).symm)⟩

/-- **An order that is returned is topological**: a permutation of the parts, each after its parents. -/
theorem topologicalOrder_spec (href : input.Referenced) {order : List PartId}
    (h : input.topologicalOrder = .ok order) :
    order.Perm (input.parts.map (·.part)) ∧ input.graph.Topological order := by
  obtain ⟨order', indegree, hordering, ⟨hok, hperm⟩ | ⟨herror, -⟩⟩ := topologicalOrder_cases href
  · rw [h] at hok
    obtain rfl := Except.ok.inj hok
    refine ⟨hperm, ?_⟩
    constructor
    case nodup => exact hordering.nodup
    case complete =>
      intro line hline
      exact hperm.mem_iff.mpr (hasPart_iff.mp (href.parent line hline))
    case earlier => exact hordering.earlier
  · rw [h] at herror
    cases herror

/-- **There is no order exactly when the relation has a cycle.** -/
theorem topologicalOrder_error_iff (href : input.Referenced) :
    (∃ e, input.topologicalOrder = .error e) ↔ ∃ part, Relation.TransGen input.Uses part part := by
  constructor
  · rintro ⟨e, herror⟩
    obtain ⟨order, indegree, h, ⟨hok, -⟩ | ⟨-, part, hpart, hnew⟩⟩ := topologicalOrder_cases href
    · rw [herror] at hok
      cases hok
    · -- every part that is left waits for a parent that is left
      refine exists_cycle (l := (input.parts.map (·.part)).filter (· ∉ order)) ?_ fun v hv => ?_
      · exact List.ne_nil_of_mem (List.mem_filter.mpr ⟨hasPart_iff.mp hpart, by simpa using hnew⟩)
      · obtain ⟨hv, hleft⟩ := List.mem_filter.mp hv
        have hdegree : indegree v ≠ 0 := by
          intro hzero
          have := (h.mem_ready v).mpr ⟨hasPart_iff.mpr hv, by simpa using hleft, hzero⟩
          cases this
        rw [h.degree v] at hdegree
        obtain ⟨line, hline, hfeeds⟩ := List.countP_pos_iff.mp (Nat.pos_of_ne_zero hdegree)
        simp only [Bool.and_eq_true, decide_eq_true_eq] at hfeeds
        refine ⟨line.parent, List.mem_filter.mpr ⟨hasPart_iff.mp (href.parent line hline), ?_⟩,
          line, hline, rfl, hfeeds.1⟩
        simpa using hfeeds.2
  · rintro ⟨part, hcycle⟩
    cases horder : input.topologicalOrder with
    | error e => exact ⟨e, rfl⟩
    | ok order =>
      exact absurd hcycle ((topologicalOrder_spec href horder).2.acyclic part)

end PlanningInput

end Supply
