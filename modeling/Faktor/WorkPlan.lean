/-
# Work plans: dependencies and progress

The work items of a plan wait for each other by id.  The validation reports repeated ids, dependencies
that name no item, and cycles, which a counting queue over positions finds; a valid plan is worked off
by starting items that are ready and finishing items that run.

* `cycleItems` : the items on a cycle or behind one;
* `cycleItems_eq_none_iff` : there are none exactly when no position waits for itself;
* `Move` : a ready item is started, or a running one is finished;
* `plan_progress` : what the validation of the dependencies means for all of them.
-/
import Faktor.GraphPush

namespace WorkPlan

/-! ## Items and their states -/

inductive WorkState
  | pending
  | running
  | paused
  | waiting
  | blocked
  | done
  | failed
  | cancelled
  deriving DecidableEq, Repr

/-- What the dependencies of a plan are about; the other fields play no part in them. -/
structure WorkItem where
  id : String
  dependsOn : List String
  completion : WorkState
  deriving DecidableEq, Repr

def canTransition (source target : WorkState) : Bool :=
  if source = target then false
  else
    match source with
    | .pending => target ∈ [.running, .cancelled]
    | .running => target ∈ [.paused, .waiting, .blocked, .done, .failed, .cancelled]
    | .waiting => target ∈ [.running, .paused, .blocked, .done, .failed, .cancelled]
    | .paused => target ∈ [.running, .cancelled, .failed]
    | .blocked => target ∈ [.pending, .running, .failed]
    | .failed => target = .pending
    | .done | .cancelled => false

inductive StateError
  | unknownItem
  | illegalTransition (source target : WorkState)
  deriving DecidableEq, Repr

/-- The assignment to the first item of the id. -/
def setFirst (id : String) (state : WorkState) : List WorkItem → List WorkItem
  | [] => []
  | w :: rest => if w.id = id then { w with completion := state } :: rest else w :: setFirst id state rest

/-- `set_item_state`. -/
def setItemState (items : List WorkItem) (id : String) (state : WorkState) :
    Except StateError (List WorkItem) :=
  match items.find? (·.id = id) with
  | none => .error .unknownItem
  | some item =>
    if canTransition item.completion state then .ok (setFirst id state items)
    else .error (.illegalTransition item.completion state)

/-- `state_of`: the map is filled in order, so the last item of an id decides. -/
def stateOf (items : List WorkItem) (id : String) : Option WorkState :=
  (items.reverse.find? (·.id = id)).map (·.completion)

/-- `ready_items`. -/
def readyItems (items : List WorkItem) : List String :=
  (items.filter fun w =>
    w.completion = .pending && w.dependsOn.all fun d => stateOf items d = some .done).map (·.id)

/-! ## Cycles -/

/-- `pos`: the position of the last item of an id. -/
def pos (items : List WorkItem) (id : String) : Option ℕ :=
  (items.zipIdx.reverse.find? (·.1.id = id)).map (·.2)

/-- The dependencies that are found, each from the item that is waited for to the one that waits. -/
def edges (items : List WorkItem) : List (ℕ × ℕ) :=
  items.zipIdx.flatMap fun w => w.1.dependsOn.filterMap fun dep => (pos items dep).map (·, w.2)

/-- One dependent of a position that is done. -/
def release (s : (ℕ → ℕ) × List ℕ) (j : ℕ) : (ℕ → ℕ) × List ℕ :=
  let indegree := Function.update s.1 j (s.1 j - 1)
  (indegree, if indegree j = 0 then s.2 ++ [j] else s.2)

/-- The loop of `cycle_items`.  A round marks one more position, so there are at most as many rounds as
positions. -/
def drain (edges : List (ℕ × ℕ)) : ℕ → (ℕ → ℕ) → List ℕ → List ℕ → List ℕ
  | 0, _, _, done => done
  | _ + 1, _, [], done => done
  | fuel + 1, indegree, i :: queue, done =>
    if i ∈ done then drain edges fuel indegree queue done
    else
      let s := ((edges.filter (·.1 = i)).map (·.2)).foldl release (indegree, queue)
      drain edges fuel s.1 s.2 (done ++ [i])

/-- The positions that the loop marks. -/
def marked (items : List WorkItem) : List ℕ :=
  let indegree := fun i => (edges items).countP (·.2 = i)
  drain (edges items) items.length indegree ((List.range items.length).filter (indegree · = 0)) []

/-- `cycle_items`. -/
def cycleItems (items : List WorkItem) : Option (List String) :=
  let leftover := items.zipIdx.filter fun w => w.2 ∉ marked items
  if leftover = [] then none else some (leftover.map (·.1.id))

/-! ## Validation -/

/-- The violations of `structural_errors`. -/
inductive Violation
  | goalTooLong
  | invalidId (id : String)
  | duplicateId (id : String)
  | unknownDependency (id dep : String)
  | cycle (ids : List String)
  deriving DecidableEq, Repr

def Violation.IsDependency : Violation → Bool
  | duplicateId _ | unknownDependency _ _ | cycle _ => true
  | goalTooLong | invalidId _ => false

def maxGoalChars : ℕ := 2000

def maxItemIdChars : ℕ := 64

/-- `is_valid_item_id`. -/
def isValidItemId (id : String) : Bool :=
  id ≠ "" && id.utf8ByteSize ≤ maxItemIdChars &&
    id.toList.all fun c => 0x21 ≤ c.toNat && c.toNat ≤ 0x7e && c ≠ '/' && c ≠ '\\'

/-- The first loop, with the ids it has seen. -/
def idErrors : List String → List WorkItem → List Violation
  | _, [] => []
  | seen, w :: rest =>
    (if isValidItemId w.id then [] else [.invalidId w.id]) ++
      (if w.id ∈ seen then [.duplicateId w.id] else []) ++ idErrors (w.id :: seen) rest

def unknownErrors (items : List WorkItem) : List Violation :=
  items.flatMap fun w =>
    (w.dependsOn.filter (· ∉ items.map (·.id))).map (.unknownDependency w.id)

/-- `structural_errors`. -/
def structuralErrors (goal : String) (items : List WorkItem) : List Violation :=
  (if maxGoalChars < goal.length then [.goalTooLong] else []) ++ idErrors [] items ++
    unknownErrors items ++ (cycleItems items).toList.map .cycle

/-! ## The counting queue -/

section Queue

variable {edges : List (ℕ × ℕ)} {n : ℕ} {done queue rest : List ℕ} {indegree : ℕ → ℕ}

/-- An edge is followed from the item that is waited for. -/
def Feeds (edges : List (ℕ × ℕ)) (i j : ℕ) : Prop := (i, j) ∈ edges

/-- **What the loop keeps.**  A degree counts the edges from positions that are not marked, the positions
of degree zero are those that are marked or queued, and no cycle goes through a marked one. -/
structure Counting (edges : List (ℕ × ℕ)) (n : ℕ) (done queue : List ℕ) (indegree : ℕ → ℕ) : Prop where
  degree : ∀ i, indegree i = edges.countP fun e => e.2 = i && e.1 ∉ done
  nodup : (done ++ queue).Nodup
  mem : ∀ i, i ∈ done ++ queue ↔ i < n ∧ indegree i = 0
  acyclic : ∀ i ∈ done, ¬ Relation.TransGen (Feeds edges) i i

theorem Counting.fed (h : Counting edges n done queue indegree) {i j : ℕ} (hj : j ∈ done ++ queue)
    (hedge : Feeds edges i j) : i ∈ done := by
  have hzero := ((h.mem j).mp hj).2
  rw [h.degree, List.countP_eq_zero] at hzero
  simpa using hzero (i, j) hedge

/-- The dependents of a position are released one after the other; `rest` still counts. -/
theorem release_foldl (hrest : ∀ j ∈ rest, j < n)
    {s : (ℕ → ℕ) × List ℕ} {base : ℕ → ℕ}
    (hdegree : ∀ i, s.1 i = base i + rest.count i) (hnodup : (done ++ s.2).Nodup)
    (hmem : ∀ i, i ∈ done ++ s.2 ↔ i < n ∧ s.1 i = 0) :
    (∀ i, (rest.foldl release s).1 i = base i) ∧ (done ++ (rest.foldl release s).2).Nodup ∧
      ∀ i, i ∈ done ++ (rest.foldl release s).2 ↔ i < n ∧ (rest.foldl release s).1 i = 0 := by
  induction rest generalizing s with
  | nil => exact ⟨by simpa using hdegree, hnodup, hmem⟩
  | cons j rest ih =>
    have hj : s.1 j = base j + rest.count j + 1 := by
      rw [hdegree j, List.count_cons_self]
      omega
    have hnew : j ∉ done ++ s.2 := by
      intro hmem'
      have := ((hmem j).mp hmem').2
      omega
    have hself : (release s j).1 j = base j + rest.count j := by
      show Function.update s.1 j _ j = _
      rw [Function.update_self]
      omega
    have hother : ∀ i, i ≠ j → (release s j).1 i = s.1 i := fun i hne => Function.update_of_ne hne _ _
    have hqueue : (release s j).2 = if (release s j).1 j = 0 then s.2 ++ [j] else s.2 := rfl
    refine ih (fun k hk => hrest k (List.mem_cons_of_mem _ hk)) (fun i => ?_) ?_ fun i => ?_
    · by_cases hi : i = j
      · rw [hi, hself]
      · rw [hother i hi, hdegree i, List.count_cons_of_ne (Ne.symm hi)]
    · rw [hqueue]
      split_ifs
      · rw [← List.append_assoc]
        exact List.nodup_append.mpr ⟨hnodup, List.nodup_singleton j, fun a ha b hb hab =>
          hnew (List.mem_singleton.mp hb ▸ hab ▸ ha)⟩
      · exact hnodup
    · by_cases hi : i = j
      · subst hi
        rw [hqueue]
        split_ifs with hzero
        · simp [hzero, hrest i List.mem_cons_self]
        · simp [hzero, hnew]
      · rw [hother i hi, ← hmem i, hqueue]
        split_ifs
        · simp [hi]
        · rfl

/-- **One round of the loop.** -/
theorem Counting.step (hedges : ∀ e ∈ edges, e.2 < n) {i : ℕ}
    (h : Counting edges n done (i :: queue) indegree) :
    i ∉ done ∧ ∃ queue' indegree',
      ((edges.filter (·.1 = i)).map (·.2)).foldl release (indegree, queue) = (indegree', queue') ∧
        Counting edges n (done ++ [i]) queue' indegree' := by
  have hi : i ∈ done ++ i :: queue := by simp
  have hnodup : ((done ++ [i]) ++ queue).Nodup := by simpa using h.nodup
  have hnew : i ∉ done := fun hmem => by
    have := h.nodup
    rw [List.nodup_append] at this
    exact this.2.2 i hmem i List.mem_cons_self rfl
  refine ⟨hnew, _, _, rfl, ?_⟩
  have hrest : ∀ j ∈ (edges.filter (·.1 = i)).map (·.2), j < n := by
    intro j hj
    obtain ⟨e, he, rfl⟩ := List.mem_map.mp hj
    exact hedges e (List.mem_filter.mp he).1
  have hcount : ∀ j, indegree j = (edges.countP fun e => e.2 = j && e.1 ∉ done ++ [i]) +
      ((edges.filter (·.1 = i)).map (·.2)).count j := by
    intro j
    rw [h.degree j, List.count_eq_countP, List.countP_map, List.countP_filter,
      List.countP_eq_countP_filter_add _ _ fun e => e.1 ∉ done ++ [i], List.countP_filter,
      List.countP_filter]
    congr 1
    · refine List.countP_congr fun e _ => ?_
      simp
      tauto
    · refine List.countP_congr fun e _ => ?_
      simp
      grind
  obtain ⟨hdegree, hnodup', hmem⟩ := release_foldl hrest (s := (indegree, queue)) hcount hnodup
    fun j => by simpa using h.mem j
  refine ⟨hdegree, hnodup', hmem, fun j hj hcycle => ?_⟩
  -- a cycle through the new position goes through one of those that it waits for
  obtain hj | hj := List.mem_append.mp hj
  · exact h.acyclic j hj hcycle
  · obtain rfl := List.mem_singleton.mp hj
    obtain ⟨k, hjk, hk⟩ := Relation.TransGen.tail'_iff.mp hcycle
    exact h.acyclic k (h.fed hi hk) (.head' hk hjk)

/-- **The whole loop**: in the end nothing is queued. -/
theorem Counting.drain (hedges : ∀ e ∈ edges, e.2 < n) (fuel : ℕ)
    (h : Counting edges n done queue indegree) (hfuel : n ≤ fuel + done.length) :
    ∃ indegree', Counting edges n (drain edges fuel indegree queue done) [] indegree' := by
  induction fuel generalizing done queue indegree with
  | zero =>
    have hempty : queue = [] := by
      have hsub : done ++ queue ⊆ List.range n := fun i hi => List.mem_range.mpr ((h.mem i).mp hi).1
      have hle := (h.nodup.subperm hsub).length_le
      rw [List.length_append, List.length_range] at hle
      exact List.eq_nil_of_length_eq_zero (by omega)
    exact ⟨indegree, hempty ▸ h⟩
  | succ fuel ih =>
    cases queue with
    | nil => exact ⟨indegree, h⟩
    | cons i queue =>
      obtain ⟨hnew, queue', indegree', heq, h'⟩ := h.step hedges
      rw [WorkPlan.drain, if_neg hnew]
      simp only [heq]
      exact ih h' (by rw [List.length_append, List.length_singleton]; omega)

end Queue

/-! ## What the validation finds -/

section Validation

variable {items : List WorkItem} {i j : ℕ}

theorem pos_some {id : String} (h : pos items id = some i) : ∃ w, items[i]? = some w ∧ w.id = id := by
  obtain ⟨⟨w, i'⟩, hfind, rfl⟩ := Option.map_eq_some_iff.mp h
  have hmem := List.mem_reverse.mp (List.mem_of_find?_eq_some hfind)
  refine ⟨w, List.mk_mem_zipIdx_iff_getElem?.mp hmem, ?_⟩
  simpa using List.find?_some hfind

/-- An item whose id is its own is at the position of its id. -/
theorem pos_eq (hids : (items.map (·.id)).Nodup) {w : WorkItem} (h : items[i]? = some w) :
    pos items w.id = some i := by
  have hmem : (w, i) ∈ items.zipIdx.reverse :=
    List.mem_reverse.mpr (List.mk_mem_zipIdx_iff_getElem?.mpr h)
  obtain ⟨j, hj⟩ : ∃ j, pos items w.id = some j := by
    rw [← Option.isSome_iff_exists, pos, Option.isSome_map, List.find?_isSome]
    exact ⟨(w, i), hmem, by simp⟩
  obtain ⟨w', hw', hid⟩ := pos_some hj
  have hget : (items.map (·.id))[j]? = (items.map (·.id))[i]? := by
    rw [List.getElem?_map, List.getElem?_map, hw', h, Option.map_some, Option.map_some, hid]
  have hlt : j < (items.map (·.id)).length := by
    rw [List.length_map]
    exact (List.getElem?_eq_some_iff.mp hw').1
  rw [hj, (List.getElem?_inj hlt hids).mp hget]

theorem feeds_iff : Feeds (edges items) i j ↔
    ∃ w, items[j]? = some w ∧ ∃ dep ∈ w.dependsOn, pos items dep = some i := by
  simp only [Feeds, edges, List.mem_flatMap, List.mem_filterMap, Option.map_eq_some_iff, Prod.mk.injEq]
  constructor
  · rintro ⟨⟨w, k⟩, hw, dep, hdep, to', hpos, rfl, rfl⟩
    exact ⟨w, List.mk_mem_zipIdx_iff_getElem?.mp hw, dep, hdep, hpos⟩
  · rintro ⟨w, hw, dep, hdep, hpos⟩
    exact ⟨(w, j), List.mk_mem_zipIdx_iff_getElem?.mpr hw, dep, hdep, i, hpos, rfl, rfl⟩

theorem feeds_lt (h : Feeds (edges items) i j) : i < items.length ∧ j < items.length := by
  obtain ⟨w, hw, dep, -, hpos⟩ := feeds_iff.mp h
  obtain ⟨w', hw', -⟩ := pos_some hpos
  exact ⟨(List.getElem?_eq_some_iff.mp hw').1, (List.getElem?_eq_some_iff.mp hw).1⟩

theorem marked_counting (items : List WorkItem) :
    ∃ indegree, Counting (edges items) items.length (marked items) [] indegree := by
  refine Counting.drain (fun e he => (feeds_lt (i := e.1) he).2) _ ⟨fun k => ?_, ?_, fun k => ?_, ?_⟩
    (by simp)
  · simp
  · simpa using List.nodup_range.filter _
  · simp
  · simp

/-- **`cycle_items` finds nothing exactly when no position waits for itself.** -/
theorem cycleItems_eq_none_iff :
    cycleItems items = none ↔ ∀ i, ¬ Relation.TransGen (Feeds (edges items)) i i := by
  obtain ⟨indegree, h⟩ := marked_counting items
  have hnone : cycleItems items = none ↔ ∀ i < items.length, i ∈ marked items := by
    rw [cycleItems, ite_eq_left_iff, List.filter_eq_nil_iff]
    simp only [reduceCtorEq, imp_false, not_not]
    constructor
    · intro hall i hi
      simpa using hall (items[i], i) (List.mk_mem_zipIdx_iff_getElem?.mpr (List.getElem?_eq_getElem hi))
    · rintro hall ⟨w, i⟩ hw
      have := hall i (List.getElem?_eq_some_iff.mp (List.mk_mem_zipIdx_iff_getElem?.mp hw)).1
      simpa using this
  rw [hnone]
  constructor
  · intro hall i hcycle
    obtain ⟨k, hfeeds, -⟩ := Relation.TransGen.head'_iff.mp hcycle
    exact h.acyclic i (hall i (feeds_lt hfeeds).1) hcycle
  · intro hacyclic
    by_contra hleft
    push Not at hleft
    obtain ⟨i, hi, hnot⟩ := hleft
    -- whatever is left waits for a position that is left
    obtain ⟨k, hk⟩ := exists_cycle (R := Feeds (edges items))
      (l := (List.range items.length).filter (· ∉ marked items))
      (List.ne_nil_of_mem (List.mem_filter.mpr ⟨List.mem_range.mpr hi, by simpa using hnot⟩))
      fun k hk => by
        obtain ⟨hk, hleft⟩ := List.mem_filter.mp hk
        have hdegree : indegree k ≠ 0 := by
          intro hzero
          have := (h.mem k).mpr ⟨List.mem_range.mp hk, hzero⟩
          rw [List.append_nil] at this
          simp [this] at hleft
        rw [h.degree, Ne, List.countP_eq_zero] at hdegree
        push Not at hdegree
        obtain ⟨e, he, hcount⟩ := hdegree
        simp only [Bool.and_eq_true, decide_eq_true_eq] at hcount
        have hfeeds : Feeds (edges items) e.1 k := hcount.1 ▸ he
        exact ⟨e.1, List.mem_filter.mpr
          ⟨List.mem_range.mpr (feeds_lt hfeeds).1, by simpa using hcount.2⟩, hfeeds⟩
    exact hacyclic k hk

/-- One item waits for another. -/
def DependsOn (items : List WorkItem) (a b : String) : Prop := ∃ w ∈ items, w.id = a ∧ b ∈ w.dependsOn

/-- Every dependency names an item. -/
def Known (items : List WorkItem) : Prop :=
  ∀ w ∈ items, ∀ dep ∈ w.dependsOn, dep ∈ items.map (·.id)

/-- No item waits for itself, over any number of others. -/
def Acyclic (items : List WorkItem) : Prop := ∀ a, ¬ Relation.TransGen (DependsOn items) a a

/-- With ids of their own, the positions wait for each other as the ids do. -/
theorem acyclic_iff (hids : (items.map (·.id)).Nodup) (hknown : Known items) :
    (∀ i, ¬ Relation.TransGen (Feeds (edges items)) i i) ↔ Acyclic items := by
  constructor
  · intro h a hcycle
    refine h ((pos items a).getD 0) (Relation.transGen_swap.mp ?_)
    refine hcycle.lift (fun b => (pos items b).getD 0) fun a b hab => ?_
    obtain ⟨w, hw, rfl, hb⟩ := hab
    obtain ⟨j, hj⟩ := List.mem_iff_getElem?.mp hw
    obtain ⟨w', hw', rfl⟩ := List.mem_map.mp (hknown w hw b hb)
    obtain ⟨i, hi⟩ := List.mem_iff_getElem?.mp hw'
    show Feeds (edges items) ((pos items w'.id).getD 0) ((pos items w.id).getD 0)
    rw [pos_eq hids hj, pos_eq hids hi]
    exact feeds_iff.mpr ⟨w, hj, w'.id, hb, pos_eq hids hi⟩
  · intro h i hcycle
    refine h ((items[i]?.map (·.id)).getD "") (Relation.transGen_swap.mp ?_)
    refine hcycle.lift (fun j => (items[j]?.map (·.id)).getD "") fun i j hij => ?_
    obtain ⟨w, hw, dep, hdep, hpos⟩ := feeds_iff.mp hij
    obtain ⟨w', hw', rfl⟩ := pos_some hpos
    show DependsOn items ((items[j]?.map (·.id)).getD "") ((items[i]?.map (·.id)).getD "")
    rw [hw, hw']
    exact ⟨w, List.mem_of_getElem? hw, rfl, hdep⟩

theorem idErrors_dependency_iff (seen : List String) (items : List WorkItem) :
    (∀ e ∈ idErrors seen items, e.IsDependency = false) ↔
      (items.map (·.id)).Nodup ∧ ∀ w ∈ items, w.id ∉ seen := by
  induction items generalizing seen with
  | nil => simp [idErrors]
  | cons w rest ih =>
    rw [List.forall_mem_cons, List.map_cons, List.nodup_cons]
    simp only [idErrors, List.forall_mem_append, ih, List.mem_cons, not_or, List.mem_map, not_exists,
      not_and]
    constructor
    · rintro ⟨⟨-, hdup⟩, hnodup, hrest⟩
      refine ⟨⟨fun w' hw' => (hrest w' hw').1, hnodup⟩, ?_, fun w' hw' => (hrest w' hw').2⟩
      intro hmem
      simp [hmem, Violation.IsDependency] at hdup
    · rintro ⟨⟨hnew, hnodup⟩, hw, hrest⟩
      refine ⟨⟨?_, by simp [hw]⟩, hnodup, fun w' hw' => ⟨hnew w' hw', hrest w' hw'⟩⟩
      split_ifs <;> simp [Violation.IsDependency]

/-- **The validation reports no violation of the dependencies exactly when the ids are unique, every
dependency names an item, and no item waits for itself.** -/
theorem no_dependency_error_iff (goal : String) (items : List WorkItem) :
    (∀ e ∈ structuralErrors goal items, e.IsDependency = false) ↔
      (items.map (·.id)).Nodup ∧ Known items ∧ Acyclic items := by
  have hunknown : (∀ e ∈ unknownErrors items, e.IsDependency = false) ↔ Known items := by
    constructor
    · intro h w hw dep hdep
      by_contra hnot
      have := h (.unknownDependency w.id dep) (List.mem_flatMap.mpr ⟨w, hw, List.mem_map.mpr
        ⟨dep, List.mem_filter.mpr ⟨hdep, by simpa using hnot⟩, rfl⟩⟩)
      simp [Violation.IsDependency] at this
    · intro h e he
      obtain ⟨w, hw, he⟩ := List.mem_flatMap.mp he
      obtain ⟨dep, hdep, -⟩ := List.mem_map.mp he
      obtain ⟨hdep, hnot⟩ := List.mem_filter.mp hdep
      exact absurd (h w hw dep hdep) (of_decide_eq_true hnot)
  have hcycle : (∀ e ∈ (cycleItems items).toList.map Violation.cycle, e.IsDependency = false) ↔
      cycleItems items = none := by
    cases cycleItems items <;> simp [Violation.IsDependency]
  have hgoal : ∀ e ∈ (if maxGoalChars < goal.length then [Violation.goalTooLong] else []),
      e.IsDependency = false := by
    split_ifs <;> simp [Violation.IsDependency]
  simp only [structuralErrors, List.forall_mem_append, hunknown, hcycle, idErrors_dependency_iff]
  constructor
  · rintro ⟨⟨⟨-, hids, -⟩, hknown⟩, hnone⟩
    exact ⟨hids, hknown, (acyclic_iff hids hknown).mp (cycleItems_eq_none_iff.mp hnone)⟩
  · rintro ⟨hids, hknown, hacyclic⟩
    exact ⟨⟨⟨hgoal, hids, by simp⟩, hknown⟩,
      cycleItems_eq_none_iff.mpr ((acyclic_iff hids hknown).mpr hacyclic)⟩

end Validation

/-! ## Progress -/

section Progress

variable {items items' : List WorkItem} {id : String} {state : WorkState}

/-- An item that is ready is started, or one that runs is finished. -/
inductive Move (items items' : List WorkItem) : Prop
  | start (id : String) (hready : id ∈ readyItems items)
      (hset : setItemState items id .running = .ok items')
  | finish (w : WorkItem) (hw : w ∈ items) (hruns : w.completion = .running)
      (hset : setItemState items w.id .done = .ok items')

/-- Every item is one that has not been started, runs, or is finished. -/
def Underway (items : List WorkItem) : Prop :=
  ∀ w ∈ items, w.completion = .pending ∨ w.completion = .running ∨ w.completion = .done

/-- What the moves keep. -/
structure Sound (items : List WorkItem) : Prop where
  ids : (items.map (·.id)).Nodup
  known : Known items
  acyclic : Acyclic items
  underway : Underway items

theorem map_id_setFirst : (setFirst id state items).map (·.id) = items.map (·.id) := by
  induction items with
  | nil => rfl
  | cons w rest ih =>
    rw [setFirst]
    split_ifs
    · rfl
    · rw [List.map_cons, ih, List.map_cons]

/-- An item after an assignment is one of before, perhaps in the new state. -/
theorem mem_setFirst {w : WorkItem} (h : w ∈ setFirst id state items) :
    ∃ w' ∈ items, w.id = w'.id ∧ w.dependsOn = w'.dependsOn ∧
      (w.completion = w'.completion ∨ w.completion = state) := by
  induction items with
  | nil => cases h
  | cons v rest ih =>
    rw [setFirst] at h
    split_ifs at h with hid
    · obtain rfl | h := List.mem_cons.mp h
      · exact ⟨v, List.mem_cons_self, rfl, rfl, .inr rfl⟩
      · exact ⟨w, List.mem_cons_of_mem v h, rfl, rfl, .inl rfl⟩
    · obtain rfl | h := List.mem_cons.mp h
      · exact ⟨w, List.mem_cons_self, rfl, rfl, .inl rfl⟩
      · obtain ⟨w', hw', hsame⟩ := ih h
        exact ⟨w', List.mem_cons_of_mem v hw', hsame⟩

theorem setItemState_ok (h : setItemState items id state = .ok items') :
    items' = setFirst id state items := by
  unfold setItemState at h
  split at h
  · cases h
  · split_ifs at h
    exact (Except.ok.inj h).symm

theorem Sound.setFirst (h : Sound items) (hstate : state = .running ∨ state = .done) :
    Sound (setFirst id state items) := by
  constructor
  case ids =>
    rw [map_id_setFirst]
    exact h.ids
  case known =>
    intro w hw dep hdep
    obtain ⟨w', hw', -, hdeps, -⟩ := mem_setFirst hw
    rw [map_id_setFirst]
    exact h.known w' hw' dep (hdeps ▸ hdep)
  case acyclic =>
    intro a hcycle
    refine h.acyclic a (Relation.TransGen.mono ?_ _ _ hcycle)
    rintro b c ⟨w, hw, hid, hdep⟩
    obtain ⟨w', hw', hid', hdeps, -⟩ := mem_setFirst hw
    exact ⟨w', hw', hid' ▸ hid, hdeps ▸ hdep⟩
  case underway =>
    intro w hw
    obtain ⟨w', hw', -, -, hsame | hnew⟩ := mem_setFirst hw
    · rw [hsame]
      exact h.underway w' hw'
    · rw [hnew]
      exact .inr hstate

/-- **One move keeps it.** -/
theorem Sound.move (h : Sound items) (hmove : Move items items') : Sound items' := by
  cases hmove with
  | start id _ hset => exact setItemState_ok hset ▸ h.setFirst (.inl rfl)
  | finish w _ _ hset => exact setItemState_ok hset ▸ h.setFirst (.inr rfl)

/-- **So does every run.** -/
theorem Sound.run (h : Sound items) (hrun : Relation.ReflTransGen Move items items') : Sound items' := by
  induction hrun with
  | refl => exact h
  | tail _ hmove ih => exact ih.move hmove

theorem find?_id {l : List WorkItem} {w : WorkItem} (hids : (l.map (·.id)).Nodup) (hw : w ∈ l) :
    l.find? (·.id = w.id) = some w := by
  induction l with
  | nil => cases hw
  | cons v rest ih =>
    rw [List.map_cons, List.nodup_cons] at hids
    obtain rfl | hw := List.mem_cons.mp hw
    · rw [List.find?_cons_of_pos (by simp)]
    · have hne : v.id ≠ w.id := fun heq => hids.1 (heq ▸ List.mem_map_of_mem hw)
      rw [List.find?_cons_of_neg (by simpa using hne), ih hids.2 hw]

theorem stateOf_mem {w : WorkItem} (hids : (items.map (·.id)).Nodup) (hw : w ∈ items) :
    stateOf items w.id = some w.completion := by
  have hreverse : (items.reverse.map (·.id)).Nodup := by
    rw [List.map_reverse]
    exact List.nodup_reverse.mpr hids
  rw [stateOf, find?_id hreverse (List.mem_reverse.mpr hw), Option.map_some]

/-- **Something is ready**: a pending item that waits for none of the pending ones. -/
theorem Sound.readyItems_ne_nil (h : Sound items) (hpending : ∃ w ∈ items, w.completion = .pending)
    (hidle : ∀ w ∈ items, w.completion ≠ .running) : readyItems items ≠ [] := by
  intro hnone
  obtain ⟨w, hw, hstate⟩ := hpending
  have hwaits : ∀ a ∈ (items.filter (·.completion = .pending)).map (·.id),
      ∃ b ∈ (items.filter (·.completion = .pending)).map (·.id), DependsOn items a b := by
    intro a ha
    obtain ⟨v, hv, rfl⟩ := List.mem_map.mp ha
    obtain ⟨hv, hvstate⟩ := List.mem_filter.mp hv
    rw [readyItems, List.map_eq_nil_iff, List.filter_eq_nil_iff] at hnone
    have hblocked := hnone v hv
    rw [Bool.and_eq_true, not_and, Bool.not_eq_true, List.all_eq_false] at hblocked
    obtain ⟨dep, hdep, hnot⟩ := hblocked hvstate
    obtain ⟨u, hu, rfl⟩ := List.mem_map.mp (h.known v hv dep hdep)
    refine ⟨u.id, List.mem_map_of_mem (List.mem_filter.mpr ⟨hu, ?_⟩), v, hv, rfl, hdep⟩
    rw [stateOf_mem h.ids hu] at hnot
    obtain hp | hr | hd := h.underway u hu
    · exact decide_eq_true hp
    · exact absurd hr (hidle u hu)
    · simp [hd] at hnot
  obtain ⟨a, ha⟩ := exists_cycle (R := fun b a => DependsOn items a b)
    (List.ne_nil_of_mem (List.mem_map_of_mem (List.mem_filter.mpr ⟨hw, decide_eq_true hstate⟩))) hwaits
  exact h.acyclic a (Relation.transGen_swap.mp ha)

/-- How far an item is from its end. -/
def WorkState.left : WorkState → ℕ
  | .pending => 2
  | .done => 0
  | _ => 1

/-- An assignment to an item of its own id is made, and only its distance changes. -/
theorem setItemState_mem {w : WorkItem} (hids : (items.map (·.id)).Nodup) (hw : w ∈ items)
    (hcan : canTransition w.completion state = true) :
    setItemState items w.id state = .ok (setFirst w.id state items) ∧
      ((setFirst w.id state items).map (·.completion.left)).sum + w.completion.left =
        (items.map (·.completion.left)).sum + state.left := by
  constructor
  · rw [setItemState, find?_id hids hw]
    exact if_pos hcan
  · induction items with
    | nil => cases hw
    | cons v rest ih =>
      rw [List.map_cons, List.nodup_cons] at hids
      obtain rfl | hw := List.mem_cons.mp hw
      · rw [setFirst, if_pos rfl]
        simp only [List.map_cons, List.sum_cons]
        omega
      · have hne : v.id ≠ w.id := fun heq => hids.1 (heq ▸ List.mem_map_of_mem hw)
        have := ih hids.2 hw
        rw [setFirst, if_neg hne]
        simp only [List.map_cons, List.sum_cons]
        omega

/-- **Every plan can be worked off.** -/
theorem Sound.worked_off (n : ℕ) (h : Sound items) (hn : (items.map (·.completion.left)).sum ≤ n) :
    ∃ final, Relation.ReflTransGen Move items final ∧ ∀ w ∈ final, w.completion = .done := by
  induction n generalizing items with
  | zero =>
    refine ⟨items, .refl, fun w hw => ?_⟩
    have hzero := List.sum_eq_zero_iff.mp (Nat.le_zero.mp hn) _ (List.mem_map_of_mem hw)
    cases hstate : w.completion <;> simp [hstate, WorkState.left] at hzero ⊢
  | succ n ih =>
    by_cases hruns : ∃ w ∈ items, w.completion = .running
    · obtain ⟨w, hw, hstate⟩ := hruns
      obtain ⟨hset, hsum⟩ := @setItemState_mem _ .done _ h.ids hw (by rw [hstate]; decide)
      have hmove : Move items _ := .finish w hw hstate hset
      rw [hstate, show WorkState.left .running = 1 from rfl, show WorkState.left .done = 0 from rfl] at hsum
      obtain ⟨final, hrun, hall⟩ := ih (h.move hmove) (by omega)
      exact ⟨final, .head hmove hrun, hall⟩
    by_cases hpending : ∃ w ∈ items, w.completion = .pending
    · have hready := h.readyItems_ne_nil hpending fun w hw hstate => hruns ⟨w, hw, hstate⟩
      obtain ⟨id, hid⟩ := List.exists_mem_of_ne_nil _ hready
      obtain ⟨w, hw, rfl⟩ := List.mem_map.mp hid
      obtain ⟨hw, hstate⟩ := List.mem_filter.mp hw
      rw [Bool.and_eq_true, decide_eq_true_eq] at hstate
      obtain ⟨hset, hsum⟩ := @setItemState_mem _ .running _ h.ids hw (by rw [hstate.1]; decide)
      have hmove : Move items _ := .start w.id hid hset
      rw [hstate.1, show WorkState.left .running = 1 from rfl, show WorkState.left .pending = 2 from rfl] at hsum
      obtain ⟨final, hrun, hall⟩ := ih (h.move hmove) (by omega)
      exact ⟨final, .head hmove hrun, hall⟩
    · push Not at hruns hpending
      exact ⟨items, .refl, fun w hw =>
        ((h.underway w hw).resolve_left (hpending w hw)).resolve_left (hruns w hw)⟩

/-- **The validation of the dependencies, and what it is for.**  There is no violation exactly when the
ids are unique, every dependency names an item and no item waits for itself; and from every state that an
accepted plan reaches by starting ready items and finishing running ones, some item is ready as long as
one is pending and none runs, and the plan can be worked off. -/
theorem plan_progress (goal : String) (items : List WorkItem) :
    ((∀ e ∈ structuralErrors goal items, e.IsDependency = false) ↔
      (items.map (·.id)).Nodup ∧ Known items ∧ Acyclic items) ∧
    (structuralErrors goal items = [] → Underway items →
      ∀ items', Relation.ReflTransGen Move items items' →
        ((∃ w ∈ items', w.completion = .pending) → (∀ w ∈ items', w.completion ≠ .running) →
          readyItems items' ≠ []) ∧
        ∃ final, Relation.ReflTransGen Move items' final ∧ ∀ w ∈ final, w.completion = .done) := by
  refine ⟨no_dependency_error_iff goal items, fun hvalid hunderway items' hrun => ?_⟩
  obtain ⟨hids, hknown, hacyclic⟩ := (no_dependency_error_iff goal items).mp (by simp [hvalid])
  have hsound : Sound items' := Sound.run ⟨hids, hknown, hacyclic, hunderway⟩ hrun
  exact ⟨hsound.readyItems_ne_nil, hsound.worked_off _ le_rfl⟩

end Progress

end WorkPlan
