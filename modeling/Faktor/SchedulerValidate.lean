/-
# Validation of the task graph

`validate` and its depth-first search `visit_dag`.  The search marks a task visited only after
its dependencies, so the visited list is a topological order (`Ordered`) of the tasks it holds:
an accepted graph has every dependency registered and admits induction along its edges
(`Ordered.induction`).  The recursion of the source is bounded here by fuel; `visitDag_fuel` says
that one unit more than the tasks not being visited is never used up.
-/
import Faktor.SchedulerSafety

namespace Scheduler

/-! ## The search -/

/-- The `visiting` and `visited` sets. -/
abbrev Marks := List OpId × List OpId

/-- `visit_dag`.  `error none` is exhausted fuel. -/
def visitDag (s : Inner) : ℕ → Marks → OpId → Except (Option Error) Marks
  | 0, _, _ => .error none
  | fuel + 1, marks, id =>
    if id ∈ marks.2 then .ok marks
    else if id ∈ marks.1 then
      .error (some ⟨.deadlock, s!"dependency cycle detected at task {id}"⟩)
    else
      match s.task? id with
      | none => .error (some ⟨.notFound, s!"task {id} not found"⟩)
      | some t => do
        let marks ← t.op.dependencies.foldlM (fun marks e =>
          if (s.task? e.1).isSome then visitDag s fuel marks e.1
          else .error (some ⟨.notFound, s!"task {id} depends on missing task {e.1}"⟩))
          (id :: marks.1, marks.2)
        .ok (marks.1.erase id, id :: marks.2)

/-- The structural bounds of one task. -/
def checkBounds (id : OpId) (t : TaskState) : Except (Option Error) Unit :=
  let deps := t.op.dependencies.length
  let paths := t.op.reads.entries.length + t.op.writes.entries.length
  if deps > maxDependenciesPerTask then
    .error (some ⟨.oversized,
      s!"task {id} declares {deps} dependencies; cap is {maxDependenciesPerTask}"⟩)
  else if paths > maxOwnershipPaths then
    .error (some ⟨.oversized,
      s!"task {id} declares {paths} ownership paths; cap is {maxOwnershipPaths}"⟩)
  else .ok ()

/-- `validate`, visiting the tasks in the order `ids` of the map's keys. -/
def validate (s : Inner) (ids : List OpId) : Except (Option Error) Unit := do
  let held := s.tasks.keys.length
  if held > maxTasksPerDag then
    .error (some ⟨.oversized, s!"dag holds {held} tasks; cap is {maxTasksPerDag}"⟩)
  else
    ids.foldlM (fun _ id =>
      match s.task? id with
      | some t => checkBounds id t
      | none => .ok ()) ()
    let _ ← ids.foldlM (visitDag s (held + 1)) ([], [])
    .ok ()

/-! ## What the search accepts -/

/-- A list in which every task comes after (to the left of) its dependencies. -/
inductive Ordered (s : Inner) : List OpId → Prop
  | nil : Ordered s []
  | cons (id : OpId) (visited : List OpId) (hreg : (s.task? id).isSome)
      (hdeps : ∀ e ∈ s.deps id, e.1 ∈ visited) (h : Ordered s visited) :
      Ordered s (id :: visited)

variable {s : Inner} {visited : List OpId}

/-- Induction along the edges of an ordered list. -/
theorem Ordered.induction (h : Ordered s visited) {P : OpId → Prop}
    (hstep : ∀ id, (∀ e ∈ s.deps id, P e.1) → P id) :
    ∀ id ∈ visited, P id := by
  induction h with
  | nil => simp
  | cons id visited hreg hdeps _ ih =>
    intro j hj
    rcases List.mem_cons.mp hj with rfl | hj
    · exact hstep j fun e he => ih e.1 (hdeps e he)
    · exact ih j hj

theorem Ordered.registered (h : Ordered s visited) :
    ∀ id ∈ visited, (s.task? id).isSome ∧ ∀ e ∈ s.deps id, e.1 ∈ visited := by
  induction h with
  | nil => simp
  | cons id visited hreg hdeps _ ih =>
    intro j hj
    rcases List.mem_cons.mp hj with rfl | hj
    · exact ⟨hreg, fun e he => List.mem_cons_of_mem _ (hdeps e he)⟩
    · exact ⟨(ih j hj).1, fun e he => List.mem_cons_of_mem _ ((ih j hj).2 e he)⟩

/-- What a finished search keeps and adds. -/
structure Searched (s : Inner) (marks marks' : Marks) : Prop where
  visiting : marks'.1 = marks.1
  visited : ∀ j ∈ marks.2, j ∈ marks'.2
  ordered : Ordered s marks.2 → Ordered s marks'.2

/-- Searching a list of roots one after the other. -/
theorem searched_foldlM {s : Inner} {α : Type} {f : Marks → α → Except (Option Error) Marks}
    {root : α → OpId}
    (hf : ∀ marks a marks', f marks a = .ok marks' → Searched s marks marks' ∧ root a ∈ marks'.2)
    (l : List α) {marks marks' : Marks} (h : l.foldlM f marks = .ok marks') :
    Searched s marks marks' ∧ ∀ a ∈ l, root a ∈ marks'.2 := by
  induction l generalizing marks with
  | nil =>
    rw [← Except.ok.inj h]
    exact ⟨⟨rfl, fun _ hj => hj, fun ho => ho⟩, by simp⟩
  | cons a l ih =>
    rw [List.foldlM_cons] at h
    cases hstep : f marks a with
    | error e =>
      rw [hstep] at h
      cases h
    | ok mid =>
      rw [hstep] at h
      obtain ⟨hone, hroot⟩ := hf marks a mid hstep
      obtain ⟨hrest, hroots⟩ := ih h
      refine ⟨⟨hrest.visiting.trans hone.visiting, fun j hj => hrest.visited j (hone.visited j hj),
        fun ho => hrest.ordered (hone.ordered ho)⟩, fun b hb => ?_⟩
      rcases List.mem_cons.mp hb with rfl | hb
      · exact hrest.visited _ hroot
      · exact hroots b hb

variable {marks : Marks}

theorem visitDag_searched (fuel : ℕ) {marks' : Marks} {id : OpId}
    (h : visitDag s fuel marks id = .ok marks') : Searched s marks marks' ∧ id ∈ marks'.2 := by
  induction fuel generalizing marks marks' id with
  | zero => cases h
  | succ fuel ih =>
    unfold visitDag at h
    split at h
    · rename_i hin
      rw [← Except.ok.inj h]
      exact ⟨⟨rfl, fun _ hj => hj, fun ho => ho⟩, hin⟩
    · split at h
      · cases h
      · split at h
        · cases h
        · rename_i t ht
          simp only [bind, Except.bind] at h
          cases hfold : t.op.dependencies.foldlM (fun marks e =>
              if (s.task? e.1).isSome then visitDag s fuel marks e.1
              else .error (some ⟨.notFound, s!"task {id} depends on missing task {e.1}"⟩))
              (id :: marks.1, marks.2) with
          | error e =>
            rw [hfold] at h
            cases h
          | ok mid =>
            rw [hfold] at h
            have hf : ∀ (m : Marks) (e : OpId × DependencyPolicy) (m' : Marks),
                (if (s.task? e.1).isSome then visitDag s fuel m e.1
                  else .error (some ⟨.notFound,
                    s!"task {id} depends on missing task {e.1}"⟩)) = .ok m' →
                Searched s m m' ∧ e.1 ∈ m'.2 := by
              intro m e m' hm
              split at hm
              · exact ih hm
              · cases hm
            obtain ⟨hsearch, hroots⟩ := @searched_foldlM s _ _ Prod.fst hf
              t.op.dependencies _ _ hfold
            have hdeps : s.deps id = t.op.dependencies := by simp [Inner.deps, ht]
            rw [← Except.ok.inj h]
            refine ⟨⟨?_, fun j hj => List.mem_cons_of_mem _ (hsearch.visited j hj), fun ho => ?_⟩,
              List.mem_cons_self⟩
            · rw [hsearch.visiting, List.erase_cons_head]
            · refine .cons id mid.2 (by rw [ht]; rfl) (fun e he => ?_) (hsearch.ordered ho)
              exact hroots e (hdeps ▸ he)

/-- **An accepted graph**: all tasks in an order that puts dependencies first. -/
theorem ordered_of_validate {ids : List OpId} (horder : IsOrder s ids) (h : validate s ids = .ok ()) :
    ∃ visited, Ordered s visited ∧ ∀ id, (s.task? id).isSome → id ∈ visited := by
  unfold validate at h
  simp only [bind, Except.bind] at h
  split at h
  · cases h
  · split at h
    · cases h
    · cases hfold : ids.foldlM (visitDag s (s.tasks.keys.length + 1)) ([], []) with
      | error e =>
        rw [hfold] at h
        cases h
      | ok marks =>
        obtain ⟨hsearch, hroots⟩ := @searched_foldlM s _ _ id
          (fun m a m' hm => visitDag_searched _ hm) ids _ _ hfold
        exact ⟨marks.2, hsearch.ordered .nil, fun i hi => hroots i ((horder.mem_iff i).mpr hi)⟩

theorem Ordered.depsRegistered (h : Ordered s visited) (hall : ∀ id, (s.task? id).isSome → id ∈ visited) :
    DepsRegistered s := by
  intro id e he
  have hid : (s.task? id).isSome := by
    cases ht : s.task? id with
    | none => simp [Inner.deps, ht] at he
    | some t => rfl
  exact (h.registered e.1 ((h.registered id (hall id hid)).2 e he)).1

/-! ## The fuel is enough -/

/-- Registered tasks that are not being visited. -/
def unvisiting (s : Inner) (visiting : List OpId) : ℕ :=
  (s.tasks.keys.toFinset \ visiting.toFinset).card

theorem unvisiting_cons {visiting : List OpId} {id : OpId} (hid : (s.task? id).isSome)
    (hnot : id ∉ visiting) :
    unvisiting s (id :: visiting) < unvisiting s visiting := by
  have hmem : id ∈ s.tasks.keys := by
    show id ∈ s.tasks
    rw [← AList.lookup_isSome]
    exact hid
  refine Finset.card_lt_card ((Finset.ssubset_iff_of_subset ?_).mpr ⟨id, ?_, ?_⟩)
  · intro j hj
    simp only [Finset.mem_sdiff, List.mem_toFinset, List.mem_cons, not_or] at hj ⊢
    exact ⟨hj.1, hj.2.2⟩
  · simp [hmem, hnot]
  · simp

theorem visitDag_fuel {s : Inner} (fuel : ℕ) {marks : Marks} {id : OpId}
    (h : unvisiting s marks.1 < fuel) : visitDag s fuel marks id ≠ .error none := by
  induction fuel generalizing marks id with
  | zero => omega
  | succ fuel ih =>
    unfold visitDag
    split
    · simp
    · split
      · simp
      · rename_i hvisiting
        split
        · simp
        · rename_i t ht
          have hless := unvisiting_cons (by rw [ht]; rfl : (s.task? id).isSome) hvisiting
          have hfold : ∀ (l : List (OpId × DependencyPolicy)) (m : Marks),
              m.1 = id :: marks.1 → l.foldlM (fun marks e =>
                if (s.task? e.1).isSome then visitDag s fuel marks e.1
                else .error (some ⟨.notFound, s!"task {id} depends on missing task {e.1}"⟩)) m ≠
                .error none := by
            intro l
            induction l with
            | nil =>
              intro m _ hc
              cases hc
            | cons e l ihl =>
              intro m hm
              rw [List.foldlM_cons]
              by_cases hdep : (s.task? e.1).isSome
              · rw [if_pos hdep]
                have hone := @ih m e.1 (by rw [hm]; omega)
                cases hv : visitDag s fuel m e.1 with
                | error err =>
                  rw [hv] at hone
                  exact hone
                | ok m' =>
                  exact ihl m' ((visitDag_searched fuel hv).1.visiting.trans hm)
              · rw [if_neg hdep]
                simp [bind, Except.bind]
          have hdone := hfold t.op.dependencies (id :: marks.1, marks.2) rfl
          simp only [bind, Except.bind]
          split
          · rename_i err herr
            rw [herr] at hdone
            exact hdone
          · simp

theorem unvisiting_le (s : Inner) (visiting : List OpId) :
    unvisiting s visiting ≤ s.tasks.keys.length := by
  refine (Finset.card_le_card Finset.sdiff_subset).trans ?_
  exact List.toFinset_card_le s.tasks.keys

/-- `validate` never runs out of fuel: it accepts the graph or names an error. -/
theorem validate_ne_exhausted (s : Inner) (ids : List OpId) : validate s ids ≠ .error none := by
  have hbounds : ∀ l : List OpId, l.foldlM (fun _ id =>
      match s.task? id with
      | some t => checkBounds id t
      | none => .ok ()) () ≠ .error none := by
    intro l
    induction l with
    | nil => simp [pure, Except.pure]
    | cons id l ih =>
      rw [List.foldlM_cons]
      cases ht : s.task? id with
      | none => exact ih
      | some t =>
        simp only [checkBounds]
        split
        · simp [bind, Except.bind]
        · split
          · simp [bind, Except.bind]
          · exact ih
  have hsearch : ∀ (l : List OpId) (marks : Marks), marks.1 = [] →
      l.foldlM (visitDag s (s.tasks.keys.length + 1)) marks ≠ .error none := by
    intro l
    induction l with
    | nil => simp [pure, Except.pure]
    | cons id l ih =>
      intro marks hmarks
      rw [List.foldlM_cons]
      have hone := @visitDag_fuel s (s.tasks.keys.length + 1) marks id
        (by rw [hmarks]; exact Nat.lt_succ_of_le (unvisiting_le s []))
      cases hv : visitDag s (s.tasks.keys.length + 1) marks id with
      | error err =>
        rw [hv] at hone
        exact hone
      | ok marks' => exact ih marks' ((visitDag_searched _ hv).1.visiting.trans hmarks)
  unfold validate
  simp only [bind, Except.bind]
  split
  · simp
  · split
    · rename_i err herr
      have h := hbounds ids
      rw [herr] at h
      exact h
    · split
      · rename_i err herr
        have h := hsearch ids ([], []) rfl
        rw [herr] at h
        simpa using h
      · simp

/-! ## The order of the keys does not matter -/

/-- `a` declares a dependency on `b`. -/
def DependsOn (s : Inner) (a b : OpId) : Prop := ∃ p, (b, p) ∈ s.deps a

/-- An ordered graph has no cycle. -/
theorem Ordered.acyclic (h : Ordered s visited) (hall : ∀ id, (s.task? id).isSome → id ∈ visited)
    (id : OpId) :
    ¬ Relation.TransGen (DependsOn s) id id := by
  have hmem : ∀ j ∈ visited, ¬ Relation.TransGen (DependsOn s) j j := by
    refine h.induction fun j hdeps hcycle => ?_
    -- the first edge of the cycle, moved to its end
    obtain ⟨d, ⟨p, he⟩, hback⟩ := Relation.TransGen.head'_iff.mp hcycle
    exact hdeps (d, p) he (Relation.TransGen.tail' hback ⟨p, he⟩)
  intro hcycle
  obtain ⟨d, ⟨p, he⟩, -⟩ := Relation.TransGen.head'_iff.mp hcycle
  refine hmem id (hall id ?_) hcycle
  cases ht : s.task? id with
  | none => simp [Inner.deps, ht] at he
  | some t => rfl

/-- A search that starts below everything it is visiting finds nothing to complain about. -/
theorem visitDag_ne_error (hreg : DepsRegistered s)
    (hacyclic : ∀ id, ¬ Relation.TransGen (DependsOn s) id id) (fuel : ℕ) {id : OpId}
    (hid : (s.task? id).isSome) (hvisiting : ∀ v ∈ marks.1, Relation.TransGen (DependsOn s) v id)
    (err : Error) :
    visitDag s fuel marks id ≠ .error (some err) := by
  induction fuel generalizing marks id with
  | zero => simp [visitDag]
  | succ fuel ih =>
    obtain ⟨t, ht⟩ := Option.isSome_iff_exists.mp hid
    have hdeps : s.deps id = t.op.dependencies := by simp [Inner.deps, ht]
    unfold visitDag
    split
    · simp
    · split
      · rename_i hin
        exact absurd (hvisiting id hin) (hacyclic id)
      · simp only [ht, bind, Except.bind]
        have hfold : ∀ (l : List (OpId × DependencyPolicy)) (m : Marks), m.1 = id :: marks.1 →
            (∀ e ∈ l, e ∈ s.deps id) → l.foldlM (fun marks e =>
              if (s.task? e.1).isSome then visitDag s fuel marks e.1
              else .error (some ⟨.notFound, s!"task {id} depends on missing task {e.1}"⟩)) m ≠
              .error (some err) := by
          intro l
          induction l with
          | nil =>
            intro m _ _ hc
            cases hc
          | cons e l ihl =>
            intro m hm hl
            have he := hl e List.mem_cons_self
            have hedge : DependsOn s id e.1 := ⟨e.2, he⟩
            rw [List.foldlM_cons, if_pos (hreg id e he)]
            have hone := @ih m e.1 (hreg id e he) fun v hv => by
              rw [hm] at hv
              rcases List.mem_cons.mp hv with rfl | hv
              · exact .single hedge
              · exact (hvisiting v hv).tail hedge
            cases hv : visitDag s fuel m e.1 with
            | error err' =>
              rw [hv] at hone
              exact hone
            | ok m' =>
              exact ihl m' ((visitDag_searched fuel hv).1.visiting.trans hm) fun e' he' =>
                hl e' (List.mem_cons_of_mem e he')
        have hdone := hfold t.op.dependencies (id :: marks.1, marks.2) rfl fun e he => hdeps ▸ he
        split
        · rename_i err' herr
          rw [herr] at hdone
          exact hdone
        · simp

/-- A loop of checks passes exactly when each of them does. -/
theorem foldlM_checks_eq_ok {ε α : Type} (f : α → Except ε Unit) (l : List α) :
    l.foldlM (fun _ a => f a) () = .ok () ↔ ∀ a ∈ l, f a = .ok () := by
  induction l with
  | nil => simp [pure, Except.pure]
  | cons a l ih =>
    rw [List.foldlM_cons, List.forall_mem_cons, ← ih]
    cases f a <;> simp [bind, Except.bind]

/-- In a graph without cycles the search over the roots raises no error. -/
theorem foldlM_visitDag_ne_error (hreg : DepsRegistered s)
    (hacyclic : ∀ id, ¬ Relation.TransGen (DependsOn s) id id) (fuel : ℕ) (l : List OpId)
    (hmarks : marks.1 = []) (hl : ∀ id ∈ l, (s.task? id).isSome) (err : Error) :
    l.foldlM (visitDag s fuel) marks ≠ .error (some err) := by
  induction l generalizing marks with
  | nil => simp [pure, Except.pure]
  | cons id l ih =>
    rw [List.foldlM_cons]
    have hone := visitDag_ne_error hreg hacyclic fuel (hl id List.mem_cons_self)
      (by simp [hmarks] : ∀ v ∈ marks.1, Relation.TransGen (DependsOn s) v id) err
    cases hv : visitDag s fuel marks id with
    | error err' =>
      rw [hv] at hone
      exact hone
    | ok marks' =>
      exact ih ((visitDag_searched _ hv).1.visiting.trans hmarks)
        fun j hj => hl j (List.mem_cons_of_mem id hj)

/-- The bounds that `validate` checks before its search. -/
structure WithinBounds (s : Inner) : Prop where
  tasks : s.tasks.keys.length ≤ maxTasksPerDag
  dependencies : ∀ id t, s.task? id = some t → t.op.dependencies.length ≤ maxDependenciesPerTask
  paths : ∀ id t, s.task? id = some t →
    t.op.reads.entries.length + t.op.writes.entries.length ≤ maxOwnershipPaths

theorem checkBounds_eq_ok {id : OpId} {t : TaskState} :
    checkBounds id t = .ok () ↔ t.op.dependencies.length ≤ maxDependenciesPerTask ∧
      t.op.reads.entries.length + t.op.writes.entries.length ≤ maxOwnershipPaths := by
  unfold checkBounds
  dsimp only
  split
  · next h => simp [Nat.not_le.mpr h]
  · next h =>
    split
    · next h' => simp [Nat.not_le.mpr h']
    · next h' => simp [Nat.le_of_not_lt h, Nat.le_of_not_lt h']

/-- **What `validate` accepts**: a graph within the bounds, with every dependency registered and no
cycle, in whatever order the map is iterated. -/
theorem validate_eq_ok_iff {ids : List OpId} (hids : ids.Perm s.tasks.keys) :
    validate s ids = .ok () ↔ WithinBounds s ∧ DepsRegistered s ∧
      ∀ id, ¬ Relation.TransGen (DependsOn s) id id := by
  have horder := isOrder_of_perm hids
  constructor
  · intro h
    obtain ⟨visited, hordered, hall⟩ := ordered_of_validate horder h
    refine ⟨?_, hordered.depsRegistered hall, hordered.acyclic hall⟩
    unfold validate at h
    simp only [bind, Except.bind] at h
    split at h
    · cases h
    · rename_i hheld
      split at h
      · cases h
      · rename_i hchecks
        have hbounds : ∀ id t, s.task? id = some t → checkBounds id t = .ok () := by
          intro id t ht
          have := (foldlM_checks_eq_ok _ ids).mp hchecks id ((horder.mem_iff id).mpr (by rw [ht]; rfl))
          rwa [ht] at this
        exact ⟨Nat.le_of_not_lt hheld, fun id t ht => (checkBounds_eq_ok.mp (hbounds id t ht)).1,
          fun id t ht => (checkBounds_eq_ok.mp (hbounds id t ht)).2⟩
  · rintro ⟨hbounds, hreg, hacyclic⟩
    have hexhausted := validate_ne_exhausted s ids
    have hchecks : ∀ id ∈ ids, (match s.task? id with
        | some t => checkBounds id t
        | none => .ok ()) = .ok () := by
      intro id _
      cases ht : s.task? id with
      | none => rfl
      | some t => exact checkBounds_eq_ok.mpr ⟨hbounds.dependencies id t ht, hbounds.paths id t ht⟩
    unfold validate at hexhausted ⊢
    simp only [bind, Except.bind] at hexhausted ⊢
    rw [if_neg (Nat.not_lt.mpr hbounds.tasks)] at hexhausted ⊢
    rw [(foldlM_checks_eq_ok _ ids).mpr hchecks] at hexhausted ⊢
    cases hfold : ids.foldlM (visitDag s (s.tasks.keys.length + 1)) ([], []) with
    | ok marks => rfl
    | error err =>
      cases err with
      | none => simp [hfold] at hexhausted
      | some err =>
        exact absurd hfold (foldlM_visitDag_ne_error hreg hacyclic _ ids rfl
          (fun id hid => (horder.mem_iff id).mp hid) err)

/-- **What validation guarantees.**  It accepts exactly the bounded graphs whose dependencies are
registered and have no cycle, and the search ends on every graph, from any sets of marks. -/
theorem validate_guarantee (s : Inner) (ids : List OpId) (hids : ids.Perm s.tasks.keys) :
    (validate s ids = .ok () ↔ WithinBounds s ∧ DepsRegistered s ∧
      ∀ id, ¬ Relation.TransGen (DependsOn s) id id) ∧
    validate s ids ≠ .error none ∧
    ∀ marks id, visitDag s (s.tasks.keys.length + 1) marks id ≠ .error none := by
  refine ⟨validate_eq_ok_iff hids, validate_ne_exhausted s ids, fun marks id => ?_⟩
  exact visitDag_fuel _ (Nat.lt_succ_of_le (unvisiting_le s marks.1))

/-- A task that waits for `dep`. -/
def waiting (id dep : OpId) : TaskState where
  op := { operationId := id, sessionId := 1, cls := .cpu, reads := ⟨[]⟩, writes := ⟨[]⟩,
          dependencies := [(dep, .success)], maxAttempts := 1 }
  status := .pending
  error := none
  remaining := 1
  blocked := 0
  dependents := []

/-- Two tasks that wait for each other. -/
def waitingPair : Inner :=
  { Inner.empty with tasks := (AList.insert 1 (waiting 1 2) ∅).insert 2 (waiting 2 1) }

/-- Two tasks that wait for each other are refused. -/
theorem validate_guarantee_waitingPair : validate waitingPair [1, 2] ≠ .ok () := by
  have hids : [1, 2].Perm waitingPair.tasks.keys := by decide
  intro h
  obtain ⟨-, -, hacyclic⟩ := (validate_guarantee waitingPair [1, 2] hids).1.mp h
  refine hacyclic 1 (.tail (.single (b := 2) ⟨.success, by decide⟩) ⟨.success, by decide⟩)

end Scheduler
