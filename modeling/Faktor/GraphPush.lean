/-
# Values that are pushed along a graph

The value of a node is its own, combined with what its edges bring in from the values of their sources:
requirements that are exploded along a bill of materials, the longest chain that ends at a node, the
number of paths.  An order in which every source comes before what it feeds lets the values be computed
by pushing: each node, when its turn comes, adds to the nodes that it feeds.

* `GraphPush.Solves` : the equation of every node;
* `GraphPush.solves_foldl` : pushing in such an order solves it;
* `GraphPush.Solves.unique` : nothing else does;
* `exists_cycle` : a finite set whose members are all fed from the set has a cycle;
* `checked_foldlM` : a fold whose steps are checked, against the fold without the checks.

Nothing here depends on what the nodes and the values are.
-/
import Mathlib

/-- A graph with a value at each node and a contribution of each edge. -/
structure GraphPush (V E M : Type) where
  edges : List E
  src : E → V
  dst : E → V
  base : V → M
  op : M → M → M
  amount : E → M → M

namespace GraphPush

variable {V E M : Type} [DecidableEq V] (G : GraphPush V E M)

/-! ## The equation -/

/-- The value of a node and what some of its edges bring in. -/
def inflow (p : E → Bool) (g : V → M) (v : V) : M :=
  ((G.edges.filter fun e => G.dst e = v && p e).map fun e => G.amount e (g (G.src e))).foldl G.op
    (G.base v)

/-- **The equation of every node.** -/
def Solves (g : V → M) : Prop := ∀ v, g v = G.inflow (fun _ => true) g v

/-- Every source comes before what it feeds, and every node that feeds another one has its turn. -/
structure Topological (order : List V) : Prop where
  nodup : order.Nodup
  complete : ∀ e ∈ G.edges, G.src e ∈ order
  earlier : ∀ pre v post, order = pre ++ v :: post → ∀ e ∈ G.edges, G.dst e = v → G.src e ∈ pre

variable {G}

variable {g h : V → M} {v : V}

/-- What flows in depends on the values of the sources only. -/
theorem inflow_congr {p : E → Bool}
    (heq : ∀ e ∈ G.edges, G.dst e = v → p e = true → g (G.src e) = h (G.src e)) :
    G.inflow p g v = G.inflow p h v := by
  unfold inflow
  congr 1
  refine List.map_congr_left fun e he => ?_
  obtain ⟨he, hp⟩ := List.mem_filter.mp he
  simp only [Bool.and_eq_true, decide_eq_true_eq] at hp
  rw [heq e he hp.1 hp.2]

variable {order : List V}

/-- **Two solutions are one**: they agree along the order, and with it everywhere. -/
theorem Solves.unique (horder : G.Topological order) (hg : G.Solves g) (hh : G.Solves h) : g = h := by
  have halong : ∀ done, done <+: order → ∀ v ∈ done, g v = h v := by
    intro done
    induction done using List.reverseRecOn with
    | nil =>
      intro _ v hv
      cases hv
    | append_singleton done u ih =>
      intro hprefix v hv
      have hdone := ih ((List.prefix_append done [u]).trans hprefix)
      obtain hv | hv := List.mem_append.mp hv
      · exact hdone v hv
      · obtain rfl := List.mem_singleton.mp hv
        obtain ⟨post, hpost⟩ := hprefix
        rw [hg, hh]
        refine inflow_congr fun e he hdst _ => hdone _ ?_
        exact horder.earlier done v post (by rw [← hpost, List.append_assoc]; rfl) e he hdst
  funext v
  rw [hg, hh]
  exact inflow_congr fun e he _ _ => halong order List.prefix_rfl _ (horder.complete e he)

/-- Along an edge the place in the order grows. -/
theorem Topological.idxOf_lt (horder : G.Topological order) {e : E} (he : e ∈ G.edges)
    (hmem : G.dst e ∈ order) : order.idxOf (G.src e) < order.idxOf (G.dst e) := by
  obtain ⟨pre, post, hsplit⟩ := List.append_of_mem hmem
  have hsrc := horder.earlier pre _ post hsplit e he rfl
  have hnew : G.dst e ∉ pre := by
    have hnodup := horder.nodup
    rw [hsplit] at hnodup
    exact fun h => (List.nodup_append.mp hnodup).2.2 _ h _ List.mem_cons_self rfl
  rw [hsplit, List.idxOf_append_of_mem hsrc, List.idxOf_append_of_notMem hnew, List.idxOf_cons_self]
  exact Nat.lt_add_right 0 (List.idxOf_lt_length_of_mem hsrc)

/-- **A graph with such an order has no cycle.** -/
theorem Topological.acyclic (horder : G.Topological order) (v : V) :
    ¬Relation.TransGen (fun u w => ∃ e ∈ G.edges, G.src e = u ∧ G.dst e = w) v v := by
  have hlt : ∀ {u w}, Relation.TransGen (fun u w => ∃ e ∈ G.edges, G.src e = u ∧ G.dst e = w) u w →
      w ∈ order → order.idxOf u < order.idxOf w := by
    intro u w huw
    induction huw with
    | single h =>
      obtain ⟨e, he, rfl, rfl⟩ := h
      exact horder.idxOf_lt he
    | tail _ h ih =>
      obtain ⟨e, he, rfl, rfl⟩ := h
      intro hmem
      exact (ih (horder.complete e he)).trans (horder.idxOf_lt he hmem)
  intro hcycle
  obtain ⟨w, ⟨e, he, rfl, -⟩, -⟩ := Relation.TransGen.head'_iff.mp hcycle
  exact lt_irrefl _ (hlt hcycle (horder.complete e he))

/-! ## Pushing -/

variable (G)

/-- One edge, from a source of a value. -/
def pushEdge (value : M) (g : V → M) (e : E) : V → M :=
  Function.update g (G.dst e) (G.op (g (G.dst e)) (G.amount e value))

/-- All edges of a node. -/
def pushNode (g : V → M) (v : V) : V → M :=
  (G.edges.filter fun e => G.src e = v).foldl (G.pushEdge (g v)) g

variable {G}

theorem foldl_pushEdge (value : M) (edges : List E) (g : V → M) (u : V) :
    edges.foldl (G.pushEdge value) g u =
      ((edges.filter fun e => G.dst e = u).map fun e => G.amount e value).foldl G.op (g u) := by
  induction edges generalizing g with
  | nil => rfl
  | cons e edges ih =>
    rw [List.foldl_cons, ih]
    by_cases hdst : G.dst e = u
    · rw [List.filter_cons_of_pos (by simpa using hdst), List.map_cons, List.foldl_cons, pushEdge, hdst,
        Function.update_self]
    · rw [List.filter_cons_of_neg (by simpa using hdst), pushEdge,
        Function.update_of_ne (Ne.symm hdst)]

/-- A node that is not fed by another one keeps its value when that one is pushed. -/
theorem pushNode_of_not_fed {u : V} (h : ∀ e ∈ G.edges, G.src e = v → G.dst e ≠ u) :
    G.pushNode g v u = g u := by
  rw [pushNode, foldl_pushEdge, List.filter_filter]
  rw [List.filter_eq_nil_iff.mpr]
  · rfl
  · intro e he
    simp only [Bool.and_eq_true, decide_eq_true_eq, not_and]
    intro hdst hsrc
    exact h e he hsrc hdst

variable {done post : List V}

/-- **The nodes up to one do not change when it is pushed**: they are fed by earlier ones only. -/
theorem Topological.pushNode_kept (horder : G.Topological order) (hsplit : order = done ++ v :: post)
    (g : V → M) :
    ∀ u ∈ done ++ [v], G.pushNode g v u = g u := by
  have hnodup : (done ++ v :: post).Nodup := hsplit ▸ horder.nodup
  have hnew : v ∉ done := fun hv =>
    (List.nodup_append.mp hnodup).2.2 v hv v List.mem_cons_self rfl
  intro u hu
  refine pushNode_of_not_fed fun e he hsrc hdst => ?_
  obtain hu | hu := List.mem_append.mp hu
  · obtain ⟨pre, mid, rfl⟩ := List.append_of_mem hu
    have hfed := horder.earlier pre u (mid ++ v :: post) (by rw [hsplit]; simp) e he hdst
    rw [hsrc] at hfed
    exact hnew (List.mem_append_left _ hfed)
  · obtain rfl := List.mem_singleton.mp hu
    have hfed := horder.earlier done u post hsplit e he hdst
    rw [hsrc] at hfed
    exact hnew hfed

/-- The value of a node is final when its turn comes. -/
theorem Topological.foldl_kept (horder : G.Topological order) (g : V → M) :
    ∀ post, order = done ++ post → v ∈ done →
      post.foldl G.pushNode g v = g v := by
  intro post
  induction post generalizing done g with
  | nil => exact fun _ _ => rfl
  | cons u post ih =>
    intro hsplit hv
    have hlater : order = (done ++ [u]) ++ post := by
      rw [hsplit, List.append_assoc]
      rfl
    rw [List.foldl_cons, ih _ hlater (List.mem_append_left _ hv)]
    exact horder.pushNode_kept hsplit g v (List.mem_append_left _ hv)

/-- The nodes that have been pushed, a part of the order, have brought in what they bring in. -/
def Pushed (G : GraphPush V E M) (done : List V) (g : V → M) : Prop :=
  ∀ v, g v = G.inflow (fun e => G.src e ∈ done) g v

/-- **One more node is pushed.** -/
theorem Pushed.step [RightCommutative G.op] (horder : G.Topological order)
    (hsplit : order = done ++ v :: post) (h : G.Pushed done g) :
    G.Pushed (done ++ [v]) (G.pushNode g v) := by
  have hnodup : (done ++ v :: post).Nodup := hsplit ▸ horder.nodup
  have hnew : v ∉ done := fun hv =>
    (List.nodup_append.mp hnodup).2.2 v hv v List.mem_cons_self rfl
  have hkept := horder.pushNode_kept hsplit g
  intro u
  rw [inflow_congr (h := g) fun e _ _ hdone => hkept _ (by simpa using hdone)]
  rw [pushNode, foldl_pushEdge, List.filter_filter, h u]
  unfold inflow
  rw [← List.foldl_append]
  have hmap : ((G.edges.filter fun e => decide (G.dst e = u) && decide (G.src e = v)).map
      fun e => G.amount e (g v)) =
      (G.edges.filter fun e => decide (G.dst e = u) && decide (G.src e = v)).map
        fun e => G.amount e (g (G.src e)) := by
    refine List.map_congr_left fun e he => ?_
    have hsrc := (List.mem_filter.mp he).2
    simp only [Bool.and_eq_true, decide_eq_true_eq] at hsrc
    rw [hsrc.2]
  rw [hmap, ← List.map_append]
  refine List.Perm.foldl_eq (List.Perm.map _ ?_) _
  -- the edges of the earlier nodes and those of the new one are those of the longer part
  have hperm := List.filter_append_perm (fun e => decide (G.src e ∈ done))
    (G.edges.filter fun e => decide (G.dst e = u) && decide (G.src e ∈ done ++ [v]))
  rw [List.filter_filter, List.filter_filter] at hperm
  refine List.Perm.trans (List.Perm.of_eq ?_) hperm
  congr 1
  · refine List.filter_congr fun e _ => ?_
    by_cases hdst : G.dst e = u <;> by_cases hsrc : G.src e ∈ done <;> simp [hdst, hsrc]
  · refine List.filter_congr fun e _ => ?_
    by_cases hdst : G.dst e = u
    · by_cases hv : G.src e = v
      · simp [hdst, hv, hnew]
      · by_cases hsrc : G.src e ∈ done <;> simp [hdst, hsrc, hv]
    · simp [hdst]

/-- The nodes of a part of the order are pushed one after the other. -/
theorem pushed_foldl [RightCommutative G.op] (horder : G.Topological order) :
    ∀ done, done <+: order → G.Pushed done (done.foldl G.pushNode G.base) := by
  intro done
  induction done using List.reverseRecOn with
  | nil =>
    intro _ v
    unfold inflow
    rw [List.filter_eq_nil_iff.mpr (by simp)]
    rfl
  | append_singleton done v ih =>
    intro hprefix
    obtain ⟨post, hpost⟩ := hprefix
    rw [List.foldl_append]
    have hsplit : order = done ++ v :: post := by
      rw [← hpost, List.append_assoc]
      rfl
    exact Pushed.step horder hsplit (ih ⟨v :: post, hsplit.symm⟩)

/-- **Pushing every node in its turn solves the equation.** -/
theorem solves_foldl [RightCommutative G.op] (horder : G.Topological order) :
    G.Solves (order.foldl G.pushNode G.base) := by
  intro v
  rw [pushed_foldl horder order List.prefix_rfl v]
  unfold inflow
  congr 2
  refine List.filter_congr fun e he => ?_
  show (_ && decide (G.src e ∈ order)) = _
  rw [decide_eq_true (horder.complete e he)]

/-! ## Bounds -/

section Order

variable [Preorder M]

theorem le_pushEdge (hop : ∀ x y, x ≤ G.op x y) (value : M) (g : V → M) (e : E) :
    g ≤ G.pushEdge value g e := by
  intro u
  unfold pushEdge
  by_cases hu : u = G.dst e
  · subst hu
    rw [Function.update_self]
    exact hop _ _
  · rw [Function.update_of_ne hu]

/-- Pushing a node lowers no value. -/
theorem le_pushNode (hop : ∀ x y, x ≤ G.op x y) (g : V → M) (v : V) : g ≤ G.pushNode g v := by
  unfold pushNode
  generalize G.edges.filter (fun e => G.src e = v) = edges
  generalize g v = value
  induction edges generalizing g with
  | nil => exact le_refl g
  | cons e edges ih => exact (le_pushEdge hop value g e).trans (ih _)

theorem le_foldl_pushNode (hop : ∀ x y, x ≤ G.op x y) (nodes : List V) (g : V → M) :
    g ≤ nodes.foldl G.pushNode g := by
  induction nodes generalizing g with
  | nil => exact le_refl g
  | cons v nodes ih => exact (le_pushNode hop g v).trans (ih _)

end Order

end GraphPush

/-! ## Cycles -/

/-- **A finite set whose members are all fed from the set has a cycle.** -/
theorem exists_cycle {α : Type} {R : α → α → Prop} {l : List α} (hne : l ≠ [])
    (h : ∀ v ∈ l, ∃ u ∈ l, R u v) : ∃ v, Relation.TransGen R v v := by
  by_contra hacyclic
  push Not at hacyclic
  let S : {x // x ∈ l} → {x // x ∈ l} → Prop := fun a b => Relation.TransGen R a b
  have : Finite {x // x ∈ l} := List.finite_toSet l
  have : IsTrans {x // x ∈ l} S := ⟨fun _ _ _ => Relation.TransGen.trans⟩
  have : Std.Irrefl S := ⟨fun a => hacyclic a⟩
  have hwf : WellFounded S := Finite.wellFounded_of_trans_of_irrefl S
  obtain ⟨v, hv⟩ := List.exists_mem_of_ne_nil l hne
  obtain ⟨m, -, hmin⟩ := hwf.has_min Set.univ ⟨⟨v, hv⟩, trivial⟩
  obtain ⟨u, hu, hR⟩ := h m m.2
  exact hmin ⟨u, hu⟩ trivial (.single hR)

/-! ## Checked folds -/

section Checked

variable {S T A ε : Type} {f : S → A → Except ε S} {step : T → A → T} {R : S → T → Prop}
  {fits : T → Prop}

variable {l : List A} {t : T}

/-- When the last value of a fold fits, so does the first one. -/
theorem fits_of_foldl (hmono : ∀ a ∈ l, ∀ t, fits (step t a) → fits t) (h : fits (l.foldl step t)) :
    fits t := by
  induction l generalizing t with
  | nil => exact h
  | cons a l ih =>
    exact hmono a List.mem_cons_self t (ih (fun b hb => hmono b (List.mem_cons_of_mem a hb)) h)

/-- **A fold of checked steps**: what it returns stands for the fold without the checks, and it returns
when the last value fits, as each value does that a later one was made from. -/
theorem checked_foldlM
    (hstep : ∀ a ∈ l, ∀ s t, R s t → (∀ s', f s a = .ok s' → R s' (step t a)) ∧
      (fits (step t a) → ∃ s', f s a = .ok s')) (hmono : ∀ a ∈ l, ∀ t, fits (step t a) → fits t) {s : S}
    (h : R s t) :
    (∀ s', l.foldlM f s = .ok s' → R s' (l.foldl step t)) ∧
      (fits (l.foldl step t) → ∃ s', l.foldlM f s = .ok s') := by
  induction l generalizing s t with
  | nil =>
    constructor
    · intro s' hs'
      obtain rfl := Except.ok.inj hs'
      exact h
    · intro hfits
      exact ⟨s, rfl⟩
  | cons a l ih =>
    obtain ⟨hok, hexists⟩ := hstep a List.mem_cons_self s t h
    have hrest : ∀ s'', R s'' (step t a) → _ := fun s'' h'' =>
      ih (fun b hb => hstep b (List.mem_cons_of_mem a hb))
        (fun b hb => hmono b (List.mem_cons_of_mem a hb)) h''
    constructor
    · intro s' hs'
      rw [List.foldlM_cons] at hs'
      cases hfirst : f s a with
      | error e =>
        rw [hfirst] at hs'
        cases hs'
      | ok s'' =>
        rw [hfirst] at hs'
        exact (hrest s'' (hok s'' hfirst)).1 s' hs'
    · intro hfits
      obtain ⟨s'', hs''⟩ := hexists
        (fits_of_foldl (fun b hb => hmono b (List.mem_cons_of_mem a hb)) hfits)
      obtain ⟨s', hs'⟩ := (hrest s'' (hok s'' hs'')).2 hfits
      refine ⟨s', ?_⟩
      rw [List.foldlM_cons, hs'']
      exact hs'

end Checked
