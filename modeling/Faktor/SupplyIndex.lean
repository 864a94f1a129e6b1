/-
# The indexes of the supply graph

Four derived indexes follow the nodes and edges of a graph: some operations keep them up step by step, others
build them again.  The traversals read them.

* `Graph.reindexAll`, `Graph.rebuildIndexes` : the indexes built again;
* `Described` : the indexes say exactly what the lists of the nodes and edges say;
* `Described.apply` : every operation keeps that, unless it adds a node that stored edges start from;
* `graph_exact` : it holds after every run, and the traversals then find each node within the depth once, at
  its shortest distance.
-/
import Faktor.BreadthFirst
import Faktor.SupplyGraph

open Approval BreadthFirst

namespace SupplyGraph

variable {Data : Type}

/-! ## Positions -/

/-- The positions of a list at which a condition holds, in their order. -/
def positionsOf {α : Type} (p : α → Bool) (l : List α) : List ℕ := (l.zipIdx.filter fun x => p x.1).map (·.2)

theorem positionsOf_append {α : Type} (p : α → Bool) (l : List α) (a : α) :
    positionsOf p (l ++ [a]) = positionsOf p l ++ if p a then [l.length] else [] := by
  unfold positionsOf
  rw [List.zipIdx_append, List.filter_append, List.map_append, Nat.zero_add]
  by_cases h : p a <;> simp [h]

theorem positionsOf_map {α β : Type} (p : β → Bool) (f : α → β) (l : List α) :
    positionsOf p (l.map f) = positionsOf (fun a => p (f a)) l := by
  unfold positionsOf
  rw [List.zipIdx_map, List.filter_map, List.map_map]
  rfl

theorem mem_positionsOf {α : Type} {p : α → Bool} {l : List α} {i : ℕ} :
    i ∈ positionsOf p l ↔ ∃ a, l[i]? = some a ∧ p a := by
  simp only [positionsOf, List.mem_map, List.mem_filter, Prod.exists, List.mem_zipIdx_iff_getElem?]
  constructor
  · rintro ⟨a, j, ⟨hget, hp⟩, rfl⟩
    exact ⟨a, hget, hp⟩
  · rintro ⟨a, hget, hp⟩
    exact ⟨a, i, ⟨hget, hp⟩, rfl⟩

/-- A loop over a list and its positions, by what holds of the part that is done. -/
theorem foldl_zipIdx_induction {α β : Type} {P : List α → β → Prop} {f : β → α × ℕ → β} {b : β} (hnil : P [] b)
    (hstep : ∀ done a b, P done b → P (done ++ [a]) (f b (a, done.length))) (l : List α) :
    P l (l.zipIdx.foldl f b) := by
  induction l using List.reverseRecOn with
  | nil => exact hnil
  | append_singleton l a ih =>
    rw [List.zipIdx_append, List.foldl_append, Nat.zero_add]
    exact hstep l a _ ih

/-! ## The operations -/

/-- The loop over the nodes that both ways of reindexing begin with, after they have cleared the indexes. -/
def indexNodes (g : Graph Data) : Graph Data :=
  g.nodes.zipIdx.foldl
    (fun g np => { g with
      index := Function.update g.index np.1.key (some np.2)
      adjacency := Function.update g.adjacency np.1.key (some ((g.adjacency np.1.key).getD [])) })
    { g with index := fun _ => none, adjacency := fun _ => none, reverse := fun _ => none, edgeSet := fun _ => false }

/-- The two pushes for an edge. -/
def linkEdge (g : Graph Data) (ep : Edge × ℕ) : Graph Data :=
  { g with
    adjacency := pushAt g.adjacency ep.1.source ep.2
    reverse := pushAt g.reverse ep.1.target ep.2 }

/-- `reindex_all`. -/
def Graph.reindexAll (g : Graph Data) : Graph Data :=
  g.edges.zipIdx.foldl (fun g ep => linkEdge { g with edgeSet := Function.update g.edgeSet ep.1 true } ep)
    (indexNodes g)

/-- The edges that are in a set for the first time, and the set. -/
def keepEdges : List Edge → List Edge × (Edge → Bool) → List Edge × (Edge → Bool)
  | [], kept => kept
  | edge :: rest, (edges, set) =>
    if set edge then keepEdges rest (edges, set)
    else keepEdges rest (edges ++ [edge], Function.update set edge true)

/-- `rebuild_indexes`. -/
def Graph.rebuildIndexes (g : Graph Data) : Graph Data :=
  let cleared := indexNodes g
  let (edges, edgeSet) := keepEdges g.edges ([], cleared.edgeSet)
  edges.zipIdx.foldl linkEdge { cleared with edges := edges, edgeSet := edgeSet }

/-- A graph that was deserialized from its lists. -/
def decode (revision : ℕ) (nodes : List (Node Data)) (edges : List Edge) : Graph Data :=
  Graph.reindexAll { (Graph.new revision : Graph Data) with nodes := nodes, edges := edges }

/-- An operation with its arguments. -/
inductive Op (Data : Type)
  | addNode (node : Node Data)
  | addEdge (edge : Edge)
  | setQualificationStatus (outside : Outside Data) (id : ℕ) (status : QualificationStatus)
      (approval : Option ApprovalToken)
  | setContractTerms (outside : Outside Data) (id : ℕ) (terms : ContractTerms Data)
      (approval : Option ApprovalToken)
  | setSupplierAuthorization (outside : Outside Data) (id : ℕ) (authorization : AuthorizationStatus)
      (approval : Option ApprovalToken)
  | reindexAll
  | rebuildIndexes

/-- The graph after an operation, whatever it returned. -/
def Op.apply (g : Graph Data) : Op Data → Graph Data
  | addNode node => (g.addNode node).toOption.getD g
  | addEdge edge => (g.addEdge edge).toOption.getD g
  | setQualificationStatus outside id status approval =>
    ((SupplyGraph.setQualificationStatus outside id status approval).run g).2
  | setContractTerms outside id terms approval => ((SupplyGraph.setContractTerms outside id terms approval).run g).2
  | setSupplierAuthorization outside id authorization approval =>
    ((SupplyGraph.setSupplierAuthorization outside id authorization approval).run g).2
  | reindexAll => g.reindexAll
  | rebuildIndexes => g.rebuildIndexes

/-- A run of operations. -/
def run (g : Graph Data) (ops : List (Op Data)) : Graph Data := ops.foldl Op.apply g

/-! ## The traversals -/

/-- The place of a `NodeRef` in their derived order. -/
def NodeRef.rank : NodeRef → ℕ ×ₗ ℕ
  | part id => toLex (0, id)
  | manufacturer id => toLex (1, id)
  | supplier id => toLex (2, id)
  | site id => toLex (3, id)
  | shipment id => toLex (4, id)
  | process id => toLex (5, id)
  | qualification id => toLex (6, id)
  | pcn id => toLex (7, id)
  | contract id => toLex (8, id)
  | risk id => toLex (9, id)

/-- The place of an `EdgeKind` in their derived order. -/
def EdgeKind.rank : EdgeKind → ℕ
  | supplies => 0
  | manufactures => 1
  | operates => 2
  | governedBy => 3
  | requiresProcess => 4
  | qualifies => 5
  | affectsPart => 6
  | exposes => 7
  | locatedAt => 8

/-- `neighbors`; the positions of the indexes are those of edges. -/
def Graph.neighbors (g : Graph Data) (key : NodeRef) (outgoing : Bool) : List Edge :=
  let indices := ((if outgoing then g.adjacency else g.reverse) key).getD []
  let edges := indices.filterMap (g.edges[·]?)
  let other := fun edge : Edge => if outgoing then edge.target else edge.source
  edges.insertionSort fun a b => toLex ((other a).rank, a.kind.rank) ≤ toLex ((other b).rank, b.kind.rank)

/-- `outgoing`. -/
def Graph.outgoing (g : Graph Data) (key : NodeRef) : List Edge := g.neighbors key true

/-- `MAX_TRAVERSAL_DEPTH`. -/
def maxTraversalDepth : ℕ := 64

/-- `traverse`: the start and the targets of edges are all that can be found, one in each round. -/
def Graph.traverse (g : Graph Data) (start : NodeRef) (maxDepth : ℕ) : List (NodeRef × ℕ) :=
  if (g.index start).isSome then
    breadthFirst (fun key => (g.outgoing key).map (·.target)) (min maxDepth maxTraversalDepth)
      (g.edges.length + 1) start
  else []

/-! ## Indexes that say what the lists say -/

/-- The last position of a node with a key. -/
def lastPosition (nodes : List (Node Data)) (key : NodeRef) : Option ℕ :=
  (positionsOf (fun node => node.key = key) nodes).getLast?

/-- **The indexes say exactly what the lists say.** -/
structure Described (g : Graph Data) : Prop where
  index : ∀ key, g.index key = lastPosition g.nodes key
  adjacency : ∀ key, (g.adjacency key).getD [] = positionsOf (fun edge => edge.source = key) g.edges
  reverse : ∀ key, (g.reverse key).getD [] = positionsOf (fun edge => edge.target = key) g.edges
  edgeSet : ∀ edge, g.edgeSet edge ↔ edge ∈ g.edges

variable {nodes : List (Node Data)}

theorem isSome_lastPosition {key : NodeRef} :
    (lastPosition nodes key).isSome ↔ ∃ node ∈ nodes, node.key = key := by
  rw [lastPosition, List.getLast?_isSome]
  constructor
  · intro h
    obtain ⟨i, hi⟩ := List.exists_mem_of_ne_nil _ h
    obtain ⟨node, hnode, hkey⟩ := mem_positionsOf.mp hi
    exact ⟨node, List.mem_of_getElem? hnode, of_decide_eq_true hkey⟩
  · rintro ⟨node, hmem, hkey⟩
    obtain ⟨i, hi⟩ := List.getElem?_of_mem hmem
    exact List.ne_nil_of_mem (mem_positionsOf.mpr ⟨node, hi, decide_eq_true hkey⟩)

/-- A node that comes last is at the last position of its key. -/
theorem update_lastPosition {index : NodeRef → Option ℕ} (h : ∀ key, index key = lastPosition nodes key)
    (node : Node Data) (key : NodeRef) :
    Function.update index node.key (some nodes.length) key = lastPosition (nodes ++ [node]) key := by
  rw [lastPosition, positionsOf_append]
  by_cases hkey : key = node.key
  · subst hkey
    simp
  · rw [Function.update_of_ne hkey, h, if_neg (by simpa using Ne.symm hkey), List.append_nil, lastPosition]

/-- An edge that comes last is at the last position of its end. -/
theorem getD_pushAt {positions : NodeRef → Option (List ℕ)} {side : Edge → NodeRef} {edges : List Edge}
    (h : ∀ key, (positions key).getD [] = positionsOf (fun edge => side edge = key) edges) (edge : Edge)
    (key : NodeRef) :
    (pushAt positions (side edge) edges.length key).getD [] =
      positionsOf (fun edge => side edge = key) (edges ++ [edge]) := by
  rw [pushAt, positionsOf_append]
  by_cases hkey : key = side edge
  · subst hkey
    simp [h]
  · rw [Function.update_of_ne hkey, h, if_neg (by simpa using Ne.symm hkey), List.append_nil]

/-! ## Reindexing -/

/-- The loop over the nodes leaves the index of the nodes and no positions of edges. -/
theorem indexNodes_spec (g : Graph Data) :
    (∀ key, (indexNodes g).index key = lastPosition g.nodes key) ∧
      (∀ key, ((indexNodes g).adjacency key).getD [] = []) ∧ indexNodes g = { g with
        index := (indexNodes g).index
        adjacency := (indexNodes g).adjacency
        reverse := fun _ => none
        edgeSet := fun _ => false } := by
  refine foldl_zipIdx_induction (P := fun nodes (g' : Graph Data) =>
    (∀ key, g'.index key = lastPosition nodes key) ∧ (∀ key, (g'.adjacency key).getD [] = []) ∧
      g' = { g with
        index := g'.index
        adjacency := g'.adjacency
        reverse := fun _ => none
        edgeSet := fun _ => false }) ⟨fun key => rfl, fun key => rfl, rfl⟩ ?_ g.nodes
  rintro done node g' ⟨hindex, hadjacency, hrest⟩
  refine ⟨update_lastPosition hindex node, fun key => ?_, ?_⟩
  · by_cases hkey : key = node.key
    · subst hkey
      simp [hadjacency]
    · show ((Function.update g'.adjacency node.key _) key).getD [] = []
      rw [Function.update_of_ne hkey, hadjacency]
  · rw [hrest]

variable {g : Graph Data}

/-- The loop over the edges, from a graph with a node index and no positions. -/
theorem linkEdges_spec (hadjacency : ∀ key, (g.adjacency key).getD [] = [])
    (hreverse : ∀ key, (g.reverse key).getD [] = []) (edges : List Edge) :
    let linked := edges.zipIdx.foldl linkEdge g
    (∀ key, (linked.adjacency key).getD [] = positionsOf (fun edge => edge.source = key) edges) ∧
      (∀ key, (linked.reverse key).getD [] = positionsOf (fun edge => edge.target = key) edges) ∧
        linked = { g with adjacency := linked.adjacency, reverse := linked.reverse } := by
  refine foldl_zipIdx_induction (P := fun edges (g' : Graph Data) =>
    (∀ key, (g'.adjacency key).getD [] = positionsOf (fun edge => edge.source = key) edges) ∧
      (∀ key, (g'.reverse key).getD [] = positionsOf (fun edge => edge.target = key) edges) ∧
        g' = { g with adjacency := g'.adjacency, reverse := g'.reverse }) ⟨hadjacency, hreverse, rfl⟩ ?_ edges
  rintro done edge g' ⟨hadj, hrev, hrest⟩
  refine ⟨@getD_pushAt _ Edge.source _ hadj edge, @getD_pushAt _ Edge.target _ hrev edge, ?_⟩
  rw [hrest]
  rfl

/-- Reindexing leaves the lists and describes them. -/
theorem reindexAll_spec (g : Graph Data) :
    Described g.reindexAll ∧ g.reindexAll.nodes = g.nodes ∧ g.reindexAll.edges = g.edges := by
  obtain ⟨hindex, hadjacency, hrest⟩ := indexNodes_spec g
  have hloop := foldl_zipIdx_induction (P := fun edges (g' : Graph Data) =>
    (∀ key, (g'.adjacency key).getD [] = positionsOf (fun edge => edge.source = key) edges) ∧
      (∀ key, (g'.reverse key).getD [] = positionsOf (fun edge => edge.target = key) edges) ∧
        (∀ edge, g'.edgeSet edge ↔ edge ∈ edges) ∧
          g'.index = (indexNodes g).index ∧ g'.nodes = g.nodes ∧ g'.edges = g.edges)
    (f := fun g ep => linkEdge { g with edgeSet := Function.update g.edgeSet ep.1 true } ep)
    (b := indexNodes g) ?_ ?_ g.edges
  · obtain ⟨hadj, hrev, hset, hsame, hnodes, hedges⟩ := hloop
    refine ⟨⟨fun key => ?_, fun key => ?_, fun key => ?_, fun edge => ?_⟩, hnodes, hedges⟩
    · show (Graph.reindexAll g).index key = lastPosition (Graph.reindexAll g).nodes key
      rw [Graph.reindexAll, hsame, hnodes, hindex]
    · rw [Graph.reindexAll, hadj, hedges]
    · rw [Graph.reindexAll, hrev, hedges]
    · rw [Graph.reindexAll, hset, hedges]
  · rw [hrest]
    exact ⟨hadjacency, fun key => rfl, fun edge => by simp, rfl, rfl, rfl⟩
  · rintro done edge g' ⟨hadj, hrev, hset, hsame, hnodes, hedges⟩
    refine ⟨@getD_pushAt _ Edge.source _ hadj edge, @getD_pushAt _ Edge.target _ hrev edge,
      fun e => ?_, hsame, hnodes, hedges⟩
    rw [List.mem_append, List.mem_singleton]
    by_cases he : e = edge
    · subst he
      exact iff_of_true (Function.update_self ..) (.inr rfl)
    · show Function.update g'.edgeSet edge true e ↔ _
      rw [Function.update_of_ne he, hset]
      exact ⟨.inl, fun h => h.resolve_right he⟩

/-- The edges that are kept are those of the set, and they were edges before. -/
theorem keepEdges_spec {edges kept : List Edge} {set : Edge → Bool} (hset : ∀ edge, set edge ↔ edge ∈ kept) :
    (∀ edge, (keepEdges edges (kept, set)).2 edge ↔ edge ∈ (keepEdges edges (kept, set)).1) ∧
      ∀ edge ∈ (keepEdges edges (kept, set)).1, edge ∈ kept ∨ edge ∈ edges := by
  induction edges generalizing kept set with
  | nil => exact ⟨hset, fun edge h => .inl h⟩
  | cons first rest ih =>
    rw [keepEdges]
    split_ifs with hfirst
    · obtain ⟨hmark, hmem⟩ := ih hset
      exact ⟨hmark, fun edge h => (hmem edge h).imp_right (List.mem_cons_of_mem first)⟩
    · have hnext : ∀ edge, Function.update set first true edge ↔ edge ∈ kept ++ [first] := by
        intro edge
        rw [List.mem_append, List.mem_singleton]
        by_cases he : edge = first
        · subst he
          simp
        · rw [Function.update_of_ne he, hset]
          exact ⟨.inl, fun h => h.resolve_right he⟩
      obtain ⟨hmark, hmem⟩ := ih hnext
      refine ⟨hmark, fun edge h => ?_⟩
      obtain hkept | hrest := hmem edge h
      · obtain hkept | hself := List.mem_append.mp hkept
        · exact .inl hkept
        · rw [List.mem_singleton.mp hself]
          exact .inr List.mem_cons_self
      · exact .inr (.tail _ hrest)

/-- Rebuilding leaves the nodes and some of the edges, and describes them. -/
theorem rebuildIndexes_spec (g : Graph Data) :
    Described g.rebuildIndexes ∧ g.rebuildIndexes.nodes = g.nodes ∧ ∀ edge ∈ g.rebuildIndexes.edges, edge ∈ g.edges := by
  obtain ⟨hindex, hadjacency, hrest⟩ := indexNodes_spec g
  have hset : (indexNodes g).edgeSet = fun _ => false := by rw [hrest]
  obtain ⟨hmark, hmem⟩ := @keepEdges_spec g.edges [] (indexNodes g).edgeSet (by rw [hset]; simp)
  have hrebuild : g.rebuildIndexes = (keepEdges g.edges ([], (indexNodes g).edgeSet)).1.zipIdx.foldl linkEdge
      { indexNodes g with
        edges := (keepEdges g.edges ([], (indexNodes g).edgeSet)).1
        edgeSet := (keepEdges g.edges ([], (indexNodes g).edgeSet)).2 } := rfl
  generalize keepEdges g.edges ([], (indexNodes g).edgeSet) = kept at hmark hmem hrebuild
  obtain ⟨hadj, hrev, hsame⟩ := linkEdges_spec
    (g := { indexNodes g with edges := kept.1, edgeSet := kept.2 }) hadjacency
    (by rw [hrest]; exact fun key => rfl) kept.1
  rw [← hrebuild] at hadj hrev hsame
  have hnodes : g.rebuildIndexes.nodes = g.nodes := by
    rw [hsame, hrest]
  have hedges : g.rebuildIndexes.edges = kept.1 := by
    rw [hsame]
  refine ⟨⟨fun key => ?_, fun key => ?_, fun key => ?_, fun edge => ?_⟩, hnodes, fun edge h => ?_⟩
  · rw [hnodes, ← hindex, hsame]
  · rw [hadj, hedges]
  · rw [hrev, hedges]
  · rw [hedges, ← hmark, hsame]
  · rw [hedges] at h
    exact (hmem edge h).resolve_left List.not_mem_nil

/-! ## The operations keep the indexes -/

/-- **An operation is admitted** unless it adds a node that stored edges start from. -/
def Op.Admitted (g : Graph Data) : Op Data → Prop
  | addNode node => (g.index node.key).isSome ∨ ∀ edge ∈ g.edges, edge.source ≠ node.key
  | _ => True

variable {g' : Graph Data} {node : Node Data}

/-- A record of a key makes way for another one of this key. -/
theorem Described.advanced (h : Described g) {key : NodeRef} {revision : ℕ} {record : ℕ → Node Data}
    (hg : Advanced g g' key node revision record) (hkey : ∀ n, node.key = key → (record n).key = key) :
    Described g' ∧ g'.index = g.index ∧ g'.edges = g.edges := by
  obtain ⟨position, hindex, hnode, rfl⟩ := hg
  have hnodeKey : node.key = key := by
    rw [h.index] at hindex
    obtain ⟨a, ha, hself⟩ := mem_positionsOf.mp (List.mem_of_getLast? hindex)
    rw [hnode] at ha
    obtain rfl := Option.some.inj ha
    exact of_decide_eq_true hself
  have hkeys : (g.nodes.set position (record (revision + 1))).map Node.key = g.nodes.map Node.key := by
    rw [List.map_set, hkey _ hnodeKey, ← hnodeKey]
    apply List.ext_getElem?
    intro i
    rw [List.getElem?_set]
    split_ifs with hi hlt
    · rw [← hi, List.getElem?_map, hnode]
      rfl
    · rw [← hi, List.getElem?_eq_none (by omega)]
    · rfl
  have hpositions : ∀ k, lastPosition (g.nodes.set position (record (revision + 1))) k = lastPosition g.nodes k := by
    intro k
    unfold lastPosition
    rw [← positionsOf_map (fun key => key = k) Node.key, hkeys, positionsOf_map]
  exact ⟨⟨fun k => (h.index k).trans (hpositions k).symm, h.adjacency, h.reverse, h.edgeSet⟩, rfl, rfl⟩

/-- The graph after a change of a record: the same, or one record has moved on. -/
theorem Outcome.state {command : Cmd Data Unit} {Change : Graph Data → Prop} (h : Outcome command g Change) :
    (command.run g).2 = g ∨ Change (command.run g).2 := by
  cases hrun : command.run g with
  | mk result g' =>
    cases result with
    | error e => exact .inl (h.1 e g' hrun)
    | ok u => exact .inr (h.2 g' hrun)

/-- Every stored edge starts from a node. -/
def Linked (g : Graph Data) : Prop := ∀ edge ∈ g.edges, (g.index edge.source).isSome

/-- A change of a record keeps what the indexes say. -/
theorem Described.setter (h : Described g)
    (hstate : g' = g ∨ ∃ key node revision record, Advanced g g' key node revision record ∧
      ∀ n, node.key = key → (record n).key = key) : Described g' ∧ (Linked g → Linked g') := by
  obtain rfl | ⟨key, node, revision, record, hadvanced, hkey⟩ := hstate
  · exact ⟨h, id⟩
  · obtain ⟨hdescribed, hindex, hedges⟩ := h.advanced hadvanced hkey
    refine ⟨hdescribed, fun hlinked => ?_⟩
    unfold Linked
    rw [hindex, hedges]
    exact hlinked

/-- Lists that are described again. -/
theorem Linked.of_lists (hlinked : Linked g) (h : Described g) (h' : Described g')
    (hnodes : g'.nodes = g.nodes) (hedges : ∀ edge ∈ g'.edges, edge ∈ g.edges) : Linked g' := by
  intro edge hedge
  rw [h'.index, hnodes, ← h.index]
  exact hlinked edge (hedges edge hedge)

/-- **A node that no stored edge starts from keeps the indexes.** -/
theorem Described.addNode (h : Described g) (hadd : g.addNode node = .ok g')
    (hadmitted : ∀ edge ∈ g.edges, edge.source ≠ node.key) : Described g' := by
  obtain ⟨-, -, -, rfl⟩ := addNode_eq_ok_iff.mp hadd
  refine ⟨update_lastPosition h.index node, fun key => ?_, h.reverse, h.edgeSet⟩
  by_cases hkey : key = node.key
  · subst hkey
    have hnone : positionsOf (fun edge : Edge => edge.source = node.key) g.edges = [] := by
      rw [List.eq_nil_iff_forall_not_mem]
      intro i hi
      obtain ⟨edge, hedge, hself⟩ := mem_positionsOf.mp hi
      exact hadmitted edge (List.mem_of_getElem? hedge) (of_decide_eq_true hself)
    rw [hnone]
    simp
  · show ((Function.update g.adjacency node.key (some [])) key).getD [] = _
    rw [Function.update_of_ne hkey, h.adjacency]

variable {edge : Edge}

theorem Described.addEdge (h : Described g) (hadd : g.addEdge edge = .ok g') :
    Described g' := by
  obtain ⟨-, -, -, -, -, -, rfl⟩ := addEdge_eq_ok_iff.mp hadd
  refine ⟨h.index, getD_pushAt h.adjacency edge, getD_pushAt h.reverse edge, fun e => ?_⟩
  rw [List.mem_append, List.mem_singleton]
  by_cases he : e = edge
  · subst he
    exact iff_of_true (Function.update_self ..) (.inr rfl)
  · show Function.update g.edgeSet edge true e ↔ _
    rw [Function.update_of_ne he, h.edgeSet]
    exact ⟨.inl, fun h => h.resolve_right he⟩

theorem Linked.addNode (h : Linked g) (hadd : g.addNode node = .ok g') :
    Linked g' := by
  obtain ⟨-, -, -, rfl⟩ := addNode_eq_ok_iff.mp hadd
  intro edge hedge
  show (Function.update g.index node.key _ edge.source).isSome
  by_cases hkey : edge.source = node.key
  · rw [hkey, Function.update_self]
    rfl
  · rw [Function.update_of_ne hkey]
    exact h edge hedge

theorem Linked.addEdge (h : Linked g) (hadd : g.addEdge edge = .ok g') :
    Linked g' := by
  obtain ⟨-, -, hsource, -, -, -, rfl⟩ := addEdge_eq_ok_iff.mp hadd
  intro e he
  obtain he | he := List.mem_append.mp he
  · exact h e he
  · rw [List.mem_singleton.mp he]
    exact hsource

/-- **Every operation that is admitted keeps the indexes**, and every operation keeps the starts of edges. -/
theorem Described.apply (h : Described g) (op : Op Data) :
    (op.Admitted g → Described (op.apply g)) ∧ (Linked g → op.Admitted g ∧ Linked (op.apply g)) := by
  cases op with
  | addNode node =>
    have hallowed : Linked g → (Op.addNode node).Admitted g := by
      intro hlinked
      by_cases hindex : (g.index node.key).isSome
      · exact .inl hindex
      · refine .inr fun edge hedge heq => hindex ?_
        rw [← heq]
        exact hlinked edge hedge
    have happly : (Op.addNode node).apply g = (g.addNode node).toOption.getD g := rfl
    rw [happly]
    cases hadd : g.addNode node with
    | error e => exact ⟨fun _ => h, fun hlinked => ⟨hallowed hlinked, hlinked⟩⟩
    | ok g' =>
      refine ⟨fun hadmitted => ?_, fun hlinked => ⟨hallowed hlinked, hlinked.addNode hadd⟩⟩
      exact h.addNode hadd (hadmitted.resolve_left (addNode_eq_ok_iff.mp hadd).2.1)
  | addEdge edge =>
    have happly : (Op.addEdge edge).apply g = (g.addEdge edge).toOption.getD g := rfl
    rw [happly]
    cases hadd : g.addEdge edge with
    | error e => exact ⟨fun _ => h, fun hlinked => ⟨trivial, hlinked⟩⟩
    | ok g' => exact ⟨fun _ => h.addEdge hadd, fun hlinked => ⟨trivial, hlinked.addEdge hadd⟩⟩
  | setQualificationStatus outside id status approval =>
    obtain ⟨hdescribed, hlinked⟩ := h.setter <|
      (outcome_setQualificationStatus outside g id status approval).state.imp_right fun ⟨q, hg⟩ =>
        ⟨_, _, _, _, hg, fun _ h => h⟩
    exact ⟨fun _ => hdescribed, fun hg => ⟨trivial, hlinked hg⟩⟩
  | setContractTerms outside id terms approval =>
    obtain ⟨hdescribed, hlinked⟩ := h.setter <|
      (outcome_setContractTerms outside g id terms approval).state.imp_right fun ⟨hid, existing, hg⟩ =>
        ⟨_, _, _, _, hg, fun _ _ => congrArg NodeRef.contract hid⟩
    exact ⟨fun _ => hdescribed, fun hg => ⟨trivial, hlinked hg⟩⟩
  | setSupplierAuthorization outside id authorization approval =>
    obtain ⟨hdescribed, hlinked⟩ := h.setter <|
      (outcome_setSupplierAuthorization outside g id authorization approval).state.imp_right fun ⟨s, hg⟩ =>
        ⟨_, _, _, _, hg, fun _ h => h⟩
    exact ⟨fun _ => hdescribed, fun hg => ⟨trivial, hlinked hg⟩⟩
  | reindexAll =>
    obtain ⟨hdescribed, hnodes, hedges⟩ := reindexAll_spec g
    exact ⟨fun _ => hdescribed, fun hg => ⟨trivial, hg.of_lists h hdescribed hnodes fun e he => hedges ▸ he⟩⟩
  | rebuildIndexes =>
    obtain ⟨hdescribed, hnodes, hedges⟩ := rebuildIndexes_spec g
    exact ⟨fun _ => hdescribed, fun hg => ⟨trivial, hg.of_lists h hdescribed hnodes hedges⟩⟩

/-! ## Every run -/

/-- A run whose operations are all admitted. -/
def AdmittedRun : Graph Data → List (Op Data) → Prop
  | _, [] => True
  | g, op :: rest => op.Admitted g ∧ AdmittedRun (op.apply g) rest

theorem Described.run {ops : List (Op Data)} (h : Described g) (hops : AdmittedRun g ops) :
    Described (run g ops) := by
  induction ops generalizing g with
  | nil => exact h
  | cons op rest ih => exact ih ((h.apply op).1 hops.1) hops.2

/-- Where every edge starts from a node, every run is admitted. -/
theorem AdmittedRun.of_linked (h : Described g) (hlinked : Linked g) (ops : List (Op Data)) :
    AdmittedRun g ops := by
  induction ops generalizing g with
  | nil => trivial
  | cons op rest ih =>
    obtain ⟨hadmitted, hnext⟩ := (h.apply op).2 hlinked
    exact ⟨hadmitted, ih ((h.apply op).1 hadmitted) hnext⟩

theorem described_new (revision : ℕ) : Described (Graph.new revision : Graph Data) :=
  ⟨fun _ => rfl, fun _ => rfl, fun _ => rfl, fun edge => by simp [Graph.new]⟩

/-- The targets of the edges that start from a key. -/
def successors (g : Graph Data) (key : NodeRef) : List NodeRef :=
  (g.edges.filter fun edge => edge.source = key).map (·.target)

theorem Described.mem_outgoing (h : Described g) {key target : NodeRef} :
    target ∈ (g.outgoing key).map (·.target) ↔ target ∈ successors g key := by
  have hedge : ∀ edge, edge ∈ g.outgoing key ↔ edge ∈ g.edges ∧ edge.source = key := by
    intro edge
    simp only [Graph.outgoing, Graph.neighbors, if_true, List.mem_insertionSort, List.mem_filterMap, h.adjacency,
      mem_positionsOf, decide_eq_true_eq]
    constructor
    · rintro ⟨i, ⟨found, hfound, hsource⟩, hget⟩
      obtain rfl := Option.some.inj (hfound.symm.trans hget)
      exact ⟨List.mem_of_getElem? hget, hsource⟩
    · rintro ⟨hmem, hsource⟩
      obtain ⟨i, hi⟩ := List.getElem?_of_mem hmem
      exact ⟨i, ⟨edge, hi, hsource⟩, hi⟩
  simp only [successors, List.mem_map, hedge, List.mem_filter, decide_eq_true_eq]

/-- **What a traversal of a graph returns**: each node within the depth once, at its shortest distance. -/
def Traversed (g : Graph Data) (start : NodeRef) (maxDepth : ℕ) : Prop :=
  ((g.traverse start maxDepth).map (·.1)).Nodup ∧ ∀ key depth, (key, depth) ∈ g.traverse start maxDepth ↔
    (∃ node ∈ g.nodes, node.key = start) ∧ Distance (successors g) start key depth ∧
      depth ≤ min maxDepth maxTraversalDepth

theorem Described.traversed (h : Described g) (start : NodeRef) (maxDepth : ℕ) :
    Traversed g start maxDepth := by
  unfold Traversed Graph.traverse
  have hstart : (g.index start).isSome ↔ ∃ node ∈ g.nodes, node.key = start := by
    rw [h.index, isSome_lastPosition]
  rw [← hstart]
  by_cases hsome : (g.index start).isSome
  · rw [if_pos hsome]
    have hnodes : ∀ key ∈ start :: g.edges.map (·.target), ∀ b ∈ (g.outgoing key).map (·.target),
        b ∈ start :: g.edges.map (·.target) := by
      intro key _ b hb
      obtain ⟨edge, hedge, rfl⟩ := List.mem_map.mp (h.mem_outgoing.mp hb)
      exact List.mem_cons_of_mem _ (List.mem_map_of_mem (List.mem_filter.mp hedge).1)
    obtain ⟨hnodup, hmem⟩ := @mem_breadthFirst _ _ (min maxDepth maxTraversalDepth) _ _ hnodes start
      List.mem_cons_self (g.edges.length + 1) (by simp)
    refine ⟨hnodup, fun key depth => ?_⟩
    rw [hmem, Distance.congr fun a b => h.mem_outgoing]
    exact ⟨fun hd => ⟨hsome, hd⟩, fun hd => hd.2⟩
  · rw [if_neg hsome]
    exact ⟨List.nodup_nil, fun key depth => iff_of_false List.not_mem_nil fun hd => hsome hd.1⟩

/-- **The indexes and the traversals are exact** after every run from an empty graph, and after every run from
a decoded one in which no node is added that stored edges already start from. -/
theorem graph_exact {Data : Type} (revision : ℕ) (ops : List (Op Data)) :
    (Described (run (Graph.new revision) ops) ∧ ∀ start maxDepth, Traversed (run (Graph.new revision) ops) start maxDepth) ∧
    ∀ nodes edges, AdmittedRun (decode revision nodes edges) ops →
      Described (run (decode revision nodes edges) ops) ∧
        ∀ start maxDepth, Traversed (run (decode revision nodes edges) ops) start maxDepth := by
  have hnew := (described_new revision).run (AdmittedRun.of_linked (described_new revision) nofun ops)
  refine ⟨⟨hnew, hnew.traversed⟩, fun nodes edges hops => ?_⟩
  have hdecode : Described (decode revision nodes edges) := (reindexAll_spec _).1
  exact ⟨hdecode.run hops, (hdecode.run hops).traversed⟩

/-- A notice about a part that is decoded without a node, and then a supplier. -/
def decodedNotice : Graph Unit := decode 0 [.part ⟨1, "m", "d", 0, ()⟩] [⟨.pcn 1, .part 1, .affectsPart⟩]

theorem graph_exact_decoded :
    Described (run decodedNotice [.addNode (.supplier ⟨1, "s", .unknown, [], 0, ()⟩)]) := by
  have hrun : AdmittedRun decodedNotice [.addNode (.supplier ⟨1, "s", .unknown, [], 0, ()⟩)] := by
    refine ⟨.inr ?_, trivial⟩
    decide
  exact ((graph_exact 0 _).2 _ _ hrun).1

/-- An edge that was decoded without its source, and then the source: the edge is no longer found from it. -/
theorem dangling_edge_lost :
    ¬ Described (run (decode 0 [.part ⟨1, "m", "d", 0, ()⟩] [⟨.supplier 1, .part 1, .supplies⟩])
      [.addNode (.supplier ⟨1, "s", .unknown, [], 0, ()⟩)]) := by
  intro h
  have hadjacency := h.adjacency (.supplier 1)
  revert hadjacency
  decide

end SupplyGraph
