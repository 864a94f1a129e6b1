/-
# The supply graph

Typed nodes and typed edges in the order in which they came, with four derived indexes.  Nodes and edges
are added one by one, three records of the nodes are changed under an approval, and a graph that was decoded
is validated as a whole.

* `Graph.addNode`, `Graph.addEdge` : the two checked additions;
* `setQualificationStatus`, `setContractTerms`, `setSupplierAuthorization` : the changes of records;
* `validate_iff_build` : validation accepts what the additions accept;
* `setters_exact` : a change that is refused leaves the graph, and one that is not is one record's.
-/
import Faktor.ApprovalModel
import Faktor.KeepFirst
import Faktor.Sqlite

open Approval

namespace SupplyGraph

/-! ## Nodes and edges -/

/-- `MAX_GRAPH_NODES`, `MAX_GRAPH_EDGES`, `MAX_NODE_EVIDENCE`, `MAX_ID_BYTES`, `MAX_TEXT_BYTES`. -/
def maxGraphNodes : ℕ := 100000

def maxGraphEdges : ℕ := 500000

def maxNodeEvidence : ℕ := 32

def maxIdBytes : ℕ := 128

def maxTextBytes : ℕ := 1024

/-- `NodeRef`. -/
inductive NodeRef
  | part (id : ℕ)
  | manufacturer (id : ℕ)
  | supplier (id : ℕ)
  | site (id : ℕ)
  | shipment (id : ℕ)
  | process (id : ℕ)
  | qualification (id : ℕ)
  | pcn (id : ℕ)
  | contract (id : ℕ)
  | risk (id : ℕ)
  deriving DecidableEq

inductive EdgeKind
  | supplies
  | manufactures
  | operates
  | governedBy
  | requiresProcess
  | qualifies
  | affectsPart
  | exposes
  | locatedAt
  deriving DecidableEq

structure Edge where
  source : NodeRef
  target : NodeRef
  kind : EdgeKind
  deriving DecidableEq

structure EvidenceRef where
  id : String
  revision : ℕ
  digest : Option String
  deriving DecidableEq

inductive QualificationStatus
  | notStarted
  | evidencePending
  | approved
  | expired
  | suspended
  | revoked
  deriving DecidableEq

inductive AuthorizationStatus
  | authorized
  | notAuthorized
  | unknown
  deriving DecidableEq

/-! The records of the nodes; `Data` holds the fields that nothing here looks into. -/

structure Part (Data : Type) where
  id : ℕ
  mpn : String
  description : String
  revision : ℕ
  other : Data

structure Manufacturer where
  id : ℕ
  name : String
  country : Option String
  revision : ℕ

structure Supplier (Data : Type) where
  id : ℕ
  name : String
  authorization : AuthorizationStatus
  evidence : List EvidenceRef
  revision : ℕ
  other : Data

structure Site (Data : Type) where
  id : ℕ
  country : String
  region : String
  revision : ℕ
  other : Data

structure Shipment (Data : Type) where
  id : ℕ
  origin : String
  destination : String
  revision : ℕ
  other : Data

structure Process (Data : Type) where
  id : ℕ
  name : String
  capability : String
  revision : ℕ
  other : Data

structure Qualification (Data : Type) where
  id : ℕ
  status : QualificationStatus
  evidence : List EvidenceRef
  revision : ℕ
  other : Data

structure Pcn (Data : Type) where
  id : ℕ
  evidence : List EvidenceRef
  revision : ℕ
  other : Data

structure ContractTerms (Data : Type) where
  id : ℕ
  revision : ℕ
  other : Data

structure Risk (Data : Type) where
  id : ℕ
  mitigation : String
  evidence : List EvidenceRef
  revision : ℕ
  other : Data

inductive Node (Data : Type)
  | part (node : Part Data)
  | manufacturer (node : Manufacturer)
  | supplier (node : Supplier Data)
  | site (node : Site Data)
  | shipment (node : Shipment Data)
  | process (node : Process Data)
  | qualification (node : Qualification Data)
  | pcn (node : Pcn Data)
  | contract (node : ContractTerms Data)
  | risk (node : Risk Data)

variable {Data : Type}

/-- `Node::key`. -/
def Node.key : Node Data → NodeRef
  | part node => .part node.id
  | manufacturer node => .manufacturer node.id
  | supplier node => .supplier node.id
  | site node => .site node.id
  | shipment node => .shipment node.id
  | process node => .process node.id
  | qualification node => .qualification node.id
  | pcn node => .pcn node.id
  | contract node => .contract node.id
  | risk node => .risk node.id

/-- `validate_text`, with the text of its error. -/
def validateText (value : String) (max : ℕ) (what : String) : Except String Unit :=
  if value = "" then .error (what ++ " is outside its bound: empty")
  else if max < value.utf8ByteSize then
    .error (what ++ " is outside its bound: " ++ toString value.utf8ByteSize ++ " bytes exceeds " ++ toString max)
  else .ok ()

/-- `EvidenceRef::validate`. -/
def EvidenceRef.validate (reference : EvidenceRef) : Except String Unit := do
  validateText reference.id maxIdBytes "evidence id"
  match reference.digest with
  | some digest => validateText digest maxIdBytes "evidence digest"
  | none => return ()

/-- `validate_evidence`. -/
def validateEvidence (evidence : List EvidenceRef) : Except String Unit :=
  if maxNodeEvidence < evidence.length then
    .error ("node evidence is outside its bound: " ++ toString evidence.length ++ " entries")
  else evidence.forM (·.validate)

/-- `Node::validate`. -/
def Node.validate : Node Data → Except String Unit
  | part node => do
    validateText node.mpn maxIdBytes "part mpn"
    validateText node.description maxTextBytes "part description"
  | manufacturer node => do
    validateText node.name maxTextBytes "manufacturer name"
    match node.country with
    | some country => validateText country maxIdBytes "manufacturer country"
    | none => return ()
  | supplier node => do
    validateText node.name maxTextBytes "supplier name"
    validateEvidence node.evidence
  | site node => do
    validateText node.country maxIdBytes "site country"
    validateText node.region maxTextBytes "site region"
  | shipment node => do
    validateText node.origin maxTextBytes "shipment origin"
    validateText node.destination maxTextBytes "shipment destination"
  | process node => do
    validateText node.name maxTextBytes "process name"
    validateText node.capability maxTextBytes "process capability"
  | qualification node => validateEvidence node.evidence
  | pcn node => validateEvidence node.evidence
  | contract _ => .ok ()
  | risk node => do
    validateText node.mitigation maxTextBytes "risk mitigation"
    validateEvidence node.evidence

/-- `is_qualifiable`. -/
def isQualifiable : NodeRef → Bool
  | .supplier _ | .site _ | .part _ | .process _ | .manufacturer _ => true
  | _ => false

/-- `edge_kind_allowed`. -/
def edgeKindAllowed : EdgeKind → NodeRef → NodeRef → Bool
  | .supplies, .supplier _, .part _ => true
  | .manufactures, .manufacturer _, .part _ => true
  | .operates, .supplier _, .site _ => true
  | .governedBy, .shipment _, .contract _ => true
  | .requiresProcess, .part _, .process _ => true
  | .qualifies, .qualification _, target => isQualifiable target
  | .affectsPart, .pcn _, .part _ => true
  | .exposes, .risk _, .part _ | .exposes, .risk _, .supplier _ => true
  | .exposes, .risk _, .site _ | .exposes, .risk _, .shipment _ => true
  | .locatedAt, .supplier _, .site _ => true
  | _, _, _ => false

/-! ## The graph -/

/-- `GraphError`; the last one is an index out of bounds. -/
inductive GraphError
  | nodeBound (max : ℕ)
  | edgeBound (max : ℕ)
  | duplicateNode (key : NodeRef)
  | duplicateEdge
  | missingEndpoint (key : NodeRef)
  | selfEdge
  | illegalEdge (source target : NodeRef) (kind : EdgeKind)
  | invalidNode (text : String)
  | missingNode (key : NodeRef)
  | approval (error : ApprovalError)
  | panic
  deriving DecidableEq

/-- `SupplyGraph`. -/
structure Graph (Data : Type) where
  revision : ℕ
  nodes : List (Node Data)
  edges : List Edge
  index : NodeRef → Option ℕ
  adjacency : NodeRef → Option (List ℕ)
  reverse : NodeRef → Option (List ℕ)
  edgeSet : Edge → Bool

/-- `SupplyGraph::new`. -/
def Graph.new (revision : ℕ) : Graph Data where
  revision := revision
  nodes := []
  edges := []
  index _ := none
  adjacency _ := none
  reverse _ := none
  edgeSet _ := false

/-- `entry(key).or_default().push(position)`. -/
def pushAt (positions : NodeRef → Option (List ℕ)) (key : NodeRef) (position : ℕ) :
    NodeRef → Option (List ℕ) :=
  Function.update positions key (some ((positions key).getD [] ++ [position]))

/-- `add_node`; an error leaves the graph. -/
def Graph.addNode (g : Graph Data) (node : Node Data) : Except GraphError (Graph Data) :=
  if maxGraphNodes ≤ g.nodes.length then .error (.nodeBound maxGraphNodes)
  else if (g.index node.key).isSome then .error (.duplicateNode node.key)
  else
    match node.validate with
    | .error text => .error (.invalidNode text)
    | .ok () => .ok { g with
        index := Function.update g.index node.key (some g.nodes.length)
        adjacency := Function.update g.adjacency node.key (some [])
        nodes := g.nodes ++ [node] }

/-- `add_edge`; an error leaves the graph. -/
def Graph.addEdge (g : Graph Data) (edge : Edge) : Except GraphError (Graph Data) :=
  if maxGraphEdges ≤ g.edges.length then .error (.edgeBound maxGraphEdges)
  else if edge.source = edge.target then .error .selfEdge
  else if ¬ (g.index edge.source).isSome then .error (.missingEndpoint edge.source)
  else if ¬ (g.index edge.target).isSome then .error (.missingEndpoint edge.target)
  else if ¬ edgeKindAllowed edge.kind edge.source edge.target then
    .error (.illegalEdge edge.source edge.target edge.kind)
  else if g.edgeSet edge then .error .duplicateEdge
  else .ok { g with
    edgeSet := Function.update g.edgeSet edge true
    edges := g.edges ++ [edge]
    adjacency := pushAt g.adjacency edge.source g.edges.length
    reverse := pushAt g.reverse edge.target g.edges.length }

/-! ## Validation -/

/-- The loop of `validate` over the nodes, which returns the set of their keys. -/
def validateNodes : List NodeRef → List (Node Data) → Except GraphError (List NodeRef)
  | seen, [] => .ok seen
  | seen, node :: rest =>
    if node.key ∈ seen then .error (.duplicateNode node.key)
    else
      match node.validate with
      | .error text => .error (.invalidNode text)
      | .ok () => validateNodes (node.key :: seen) rest

/-- The loop of `validate` over the edges. -/
def validateEdges (nodes : List NodeRef) : List Edge → List Edge → Except GraphError Unit
  | _, [] => .ok ()
  | seen, edge :: rest =>
    if edge.source ∉ nodes then .error (.missingEndpoint edge.source)
    else if edge.target ∉ nodes then .error (.missingEndpoint edge.target)
    else if edge.source = edge.target then .error .selfEdge
    else if ¬ edgeKindAllowed edge.kind edge.source edge.target then
      .error (.illegalEdge edge.source edge.target edge.kind)
    else if edge ∈ seen then .error .duplicateEdge
    else validateEdges nodes (edge :: seen) rest

/-- `validate`; it does not look at the indexes. -/
def Graph.validate (g : Graph Data) : Except GraphError Unit :=
  if maxGraphNodes < g.nodes.length then .error (.nodeBound maxGraphNodes)
  else if maxGraphEdges < g.edges.length then .error (.edgeBound maxGraphEdges)
  else do
    let nodes ← validateNodes [] g.nodes
    validateEdges nodes [] g.edges

/-- Nodes and then edges, added in their order to an empty graph. -/
def build (revision : ℕ) (nodes : List (Node Data)) (edges : List Edge) : Except GraphError (Graph Data) := do
  let g ← nodes.foldlM Graph.addNode (Graph.new revision)
  edges.foldlM Graph.addEdge g

variable {g g' : Graph Data} {node : Node Data}

/-- What a node needs to be added. -/
theorem addNode_eq_ok_iff :
    g.addNode node = .ok g' ↔ g.nodes.length < maxGraphNodes ∧ ¬ (g.index node.key).isSome ∧
      node.validate = .ok () ∧ g' = { g with
        index := Function.update g.index node.key (some g.nodes.length)
        adjacency := Function.update g.adjacency node.key (some [])
        nodes := g.nodes ++ [node] } := by
  unfold Graph.addNode
  by_cases hbound : maxGraphNodes ≤ g.nodes.length
  · rw [if_pos hbound]
    exact iff_of_false nofun (fun h => by omega)
  rw [if_neg hbound]
  by_cases hindex : (g.index node.key).isSome
  · rw [if_pos hindex]
    exact iff_of_false nofun (fun h => h.2.1 hindex)
  rw [if_neg hindex]
  cases hvalid : node.validate with
  | error text => exact iff_of_false nofun (fun h => absurd h.2.2.1 nofun)
  | ok u =>
    dsimp only
    rw [Except.ok.injEq, eq_comm]
    exact ⟨fun h => ⟨by omega, hindex, rfl, h⟩, fun h => h.2.2.2⟩

variable {edge : Edge}

/-- What an edge needs to be added. -/
theorem addEdge_eq_ok_iff :
    g.addEdge edge = .ok g' ↔ g.edges.length < maxGraphEdges ∧ edge.source ≠ edge.target ∧
      (g.index edge.source).isSome ∧ (g.index edge.target).isSome ∧
      edgeKindAllowed edge.kind edge.source edge.target ∧ g.edgeSet edge = false ∧ g' = { g with
        edgeSet := Function.update g.edgeSet edge true
        edges := g.edges ++ [edge]
        adjacency := pushAt g.adjacency edge.source g.edges.length
        reverse := pushAt g.reverse edge.target g.edges.length } := by
  unfold Graph.addEdge
  constructor
  · intro h
    split_ifs at h with hbound hself hsource htarget hkind hset
    exact ⟨by omega, hself, hsource, htarget, hkind, Bool.eq_false_of_not_eq_true hset,
      (Except.ok.inj h).symm⟩
  · rintro ⟨hbound, hself, hsource, htarget, hkind, hset, rfl⟩
    rw [if_neg (by omega), if_neg hself, if_neg (not_not.mpr hsource), if_neg (not_not.mpr htarget),
      if_neg (not_not.mpr hkind), if_neg (by rw [hset]; decide)]

theorem validateNodes_cons_eq_ok_iff {seen keys : List NodeRef} {rest : List (Node Data)} :
    validateNodes seen (node :: rest) = .ok keys ↔
      node.key ∉ seen ∧ node.validate = .ok () ∧ validateNodes (node.key :: seen) rest = .ok keys := by
  rw [validateNodes]
  by_cases hseen : node.key ∈ seen
  · rw [if_pos hseen]
    exact iff_of_false nofun (fun h => h.1 hseen)
  rw [if_neg hseen]
  cases hvalid : node.validate with
  | error text => exact iff_of_false nofun (fun h => absurd h.2.1 nofun)
  | ok u => exact ⟨fun h => ⟨hseen, rfl, h⟩, fun h => h.2.2⟩

variable {nodes : List NodeRef} {seen : List Edge}

theorem validateEdges_cons_eq_ok_iff {rest : List Edge} :
    validateEdges nodes seen (edge :: rest) = .ok () ↔
      edge.source ≠ edge.target ∧ edge.source ∈ nodes ∧ edge.target ∈ nodes ∧
        edgeKindAllowed edge.kind edge.source edge.target ∧ edge ∉ seen ∧
          validateEdges nodes (edge :: seen) rest = .ok () := by
  rw [validateEdges]
  constructor
  · intro h
    split_ifs at h with hsource htarget hself hkind hseen
    exact ⟨hself, hsource, htarget, hkind, hseen, h⟩
  · rintro ⟨hself, hsource, htarget, hkind, hseen, h⟩
    rw [if_neg (not_not.mpr hsource), if_neg (not_not.mpr htarget), if_neg hself, if_neg (not_not.mpr hkind),
      if_neg hseen, h]

/-- The keys that validation has seen are those in the index, and the edges it has seen are in the set. -/
structure Seen (g : Graph Data) (nodes : List NodeRef) (edges : List Edge) : Prop where
  index : ∀ key, (g.index key).isSome ↔ key ∈ nodes
  edgeSet : ∀ edge, g.edgeSet edge ↔ edge ∈ edges

theorem isSome_update {f : NodeRef → Option ℕ} (h : ∀ key, (f key).isSome ↔ key ∈ nodes) (key : NodeRef)
    (position : ℕ) (k : NodeRef) :
    (Function.update f key (some position) k).isSome ↔ k ∈ key :: nodes := by
  rw [List.mem_cons]
  by_cases hk : k = key
  · subst hk
    simp
  · rw [Function.update_of_ne hk, h]
    exact ⟨.inr, fun h => h.resolve_left hk⟩

/-- **The nodes are validated as they are added.** -/
theorem addNodes_iff {g : Graph Data} {seen : List NodeRef} {seenEdges : List Edge} (hseen : Seen g seen seenEdges)
    {nodes : List (Node Data)} :
    (∀ g', nodes.foldlM Graph.addNode g = .ok g' → g.nodes.length ≤ maxGraphNodes →
      ∃ keys, validateNodes seen nodes = .ok keys ∧ g.nodes.length + nodes.length ≤ maxGraphNodes ∧
        Seen g' keys seenEdges ∧ g'.edges = g.edges) ∧
      ∀ keys, validateNodes seen nodes = .ok keys → g.nodes.length + nodes.length ≤ maxGraphNodes →
        ∃ g', nodes.foldlM Graph.addNode g = .ok g' := by
  induction nodes generalizing g seen with
  | nil =>
    refine ⟨fun g' h hle => ?_, fun keys h hle => ⟨g, rfl⟩⟩
    obtain rfl := Except.ok.inj h
    exact ⟨seen, rfl, hle, hseen, rfl⟩
  | cons node rest ih =>
    have hnext : Seen { g with
        index := Function.update g.index node.key (some g.nodes.length)
        adjacency := Function.update g.adjacency node.key (some [])
        nodes := g.nodes ++ [node] } (node.key :: seen) seenEdges :=
      ⟨isSome_update hseen.index node.key g.nodes.length, hseen.edgeSet⟩
    constructor
    · intro g' h hle
      rw [List.foldlM_cons] at h
      obtain ⟨g₁, hg₁, h⟩ := Sqlite.bind_eq_ok.mp h
      obtain ⟨hlt, hfree, hvalid, rfl⟩ := addNode_eq_ok_iff.mp hg₁
      obtain ⟨keys, hkeys, hlength, hfinal, hedges⟩ := (ih hnext).1 g' h (by simp; omega)
      refine ⟨keys, ?_, ?_, hfinal, hedges⟩
      · exact validateNodes_cons_eq_ok_iff.mpr ⟨fun hmem => hfree ((hseen.index _).mpr hmem), hvalid, hkeys⟩
      · simp only [List.length_append, List.length_cons, List.length_nil] at hlength ⊢
        omega
    · intro keys hkeys hle
      obtain ⟨hfree, hvalid, hkeys⟩ := validateNodes_cons_eq_ok_iff.mp hkeys
      rw [List.length_cons] at hle
      obtain ⟨g', hg'⟩ := (ih hnext).2 keys hkeys (by simp; omega)
      refine ⟨g', ?_⟩
      rw [List.foldlM_cons]
      refine Sqlite.bind_eq_ok.mpr ⟨_, addNode_eq_ok_iff.mpr ⟨by omega, ?_, hvalid, rfl⟩, hg'⟩
      exact fun hsome => hfree ((hseen.index _).mp hsome)

/-- **The edges are validated as they are added.** -/
theorem addEdges_iff (hseen : Seen g nodes seen) {edges : List Edge} (hle : g.edges.length ≤ maxGraphEdges) :
    (∃ g', edges.foldlM Graph.addEdge g = .ok g') ↔
      validateEdges nodes seen edges = .ok () ∧ g.edges.length + edges.length ≤ maxGraphEdges := by
  induction edges generalizing g seen with
  | nil => exact ⟨fun _ => ⟨rfl, hle⟩, fun _ => ⟨g, rfl⟩⟩
  | cons edge rest ih =>
    have hnext : Seen { g with
        edgeSet := Function.update g.edgeSet edge true
        edges := g.edges ++ [edge]
        adjacency := pushAt g.adjacency edge.source g.edges.length
        reverse := pushAt g.reverse edge.target g.edges.length } nodes (edge :: seen) := by
      refine ⟨hseen.index, fun e => ?_⟩
      rw [List.mem_cons]
      by_cases he : e = edge
      · subst he
        simp
      · show Function.update g.edgeSet edge true e ↔ _
        rw [Function.update_of_ne he, hseen.edgeSet]
        exact ⟨.inr, fun h => h.resolve_left he⟩
    rw [validateEdges_cons_eq_ok_iff, List.length_cons, List.foldlM_cons]
    constructor
    · rintro ⟨g', h⟩
      obtain ⟨g₁, hg₁, h⟩ := Sqlite.bind_eq_ok.mp h
      obtain ⟨hlt, hself, hsource, htarget, hkind, hfree, rfl⟩ := addEdge_eq_ok_iff.mp hg₁
      obtain ⟨hvalid, hlength⟩ := (ih hnext (by simp; omega)).mp ⟨g', h⟩
      refine ⟨⟨hself, (hseen.index _).mp hsource, (hseen.index _).mp htarget, hkind, fun hmem => ?_, hvalid⟩, ?_⟩
      · rw [(hseen.edgeSet edge).mpr hmem] at hfree
        exact absurd hfree nofun
      · simp only [List.length_append, List.length_cons, List.length_nil] at hlength
        omega
    · rintro ⟨⟨hself, hsource, htarget, hkind, hfree, hvalid⟩, hlength⟩
      obtain ⟨g', hg'⟩ := (ih hnext (by simp; omega)).mpr ⟨hvalid, by simp; omega⟩
      refine ⟨g', Sqlite.bind_eq_ok.mpr ⟨_, addEdge_eq_ok_iff.mpr ⟨by omega, hself, ?_, ?_, hkind, ?_, rfl⟩, hg'⟩⟩
      · exact (hseen.index _).mpr hsource
      · exact (hseen.index _).mpr htarget
      · exact Bool.eq_false_of_not_eq_true fun hset => hfree ((hseen.edgeSet edge).mp hset)

/-- **Validation accepts exactly what the additions accept**: a decoded graph is valid if and only if its
nodes and then its edges can be added to an empty graph, in their order. -/
theorem validate_iff_build {Data : Type} (g : Graph Data) (revision : ℕ) :
    g.validate = .ok () ↔ ∃ built, build revision g.nodes g.edges = .ok built := by
  have hempty : Seen (Graph.new revision : Graph Data) [] [] :=
    ⟨fun key => by simp [Graph.new], fun edge => by simp [Graph.new]⟩
  obtain ⟨hadd, hvalid⟩ := @addNodes_iff _ _ [] [] hempty g.nodes
  have hzero : (Graph.new revision : Graph Data).nodes.length + g.nodes.length = g.nodes.length := Nat.zero_add _
  have hzeroEdges : (Graph.new revision : Graph Data).edges.length = 0 := rfl
  rw [hzero] at hadd hvalid
  constructor
  · intro h
    unfold Graph.validate at h
    split_ifs at h with hnodes hedges
    obtain ⟨keys, hkeys, hrest⟩ := Sqlite.bind_eq_ok.mp h
    obtain ⟨g₁, hg₁⟩ := hvalid keys hkeys (by omega)
    obtain ⟨keys', hkeys', -, hseen, heq⟩ := hadd g₁ hg₁ (Nat.zero_le _)
    obtain rfl := Except.ok.inj (hkeys.symm.trans hkeys')
    obtain ⟨g₂, hg₂⟩ := (addEdges_iff hseen (by rw [heq]; exact Nat.zero_le _)).mpr
      ⟨hrest, by rw [heq, hzeroEdges]; omega⟩
    exact ⟨g₂, Sqlite.bind_eq_ok.mpr ⟨g₁, hg₁, hg₂⟩⟩
  · rintro ⟨g₂, h⟩
    obtain ⟨g₁, hg₁, hg₂⟩ := Sqlite.bind_eq_ok.mp h
    obtain ⟨keys, hkeys, hnodes, hseen, heq⟩ := hadd g₁ hg₁ (Nat.zero_le _)
    obtain ⟨hrest, hedges⟩ := (addEdges_iff hseen (by rw [heq]; exact Nat.zero_le _)).mp ⟨g₂, hg₂⟩
    rw [heq, hzeroEdges, Nat.zero_add] at hedges
    rw [Graph.validate, if_neg (by omega), if_neg (by omega)]
    exact Sqlite.bind_eq_ok.mpr ⟨keys, hkeys, hrest⟩

/-! ## Changes of records -/

/-- What a change of a record is bound to: the serialized tuple of its digest. -/
inductive DigestInput (Data : Type)
  | qualification (revision id : ℕ) (status next : QualificationStatus)
  | contract (revision : ℕ) (existing terms : ContractTerms Data)
  | supplier (revision id : ℕ) (authorization next : AuthorizationStatus)

/-- The digest of a change, the deadline of a token, and the wall clock. -/
structure Outside (Data : Type) where
  contentDigest : String → DigestInput Data → Except ApprovalError String
  pastDeadline : ApprovalToken → Bool
  nowMs : ℕ

/-- `ApprovalToken::require`. -/
def requireToken (outside : Outside Data) (token : ApprovalToken) (expected : ApprovalCheck) :
    Except ApprovalError Unit :=
  if outside.pastDeadline token ∨ token.expiresAtMs < outside.nowMs then
    .error (.expired token.requestId token.expiresAtMs)
  else if token.check = expected then .ok ()
  else .error (.stale token.requestId expected token.check)

/-- `Revision::next`. -/
def nextRevision (revision : ℕ) : Except GraphError ℕ :=
  if revision + 1 < 2 ^ 64 then .ok (revision + 1) else .error (.invalidNode "exact arithmetic overflowed")

/-- A command on a graph: what it has written stays when it fails later. -/
abbrev Cmd (Data : Type) := ExceptT GraphError (StateM (Graph Data))

/-- The position of a key, and the node at it. -/
def locate (key : NodeRef) : Cmd Data (ℕ × Node Data) := do
  let g ← get
  match g.index key with
  | none => throw (.missingNode key)
  | some position =>
    match g.nodes[position]? with
    | none => throw .panic
    | some node => return (position, node)

/-- The gate of a change: the digest, the check that it makes, and the token against it. -/
def approve (outside : Outside Data) (kind : ApprovalKind) (subject : String) (revision : ℕ) (domain : String)
    (input : DigestInput Data) (approval : Option ApprovalToken) : Cmd Data Unit := do
  match outside.contentDigest domain input with
  | .error e => throw (.approval e)
  | .ok digest =>
    let check : ApprovalCheck := ⟨kind, subject, toString revision, digest⟩
    match approval with
    | none => throw (.approval (.approvalRequired check))
    | some token =>
      match requireToken outside token check with
      | .error e => throw (.approval e)
      | .ok () => return ()

/-- The end of a change: the revision of the record, that of the graph, and the record itself. -/
def advance (position revision : ℕ) (record : ℕ → Node Data) : Cmd Data Unit := do
  let next ← ExceptT.mk (pure (nextRevision revision))
  let g ← get
  let graphRevision ← ExceptT.mk (pure (nextRevision g.revision))
  set { g with revision := graphRevision }
  modify fun g => { g with nodes := g.nodes.set position (record next) }

/-- `set_qualification_status`. -/
def setQualificationStatus (outside : Outside Data) (id : ℕ) (status : QualificationStatus)
    (approval : Option ApprovalToken) : Cmd Data Unit := do
  let (position, node) ← locate (.qualification id)
  match node with
  | .qualification qualification =>
    let kind := if status = .revoked then ApprovalKind.supplyAvlChange else .supplySupplierQualification
    let g ← get
    approve outside kind ("qualification:" ++ toString qualification.id) qualification.revision
      "faktor.supply.qualification-change/v1"
      (.qualification g.revision qualification.id qualification.status status) approval
    advance position qualification.revision fun revision =>
      .qualification { qualification with status := status, revision := revision }
  | _ => throw (.invalidNode "node is not a qualification")

/-- `set_contract_terms`. -/
def setContractTerms (outside : Outside Data) (id : ℕ) (terms : ContractTerms Data)
    (approval : Option ApprovalToken) : Cmd Data Unit := do
  if terms.id ≠ id then throw (.invalidNode "contract terms id does not match the target")
  let (position, node) ← locate (.contract id)
  match node with
  | .contract existing =>
    let g ← get
    approve outside .supplyContractTerms ("contract:" ++ toString id) existing.revision
      "faktor.supply.contract-change/v1" (.contract g.revision existing terms) approval
    advance position existing.revision fun revision => .contract { terms with revision := revision }
  | _ => throw (.invalidNode "node is not a contract")

/-- `set_supplier_authorization`. -/
def setSupplierAuthorization (outside : Outside Data) (id : ℕ) (authorization : AuthorizationStatus)
    (approval : Option ApprovalToken) : Cmd Data Unit := do
  let (position, node) ← locate (.supplier id)
  match node with
  | .supplier supplier =>
    let g ← get
    approve outside .supplyAvlChange ("supplier:" ++ toString supplier.id) supplier.revision
      "faktor.supply.avl-change/v1"
      (.supplier g.revision supplier.id supplier.authorization authorization) approval
    advance position supplier.revision fun revision =>
      .supplier { supplier with authorization := authorization, revision := revision }
  | _ => throw (.invalidNode "node is not a supplier")

/-- The node of a key moves on to another record, and with it the graph, by one revision each. -/
def Advanced (g g' : Graph Data) (key : NodeRef) (node : Node Data) (revision : ℕ)
    (record : ℕ → Node Data) : Prop :=
  ∃ position, g.index key = some position ∧ g.nodes[position]? = some node ∧
    g' = { g with revision := g.revision + 1, nodes := g.nodes.set position (record (revision + 1)) }

/-- The outcomes of a change: an error and the graph as it was, or one record that has moved on. -/
def Outcome (command : Cmd Data Unit) (g : Graph Data) (Change : Graph Data → Prop) : Prop :=
  (∀ e g', command.run g = (.error e, g') → g' = g) ∧ ∀ g', command.run g = (.ok (), g') → Change g'

variable {Change : Graph Data → Prop}

theorem Outcome.of_throw {e : GraphError} :
    Outcome (throw e) g Change := by
  refine ⟨fun e' g' h => ?_, fun g' h => ?_⟩
  · exact (Prod.mk.inj h).2.symm
  · exact absurd (Prod.mk.inj h).1 nofun

/-- A step that only reads is passed or ends the change. -/
theorem Outcome.bind {α : Type} {step : Cmd Data α} {rest : α → Cmd Data Unit} (hread : (step.run g).2 = g)
    (hrest : ∀ a, (step.run g).1 = .ok a → Outcome (rest a) g Change) : Outcome (step >>= rest) g Change := by
  cases hstep : step.run g with
  | mk result g₁ =>
    rw [hstep] at hread hrest
    obtain rfl : g₁ = g := hread
    have hrun : (step >>= rest).run g₁ = ExceptT.bindCont rest result g₁ := by
      show (match step.run g₁ with | (result, g₂) => ExceptT.bindCont rest result g₂) = _
      rw [hstep]
    cases result with
    | ok a =>
      obtain ⟨herror, hok⟩ := hrest a rfl
      exact ⟨fun e g' h => herror e g' (hrun.symm.trans h), fun g' h => hok g' (hrun.symm.trans h)⟩
    | error e =>
      refine ⟨fun e' g' h => ?_, fun g' h => ?_⟩
      · exact (Prod.mk.inj (hrun.symm.trans h)).2.symm
      · exact absurd (Prod.mk.inj (hrun.symm.trans h)).1 nofun

theorem Outcome.imp {command : Cmd Data Unit} {Change' : Graph Data → Prop} (h : Outcome command g Change)
    (himp : ∀ g', Change g' → Change' g') : Outcome command g Change' :=
  ⟨h.1, fun g' hrun => himp g' (h.2 g' hrun)⟩

theorem read_locate (key : NodeRef) (g : Graph Data) :
    ((locate key).run g).2 = g ∧ ∀ position node, ((locate key).run g).1 = .ok (position, node) →
      g.index key = some position ∧ g.nodes[position]? = some node := by
  have hrun : (locate key).run g =
      match g.index key with
      | none => (.error (.missingNode key), g)
      | some position =>
        match g.nodes[position]? with
        | none => (.error .panic, g)
        | some node => (.ok (position, node), g) := by
    show ((match g.index key with
      | none => throw (.missingNode key)
      | some position =>
        match g.nodes[position]? with
        | none => throw .panic
        | some node => return (position, node) : Cmd Data (ℕ × Node Data))).run g = _
    cases g.index key with
    | none => rfl
    | some position =>
      dsimp only
      cases g.nodes[position]? <;> rfl
  rw [hrun]
  cases g.index key with
  | none => exact ⟨rfl, nofun⟩
  | some position =>
    dsimp only
    cases hnode : g.nodes[position]? with
    | none => exact ⟨rfl, nofun⟩
    | some node =>
      refine ⟨rfl, fun p n h => ?_⟩
      obtain ⟨rfl, rfl⟩ := Prod.mk.inj (Except.ok.inj h)
      exact ⟨rfl, hnode⟩

theorem read_approve (outside : Outside Data) (kind : ApprovalKind) (subject : String) (revision : ℕ)
    (domain : String) (input : DigestInput Data) (approval : Option ApprovalToken) (g : Graph Data) :
    ((approve outside kind subject revision domain input approval).run g).2 = g := by
  unfold approve
  cases outside.contentDigest domain input with
  | error e => rfl
  | ok digest =>
    cases approval with
    | none => rfl
    | some token =>
      dsimp only
      cases requireToken outside token ⟨kind, subject, toString revision, digest⟩ <;> rfl

/-- The end of a change fails before it writes, or it writes both revisions and the record. -/
theorem outcome_advance {key : NodeRef} {position revision : ℕ} {record : ℕ → Node Data}
    (hindex : g.index key = some position) (hnode : g.nodes[position]? = some node) :
    Outcome (advance position revision record) g fun g' => Advanced g g' key node revision record := by
  unfold advance
  refine Outcome.bind rfl fun next hnext => ?_
  obtain rfl : next = revision + 1 := by
    have hnext : nextRevision revision = .ok next := hnext
    unfold nextRevision at hnext
    split_ifs at hnext
    exact (Except.ok.inj hnext).symm
  refine Outcome.bind rfl fun current hcurrent => ?_
  obtain rfl : g = current := Except.ok.inj hcurrent
  refine Outcome.bind rfl fun graphRevision hrevision => ?_
  obtain rfl : graphRevision = g.revision + 1 := by
    have hrevision : nextRevision g.revision = .ok graphRevision := hrevision
    unfold nextRevision at hrevision
    split_ifs at hrevision
    exact (Except.ok.inj hrevision).symm
  refine ⟨fun e g' h => absurd (Prod.mk.inj h).1 nofun, fun g' h => ?_⟩
  exact ⟨position, hindex, hnode, (Prod.mk.inj h).2.symm⟩

theorem outcome_setQualificationStatus (outside : Outside Data) (g : Graph Data) (id : ℕ)
    (status : QualificationStatus) (approval : Option ApprovalToken) :
    Outcome (setQualificationStatus outside id status approval) g fun g' =>
      ∃ q, Advanced g g' (.qualification id) (.qualification q) q.revision fun revision =>
        .qualification { q with status := status, revision := revision } := by
  unfold setQualificationStatus
  refine Outcome.bind (read_locate _ g).1 fun located hlocated => ?_
  obtain ⟨position, node⟩ := located
  obtain ⟨hindex, hnode⟩ := (read_locate _ g).2 _ _ hlocated
  cases node with
  | qualification q =>
    refine Outcome.bind rfl fun current hcurrent => ?_
    obtain rfl : g = current := Except.ok.inj hcurrent
    refine Outcome.bind (read_approve ..) fun _ _ => ?_
    exact (outcome_advance hindex hnode).imp fun g' h => ⟨_, h⟩
  | _ => exact Outcome.of_throw

theorem outcome_setContractTerms (outside : Outside Data) (g : Graph Data) (id : ℕ)
    (terms : ContractTerms Data) (approval : Option ApprovalToken) :
    Outcome (setContractTerms outside id terms approval) g fun g' =>
      terms.id = id ∧ ∃ existing, Advanced g g' (.contract id) (.contract existing) existing.revision
        fun revision => .contract { terms with revision := revision } := by
  unfold setContractTerms
  by_cases hid : terms.id = id
  · rw [if_neg (not_not.mpr hid)]
    refine Outcome.bind (read_locate _ g).1 fun located hlocated => ?_
    obtain ⟨position, node⟩ := located
    obtain ⟨hindex, hnode⟩ := (read_locate _ g).2 _ _ hlocated
    cases node with
    | contract existing =>
      refine Outcome.bind rfl fun current hcurrent => ?_
      obtain rfl : g = current := Except.ok.inj hcurrent
      refine Outcome.bind (read_approve ..) fun _ _ => ?_
      exact (outcome_advance hindex hnode).imp fun g' h => ⟨hid, _, h⟩
    | _ => exact Outcome.of_throw
  · rw [if_pos hid]
    exact Outcome.of_throw

theorem outcome_setSupplierAuthorization (outside : Outside Data) (g : Graph Data) (id : ℕ)
    (authorization : AuthorizationStatus) (approval : Option ApprovalToken) :
    Outcome (setSupplierAuthorization outside id authorization approval) g fun g' =>
      ∃ s, Advanced g g' (.supplier id) (.supplier s) s.revision fun revision =>
        .supplier { s with authorization := authorization, revision := revision } := by
  unfold setSupplierAuthorization
  refine Outcome.bind (read_locate _ g).1 fun located hlocated => ?_
  obtain ⟨position, node⟩ := located
  obtain ⟨hindex, hnode⟩ := (read_locate _ g).2 _ _ hlocated
  cases node with
  | supplier s =>
    refine Outcome.bind rfl fun current hcurrent => ?_
    obtain rfl : g = current := Except.ok.inj hcurrent
    refine Outcome.bind (read_approve ..) fun _ _ => ?_
    exact (outcome_advance hindex hnode).imp fun g' h => ⟨_, h⟩
  | _ => exact Outcome.of_throw

/-- **A change of a record that is refused leaves the whole graph as it was**, whatever refuses it; one that
goes through changes the one record, in the fields that it is about, and moves the revisions of the record
and of the graph on by one. -/
theorem setters_exact {Data : Type} (outside : Outside Data) (g : Graph Data) (id : ℕ)
    (approval : Option ApprovalToken) :
    (∀ status, Outcome (setQualificationStatus outside id status approval) g fun g' =>
      ∃ q, Advanced g g' (.qualification id) (.qualification q) q.revision fun revision =>
        .qualification { q with status := status, revision := revision }) ∧
    (∀ terms, Outcome (setContractTerms outside id terms approval) g fun g' =>
      terms.id = id ∧ ∃ existing, Advanced g g' (.contract id) (.contract existing) existing.revision
        fun revision => .contract { terms with revision := revision }) ∧
    ∀ authorization, Outcome (setSupplierAuthorization outside id authorization approval) g fun g' =>
      ∃ s, Advanced g g' (.supplier id) (.supplier s) s.revision fun revision =>
        .supplier { s with authorization := authorization, revision := revision } :=
  ⟨fun status => outcome_setQualificationStatus outside g id status approval,
    fun terms => outcome_setContractTerms outside g id terms approval,
    fun authorization => outcome_setSupplierAuthorization outside g id authorization approval⟩

end SupplyGraph
