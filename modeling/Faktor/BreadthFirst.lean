/-
# Breadth-first search

A search takes its nodes from the front of a queue and puts their new successors at its end, each with its
depth, down to a greatest depth.

* `search` : the search;
* `Search` : what holds between two rounds;
* `mem_breadthFirst` : a search finds each node within the depth once, at its shortest distance.

Nothing here depends on what the nodes are.
-/
import Faktor.KeepFirst

namespace BreadthFirst

variable {α : Type} (next : α → List α) (maxDepth : ℕ)

/-! ## Walks -/

/-- There is a walk of so many steps. -/
inductive Walk : α → α → ℕ → Prop
  | refl (a : α) : Walk a a 0
  | snoc {a b c : α} {n : ℕ} (h : Walk a b n) (hc : c ∈ next b) : Walk a c (n + 1)

/-- **The shortest distance** between two nodes. -/
def Distance (a b : α) (d : ℕ) : Prop := Walk next a b d ∧ ∀ n, Walk next a b n → d ≤ n

variable {next} in
theorem Walk.congr {next' : α → List α} (h : ∀ a b, b ∈ next a → b ∈ next' a) {a b : α} {n : ℕ}
    (hw : Walk next a b n) : Walk next' a b n := by
  induction hw with
  | refl => exact .refl _
  | snoc _ hc ih => exact ih.snoc (h _ _ hc)

variable {next} in
theorem Distance.congr {next' : α → List α} (h : ∀ a b, b ∈ next a ↔ b ∈ next' a) {a b : α} {d : ℕ} :
    Distance next a b d ↔ Distance next' a b d := by
  have hwalk : ∀ n, Walk next a b n ↔ Walk next' a b n := fun n =>
    ⟨.congr fun a b => (h a b).mp, .congr fun a b => (h a b).mpr⟩
  simp only [Distance, hwalk]

/-! ## Between two rounds -/

/-- **What holds between two rounds.** -/
structure Search (start : α) (visited : List α) (queue result : List (α × ℕ)) : Prop where
  /-- Found nodes are visited, and no node is found twice. -/
  visited_eq : (result ++ queue).map (·.1) = visited
  nodup : visited.Nodup
  walk : ∀ p ∈ result ++ queue, Walk next start p.1 p.2 ∧ p.2 ≤ maxDepth
  /-- The depths of the queue rise by one at most. -/
  sorted : (result ++ queue).Pairwise fun p q => p.2 ≤ q.2
  close : ∀ p ∈ queue, ∀ q ∈ result ++ queue, q.2 ≤ p.2 + 1
  /-- The successors of a node in the result have been found, one step deeper at most. -/
  closed : ∀ p ∈ result, p.2 < maxDepth → ∀ b ∈ next p.1, ∃ q ∈ result ++ queue, q.1 = b ∧ q.2 ≤ p.2 + 1
  start_mem : (start, 0) ∈ result ++ queue

variable {next maxDepth}

theorem search_init (start : α) : Search next maxDepth start [start] [(start, 0)] [] where
  visited_eq := rfl
  nodup := List.nodup_singleton start
  walk := by
    intro p hp
    obtain rfl := List.mem_singleton.mp hp
    exact ⟨.refl start, Nat.zero_le _⟩
  sorted := List.pairwise_singleton _ _
  close := by
    intro p _ q hq
    obtain rfl := List.mem_singleton.mp hq
    exact Nat.zero_le _
  closed := nofun
  start_mem := List.mem_singleton_self _

/-- A round at the greatest depth. -/
theorem Search.leave {start a : α} {d : ℕ} {visited : List α} {queue result : List (α × ℕ)}
    (h : Search next maxDepth start visited ((a, d) :: queue) result) (hd : maxDepth ≤ d) :
    Search next maxDepth start visited queue (result ++ [(a, d)]) := by
  have heq : (result ++ [(a, d)]) ++ queue = result ++ (a, d) :: queue := by
    rw [List.append_assoc, List.singleton_append]
  constructor
  · rw [heq]
    exact h.visited_eq
  · exact h.nodup
  · rw [heq]
    exact h.walk
  · rw [heq]
    exact h.sorted
  · rw [heq]
    exact fun p hp => h.close p (.tail _ hp)
  · rw [heq]
    intro p hp hlt
    obtain hp | hp := List.mem_append.mp hp
    · exact h.closed p hp hlt
    · obtain rfl := List.mem_singleton.mp hp
      exact absurd hlt (by simpa using hd)
  · rw [heq]
    exact h.start_mem

/-- A search that has emptied its queue has found every node within the depth, as near as it is. -/
theorem Search.found {start b : α} {n : ℕ} {visited : List α} {result : List (α × ℕ)}
    (h : Search next maxDepth start visited [] result) (hw : Walk next start b n) (hn : n ≤ maxDepth) :
    ∃ d ≤ n, (b, d) ∈ result := by
  have hstart := h.start_mem
  have hclosed := h.closed
  rw [List.append_nil] at hstart hclosed
  induction hw with
  | refl => exact ⟨0, le_rfl, hstart⟩
  | snoc hw hc ih =>
    obtain ⟨d, hd, hmem⟩ := ih (by omega)
    obtain ⟨q, hq, rfl, hle⟩ := hclosed _ hmem (by dsimp only; omega) _ hc
    exact ⟨q.2, by dsimp only at hle; omega, hq⟩

/-- The result of a search that has emptied its queue. -/
theorem Search.result_spec {start : α} {visited : List α} {result : List (α × ℕ)}
    (h : Search next maxDepth start visited [] result) :
    (result.map (·.1)).Nodup ∧
      ∀ b d, (b, d) ∈ result ↔ Distance next start b d ∧ d ≤ maxDepth := by
  have hnodup : (result.map (·.1)).Nodup := by
    have := h.nodup
    rwa [← h.visited_eq, List.append_nil] at this
  refine ⟨hnodup, fun b d => ⟨fun hmem => ?_, ?_⟩⟩
  · obtain ⟨hwalk, hle⟩ := h.walk (b, d) (by rwa [List.append_nil])
    refine ⟨⟨hwalk, fun n hn => ?_⟩, hle⟩
    by_contra hlt
    obtain ⟨e, he, hfound⟩ := h.found hn (by dsimp only at hle; omega)
    have := List.inj_on_of_nodup_map hnodup hmem hfound rfl
    obtain ⟨-, rfl⟩ := Prod.mk.inj this
    omega
  · rintro ⟨⟨hwalk, hshort⟩, hle⟩
    obtain ⟨e, he, hfound⟩ := h.found hwalk hle
    have hback := hshort e (h.walk (b, e) (by rwa [List.append_nil])).1
    obtain rfl : e = d := by omega
    exact hfound

/-! ## The search -/

variable [DecidableEq α]

section Rounds

variable (next maxDepth)

/-- The rounds of a search: a node leaves the queue for the result, and its successors that were not visited
are visited and put into the queue. -/
def search : ℕ → List α → List (α × ℕ) → List (α × ℕ) → List (α × ℕ)
  | 0, _, _, result => result
  | _ + 1, _, [], result => result
  | fuel + 1, visited, (a, d) :: queue, result =>
    if maxDepth ≤ d then search fuel visited queue (result ++ [(a, d)])
    else
      let fresh := keepFirst visited (next a)
      search fuel (visited ++ fresh) (queue ++ fresh.map fun b => (b, d + 1)) (result ++ [(a, d)])

/-- A search from one node, of so many rounds. -/
def breadthFirst (fuel : ℕ) (start : α) : List (α × ℕ) := search next maxDepth fuel [start] [(start, 0)] []

end Rounds

/-- A round above the greatest depth. -/
theorem Search.expand {start a : α} {d : ℕ} {visited : List α} {queue result : List (α × ℕ)}
    (h : Search next maxDepth start visited ((a, d) :: queue) result) (hd : ¬ maxDepth ≤ d) :
    Search next maxDepth start (visited ++ keepFirst visited (next a))
      (queue ++ (keepFirst visited (next a)).map fun b => (b, d + 1)) (result ++ [(a, d)]) := by
  have heq : (result ++ [(a, d)]) ++ (queue ++ (keepFirst visited (next a)).map fun b => (b, d + 1)) =
      (result ++ (a, d) :: queue) ++ (keepFirst visited (next a)).map fun b => (b, d + 1) := by simp
  have hhead : (a, d) ∈ result ++ (a, d) :: queue := by simp
  have hmem : ∀ p, p ∈ (result ++ (a, d) :: queue) ++
        (keepFirst visited (next a)).map (fun b => (b, d + 1)) ↔
      p ∈ result ++ (a, d) :: queue ∨ ∃ b ∈ keepFirst visited (next a), (b, d + 1) = p := by
    intro p
    rw [List.mem_append, List.mem_map]
  have hdepth : ∀ p ∈ result ++ (a, d) :: queue, p.2 ≤ d + 1 :=
    h.close (a, d) List.mem_cons_self
  constructor
  · rw [heq, List.map_append, h.visited_eq, List.map_map]
    congr 1
    exact List.map_id _
  · refine h.nodup.append (nodup_keepFirst _ _) fun b hb hfresh => ?_
    exact (mem_keepFirst.mp hfresh).2 hb
  · rw [heq]
    intro p hp
    obtain hp | ⟨b, hb, rfl⟩ := (hmem p).mp hp
    · exact h.walk p hp
    · exact ⟨(h.walk (a, d) hhead).1.snoc (mem_keepFirst.mp hb).1, by dsimp only; omega⟩
  · rw [heq]
    refine List.pairwise_append.mpr ⟨h.sorted, ?_, ?_⟩
    · exact List.pairwise_map.mpr (List.pairwise_of_forall fun _ _ => le_rfl)
    · intro p hp q hq
      obtain ⟨b, -, rfl⟩ := List.mem_map.mp hq
      exact hdepth p hp
  · rw [heq]
    -- the rest of the queue lies at the depth of its head at least
    have hlow : ∀ p ∈ queue ++ (keepFirst visited (next a)).map (fun b => (b, d + 1)), d ≤ p.2 := by
      intro p hp
      obtain hp | hp := List.mem_append.mp hp
      · exact List.rel_of_pairwise_cons (List.pairwise_append.mp h.sorted).2.1 hp
      · obtain ⟨b, -, rfl⟩ := List.mem_map.mp hp
        exact Nat.le_succ d
    intro p hp q hq
    have hle := hlow p hp
    obtain hq | ⟨b, -, rfl⟩ := (hmem q).mp hq
    · have := hdepth q hq
      omega
    · dsimp only
      omega
  · rw [heq]
    intro p hp hlt b hb
    obtain hp | hp := List.mem_append.mp hp
    · obtain ⟨q, hq, hqb⟩ := h.closed p hp hlt b hb
      exact ⟨q, List.mem_append_left _ hq, hqb⟩
    · obtain rfl := List.mem_singleton.mp hp
      by_cases hvisited : b ∈ visited
      · rw [← h.visited_eq] at hvisited
        obtain ⟨q, hq, rfl⟩ := List.mem_map.mp hvisited
        exact ⟨q, List.mem_append_left _ hq, rfl, hdepth q hq⟩
      · exact ⟨(b, d + 1), (hmem _).mpr (.inr ⟨b, mem_keepFirst.mpr ⟨hb, hvisited⟩, rfl⟩), rfl, le_rfl⟩
  · rw [heq]
    exact List.mem_append_left _ h.start_mem

/-- The rounds of a search, where the nodes that can be found are as many as the rounds that are left. -/
theorem Search.run {start : α} {nodes : List α} (hnodes : ∀ a ∈ nodes, ∀ b ∈ next a, b ∈ nodes) {fuel : ℕ}
    {visited : List α} {queue result : List (α × ℕ)}
    (h : Search next maxDepth start visited queue result) (hvisited : ∀ a ∈ visited, a ∈ nodes)
    (hfuel : nodes.length ≤ result.length + fuel) :
    ∃ visited', Search next maxDepth start visited' [] (search next maxDepth fuel visited queue result) := by
  induction fuel generalizing visited queue result with
  | zero =>
    have hlength := (h.nodup.subperm hvisited).length_le
    have hcount := congrArg List.length h.visited_eq
    rw [List.length_map, List.length_append] at hcount
    have hnil : queue = [] := List.eq_nil_of_length_eq_zero (by omega)
    subst hnil
    exact ⟨visited, h⟩
  | succ fuel ih =>
    cases queue with
    | nil => exact ⟨visited, h⟩
    | cons head queue =>
      obtain ⟨a, d⟩ := head
      have hlength : nodes.length ≤ (result ++ [(a, d)]).length + fuel := by
        rw [List.length_append, List.length_singleton]
        omega
      unfold search
      split_ifs with hd
      · exact ih (h.leave hd) hvisited hlength
      · refine ih (h.expand hd) (fun b hb => ?_) hlength
        obtain hb | hb := List.mem_append.mp hb
        · exact hvisited b hb
        · have ha : a ∈ visited := by
            rw [← h.visited_eq]
            simp
          exact hnodes a (hvisited a ha) b (mem_keepFirst.mp hb).1

/-- **A search finds each node within the depth once**, at its shortest distance. -/
theorem mem_breadthFirst {nodes : List α} (hnodes : ∀ a ∈ nodes, ∀ b ∈ next a, b ∈ nodes) {start : α}
    (hstart : start ∈ nodes) {fuel : ℕ} (hfuel : nodes.length ≤ fuel) :
    ((breadthFirst next maxDepth fuel start).map (·.1)).Nodup ∧
      ∀ b d, (b, d) ∈ breadthFirst next maxDepth fuel start ↔
        Distance next start b d ∧ d ≤ maxDepth := by
  have hvisited : ∀ a ∈ [start], a ∈ nodes := by
    intro a ha
    rw [List.mem_singleton.mp ha]
    exact hstart
  obtain ⟨visited, h⟩ : ∃ visited, Search next maxDepth start visited []
      (breadthFirst next maxDepth fuel start) :=
    (search_init start).run hnodes hvisited (by simpa using hfuel)
  exact h.result_spec

end BreadthFirst
