/-
# The board of circuit breakers

`CircuitBoard` caches one `CircuitBreaker` for each resource, at most `max_keys` of them.  Every
consultation of a key stamps it with the next tick; a new key past the cap takes the place of the key with
the smallest stamp.  An `Arc` of a breaker outlives its eviction, so breakers stand in a heap
(`Board.breakers`) and the map holds their places.

* `Board.Lru` : the board holds the most recently consulted keys, and the breaker of each has seen what
  was recorded on it since the key was last created;
* `board_guarantee` : so it is after every run of fewer than `2 ^ 64` consultations;
* `board_after_wrap` : the tick is a `u64`, and the consultation that wraps it looks like the oldest.
-/
import Faktor.CircuitBreaker
import Faktor.KeyTable
import Faktor.Recency

open Recency

namespace Circuit

/-- `ResourceKey`. -/
inductive ResourceKey
  | provider (deployment model endpoint : String)
  | mcp (server : String)
  | tool (name : String)
  | host (scheme host : String) (port : ℕ)
  deriving DecidableEq, Repr

/-! ## Methods of a breaker -/

/-- A method of `CircuitBreaker`, with the clock reading it is called with.  `forceOpen` is `open`. -/
inductive Method
  | allow (now : ℤ)
  | recordSuccess
  | recordFailure (now : ℤ)
  | forceOpen (now : ℤ)
  | state
  deriving DecidableEq, Repr

/-- What a method returns. -/
inductive Reply
  | allowed
  | circuitOpen
  | done
  | state (state : CircuitState)
  deriving DecidableEq, Repr

/-- A chain of accesses between which no other caller comes. -/
def Access.complete : ℕ → CircuitBreaker → Access → CircuitBreaker × Progress
  | 0, b, a => (b, .next a)
  | fuel + 1, b, a =>
    match a.exec b with
    | (b', .next a') => Access.complete fuel b' a'
    | ended => ended

def Progress.reply : Progress → Reply
  | .admitted _ => .allowed
  | .denied => .circuitOpen
  | .recorded => .done
  | .next _ => .done

/-- One call of a method, by one caller at a time. -/
def CircuitBreaker.call (b : CircuitBreaker) : Method → CircuitBreaker × Reply
  | .allow now => ((Access.complete 4 b (.allowLoad now)).1, (Access.complete 4 b (.allowLoad now)).2.reply)
  | .recordSuccess => ((Access.complete 4 b .successReset).1, (Access.complete 4 b .successReset).2.reply)
  | .recordFailure now =>
    ((Access.complete 4 b (.failureLoad now)).1, (Access.complete 4 b (.failureLoad now)).2.reply)
  | .forceOpen now =>
    ({ b with failures := b.failureThreshold, state := .opened, openedAtMs := now }, .done)
  | .state => (b, .state b.state)

/-! ## The board -/

/-- An entry of the map: the place of the breaker and the tick of the last consultation. -/
structure BoardEntry where
  resource : ResourceKey
  handle : ℕ
  lastUsed : ℕ
  deriving DecidableEq, Repr

/-- `BoardState`, with every breaker the board ever made. -/
structure Board where
  maxKeys : ℕ
  tick : ℕ
  map : KeyTable BoardEntry.resource
  breakers : List CircuitBreaker

def defaultBreakerFailureThreshold : ℕ := 4

def defaultBreakerCooldownMs : ℕ := 5000

/-- `CircuitBoard::with_max_keys`. -/
def Board.withMaxKeys (maxKeys : ℕ) : Board :=
  ⟨max maxKeys 1, 0, .empty, []⟩

/-- The entry that `breaker` drops: the first one with the smallest stamp. -/
def Board.victim (s : Board) : Option BoardEntry := s.map.rows.argmin BoardEntry.lastUsed

/-- The map with room for a new key. -/
def Board.evicted (s : Board) : KeyTable BoardEntry.resource :=
  if s.maxKeys ≤ s.map.rows.length then
    match s.victim with
    | some e => s.map.erase e.resource
    | none => s.map
  else s.map

/-- `tick += 1` on a `u64`. -/
def Board.nextTick (s : Board) : ℕ := (s.tick + 1) % 2 ^ 64

/-- `CircuitBoard::breaker`, with the place of the breaker it returns. -/
def Board.breaker (s : Board) (resource : ResourceKey) : Board × ℕ :=
  match s.map.get? resource with
  | some e =>
    ({ s with
        tick := s.nextTick
        map := s.map.modify resource (fun e => { e with lastUsed := s.nextTick }) fun _ => rfl },
      e.handle)
  | none =>
    ({ s with
        tick := s.nextTick
        map := s.evicted.put ⟨resource, s.breakers.length, s.nextTick⟩
        breakers := s.breakers ++ [.new defaultBreakerFailureThreshold defaultBreakerCooldownMs] },
      s.breakers.length)

/-- A call on a breaker through its `Arc`. -/
def Board.callAt (s : Board) (handle : ℕ) (m : Method) : Board :=
  { s with breakers := s.breakers.modify handle fun b => (b.call m).1 }

/-- What callers of the board do: consult a key and call a method of its breaker (`allow`, `open`,
`record_success`, `record_failure`, `state`; a bare `breaker` changes what `state` does), or call a method
of a breaker they got earlier. -/
inductive BoardOp
  | consult (resource : ResourceKey) (m : Method)
  | held (handle : ℕ) (m : Method)
  deriving DecidableEq, Repr

def Board.step (s : Board) : BoardOp → Board
  | .consult resource m => (s.breaker resource).1.callAt (s.breaker resource).2 m
  | .held handle m => s.callAt handle m

/-- A run of a new board. -/
def Board.run (maxKeys : ℕ) (ops : List BoardOp) : Board :=
  ops.foldl Board.step (.withMaxKeys maxKeys)

/-- The keys consulted, in order. -/
def consulted (ops : List BoardOp) : List ResourceKey :=
  ops.filterMap fun
    | .consult resource _ => some resource
    | .held _ _ => none

/-- The calls that reach the breaker of a key, while its place is `handle`. -/
def recordedOn (resource : ResourceKey) (handle : ℕ) (ops : List BoardOp) : List Method :=
  ops.filterMap fun
    | .consult r m => if r = resource then some m else none
    | .held h m => if h = handle then some m else none

/-- A breaker that saw these calls. -/
def CircuitBreaker.after (b : CircuitBreaker) (calls : List Method) : CircuitBreaker :=
  calls.foldl (fun b m => (b.call m).1) b

variable {r : ResourceKey}

theorem Board.breaker_of_get? {s : Board} {e : BoardEntry} (h : s.map.get? r = some e) :
    s.breaker r = ({ s with
      tick := s.nextTick
      map := s.map.modify r (fun e => { e with lastUsed := s.nextTick }) fun _ => rfl }, e.handle) := by
  rw [Board.breaker, h]

theorem Board.breaker_of_none {s : Board} (h : s.map.get? r = none) :
    s.breaker r = ({ s with
      tick := s.nextTick
      map := s.evicted.put ⟨r, s.breakers.length, s.nextTick⟩
      breakers := s.breakers ++ [.new defaultBreakerFailureThreshold defaultBreakerCooldownMs] },
      s.breakers.length) := by
  rw [Board.breaker, h]

theorem Board.mem_evicted {s : Board} {e : BoardEntry} (h : e ∈ s.evicted.rows) : e ∈ s.map.rows := by
  unfold Board.evicted at h
  split at h
  · split at h
    · exact (KeyTable.mem_deleteWhere.mp h).1
    · exact h
  · exact h

/-- A new key becomes the last row. -/
theorem Board.rows_put_evicted {s : Board} (h : s.map.get? r = none) (handle tick : ℕ) :
    (s.evicted.put ⟨r, handle, tick⟩).rows = s.evicted.rows ++ [⟨r, handle, tick⟩] := by
  have hfree : s.evicted.get? r = none := by
    rw [KeyTable.get?_eq_none] at h ⊢
    exact fun e he => h e (Board.mem_evicted he)
  show (s.evicted.erase r).rows ++ _ = _
  rw [KeyTable.erase_of_get?_eq_none hfree]

/-! ## The order of recency -/

/-- The entries in the order of recency: their keys are the most recent ones and their stamps decrease. -/
structure Board.Ordered (s : Board) (keys : List ResourceKey) (order : List BoardEntry) : Prop where
  perm : order.Perm s.map.rows
  keys : order.map BoardEntry.resource = (recent keys).take s.maxKeys
  stamps : order.Pairwise fun a b => b.lastUsed < a.lastUsed
  bounded : ∀ e ∈ order, e.lastUsed ≤ s.tick

namespace Board.Ordered

variable {s : Board} {keys : List ResourceKey} {order : List BoardEntry}

section

variable (h : s.Ordered keys order)
include h

/-- The victim is the least recent entry, in whatever order the map is gone through. -/
theorem victim_eq {iter : List BoardEntry} (hiter : iter.Perm s.map.rows) :
    iter.argmin BoardEntry.lastUsed = order.getLast? :=
  argmin_eq_getLast? (h.perm.trans hiter.symm) h.stamps

theorem nodup : (order.map BoardEntry.resource).Nodup :=
  (h.perm.map _).nodup_iff.mpr s.map.nodup

theorem mem_keys {r : ResourceKey} :
    r ∈ (recent keys).take s.maxKeys ↔ s.map.get? r ≠ none := by
  rw [← h.keys, List.mem_map, Ne, KeyTable.get?_eq_none]
  constructor
  · rintro ⟨e, he, rfl⟩ hnone
    exact hnone e (h.perm.mem_iff.mp he) rfl
  · intro hsome
    push Not at hsome
    obtain ⟨e, he, hr⟩ := hsome
    exact ⟨e, h.perm.mem_iff.mpr he, hr⟩

/-- The rows of the other keys, in the order of recency. -/
theorem filter_perm (r : ResourceKey) :
    (order.filter fun e => e.resource ≠ r).Perm (s.map.erase r).rows := by
  have hperm := h.perm.filter fun e => decide (e.resource ≠ r)
  simpa [KeyTable.erase, KeyTable.deleteWhere] using hperm

/-- Room for a new key: the least recent entry goes, if the board is full. -/
theorem evicted_perm {n : ℕ} (hn : s.maxKeys = n + 1) :
    (order.take n).Perm s.evicted.rows := by
  have hlength : order.length = min (n + 1) (recent keys).length := by
    rw [← List.length_map (f := BoardEntry.resource), h.keys, List.length_take, hn]
  have hrows : order.length = s.map.rows.length := h.perm.length_eq
  unfold Board.evicted
  by_cases hfull : s.maxKeys ≤ s.map.rows.length
  · have hvictim : s.victim = order.getLast? := h.victim_eq (List.Perm.refl _)
    have hne : order ≠ [] := by
      rintro rfl
      simp at hrows
      omega
    obtain ⟨older, e, rfl⟩ := (List.eq_nil_or_concat' order).resolve_left hne
    rw [if_pos hfull, hvictim, List.getLast?_concat]
    simp only
    have holder : older.length = n := by
      rw [List.length_append, List.length_singleton] at hlength hrows
      omega
    have hkeys := h.nodup
    rw [List.map_append, List.nodup_append] at hkeys
    have hother : (older ++ [e]).filter (fun a => a.resource ≠ e.resource) = older := by
      rw [List.filter_append, List.filter_cons_of_neg (by simp), List.filter_nil, List.append_nil,
        List.filter_eq_self]
      intro a ha
      simpa using hkeys.2.2 a.resource (List.mem_map_of_mem ha) e.resource (by simp)
    rw [← holder, List.take_left']
    · have hperm := h.filter_perm e.resource
      rwa [hother] at hperm
    · rfl
  · rw [if_neg hfull, List.take_of_length_le (by omega)]
    exact h.perm

/-- **Step**: a consultation that does not wrap the tick. -/
theorem breaker (hpos : 1 ≤ s.maxKeys) (htick : s.nextTick = s.tick + 1) (r : ResourceKey) :
    ∃ order', (s.breaker r).1.Ordered (keys ++ [r]) order' := by
  obtain ⟨n, hn⟩ : ∃ n, s.maxKeys = n + 1 := ⟨s.maxKeys - 1, by omega⟩
  have hretained := h.mem_keys (r := r)
  have hkeys := h.keys
  rw [hn] at hretained hkeys
  unfold Board.breaker
  cases hget : s.map.get? r with
  | some e =>
    obtain ⟨-, hr⟩ := KeyTable.get?_eq_some.mp hget
    refine ⟨{ e with lastUsed := s.nextTick } :: order.filter (fun a => a.resource ≠ r),
      ⟨?perm, ?keys, ?stamps, ?bounded⟩⟩
    case perm =>
      have hrows := KeyTable.modify_perm hget (fun a => { a with lastUsed := s.nextTick }) fun _ => rfl
      exact ((h.filter_perm r).cons _).trans hrows.symm
    case keys =>
      show e.resource :: (order.filter fun a => a.resource ≠ r).map BoardEntry.resource
        = (recent (keys ++ [r])).take s.maxKeys
      rw [hn, take_recent_concat, if_pos (hretained.mpr (by simp [hget])), ← hkeys, List.filter_map, hr]
      rfl
    case stamps =>
      refine List.pairwise_cons.mpr ⟨fun a ha => ?_, h.stamps.filter _⟩
      have hle := h.bounded a (List.mem_of_mem_filter ha)
      show a.lastUsed < s.nextTick
      omega
    case bounded =>
      intro a ha
      show a.lastUsed ≤ s.nextTick
      rcases List.mem_cons.mp ha with rfl | ha
      · exact le_rfl
      · have hle := h.bounded a (List.mem_of_mem_filter ha)
        omega
  | none =>
    refine ⟨⟨r, s.breakers.length, s.nextTick⟩ :: order.take n,
      ⟨?perm, ?keys, ?stamps, ?bounded⟩⟩
    case perm =>
      show List.Perm _ (s.evicted.put ⟨r, s.breakers.length, s.nextTick⟩).rows
      rw [Board.rows_put_evicted hget]
      exact ((h.evicted_perm hn).cons _).trans (List.perm_append_singleton _ _).symm
    case keys =>
      show r :: (order.take n).map BoardEntry.resource = (recent (keys ++ [r])).take s.maxKeys
      rw [hn, take_recent_concat, if_neg (by rw [hretained, hget]; simp), List.map_take, hkeys,
        List.take_take, min_eq_left (Nat.le_succ n)]
    case stamps =>
      refine List.pairwise_cons.mpr ⟨fun a ha => ?_, h.stamps.sublist (List.take_sublist n order)⟩
      have hle := h.bounded a (List.mem_of_mem_take ha)
      show a.lastUsed < s.nextTick
      omega
    case bounded =>
      intro a ha
      show a.lastUsed ≤ s.nextTick
      rcases List.mem_cons.mp ha with rfl | ha
      · exact le_rfl
      · have hle := h.bounded a (List.mem_of_mem_take ha)
        omega

end

end Board.Ordered

/-! ## Runs -/

theorem Board.run_concat (k : ℕ) (ops : List BoardOp) (op : BoardOp) :
    Board.run k (ops ++ [op]) = (Board.run k ops).step op := by
  simp [Board.run, List.foldl_append]

theorem Board.maxKeys_breaker (s : Board) (r : ResourceKey) :
    (s.breaker r).1.maxKeys = s.maxKeys := by
  unfold Board.breaker
  split
  · rfl
  · rfl

theorem Board.tick_breaker (s : Board) (r : ResourceKey) : (s.breaker r).1.tick = s.nextTick := by
  unfold Board.breaker
  split
  · rfl
  · rfl

theorem Board.maxKeys_run (k : ℕ) (ops : List BoardOp) : (Board.run k ops).maxKeys = max k 1 := by
  induction ops using List.reverseRecOn with
  | nil => rfl
  | append_singleton ops op ih =>
    rw [Board.run_concat]
    cases op with
    | consult r m => exact (Board.maxKeys_breaker _ r).trans ih
    | held h m => exact ih

/-- **Run**: while the tick does not wrap, it counts the consultations and the stamps tell their order. -/
theorem Board.exists_ordered (k : ℕ) (ops : List BoardOp) (hticks : (consulted ops).length < 2 ^ 64) :
    (Board.run k ops).tick = (consulted ops).length ∧
      ∃ order, (Board.run k ops).Ordered (consulted ops) order := by
  induction ops using List.reverseRecOn with
  | nil => exact ⟨rfl, [], ⟨List.Perm.refl _, by simp [consulted, recent, keepFirst], List.Pairwise.nil, by simp⟩⟩
  | append_singleton ops op ih =>
    rw [Board.run_concat]
    cases op with
    | consult r m =>
      have hconsulted : consulted (ops ++ [.consult r m]) = consulted ops ++ [r] := by
        simp [consulted]
      rw [hconsulted, List.length_append, List.length_singleton] at hticks ⊢
      obtain ⟨htick, order, horder⟩ := ih (by omega)
      have hnext : (Board.run k ops).nextTick = (Board.run k ops).tick + 1 := by
        rw [Board.nextTick, htick, Nat.mod_eq_of_lt hticks]
      have hpos : 1 ≤ (Board.run k ops).maxKeys := by
        rw [Board.maxKeys_run]
        exact le_max_right k 1
      obtain ⟨order', horder'⟩ := horder.breaker hpos hnext r
      refine ⟨?_, order', ⟨horder'.perm, horder'.keys, horder'.stamps, horder'.bounded⟩⟩
      show ((Board.run k ops).breaker r).1.tick = _
      rw [Board.tick_breaker, hnext, htick]
    | held h m =>
      have hconsulted : consulted (ops ++ [.held h m]) = consulted ops := by
        simp [consulted]
      rw [hconsulted] at hticks ⊢
      obtain ⟨htick, order, horder⟩ := ih hticks
      exact ⟨htick, order, ⟨horder.perm, horder.keys, horder.stamps, horder.bounded⟩⟩

/-! ## What a breaker has seen -/

/-- The place of the breaker that the board holds for a key. -/
def Board.placeOf (s : Board) (r : ResourceKey) : Option ℕ := (s.map.get? r).map BoardEntry.handle

/-- No two keys share a breaker. -/
structure Board.Placed (s : Board) : Prop where
  bound : ∀ r h, s.placeOf r = some h → h < s.breakers.length
  inj : ∀ r r' h, s.placeOf r = some h → s.placeOf r' = some h → r = r'

/-- What `breaker` does to the places: none changes, or the key gets a new one and others may go. -/
theorem Board.breaker_places (s : Board) (r : ResourceKey) :
    (s.placeOf r = some (s.breaker r).2 ∧ (s.breaker r).1.breakers = s.breakers ∧
        ∀ k, (s.breaker r).1.placeOf k = s.placeOf k) ∨
      (s.placeOf r = none ∧ (s.breaker r).2 = s.breakers.length ∧
        (s.breaker r).1.breakers
          = s.breakers ++ [.new defaultBreakerFailureThreshold defaultBreakerCooldownMs] ∧
        (s.breaker r).1.placeOf r = some s.breakers.length ∧
        ∀ k h, k ≠ r → (s.breaker r).1.placeOf k = some h → s.placeOf k = some h) := by
  unfold Board.placeOf Board.breaker
  cases hget : s.map.get? r with
  | some e =>
    refine .inl ⟨rfl, rfl, fun k => ?_⟩
    simp only
    rw [KeyTable.get?_modify]
    split
    · rw [Option.map_map]
      rfl
    · rfl
  | none =>
    refine .inr ⟨rfl, rfl, rfl, ?_, fun k h hk hplace => ?_⟩
    · simp only
      rw [KeyTable.get?_put, if_pos rfl]
      rfl
    · simp only at hplace
      rw [KeyTable.get?_put, if_neg (Ne.symm hk)] at hplace
      obtain ⟨e, he, rfl⟩ := Option.map_eq_some_iff.mp hplace
      obtain ⟨hmem, hkey⟩ := KeyTable.get?_eq_some.mp he
      rw [KeyTable.get?_eq_some.mpr ⟨Board.mem_evicted hmem, hkey⟩]
      rfl

@[simp] theorem Board.length_callAt (s : Board) (handle : ℕ) (m : Method) :
    (s.callAt handle m).breakers.length = s.breakers.length := by
  simp [Board.callAt]

theorem Board.Placed.callAt {s : Board} (h : s.Placed) (handle : ℕ) (m : Method) :
    (s.callAt handle m).Placed where
  bound r p hp := by
    rw [Board.length_callAt]
    exact h.bound r p hp
  inj := h.inj

theorem Board.Placed.breaker {s : Board} (h : s.Placed) (r : ResourceKey) : (s.breaker r).1.Placed := by
  rcases s.breaker_places r with ⟨-, hheap, hsame⟩ | ⟨-, -, hheap, hnew, hold⟩
  · constructor
    case bound =>
      intro k p hp
      rw [hheap]
      exact h.bound k p ((hsame k).symm.trans hp)
    case inj =>
      intro k k' p hp hp'
      exact h.inj k k' p ((hsame k).symm.trans hp) ((hsame k').symm.trans hp')
  · have hlength : (s.breaker r).1.breakers.length = s.breakers.length + 1 := by
      rw [hheap, List.length_append, List.length_singleton]
    -- the new place is past all the old ones
    have hother : ∀ k p, k ≠ r → (s.breaker r).1.placeOf k = some p → p < s.breakers.length :=
      fun k p hk hp => h.bound k p (hold k p hk hp)
    have hself : ∀ p, (s.breaker r).1.placeOf r = some p → p = s.breakers.length :=
      fun p hp => (Option.some.inj (hnew.symm.trans hp)).symm
    constructor
    case bound =>
      intro k p hp
      rw [hlength]
      by_cases hk : k = r
      · subst hk
        have := hself p hp
        omega
      · have := hother k p hk hp
        omega
    case inj =>
      intro k k' p hp hp'
      by_cases hk : k = r
      · by_cases hk' : k' = r
        · rw [hk, hk']
        · subst hk
          have hnewest := hself p hp
          have holder := hother k' p hk' hp'
          omega
      · by_cases hk' : k' = r
        · subst hk'
          have hnewest := hself p hp'
          have holder := hother k p hk hp
          omega
        · exact h.inj k k' p (hold k p hk hp) (hold k' p hk' hp')

theorem Board.placed_run (k : ℕ) (ops : List BoardOp) : (Board.run k ops).Placed := by
  induction ops using List.reverseRecOn with
  | nil => exact ⟨by simp [Board.run, Board.withMaxKeys, Board.placeOf],
      by simp [Board.run, Board.withMaxKeys, Board.placeOf]⟩
  | append_singleton ops op ih =>
    rw [Board.run_concat]
    cases op with
    | consult r m => exact (ih.breaker r).callAt _ m
    | held handle m => exact ih.callAt handle m

/-- What an operation does to the breaker of a key that the board holds before it. -/
theorem Board.breakers_step {s : Board} (hs : s.Placed) (op : BoardOp) {h : ℕ}
    (hbefore : s.placeOf r = some h) :
    (s.step op).breakers[h]? = s.breakers[h]?.map fun b => b.after (recordedOn r h [op]) := by
  have hcall : ∀ (t : Board) (handle : ℕ) (m : Method), (t.callAt handle m).breakers[h]? =
      t.breakers[h]?.map fun b => b.after (if handle = h then [m] else []) := by
    intro t handle m
    rw [Board.callAt, List.getElem?_modify]
    by_cases heq : handle = h
    · simp only [if_pos heq]
      rfl
    · simp only [if_neg heq]
      cases t.breakers[h]? with
      | none => rfl
      | some b => rfl
  cases op with
  | held handle m =>
    have hrecorded : recordedOn r h [.held handle m] = if handle = h then [m] else [] := by
      unfold recordedOn
      split <;> simp_all
    rw [hrecorded]
    exact hcall s handle m
  | consult k m =>
    have hrecorded : recordedOn r h [.consult k m] = if k = r then [m] else [] := by
      unfold recordedOn
      split <;> simp_all
    show ((s.breaker k).1.callAt (s.breaker k).2 m).breakers[h]? = _
    rw [hcall, hrecorded]
    rcases s.breaker_places k with ⟨hplace, hheap, -⟩ | ⟨hnone, hplace, hheap, -, -⟩
    · -- the consulted key is held: its place is the key's
      have hiff : (s.breaker k).2 = h ↔ k = r := by
        constructor
        · intro heq
          exact hs.inj k r h (heq ▸ hplace) hbefore
        · rintro rfl
          exact Option.some.inj (hplace.symm.trans hbefore)
      simp only [hiff, hheap]
    · -- the consulted key is new: its place is past all the old ones
      have hlt := hs.bound r h hbefore
      have hne : k ≠ r := by
        rintro rfl
        rw [hnone] at hbefore
        cases hbefore
      rw [hplace, if_neg (by omega), if_neg hne, hheap, List.getElem?_append_left hlt]

/-- The place `handle` of a key since the consultation that made it. -/
structure Board.SeenSince (k : ℕ) (ops : List BoardOp) (r : ResourceKey) (handle : ℕ)
    (before : List BoardOp) (m : Method) (later : List BoardOp) : Prop where
  run : ops = before ++ .consult r m :: later
  created : (Board.run k before).placeOf r = none
  kept : ∀ mid, mid <+: later → (Board.run k (before ++ .consult r m :: mid)).placeOf r = some handle
  state : (Board.run k ops).breakers[handle]? =
    some ((CircuitBreaker.new defaultBreakerFailureThreshold defaultBreakerCooldownMs).after
      (m :: recordedOn r handle later))

theorem Board.SeenSince.concat {k : ℕ} {ops : List BoardOp} {handle : ℕ}
    {before later : List BoardOp} {m : Method} (h : Board.SeenSince k ops r handle before m later)
    {op : BoardOp} (hplace : (Board.run k (ops ++ [op])).placeOf r = some handle) :
    Board.SeenSince k (ops ++ [op]) r handle before m (later ++ [op]) := by
  constructor
  case run => simp [h.run]
  case created => exact h.created
  case kept =>
    intro mid hmid
    rcases List.prefix_concat_iff.mp hmid with rfl | hmid
    · have hops : before ++ .consult r m :: (later ++ [op]) = ops ++ [op] := by simp [h.run]
      rw [hops]
      exact hplace
    · exact h.kept mid hmid
  case state =>
    have hbefore : (Board.run k ops).placeOf r = some handle := by
      rw [h.run]
      exact h.kept later (List.prefix_refl later)
    have hrecorded : recordedOn r handle (later ++ [op])
        = recordedOn r handle later ++ recordedOn r handle [op] := List.filterMap_append
    rw [Board.run_concat, Board.breakers_step (Board.placed_run k ops) op hbefore, h.state, hrecorded]
    simp [CircuitBreaker.after]

/-- **Run**: a held key was created once and its breaker has seen every call since. -/
theorem Board.seenSince_of_placeOf (k : ℕ) (ops : List BoardOp) (r : ResourceKey) (handle : ℕ)
    (hplace : (Board.run k ops).placeOf r = some handle) :
    ∃ before m later, Board.SeenSince k ops r handle before m later := by
  induction ops using List.reverseRecOn generalizing r handle with
  | nil => simp [Board.run, Board.withMaxKeys, Board.placeOf] at hplace
  | append_singleton ops op ih =>
    have hstay : (Board.run k ops).placeOf r = some handle →
        ∃ before m later, Board.SeenSince k (ops ++ [op]) r handle before m later := by
      intro hbefore
      obtain ⟨before, m, later, h⟩ := ih r handle hbefore
      exact ⟨before, m, later ++ [op], h.concat hplace⟩
    have hrun := hplace
    rw [Board.run_concat] at hplace
    cases op with
    | held h m => exact hstay hplace
    | consult c m =>
      rcases (Board.run k ops).breaker_places c with ⟨-, -, hsame⟩ | ⟨hnone, hat, hheap, hnew, hold⟩
      · exact hstay ((hsame r).symm.trans hplace)
      · by_cases hr : r = c
        · subst hr
          have hhandle : handle = (Board.run k ops).breakers.length :=
            (Option.some.inj (hnew.symm.trans hplace)).symm
          refine ⟨ops, m, [], ⟨rfl, hnone, fun mid hmid => ?_, ?_⟩⟩
          · rw [List.prefix_nil.mp hmid]
            exact hrun
          · rw [Board.run_concat]
            show (((Board.run k ops).breaker r).1.callAt ((Board.run k ops).breaker r).2 m).breakers[handle]?
              = _
            rw [Board.callAt, hat, hheap, hhandle, List.getElem?_modify]
            simp [CircuitBreaker.after, recordedOn]
        · exact hstay (hold r handle hr hplace)

/-! ## The board -/

/-- **What the board retains.**  After every run of fewer than `2 ^ 64` consultations the keys are the
most recently consulted ones, as many as there are up to the cap; and after every run the breaker of a
retained key has seen exactly the calls on it since the key was last created. -/
theorem board_guarantee (k : ℕ) (ops : List BoardOp) :
    ((consulted ops).length < 2 ^ 64 →
      ((Board.run k ops).map.rows.map BoardEntry.resource).Perm
          ((recent (consulted ops)).take (max k 1)) ∧
        (Board.run k ops).map.rows.length = min (max k 1) (consulted ops).toFinset.card) ∧
    ∀ e ∈ (Board.run k ops).map.rows, ∃ before m later,
      Board.SeenSince k ops e.resource e.handle before m later := by
  constructor
  · intro hticks
    obtain ⟨-, order, horder⟩ := Board.exists_ordered k ops hticks
    have hkeys : ((Board.run k ops).map.rows.map BoardEntry.resource).Perm
        ((recent (consulted ops)).take (max k 1)) := by
      rw [← Board.maxKeys_run k ops, ← horder.keys]
      exact (horder.perm.map _).symm
    refine ⟨hkeys, ?_⟩
    rw [← length_recent, ← List.length_take, ← hkeys.length_eq, List.length_map]
  · intro e he
    refine Board.seenSince_of_placeOf k ops e.resource e.handle ?_
    rw [Board.placeOf, KeyTable.get?_of_mem he]
    rfl

/-- A board of two keys, asked for three. -/
theorem board_guarantee_three :
    ((Board.run 2 [.consult (.mcp "a") .state, .consult (.tool "b") (.forceOpen 5),
        .consult (.mcp "a") .state, .consult (.mcp "c") .state]).map.rows.map BoardEntry.resource).Perm
      [.mcp "c", .mcp "a"] :=
  ((board_guarantee 2 [.consult (.mcp "a") .state, .consult (.tool "b") (.forceOpen 5),
    .consult (.mcp "a") .state, .consult (.mcp "c") .state]).1 (by decide)).1

/-- A board of two keys after consultations of one. -/
theorem run_replicate (r : ResourceKey) (n : ℕ) :
    let s := Board.run 2 (List.replicate (n + 1) (.consult r .state))
    s.maxKeys = 2 ∧ s.tick = (n + 1) % 2 ^ 64 ∧ s.map.rows = [⟨r, 0, (n + 1) % 2 ^ 64⟩] := by
  induction n with
  | zero =>
    refine ⟨rfl, rfl, ?_⟩
    show (((Board.withMaxKeys 2).breaker r).1.callAt _ _).map.rows = _
    rw [Board.breaker_of_none rfl]
    exact Board.rows_put_evicted rfl 0 1
  | succ n ih =>
    obtain ⟨hmax, htick, hrows⟩ := ih
    rw [List.replicate_succ', Board.run_concat]
    generalize Board.run 2 (List.replicate (n + 1) (.consult r .state)) = s at hmax htick hrows
    have hget : s.map.get? r = some ⟨r, 0, (n + 1) % 2 ^ 64⟩ := by
      rw [KeyTable.get?, hrows]
      simp
    have hnext : s.nextTick = (n + 1 + 1) % 2 ^ 64 := by
      rw [Board.nextTick, htick, Nat.mod_add_mod]
    show ((s.breaker r).1.callAt _ _).maxKeys = _ ∧ ((s.breaker r).1.callAt _ _).tick = _ ∧
      ((s.breaker r).1.callAt _ _).map.rows = _
    rw [Board.breaker_of_get? hget]
    refine ⟨hmax, hnext, ?_⟩
    show s.map.rows.map _ = _
    rw [hrows]
    simp [hnext]

/-- A consultation that wraps the tick, and one of a third key. -/
theorem rows_after_wrap {s : Board} {a b c : ResourceKey} (hmax : s.maxKeys = 2)
    (htick : s.tick = 2 ^ 64 - 1) (hrows : s.map.rows = [⟨a, 0, 2 ^ 64 - 1⟩]) (hab : a ≠ b)
    (hac : a ≠ c) (hbc : b ≠ c) :
    ((s.step (.consult b .state)).step (.consult c .state)).map.rows.map BoardEntry.resource
      = [a, c] := by
  have hnext : s.nextTick = 0 := by
    rw [Board.nextTick, htick]
    rfl
  have hgetb : s.map.get? b = none := by
    rw [KeyTable.get?_eq_none, hrows]
    simpa using hab
  have hevicted : s.evicted = s.map := by
    rw [Board.evicted, if_neg]
    rw [hmax, hrows]
    simp
  have hrowsb : (s.step (.consult b .state)).map.rows =
      [⟨a, 0, 2 ^ 64 - 1⟩, ⟨b, s.breakers.length, 0⟩] := by
    show ((s.breaker b).1.callAt _ _).map.rows = _
    rw [Board.breaker_of_none hgetb]
    show (s.evicted.put ⟨b, s.breakers.length, s.nextTick⟩).rows = _
    rw [Board.rows_put_evicted hgetb, hevicted, hrows, hnext]
    rfl
  have hmaxb : (s.step (.consult b .state)).maxKeys = 2 := (Board.maxKeys_breaker s b).trans hmax
  generalize s.step (.consult b .state) = t at hrowsb hmaxb
  have hgetc : t.map.get? c = none := by
    rw [KeyTable.get?_eq_none, hrowsb]
    simp [hac, hbc]
  have hvictim : t.victim = some ⟨b, s.breakers.length, 0⟩ := by
    rw [Board.victim, hrowsb]
    rfl
  have hrest : t.evicted.rows = [⟨a, 0, 2 ^ 64 - 1⟩] := by
    rw [Board.evicted, if_pos (by rw [hmaxb, hrowsb]; simp), hvictim]
    show t.map.rows.filter _ = _
    rw [hrowsb]
    simp [hab]
  show (((t.breaker c).1.callAt _ _).map.rows).map _ = _
  rw [Board.breaker_of_none hgetc]
  show ((t.evicted.put ⟨c, t.breakers.length, t.nextTick⟩).rows).map _ = _
  rw [Board.rows_put_evicted hgetc, hrest]
  rfl

/-- After the tick wraps, the newest key but one makes way for the newest. -/
theorem board_after_wrap :
    let ops := List.replicate (2 ^ 64 - 1) (.consult (.mcp "a") .state) ++
      [.consult (.mcp "b") .state, .consult (.mcp "c") .state]
    ¬ ((Board.run 2 ops).map.rows.map BoardEntry.resource).Perm ((recent (consulted ops)).take 2) := by
  obtain ⟨n, hn⟩ : ∃ n, 2 ^ 64 - 1 = n + 1 := ⟨2 ^ 64 - 2, by norm_num⟩
  intro ops hperm
  obtain ⟨hmax, htick, hrows⟩ := run_replicate (.mcp "a") n
  have hmod : (n + 1) % 2 ^ 64 = 2 ^ 64 - 1 := by omega
  rw [hmod] at htick hrows
  have hkeys := rows_after_wrap (b := .mcp "b") (c := .mcp "c") hmax htick hrows (by decide) (by decide)
    (by decide)
  have hops : ops = List.replicate (n + 1) (.consult (.mcp "a") .state) ++ [.consult (.mcp "b") .state]
      ++ [.consult (.mcp "c") .state] := by
    rw [← hn, List.append_assoc]
    rfl
  rw [hops, Board.run_concat, Board.run_concat, hkeys] at hperm
  have hconsulted : ∀ l (r : ResourceKey), consulted (l ++ [.consult r .state]) = consulted l ++ [r] := by
    intro l r
    simp [consulted]
  rw [hconsulted, hconsulted, recent_concat, recent_concat, List.filter_cons_of_pos (by decide),
    List.take_succ_cons, List.take_succ_cons, List.take_zero] at hperm
  exact absurd (hperm.mem_iff.mp (List.mem_cons_self)) (by decide)

end Circuit
