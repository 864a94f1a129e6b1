/-
# The circuit breaker and the calls it admits

`CircuitBreaker` of the scheduler crate: three atomics (`state`, `failures`, `opened_at_ms`) that
concurrent callers read and write one access at a time.  A method is therefore a chain of
accesses (`Access`), and `Access.exec` is what one of them does; between two accesses of one
caller any access of another may come.

Two systems run over one breaker:

* `Traffic`: callers of `allow`, `record_success` and `record_failure` in any interleaving;
* `Executor`: calls of `execute_inner`, with every exit of its loop.

The flag `probe` of a call is set when its `allow` claims the half-open probe and cleared when
its result reaches the breaker.  No access reads it.
-/
import Faktor.Trace

namespace Circuit

/-! ## The breaker -/

/-- `CircuitState`. -/
inductive CircuitState
  | closed | opened | halfOpen
  deriving DecidableEq, Repr

/-- `CircuitBreaker`. -/
structure CircuitBreaker where
  failureThreshold : ℕ
  cooldownMs : ℕ
  state : CircuitState
  failures : ℕ
  openedAtMs : ℤ
  deriving DecidableEq, Repr

/-- `CircuitBreaker::new`. -/
def CircuitBreaker.new (failureThreshold cooldownMs : ℕ) : CircuitBreaker :=
  ⟨max failureThreshold 1, cooldownMs, .closed, 0, 0⟩

/-- `i64::saturating_sub`. -/
def saturatingSub (a b : ℤ) : ℤ := max (-2 ^ 63) (min (2 ^ 63 - 1) (a - b))

/-- `as i64` of a `u64`. -/
def asI64 (n : ℕ) : ℤ := (n : ℤ).bmod (2 ^ 64)

/-- One access of a breaker method to the atomics, with what the method has in hand: the clock
reading it was called with.

`allow` loads the state, then the opening time, then exchanges `Open` for `HalfOpen`;
`record_success` clears the streak, then stores `Closed`; `record_failure` loads the state, counts
the failure, stores `Open`, then stamps the opening time. -/
inductive Access
  | allowLoad (now : ℤ) | allowOpened (now : ℤ) | allowClaim (now : ℤ)
  | successReset | successClose
  | failureLoad (now : ℤ) | failureCount (now : ℤ) | failureOpen (now : ℤ) | failureStamp (now : ℤ)
  deriving DecidableEq, Repr

/-- What a method does after an access: another access, or it returns. -/
inductive Progress
  | next (a : Access)
  | admitted (probe : Bool)
  | denied
  | recorded
  deriving DecidableEq, Repr

/-- One access.  `allow` goes back to its first load when the exchange fails. -/
def Access.exec (b : CircuitBreaker) : Access → CircuitBreaker × Progress
  | .allowLoad now =>
    match b.state with
    | .closed => (b, .admitted false)
    | .halfOpen => (b, .denied)
    | .opened => (b, .next (.allowOpened now))
  | .allowOpened now =>
    if saturatingSub now b.openedAtMs < asI64 b.cooldownMs then (b, .denied)
    else (b, .next (.allowClaim now))
  | .allowClaim now =>
    if b.state = .opened then ({ b with state := .halfOpen }, .admitted true)
    else (b, .next (.allowLoad now))
  | .successReset => ({ b with failures := 0 }, .next .successClose)
  | .successClose => ({ b with state := .closed }, .recorded)
  | .failureLoad now =>
    match b.state with
    | .closed => (b, .next (.failureCount now))
    | .halfOpen => (b, .next (.failureOpen now))
    | .opened => (b, .recorded)
  | .failureCount now =>
    let counted := { b with failures := (b.failures + 1) % 2 ^ 32 }
    if b.failureThreshold ≤ b.failures + 1 then (counted, .next (.failureOpen now))
    else (counted, .recorded)
  | .failureOpen now => ({ b with state := .opened }, .next (.failureStamp now))
  | .failureStamp now => ({ b with openedAtMs := now }, .recorded)

/-- The access with which a result takes effect: the store of the state word. -/
def Access.answers : Access → Bool
  | .successClose | .failureOpen _ => true
  | _ => false

/-- An access of `record_success` or `record_failure`. -/
def Access.reports : Access → Bool
  | .allowLoad _ | .allowOpened _ | .allowClaim _ => false
  | _ => true

/-- What an access can do to the state word: store a result, claim the probe, or leave it. -/
theorem Access.exec_state (b : CircuitBreaker) (a : Access) :
    (a.answers = true ∧ (a.exec b).1.state ≠ .halfOpen) ∨
      (b.state = .opened ∧ (a.exec b).1.state = .halfOpen ∧ (a.exec b).2 = .admitted true) ∨
      (a.answers = false ∧ (a.exec b).1.state = b.state ∧ (a.exec b).2 ≠ .admitted true) := by
  cases a with
  | successClose => exact .inl ⟨rfl, by simp [Access.exec]⟩
  | failureOpen now => exact .inl ⟨rfl, by simp [Access.exec]⟩
  | allowClaim now =>
    by_cases hopen : b.state = .opened
    · exact .inr (.inl (by simp [Access.exec, hopen]))
    · exact .inr (.inr (by simp [Access.exec, hopen, Access.answers]))
  | allowLoad now => exact .inr (.inr (by cases h : b.state <;> simp [Access.exec, h, Access.answers]))
  | failureLoad now =>
    exact .inr (.inr (by cases h : b.state <;> simp [Access.exec, h, Access.answers]))
  | allowOpened now =>
    refine .inr (.inr ?_)
    simp only [Access.exec]
    split <;> simp [Access.answers]
  | failureCount now =>
    refine .inr (.inr ?_)
    simp only [Access.exec]
    split <;> simp [Access.answers]
  | successReset => exact .inr (.inr (by simp [Access.exec, Access.answers]))
  | failureStamp now => exact .inr (.inr (by simp [Access.exec, Access.answers]))

variable {b : CircuitBreaker} {a : Access}

/-- Whoever `allow` admits saw the breaker closed, or open and past its cooldown. -/
theorem Access.exec_admitted {claimed : Bool}
    (h : (a.exec b).2 = .admitted claimed) : b.state ≠ .halfOpen := by
  cases a with
  | allowLoad now => cases hs : b.state <;> simp_all [Access.exec]
  | failureLoad now => cases hs : b.state <;> simp_all [Access.exec]
  | allowClaim now =>
    by_cases hopen : b.state = .opened
    · simp [hopen]
    · simp [Access.exec, hopen] at h
  | allowOpened now =>
    simp only [Access.exec] at h
    split at h <;> cases h
  | failureCount now =>
    simp only [Access.exec] at h
    split at h <;> cases h
  | successReset => simp [Access.exec] at h
  | successClose => simp [Access.exec] at h
  | failureOpen now => simp [Access.exec] at h
  | failureStamp now => simp [Access.exec] at h

/-! ## Callers of the three methods -/

/-- A caller: inside a method, admitted and not yet back with a result, or finished. -/
inductive Call
  | busy (a : Access) (probe : Bool)
  | admitted (probe : Bool)
  | finished
  deriving DecidableEq, Repr

/-- The call holds the half-open probe and its own result has not reached the breaker. -/
def Call.outstanding : Call → Bool
  | .busy _ probe => probe
  | .admitted probe => probe
  | .finished => false

/-- A call after one of its accesses. -/
def Call.after (a : Access) (probe : Bool) : Progress → Call
  | .next a' => .busy a' (probe && !a.answers)
  | .admitted claimed => .admitted claimed
  | .denied => .finished
  | .recorded => .finished

/-- One breaker and its callers, in the order of their `allow`. -/
structure Traffic where
  breaker : CircuitBreaker
  calls : List Call
  deriving DecidableEq, Repr

/-- A fresh breaker nobody has called. -/
def Traffic.init (failureThreshold cooldownMs : ℕ) : Traffic :=
  ⟨.new failureThreshold cooldownMs, []⟩

/-- A new caller of `allow`, one access of a caller, or an admitted caller that comes back with
its result.  A result comes as late as it likes. -/
inductive TrafficEvent
  | allow (now : ℤ)
  | access (i : ℕ)
  | recordSuccess (i : ℕ)
  | recordFailure (i : ℕ) (now : ℤ)
  deriving DecidableEq, Repr

/-- One event of the traffic. -/
def Traffic.step (s : Traffic) : TrafficEvent → Option Traffic
  | .allow now => some { s with calls := s.calls ++ [.busy (.allowLoad now) false] }
  | .access i =>
    match s.calls[i]? with
    | some (.busy a probe) =>
      let done := a.exec s.breaker
      some ⟨done.1, s.calls.set i (.after a probe done.2)⟩
    | _ => none
  | .recordSuccess i =>
    match s.calls[i]? with
    | some (.admitted probe) => some { s with calls := s.calls.set i (.busy .successReset probe) }
    | _ => none
  | .recordFailure i now =>
    match s.calls[i]? with
    | some (.admitted probe) =>
      some { s with calls := s.calls.set i (.busy (.failureLoad now) probe) }
    | _ => none

/-- The event admits its caller. -/
def Traffic.Admits (s : Traffic) (e : TrafficEvent) : Prop :=
  ∃ i a probe claimed, e = .access i ∧ s.calls[i]? = some (.busy a probe) ∧
    (a.exec s.breaker).2 = .admitted claimed

/-- No caller holds the probe. -/
def Traffic.Unclaimed (s : Traffic) : Prop := ∀ c ∈ s.calls, c.outstanding = false

/-- At most one probe is outstanding. -/
def Traffic.AtMostOneProbe (s : Traffic) : Prop :=
  ∀ (i j : ℕ) (c d : Call), s.calls[i]? = some c → s.calls[j]? = some d →
    c.outstanding = true → d.outstanding = true → i = j

/-- The event does not bring another call's result to the state word while a probe is
outstanding. -/
def Traffic.Solicited (s : Traffic) : TrafficEvent → Prop
  | .access i =>
    match s.calls[i]? with
    | some (.busy a probe) => a.answers = true → probe = true ∨ s.Unclaimed
    | _ => True
  | _ => True

instance (s : Traffic) : Decidable s.Unclaimed := by
  unfold Traffic.Unclaimed
  infer_instance

instance (s : Traffic) (e : TrafficEvent) : Decidable (s.Solicited e) := by
  unfold Traffic.Solicited
  split
  · split <;> infer_instance
  · infer_instance

/-- While the results that reach the state word are the probe's own, the probe outstanding is the
only one and keeps the breaker half-open. -/
structure Traffic.Guarded (s : Traffic) : Prop where
  one : s.AtMostOneProbe
  held : ∀ c ∈ s.calls, c.outstanding = true → s.breaker.state = .halfOpen

variable {s : Traffic}

theorem Traffic.Guarded.unclaimed (h : s.Guarded)
    (hstate : s.breaker.state ≠ .halfOpen) : s.Unclaimed := by
  intro c hc
  by_contra hne
  exact hstate (h.held c hc (by simpa using hne))

/-- An access that does not admit leaves its caller outstanding only when it already was, and did
not answer. -/
theorem Call.outstanding_after {probe : Bool}
    (h : (Call.after a probe (a.exec b).2).outstanding = true) :
    (a.exec b).2 = .admitted true ∨ probe = true ∧ a.answers = false := by
  cases hp : (a.exec b).2 with
  | next a' =>
    rw [hp] at h
    exact .inr (by simpa [Call.after, Call.outstanding] using h)
  | admitted claimed =>
    rw [hp] at h
    exact .inl (by simpa [Call.after, Call.outstanding] using h)
  | denied =>
    rw [hp] at h
    cases h
  | recorded =>
    rw [hp] at h
    cases h

/-- Replacing one caller by one that is outstanding only if the old one was. -/
theorem Traffic.Guarded.replace {s : Traffic} (h : s.Guarded) {i : ℕ} {c d : Call}
    (hi : s.calls[i]? = some c) (hd : d.outstanding = true → c.outstanding = true) :
    Traffic.Guarded { s with calls := s.calls.set i d } := by
  have hback : ∀ (j : ℕ) (x : Call), (s.calls.set i d)[j]? = some x → x.outstanding = true →
      ∃ y, s.calls[j]? = some y ∧ y.outstanding = true := by
    intro j x hj hx
    by_cases hij : i = j
    · subst hij
      have hlen : i < s.calls.length := (List.getElem?_eq_some_iff.mp hi).1
      rw [List.getElem?_set_self hlen, Option.some.injEq] at hj
      exact ⟨c, hi, hd (hj ▸ hx)⟩
    · rw [List.getElem?_set_ne hij] at hj
      exact ⟨x, hj, hx⟩
  constructor
  · intro j k x y hj hk hx hy
    obtain ⟨x', hj', hx'⟩ := hback j x hj hx
    obtain ⟨y', hk', hy'⟩ := hback k y hk hy
    exact h.one j k x' y' hj' hk' hx' hy'
  · intro x hx hout
    obtain ⟨j, hj⟩ := List.mem_iff_getElem?.mp hx
    obtain ⟨y, hy, hyout⟩ := hback j x hj hout
    exact h.held y (List.mem_of_getElem? hy) hyout

/-- When no probe is outstanding, one access can make at most its own caller outstanding. -/
theorem Traffic.Guarded.of_unclaimed (hnone : s.Unclaimed) (b : CircuitBreaker)
    (i : ℕ) (d : Call) (hd : d.outstanding = true → b.state = .halfOpen) :
    Traffic.Guarded ⟨b, s.calls.set i d⟩ := by
  have hat : ∀ (j : ℕ) (x : Call), (s.calls.set i d)[j]? = some x → x.outstanding = true →
      i = j ∧ x = d := by
    intro j x hj hx
    by_cases hij : i = j
    · subst hij
      rcases List.mem_or_eq_of_mem_set (List.mem_of_getElem? hj) with hmem | heq
      · exact absurd hx (by simp [hnone x hmem])
      · exact ⟨rfl, heq⟩
    · rw [List.getElem?_set_ne hij] at hj
      exact absurd hx (by simp [hnone x (List.mem_of_getElem? hj)])
  constructor
  · intro j k x y hj hk hx hy
    exact (hat j x hj hx).1.symm.trans (hat k y hk hy).1
  · intro x hx hout
    obtain ⟨j, hj⟩ := List.mem_iff_getElem?.mp hx
    exact hd ((hat j x hj hout).2 ▸ hout)

theorem Traffic.Guarded.of_none (hnone : s.Unclaimed) : s.Guarded where
  one i _ c _ hi _ hc := by
    rw [hnone c (List.mem_of_getElem? hi)] at hc
    cases hc
  held c hc hout := by
    rw [hnone c hc] at hout
    cases hout

theorem guarded_init (failureThreshold cooldownMs : ℕ) :
    (Traffic.init failureThreshold cooldownMs).Guarded :=
  .of_none fun c hc => by simp [Traffic.init] at hc

/-- One access of one caller, whose result is solicited. -/
theorem guarded_access {i : ℕ} {probe : Bool} (h : s.Guarded)
    (hi : s.calls[i]? = some (.busy a probe))
    (hsol : a.answers = true → probe = true ∨ s.Unclaimed) :
    Traffic.Guarded ⟨(a.exec s.breaker).1, s.calls.set i (.after a probe (a.exec s.breaker).2)⟩ := by
  rcases a.exec_state s.breaker with ⟨hans, hnot⟩ | ⟨hopen, hhalf, hadm⟩ | ⟨hans, hsame, hadm⟩
  · -- The result takes effect: its own caller stops being outstanding, and there is no other.
    have hquiet : (Call.after a probe (a.exec s.breaker).2).outstanding = false := by
      by_contra hout
      rcases Call.outstanding_after (by simpa using hout) with hadm | ⟨-, hno⟩
      · cases a <;> simp [Access.answers, Access.exec] at hans hadm
      · simp [hno] at hans
    have hleft : ∀ j c, j ≠ i → s.calls[j]? = some c → c.outstanding = false := by
      intro j c hji hj
      by_contra hout
      have hout' : c.outstanding = true := by simpa using hout
      rcases hsol hans with hp | hnone
      · exact hji (h.one j i c _ hj hi hout' (by simpa [Call.outstanding] using hp))
      · exact hout (hnone c (List.mem_of_getElem? hj))
    refine .of_none fun x hx => ?_
    obtain ⟨j, hj⟩ := List.mem_iff_getElem?.mp hx
    by_cases hij : i = j
    · subst hij
      obtain ⟨hlt, hget⟩ := List.getElem?_eq_some_iff.mp hj
      rw [List.getElem_set_self] at hget
      rw [← hget, hquiet]
    · rw [List.getElem?_set_ne hij] at hj
      exact hleft j x (Ne.symm hij) hj
  · exact .of_unclaimed (h.unclaimed (by simp [hopen])) _ i _ fun _ => hhalf
  · have hkeep := h.replace hi (d := .after a probe (a.exec s.breaker).2) fun hout => by
      rcases Call.outstanding_after hout with hclaim | ⟨hp, -⟩
      · exact absurd hclaim hadm
      · exact hp
    exact ⟨hkeep.one, fun c hc hout => hsame.trans (hkeep.held c hc hout)⟩

/-- **Step**: a solicited event keeps the probe exclusive. -/
theorem guarded_step (s : Traffic) (e : TrafficEvent) (s' : Traffic) (h : s.Guarded)
    (hsol : s.Solicited e) (hstep : s.step e = some s') : s'.Guarded := by
  cases e with
  | allow now =>
    cases hstep
    have hout : ∀ (j : ℕ) (x : Call), (s.calls ++ [.busy (.allowLoad now) false])[j]? = some x →
        x.outstanding = true → s.calls[j]? = some x := by
      intro j x hj hx
      by_cases hlt : j < s.calls.length
      · rwa [List.getElem?_append_left hlt] at hj
      · rw [List.getElem?_append_right (by omega)] at hj
        have heq := List.mem_singleton.mp (List.mem_of_getElem? hj)
        rw [heq] at hx
        cases hx
    refine ⟨fun j k x y hj hk hx hy => h.one j k x y (hout j x hj hx) (hout k y hk hy) hx hy,
      fun x hx hx' => ?_⟩
    obtain ⟨j, hj⟩ := List.mem_iff_getElem?.mp hx
    exact h.held x (List.mem_of_getElem? (hout j x hj hx')) hx'
  | access i =>
    simp only [Traffic.step] at hstep
    split at hstep
    · next a probe hi =>
      cases hstep
      refine guarded_access h hi ?_
      simpa only [Traffic.Solicited, hi] using hsol
    · cases hstep
  | recordSuccess i =>
    simp only [Traffic.step] at hstep
    split at hstep
    · next probe hi =>
      cases hstep
      exact h.replace hi id
    · cases hstep
  | recordFailure i now =>
    simp only [Traffic.step] at hstep
    split at hstep
    · next probe hi =>
      cases hstep
      exact h.replace hi id
    · cases hstep

/-- **A probe is exclusive while only its own result reaches the breaker.**  In every interleaving
in which no other call's result is stored between a probe's admission and that probe's own
result, at most one probe is outstanding, and nobody is admitted while one is. -/
theorem probe_exclusive_of_solicited (failureThreshold cooldownMs : ℕ) (es : List TrafficEvent)
    (s : Traffic) (hrun : Trace.run Traffic.step (.init failureThreshold cooldownMs) es = some s)
    (hsol : Trace.Along Traffic.step Traffic.Solicited (.init failureThreshold cooldownMs) es) :
    s.AtMostOneProbe ∧ ∀ e, s.Admits e → s.Unclaimed := by
  have hguard : s.Guarded :=
    Trace.run_invariant_along guarded_step (guarded_init _ _) hsol hrun
  refine ⟨hguard.one, ?_⟩
  rintro e ⟨i, a, probe, claimed, -, -, hadm⟩
  exact hguard.unclaimed (Access.exec_admitted hadm)

/-- The calls of two runs of a breaker with threshold one and a cooldown of five: two calls are
admitted, the first fails and trips the breaker, and a third claims the probe after the
cooldown. -/
def tripAndProbe : List TrafficEvent :=
  [.allow 0, .access 0, .allow 0, .access 1,
    .recordFailure 0 10, .access 0, .access 0, .access 0, .access 0,
    .allow 20, .access 2, .access 2, .access 2]

theorem probe_exclusive_after_trip :
    ∃ s, Trace.run Traffic.step (.init 1 5) tripAndProbe = some s ∧
      s.calls[2]? = some (.admitted true) ∧ s.AtMostOneProbe ∧
      ∀ e, s.Admits e → s.Unclaimed := by
  refine ⟨_, rfl, by decide, ?_⟩
  exact probe_exclusive_of_solicited 1 5 tripAndProbe _ rfl (by decide)

/-- The second call's late success closes the breaker while the probe is still out, and a fourth
caller is admitted next to it. -/
theorem probe_not_exclusive_after_stale_success :
    ¬ ∀ (failureThreshold cooldownMs : ℕ) (es : List TrafficEvent) (s : Traffic),
      Trace.run Traffic.step (.init failureThreshold cooldownMs) es = some s →
        s.AtMostOneProbe ∧ ∀ e, s.Admits e → s.Unclaimed := by
  intro h
  have hbad := (h 1 5 (tripAndProbe ++ [.recordSuccess 1, .access 1, .access 1, .allow 21]) _
    rfl).2 (.access 3) ⟨3, .allowLoad 21, false, false, rfl, by decide, by decide⟩
  exact absurd hbad (by decide)

end Circuit
