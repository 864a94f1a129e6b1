/-
# Executions over one breaker

`execute_inner` with a breaker, as a future that takes one step at a time: the top of its loop
(clock, cancellation, deadline), the accesses of `allow`, the body under its timeout, the
accesses of `record_success` or `record_failure`, the backoff and the admission wait.  The token
of an execution may be cancelled at any time, and the future may be dropped at any await point
(the body and the two waits), as a caller of `execute` that is aborted does.

What `mark` writes to the scheduler's tasks does not reach the breaker and is left out.
-/
import Faktor.CircuitBreaker

namespace Circuit

/-! ## `execute_inner` -/

/-- `RetryClass`. -/
inductive RetryClass
  | network | rateLimited | serverError | always
  deriving DecidableEq, Repr

/-- The fields of `RetryPolicy` and of the envelope that decide the loop. -/
structure OpMeta where
  deadlineMs : ℤ
  maxAttempts : ℕ
  retryClass : RetryClass
  deriving DecidableEq, Repr

/-- `RetryPolicy::should_retry`. -/
def OpMeta.shouldRetry (m : OpMeta) (attempt : ℕ) (retryable rateLimited : Bool) : Bool :=
  if m.maxAttempts ≤ min (attempt + 1) (2 ^ 32 - 1) ∨ retryable = false then false
  else
    match m.retryClass with
    | .network => !rateLimited
    | .rateLimited => true
    | .serverError => true
    | .always => true

/-- How an execution ends: its result, or dropped by its caller. -/
inductive ExecuteResult
  | cancelled | done | failed | timeout | circuitOpen | aborted
  deriving DecidableEq, Repr

/-- What an execution does once its breaker method returns. -/
inductive Continue
  | begin
  | finish (r : ExecuteResult)
  | retry
  deriving DecidableEq, Repr

/-- Where an execution stands. -/
inductive ExecPhase
  | top
  | breaker (a : Access) (k : Continue)
  | running
  | backoff
  | permit
  | returned (r : ExecuteResult)
  deriving DecidableEq, Repr

/-- One call of `execute_inner`. -/
structure Execution where
  opMeta : OpMeta
  phase : ExecPhase
  attempt : ℕ
  cancelled : Bool
  probe : Bool
  deriving DecidableEq, Repr

/-- The executions over one breaker. -/
structure Executor where
  breaker : CircuitBreaker
  executions : List Execution
  deriving DecidableEq, Repr

/-- A fresh breaker and no execution. -/
def Executor.init (failureThreshold cooldownMs : ℕ) : Executor :=
  ⟨.new failureThreshold cooldownMs, []⟩

/-- How `wait_for_backoff` and `wait_for_permit` end. -/
inductive WaitOutcome
  | ready | cancelled | deadlineExceeded
  deriving DecidableEq, Repr

/-- What can happen to the executions. -/
inductive ExecEvent
  | execute (opMeta : OpMeta)
  | attempt (i : ℕ) (now : ℤ)
  | access (i : ℕ)
  | bodyOk (i : ℕ)
  | bodyErr (i : ℕ) (retryable : Bool) (now : ℤ)
  | elapsed (i : ℕ) (now : ℤ)
  | waited (i : ℕ) (outcome : WaitOutcome)
  | cancel (i : ℕ)
  | abort (i : ℕ)
  deriving DecidableEq, Repr

/-- The top of the loop: cancellation, then the deadline, then `allow`. -/
def Execution.enter (x : Execution) (now : ℤ) : Execution :=
  if x.cancelled then { x with phase := .returned .cancelled }
  else if x.opMeta.deadlineMs ≤ now then { x with phase := .returned .timeout }
  else { x with phase := .breaker (.allowLoad now) .begin }

/-- An execution after one access of its breaker method. -/
def Execution.after (x : Execution) (a : Access) (k : Continue) : Progress → Execution
  | .next a' => { x with phase := .breaker a' k, probe := x.probe && !a.answers }
  | .admitted claimed => { x with phase := .running, probe := claimed }
  | .denied => { x with phase := .returned .circuitOpen, probe := false }
  | .recorded =>
    match k with
    | .begin => { x with phase := .running, probe := false }
    | .finish r => { x with phase := .returned r, probe := false }
    | .retry => { x with phase := .backoff, probe := false }

/-- The body returned `Ok`: a cancelled execution returns at once, another records the success. -/
def Execution.bodyOk (x : Execution) : Execution :=
  if x.cancelled then { x with phase := .returned .cancelled }
  else { x with phase := .breaker .successReset (.finish .done) }

/-- The body returned an error: a cancelled execution returns at once, another counts the attempt,
records the failure and retries when the error and the policy allow it. -/
def Execution.bodyErr (x : Execution) (retryable : Bool) (now : ℤ) : Execution :=
  if x.cancelled then { x with phase := .returned .cancelled }
  else
    let again := retryable && x.opMeta.shouldRetry x.attempt true false
    { x with
      phase := .breaker (.failureLoad now) (if again then .retry else .finish .failed)
      attempt := x.attempt + 1 }

/-- The end of a wait.  The backoff is followed by the admission wait. -/
def Execution.waited (x : Execution) (outcome : WaitOutcome) : Execution :=
  match outcome with
  | .cancelled => { x with phase := .returned .cancelled }
  | .deadlineExceeded => { x with phase := .returned .timeout }
  | .ready => { x with phase := if x.phase = .backoff then .permit else .top }

/-- The executor with execution `i` replaced. -/
def Executor.put (s : Executor) (i : ℕ) (x : Execution) : Executor :=
  { s with executions := s.executions.set i x }

/-- One event. -/
def Executor.step (s : Executor) : ExecEvent → Option Executor
  | .execute opMeta =>
    some { s with executions := s.executions ++ [⟨opMeta, .top, 0, false, false⟩] }
  | .attempt i now =>
    s.executions[i]?.bind fun x =>
      if x.phase = .top then some (s.put i (x.enter now)) else none
  | .access i =>
    s.executions[i]?.bind fun x =>
      match x.phase with
      | .breaker a k =>
        let done := a.exec s.breaker
        some ({ s with breaker := done.1 }.put i (x.after a k done.2))
      | _ => none
  | .bodyOk i =>
    s.executions[i]?.bind fun x => if x.phase = .running then some (s.put i x.bodyOk) else none
  | .bodyErr i retryable now =>
    s.executions[i]?.bind fun x =>
      if x.phase = .running then some (s.put i (x.bodyErr retryable now)) else none
  | .elapsed i now =>
    s.executions[i]?.bind fun x =>
      if x.phase = .running then
        some (s.put i { x with phase := .breaker (.failureLoad now) (.finish .timeout) })
      else none
  | .waited i outcome =>
    s.executions[i]?.bind fun x =>
      if x.phase = .backoff ∨ x.phase = .permit then some (s.put i (x.waited outcome)) else none
  | .cancel i => s.executions[i]?.bind fun x => some (s.put i { x with cancelled := true })
  | .abort i =>
    s.executions[i]?.bind fun x =>
      if x.phase = .running ∨ x.phase = .backoff ∨ x.phase = .permit then
        some (s.put i { x with phase := .returned .aborted })
      else none

/-! ## Probes that report -/

/-- The execution has not returned. -/
def Execution.inFlight (x : Execution) : Bool :=
  match x.phase with
  | .returned _ => false
  | _ => true

/-- The breaker is half-open only while a probe is in flight, and whoever was admitted as the
probe and has returned has reported. -/
def Executor.Healthy (s : Executor) : Prop :=
  (s.breaker.state = .halfOpen → ∃ x ∈ s.executions, x.probe = true ∧ x.inFlight = true) ∧
    ∀ x ∈ s.executions, x.inFlight = false → x.probe = false

/-- The event does not end an unreported probe: its token is not cancelled when its body returns,
and its future is not dropped. -/
def Executor.Reports (s : Executor) : ExecEvent → Prop
  | .bodyOk i | .bodyErr i _ _ =>
    ∀ x ∈ s.executions[i]?, x.phase = .running → x.probe = true → x.cancelled = false
  | .abort i => ∀ x ∈ s.executions[i]?, x.phase = .running → x.probe = false
  | _ => True

instance (s : Executor) (e : ExecEvent) : Decidable (s.Reports e) := by
  unfold Executor.Reports
  split <;> infer_instance

/-- The accesses after which a result is still to be stored, whatever the failure count says. -/
def Access.undecided : Access → Bool
  | .successReset | .successClose | .failureLoad _ | .failureOpen _ => true
  | _ => false

/-- The execution runs its body or reports. -/
def Execution.Reporting (x : Execution) : Prop :=
  x.phase = .running ∨ ∃ a k, x.phase = .breaker a k ∧ a.reports = true

/-- The execution is a probe whose result will leave the half-open state. -/
def Execution.Owns (x : Execution) : Prop :=
  x.probe = true ∧ (x.phase = .running ∨ ∃ a k, x.phase = .breaker a k ∧ a.undecided = true)

/-- Every unreported probe runs its body or reports, and a half-open breaker has an owner. -/
structure Executor.Attended (s : Executor) : Prop where
  reporting : ∀ x ∈ s.executions, x.probe = true → x.Reporting
  owned : s.breaker.state = .halfOpen → ∃ x ∈ s.executions, x.Owns

variable {x : Execution}

theorem Execution.Reporting.inFlight (h : x.Reporting) : x.inFlight = true := by
  rcases h with h | ⟨a, k, h, -⟩ <;> simp [Execution.inFlight, h]

theorem Execution.Owns.reporting (h : x.Owns) : x.Reporting := by
  rcases h.2 with hrun | ⟨a, k, hphase, hund⟩
  · exact .inl hrun
  · refine .inr ⟨a, k, hphase, ?_⟩
    cases a <;> simp_all [Access.undecided, Access.reports]

variable {s : Executor}

theorem Executor.Attended.healthy (h : s.Attended) : s.Healthy := by
  constructor
  · intro hhalf
    obtain ⟨x, hx, howns⟩ := h.owned hhalf
    exact ⟨x, hx, howns.1, howns.reporting.inFlight⟩
  · intro x hx hret
    by_contra hprobe
    rw [(h.reporting x hx (by simpa using hprobe)).inFlight] at hret
    cases hret

variable {i : ℕ} {y : Execution} {b : CircuitBreaker}

section

variable (h : s.Attended) (hi : s.executions[i]? = some x)
include h hi

/-- Replacing one execution: the new one reports if it is a probe, and it owns the half-open
state unless the state was half-open before and the old one did not own it. -/
theorem Executor.Attended.put (hrep : y.probe = true → y.Reporting)
    (hown : b.state = .halfOpen → y.Owns ∨ s.breaker.state = .halfOpen ∧ ¬ x.Owns) :
    Executor.Attended ({ s with breaker := b }.put i y) := by
  have hlt : i < s.executions.length := (List.getElem?_eq_some_iff.mp hi).1
  constructor
  · intro z hz hprobe
    rcases List.mem_or_eq_of_mem_set hz with hmem | heq
    · exact h.reporting z hmem hprobe
    · exact heq ▸ hrep (heq ▸ hprobe)
  · intro hhalf
    rcases hown hhalf with howns | ⟨hhalf', hnot⟩
    · exact ⟨y, List.mem_set hlt y, howns⟩
    · obtain ⟨z, hz, howns⟩ := h.owned hhalf'
      obtain ⟨j, hj⟩ := List.mem_iff_getElem?.mp hz
      have hij : i ≠ j := by
        rintro rfl
        rw [hi, Option.some.injEq] at hj
        exact hnot (hj ▸ howns)
      refine ⟨z, List.mem_of_getElem? (i := j) ?_, howns⟩
      rw [Executor.put, List.getElem?_set_ne hij]
      exact hj

/-- An execution that neither runs its body nor reports is no probe. -/
theorem Executor.Attended.idle (hnot : ¬ x.Reporting) :
    x.probe = false := by
  by_contra hprobe
  exact hnot (h.reporting x (List.mem_of_getElem? hi) (by simpa using hprobe))

/-- Replacing an execution that is no probe by another that is none. -/
theorem Executor.Attended.put_idle (hx : x.probe = false) (hy : y.probe = false) :
    (s.put i y).Attended :=
  h.put hi (by simp [hy]) fun hhalf => .inr ⟨hhalf, fun howns => by simp [howns.1] at hx⟩

end

variable {a : Access} {k : Continue}

/-- Replacing a running execution by one that reports its result. -/
theorem Executor.Attended.put_report (h : s.Attended) (hi : s.executions[i]? = some x)
    (hphase : y.phase = .breaker a k) (hprobe : y.probe = x.probe) (hund : a.undecided = true) :
    (s.put i y).Attended := by
  refine h.put hi (fun hy => ?_) fun hhalf => ?_
  · exact Execution.Owns.reporting ⟨hy, .inr ⟨a, k, hphase, hund⟩⟩
  · by_cases hx : x.Owns
    · exact .inl ⟨hprobe.trans hx.1, .inr ⟨a, k, hphase, hund⟩⟩
    · exact .inr ⟨hhalf, hx⟩

/-- A reporting method goes on reporting. -/
theorem Access.reports_next {a' : Access} (h : a.reports = true) (hnext : (a.exec b).2 = .next a') :
    a'.reports = true := by
  cases a with
  | allowLoad now => cases h
  | allowOpened now => cases h
  | allowClaim now => cases h
  | successReset => cases hnext; rfl
  | successClose => cases hnext
  | failureOpen now => cases hnext; rfl
  | failureStamp now => cases hnext
  | failureLoad now =>
    simp only [Access.exec] at hnext
    split at hnext <;> cases hnext <;> rfl
  | failureCount now =>
    simp only [Access.exec] at hnext
    split at hnext <;> cases hnext
    rfl

/-- What an access leaves of an unreported probe. -/
theorem Execution.after_reporting (hphase : x.phase = .breaker a k) (hx : x.probe = true → x.Reporting)
    (hy : (x.after a k (a.exec b).2).probe = true) : (x.after a k (a.exec b).2).Reporting := by
  cases hp : (a.exec b).2 with
  | next a' =>
    rw [hp] at hy
    simp only [Execution.after, Bool.and_eq_true] at hy
    have hrep : a.reports = true := by
      rcases hx hy.1 with hrun | ⟨a₁, k₁, hph, hrep⟩
      · rw [hphase] at hrun
        cases hrun
      · rw [hphase] at hph
        cases hph
        exact hrep
    exact .inr ⟨a', k, rfl, Access.reports_next hrep hp⟩
  | admitted claimed => exact .inl rfl
  | denied =>
    rw [hp] at hy
    cases hy
  | recorded =>
    rw [hp] at hy
    cases k <;> cases hy

/-- An access that leaves the breaker half-open leaves its owner the owner. -/
theorem Execution.after_owns (hphase : x.phase = .breaker a k) (hans : a.answers = false)
    (hhalf : b.state = .halfOpen) (hx : x.Owns) : (x.after a k (a.exec b).2).Owns := by
  obtain ⟨hprobe, hrun | ⟨a₁, k₁, hph, hund⟩⟩ := hx
  · rw [hphase] at hrun
    cases hrun
  · rw [hphase] at hph
    cases hph
    cases a with
    | successReset => exact ⟨by simp [Execution.after, Access.exec, hprobe, Access.answers],
        .inr ⟨.successClose, k, rfl, rfl⟩⟩
    | failureLoad now =>
      have hexec : (Access.exec b (.failureLoad now)).2 = .next (.failureOpen now) := by
        simp [Access.exec, hhalf]
      rw [hexec]
      exact ⟨by simp [Execution.after, hprobe, Access.answers], .inr ⟨.failureOpen now, k, rfl, rfl⟩⟩
    | successClose => cases hans
    | failureOpen now => cases hans
    | allowLoad now => cases hund
    | allowOpened now => cases hund
    | allowClaim now => cases hund
    | failureCount now => cases hund
    | failureStamp now => cases hund

theorem attended_access (h : s.Attended) (hi : s.executions[i]? = some x) (hphase : x.phase = .breaker a k) :
    Executor.Attended ({ s with breaker := (a.exec s.breaker).1 }.put i
      (x.after a k (a.exec s.breaker).2)) := by
  refine h.put hi (Execution.after_reporting hphase (h.reporting x (List.mem_of_getElem? hi)))
    fun hhalf => ?_
  rcases a.exec_state s.breaker with ⟨-, hnot⟩ | ⟨-, -, hadm⟩ | ⟨hans, hsame, -⟩
  · exact absurd hhalf hnot
  · rw [hadm]
    exact .inl ⟨rfl, .inl rfl⟩
  · rw [hsame] at hhalf
    by_cases hx : x.Owns
    · exact .inl (Execution.after_owns hphase hans hhalf hx)
    · exact .inr ⟨hhalf, hx⟩

theorem attended_init (failureThreshold cooldownMs : ℕ) :
    (Executor.init failureThreshold cooldownMs).Attended :=
  ⟨fun x hx => by simp [Executor.init] at hx, fun h => by simp [Executor.init, CircuitBreaker.new] at h⟩

theorem Execution.not_reporting (hrun : x.phase ≠ .running) (hbreaker : ∀ a k, x.phase ≠ .breaker a k) :
    ¬ x.Reporting := by
  rintro (h | ⟨a, k, h, -⟩)
  · exact hrun h
  · exact hbreaker a k h

/-- **Step**: an event that ends no unreported probe keeps the half-open state attended. -/
theorem attended_step (s : Executor) (e : ExecEvent) (s' : Executor) (h : s.Attended)
    (hrep : s.Reports e) (hstep : s.step e = some s') : s'.Attended := by
  cases e with
  | execute opMeta =>
    cases hstep
    refine ⟨fun x hx hprobe => ?_, fun hhalf => ?_⟩
    · rcases List.mem_append.mp hx with hx | hx
      · exact h.reporting x hx hprobe
      · rw [List.mem_singleton.mp hx] at hprobe
        cases hprobe
    · obtain ⟨x, hx, howns⟩ := h.owned hhalf
      exact ⟨x, List.mem_append_left _ hx, howns⟩
  | attempt i now =>
    obtain ⟨x, hi, hx⟩ := Option.bind_eq_some_iff.mp hstep
    split at hx
    · next hphase =>
      cases hx
      have hidle := h.idle hi (Execution.not_reporting (by simp [hphase]) (by simp [hphase]))
      refine h.put_idle hi hidle ?_
      simp only [Execution.enter]
      split
      · exact hidle
      · split <;> exact hidle
    · cases hx
  | access i =>
    obtain ⟨x, hi, hx⟩ := Option.bind_eq_some_iff.mp hstep
    split at hx
    · next a k hphase =>
      cases hx
      exact attended_access h hi hphase
    · cases hx
  | bodyOk i =>
    obtain ⟨x, hi, hx⟩ := Option.bind_eq_some_iff.mp hstep
    split at hx
    · next hphase =>
      cases hx
      by_cases hcancel : x.cancelled = true
      · -- A cancelled execution returns without a report: it was no probe.
        have hidle : x.probe = false := by
          by_contra hprobe
          have := hrep x hi hphase (by simpa using hprobe)
          simp [hcancel] at this
        exact h.put_idle hi hidle (by simp [Execution.bodyOk, hcancel, hidle])
      · simp only [Execution.bodyOk, hcancel]
        exact h.put_report hi rfl rfl rfl
    · cases hx
  | bodyErr i retryable now =>
    obtain ⟨x, hi, hx⟩ := Option.bind_eq_some_iff.mp hstep
    split at hx
    · next hphase =>
      cases hx
      by_cases hcancel : x.cancelled = true
      · have hidle : x.probe = false := by
          by_contra hprobe
          have := hrep x hi hphase (by simpa using hprobe)
          simp [hcancel] at this
        exact h.put_idle hi hidle (by simp [Execution.bodyErr, hcancel, hidle])
      · simp only [Execution.bodyErr, hcancel]
        exact h.put_report hi rfl rfl rfl
    · cases hx
  | elapsed i now =>
    obtain ⟨x, hi, hx⟩ := Option.bind_eq_some_iff.mp hstep
    split at hx
    · cases hx
      exact h.put_report hi rfl rfl rfl
    · cases hx
  | waited i outcome =>
    obtain ⟨x, hi, hx⟩ := Option.bind_eq_some_iff.mp hstep
    split at hx
    · next hphase =>
      cases hx
      have hidle := h.idle hi (Execution.not_reporting (by rcases hphase with h | h <;> simp [h])
        (by rcases hphase with h | h <;> simp [h]))
      exact h.put_idle hi hidle (by cases outcome <;> exact hidle)
    · cases hx
  | cancel i =>
    obtain ⟨x, hi, hx⟩ := Option.bind_eq_some_iff.mp hstep
    cases hx
    refine h.put hi (h.reporting x (List.mem_of_getElem? hi)) fun hhalf => ?_
    by_cases howns : x.Owns
    · exact .inl howns
    · exact .inr ⟨hhalf, howns⟩
  | abort i =>
    obtain ⟨x, hi, hx⟩ := Option.bind_eq_some_iff.mp hstep
    split at hx
    · next hphase =>
      cases hx
      have hidle : x.probe = false := by
        rcases hphase with hrun | hwait | hwait
        · exact hrep x hi hrun
        · exact h.idle hi (Execution.not_reporting (by simp [hwait]) (by simp [hwait]))
        · exact h.idle hi (Execution.not_reporting (by simp [hwait]) (by simp [hwait]))
      exact h.put_idle hi hidle hidle
    · cases hx

/-- Whoever ends an unreported probe leaves a returned execution that never reported. -/
theorem not_healthy_of_unreported {e : ExecEvent} {s' : Executor} (hnot : ¬ s.Reports e)
    (hstep : s.step e = some s') : ¬ s'.Healthy := by
  have hleft : ∀ (i : ℕ) (x y : Execution), s.executions[i]? = some x → s' = s.put i y →
      y.inFlight = false → y.probe = true → ¬ s'.Healthy := by
    rintro i x y hi rfl hret hprobe ⟨-, hreported⟩
    have hmem := List.mem_set (List.getElem?_eq_some_iff.mp hi).1 y
    rw [hreported y hmem hret] at hprobe
    cases hprobe
  cases e with
  | bodyOk i =>
    obtain ⟨x, hi, hx⟩ := Option.bind_eq_some_iff.mp hstep
    have hbad : x.phase = .running ∧ x.probe = true ∧ x.cancelled = true := by
      simpa [Executor.Reports, hi] using hnot
    rw [if_pos hbad.1, Option.some.injEq] at hx
    exact hleft i x _ hi hx.symm (by simp [Execution.bodyOk, hbad, Execution.inFlight])
      (by simp [Execution.bodyOk, hbad])
  | bodyErr i retryable now =>
    obtain ⟨x, hi, hx⟩ := Option.bind_eq_some_iff.mp hstep
    have hbad : x.phase = .running ∧ x.probe = true ∧ x.cancelled = true := by
      simpa [Executor.Reports, hi] using hnot
    rw [if_pos hbad.1, Option.some.injEq] at hx
    exact hleft i x _ hi hx.symm (by simp [Execution.bodyErr, hbad, Execution.inFlight])
      (by simp [Execution.bodyErr, hbad])
  | abort i =>
    obtain ⟨x, hi, hx⟩ := Option.bind_eq_some_iff.mp hstep
    have hbad : x.phase = .running ∧ x.probe = true := by
      simpa [Executor.Reports, hi] using hnot
    rw [if_pos (.inl hbad.1), Option.some.injEq] at hx
    exact hleft i x _ hi hx.symm rfl hbad.2
  | execute opMeta => exact absurd trivial hnot
  | attempt i now => exact absurd trivial hnot
  | access i => exact absurd trivial hnot
  | elapsed i now => exact absurd trivial hnot
  | waited i outcome => exact absurd trivial hnot
  | cancel i => exact absurd trivial hnot

/-- A run all of whose states are healthy ends no unreported probe. -/
theorem along_of_healthy {es : List ExecEvent} {t : Executor} (hrun : Trace.run Executor.step s es = some t)
    (h : ∀ pre post u, es = pre ++ post → Trace.run Executor.step s pre = some u → u.Healthy) :
    Trace.Along Executor.step Executor.Reports s es := by
  induction es generalizing s with
  | nil => trivial
  | cons e es ih =>
    obtain ⟨s', hs', hrun'⟩ := Trace.run_cons_eq_some.mp hrun
    have hfirst : s'.Healthy := h [e] es s' rfl (Trace.run_cons_eq_some.mpr ⟨s', hs', rfl⟩)
    refine ⟨by_contra fun hnot => not_healthy_of_unreported hnot hs' hfirst, fun s'' hs'' => ?_⟩
    rw [hs', Option.some.injEq] at hs''
    subst hs''
    refine ih hrun' fun pre post u hpre hu => ?_
    exact h (e :: pre) post u (by rw [hpre]; rfl) (Trace.run_cons_eq_some.mpr ⟨s', hs', hu⟩)

/-- **Every probe reports unless it is cancelled or dropped.**  In a run of executions over one
breaker, the breaker is half-open only while a probe is in flight and every returned probe has
reported, in every state of the run, exactly when no step finds the token of an unreported probe
cancelled at the return of its body, or drops the future of one. -/
theorem healthy_iff_probes_report (failureThreshold cooldownMs : ℕ) (es : List ExecEvent)
    (s : Executor) (hrun : Trace.run Executor.step (.init failureThreshold cooldownMs) es = some s) :
    (∀ pre post t, es = pre ++ post →
        Trace.run Executor.step (.init failureThreshold cooldownMs) pre = some t → t.Healthy) ↔
      Trace.Along Executor.step Executor.Reports (.init failureThreshold cooldownMs) es := by
  refine ⟨along_of_healthy hrun, fun halong pre post t hpre ht => ?_⟩
  subst hpre
  have hfst := (Trace.along_append halong ht).1
  exact (Trace.run_invariant_along attended_step (attended_init _ _) hfst ht).healthy

/-- A breaker with threshold one: the first execution fails and trips it, and the second claims
the probe after the cooldown of five. -/
def failAndProbe : List ExecEvent :=
  [.execute ⟨100, 1, .always⟩, .attempt 0 0, .access 0, .bodyErr 0 false 10,
    .access 0, .access 0, .access 0, .access 0,
    .execute ⟨100, 1, .always⟩, .attempt 1 20, .access 1, .access 1, .access 1]

theorem probe_reports_success :
    ∃ s, Trace.run Executor.step (.init 1 5) (failAndProbe ++ [.bodyOk 1, .access 1, .access 1]) =
        some s ∧ s.Healthy ∧ s.breaker.state = .closed := by
  refine ⟨_, rfl, ?_, by decide⟩
  have hreports : Trace.Along Executor.step Executor.Reports (.init 1 5)
      (failAndProbe ++ [.bodyOk 1, .access 1, .access 1]) := by decide
  exact (healthy_iff_probes_report 1 5 _ _ rfl).mpr hreports
    (failAndProbe ++ [.bodyOk 1, .access 1, .access 1]) [] _ (List.append_nil _).symm rfl

/-- The probe is cancelled while its body runs: the body returns, the execution returns, and the
breaker stays half-open with nothing in flight. -/
theorem cancelled_probe_leaves_half_open :
    ¬ ∀ (failureThreshold cooldownMs : ℕ) (es : List ExecEvent) (s : Executor),
      Trace.run Executor.step (.init failureThreshold cooldownMs) es = some s → s.Healthy := by
  intro h
  have hbad := h 1 5 (failAndProbe ++ [.cancel 1, .bodyOk 1]) _ rfl
  obtain ⟨x, hx, hprobe, hflight⟩ := hbad.1 (by decide)
  revert x
  decide

end Circuit
