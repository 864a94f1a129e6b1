/-
# Programs of atomic actions, their threads and their crashes

A command of a service is a program: it takes one atomic action after the other (a read, a
transaction, a lock), looks at each reply and decides what to do next.  Several such programs run
at once over one shared state, their actions interleaved in any order, and a crash drops all of
them between two actions.

* `Prog` is the type of such programs, over any set of actions with their replies; it is a monad,
  so that a command is written in `do` notation in the order of its source.
* `wp` says that every action of a program meets a guarantee, whatever the replies are, as long
  as the replies meet an assumption; `wp_bind` makes it compositional.
* `System` runs programs as threads, with crashes, and `System.run_invariant` is the rule to
  prove an invariant of the shared state: every command keeps its guarantee, and every action that
  meets its guarantee keeps the invariant.
* `runAlone` runs one program with nothing in between, in a fixed environment; `Returns` says what
  holds of its result and final state, with a rule for each way to build a program.
-/
import Faktor.Trace

namespace AtomicProgram

/-- The atomic actions a program can take, and what each of them replies. -/
structure Interface where
  Call : Type
  Reply : Call → Type

variable {I : Interface} {ε α β : Type}

/-- A program of atomic actions that returns an `α` or fails with an `ε`. -/
inductive Prog (I : Interface) (ε α : Type) : Type
  | ret (a : α)
  | fail (e : ε)
  | call (c : I.Call) (k : I.Reply c → Prog I ε α)

namespace Prog

/-- Sequencing; a failure of the first program is the failure of the whole. -/
def bind : Prog I ε α → (α → Prog I ε β) → Prog I ε β
  | ret a, f => f a
  | fail e, _ => fail e
  | call c k, f => call c fun r => (k r).bind f

instance : Monad (Prog I ε) where
  pure := ret
  bind := bind

/-- The program that takes one action and returns its reply. -/
def act (c : I.Call) : Prog I ε (I.Reply c) := call c ret

/-- A pure computation that may fail, as a program without actions. -/
def fromExcept : Except ε α → Prog I ε α
  | .ok a => ret a
  | .error e => fail e

/-- Run `cleanup` after the program, whether it returns or fails (a guard's drop). -/
def ensuring : Prog I ε α → Prog I ε Unit → Prog I ε α
  | ret a, cleanup => cleanup.bind fun _ => ret a
  | fail e, cleanup => cleanup.bind fun _ => fail e
  | call c k, cleanup => call c fun r => (k r).ensuring cleanup

/-- One program for each element of a list, in order, with an accumulator. -/
def foldl {γ : Type} (f : β → γ → Prog I ε β) : β → List γ → Prog I ε β
  | b, [] => ret b
  | b, x :: xs => (f b x).bind fun b' => foldl f b' xs

@[simp] theorem pure_def (a : α) : (pure a : Prog I ε α) = ret a := rfl

@[simp] theorem bind_def (p : Prog I ε α) (f : α → Prog I ε β) : p >>= f = p.bind f := rfl

@[simp] theorem ret_bind (a : α) (f : α → Prog I ε β) : (ret a).bind f = f a := rfl

@[simp] theorem fail_bind (e : ε) (f : α → Prog I ε β) : (fail e : Prog I ε α).bind f = fail e :=
  rfl

@[simp] theorem call_bind (c : I.Call) (k : I.Reply c → Prog I ε α) (f : α → Prog I ε β) :
    (call c k).bind f = call c fun r => (k r).bind f := rfl

end Prog

open Prog

/-! ## Guarantees -/

section Guarantee

variable {P : I.Call → Prop} {R : (c : I.Call) → I.Reply c → Prop}

/-- Every action of the program meets `P` as long as every reply meets `R`, and what the program
then returns meets `Q`. -/
def wp (P : I.Call → Prop) (R : (c : I.Call) → I.Reply c → Prop) (Q : α → Prop) :
    Prog I ε α → Prop
  | .ret a => Q a
  | .fail _ => True
  | .call c k => P c ∧ ∀ r, R c r → wp P R Q (k r)

@[simp] theorem wp_ret {Q : α → Prop} (a : α) : wp P R Q (ret a : Prog I ε α) ↔ Q a := Iff.rfl

@[simp] theorem wp_fail {Q : α → Prop} (e : ε) : wp P R Q (fail e : Prog I ε α) := trivial

@[simp] theorem wp_call {Q : α → Prop} (c : I.Call) (k : I.Reply c → Prog I ε α) :
    wp P R Q (call c k) ↔ P c ∧ ∀ r, R c r → wp P R Q (k r) := Iff.rfl

@[simp] theorem wp_fromExcept {Q : α → Prop} (x : Except ε α) :
    wp P R Q (fromExcept x : Prog I ε α) ↔ ∀ a, x = .ok a → Q a := by
  cases x with
  | ok a => simp [fromExcept]
  | error e => simp [fromExcept]

/-- **Composition of guarantees.** -/
@[simp] theorem wp_bind {Q : β → Prop} (p : Prog I ε α) (f : α → Prog I ε β) :
    wp P R Q (p.bind f) ↔ wp P R (fun a => wp P R Q (f a)) p := by
  induction p with
  | ret a => rfl
  | fail e => rfl
  | call c k ih => simp only [call_bind, wp_call, ih]

@[simp] theorem wp_ite {Q : α → Prop} {p : Prop} [Decidable p] (x y : Prog I ε α) :
    wp P R Q (if p then x else y) ↔ (p → wp P R Q x) ∧ (¬ p → wp P R Q y) := by
  by_cases h : p <;> simp [h]

variable {p : Prog I ε α}

theorem wp_mono {Q Q' : α → Prop} (h : wp P R Q p) (hQ : ∀ a, Q a → Q' a) :
    wp P R Q' p := by
  induction p with
  | ret a => exact hQ a h
  | fail e => trivial
  | call c k ih => exact ⟨h.1, fun r hr => ih r (h.2 r hr)⟩

/-- A guarded program keeps its guarantee when the cleanup does, on either way out. -/
theorem wp_ensuring {Q : α → Prop} {cleanup : Prog I ε Unit}
    (hp : wp P R Q p) (hc : wp P R (fun _ => True) cleanup) : wp P R Q (p.ensuring cleanup) := by
  induction p with
  | ret a =>
    rw [ensuring, wp_bind]
    exact wp_mono hc fun _ _ => hp
  | fail e =>
    rw [ensuring, wp_bind]
    exact wp_mono hc fun _ _ => trivial
  | call c k ih => exact ⟨hp.1, fun r hr => ih r (hp.2 r hr)⟩

/-- A fold keeps its guarantee when each of its steps does under an invariant of the
accumulator. -/
theorem wp_foldl {γ : Type} {J : β → Prop} {f : β → γ → Prog I ε β} {xs : List γ}
    (hf : ∀ b, J b → ∀ x ∈ xs, wp P R J (f b x)) {b : β} (hb : J b) :
    wp P R J (Prog.foldl f b xs) := by
  induction xs generalizing b with
  | nil => exact hb
  | cons x xs ih =>
    rw [Prog.foldl, wp_bind]
    refine wp_mono (hf b hb x List.mem_cons_self) fun b' hb' => ?_
    exact ih (fun b hb x hx => hf b hb x (List.mem_cons_of_mem _ hx)) hb'

end Guarantee

/-! ## Threads and crashes -/

/-- A service: what each action does to the shared state in a given environment (`none` while the
action is blocked), what a crash leaves of that state, and the program of each command. -/
structure System (I : Interface) (ε σ τ Cmd : Type) where
  exec : σ → (c : I.Call) → τ → Option (σ × I.Reply c)
  crash : σ → σ
  program : Cmd → Prog I ε Unit

namespace System

variable {σ τ Cmd : Type} (S : System I ε σ τ Cmd)

/-- The shared state and the programs still running. -/
structure World (I : Interface) (ε σ : Type) where
  shared : σ
  threads : List (Prog I ε Unit)

/-- What can happen next: a command starts, a thread takes its next action, or everything in
memory is lost. -/
inductive Event (τ Cmd : Type)
  | start (cmd : Cmd)
  | step (i : ℕ) (env : τ)
  | crash

/-- One event of the system. -/
def step (w : World I ε σ) : Event τ Cmd → Option (World I ε σ)
  | .start cmd => some { w with threads := w.threads ++ [S.program cmd] }
  | .step i env =>
    match w.threads[i]? with
    | some (.call c k) =>
      (S.exec w.shared c env).map fun sr =>
        { shared := sr.1, threads := w.threads.set i (k sr.2) }
    | _ => none
  | .crash => some { shared := S.crash w.shared, threads := [] }

/-- The action an event takes, when it takes one. -/
def next (w : World I ε σ) : Event τ Cmd → Option (I.Call × τ)
  | .step i env =>
    match w.threads[i]? with
    | some (.call c _) => some (c, env)
    | _ => none
  | _ => none

/-- A condition on actions and the state they are taken in, as a condition on events. -/
def OnCall (cond : σ → I.Call → τ → Prop) (w : World I ε σ) (e : Event τ Cmd) : Prop :=
  ∀ ce ∈ (next w e), cond w.shared ce.1 ce.2

instance decidableOnCall (cond : σ → I.Call → τ → Prop) [∀ s c t, Decidable (cond s c t)]
    (w : World I ε σ) (e : Event τ Cmd) : Decidable (OnCall cond w e) :=
  match h : next w e with
  | none => .isTrue (by simp [OnCall, h])
  | some ce => decidable_of_iff (cond w.shared ce.1 ce.2) (by simp [OnCall, h])

variable {S} {w w' : World I ε σ}

/-- What a step can do: only the action of a running thread or a crash touches the shared
state. -/
theorem step_cases {e : Event τ Cmd} (h : S.step w e = some w') :
    (∃ cmd, w' = { w with threads := w.threads ++ [S.program cmd] } ∧ e = .start cmd) ∨
    (∃ i env c k s' r, e = .step i env ∧ w.threads[i]? = some (.call c k) ∧
      next w e = some (c, env) ∧ S.exec w.shared c env = some (s', r) ∧
      w' = { shared := s', threads := w.threads.set i (k r) }) ∨
    (w' = { shared := S.crash w.shared, threads := [] } ∧ e = .crash) := by
  cases e with
  | start cmd => exact .inl ⟨cmd, (Option.some.inj h).symm, rfl⟩
  | crash => exact .inr (.inr ⟨(Option.some.inj h).symm, rfl⟩)
  | step i env =>
    refine .inr (.inl ?_)
    rw [step] at h
    split at h
    · next c k hk =>
      obtain ⟨⟨s', r⟩, hexec, hw⟩ := Option.map_eq_some_iff.mp h
      exact ⟨i, env, c, k, s', r, rfl, hk, by rw [next, hk], hexec, hw.symm⟩
    · exact absurd h (by simp)

section Rule

variable {Inv : σ → Prop} {P : I.Call → Prop} {R : (c : I.Call) → I.Reply c → Prop}
  {cond : σ → I.Call → τ → Prop}

/-- The invariant of the shared state, and the guarantee of every thread. -/
def Safe (Inv : σ → Prop) (P : I.Call → Prop) (R : (c : I.Call) → I.Reply c → Prop)
    (w : World I ε σ) : Prop :=
  Inv w.shared ∧ ∀ p ∈ w.threads, wp P R (fun _ => True) p

section

variable (hprog : ∀ cmd, wp P R (fun _ => True) (S.program cmd))
  (hexec : ∀ s c env s' r, Inv s → P c → cond s c env → S.exec s c env = some (s', r) → Inv s' ∧ R c r)
  (hcrash : ∀ s, Inv s → Inv (S.crash s)) (hw : Safe Inv P R w)
include hprog hexec hcrash hw

theorem step_safe {e : Event τ Cmd} (hcond : OnCall cond w e) (hstep : S.step w e = some w') :
    Safe Inv P R w' := by
  obtain ⟨hinv, hthreads⟩ := hw
  rcases step_cases hstep with ⟨cmd, rfl, -⟩ | ⟨i, env, c, k, s', r, -, hk, hnext, hex, rfl⟩ |
    ⟨rfl, -⟩
  · refine ⟨hinv, fun p hp => ?_⟩
    rcases List.mem_append.mp hp with hp | hp
    · exact hthreads p hp
    · rw [List.mem_singleton.mp hp]
      exact hprog cmd
  · have hthread : wp P R (fun _ => True) (.call c k) :=
      hthreads _ (List.mem_of_getElem? hk)
    obtain ⟨hinv', hr⟩ := hexec _ c env s' r hinv hthread.1 (hcond (c, env) hnext) hex
    refine ⟨hinv', fun p hp => ?_⟩
    rcases List.mem_or_eq_of_mem_set hp with hp | rfl
    · exact hthreads p hp
    · exact hthread.2 r hr
  · exact ⟨hcrash _ hinv, fun p hp => absurd hp List.not_mem_nil⟩

/-- **Invariant rule for services.**  When every command keeps the guarantee `P` under the
assumption `R` on replies, and every action that meets `P` and the condition keeps the invariant
and replies as assumed, the invariant holds at the end of every run whose actions meet the
condition. -/
theorem run_invariant {es : List (Event τ Cmd)} (hcond : Trace.Along S.step (OnCall cond) w es)
    (hrun : Trace.run S.step w es = some w') : Safe Inv P R w' :=
  Trace.run_invariant_along (fun _ _ _ hs hc he => step_safe hprog hexec hcrash hs hc he)
    hw hcond hrun

end

variable {es : List (Event τ Cmd)}

/-- **Invariant rule for services**, where every action that meets its guarantee keeps the
invariant. -/
theorem run_invariant_of_exec (hprog : ∀ cmd, wp P R (fun _ => True) (S.program cmd))
    (hexec : ∀ s c env s' r, Inv s → P c → S.exec s c env = some (s', r) → Inv s' ∧ R c r)
    (hcrash : ∀ s, Inv s → Inv (S.crash s)) (hw : Safe Inv P R w)
    (hrun : Trace.run S.step w es = some w') : Safe Inv P R w' :=
  have hall : Trace.Along S.step (OnCall fun _ _ _ => True) w es :=
    Trace.along_of_forall (fun _ _ _ _ => trivial) w es
  run_invariant hprog (fun s c env s' r hinv hP _ he => hexec s c env s' r hinv hP he) hcrash hw
    hall hrun

/-- **Invariant rule for the shared state alone**, where the invariant needs no guarantee of the
commands. -/
theorem run_shared_invariant
    (hexec : ∀ s c env s' r, Inv s → cond s c env → S.exec s c env = some (s', r) → Inv s')
    (hcrash : ∀ s, Inv s → Inv (S.crash s)) (hw : Inv w.shared)
    (hcond : Trace.Along S.step (OnCall cond) w es)
    (hrun : Trace.run S.step w es = some w') : Inv w'.shared := by
  have hstep : ∀ (w : World I ε σ) e w', Inv w.shared → OnCall cond w e →
      S.step w e = some w' → Inv w'.shared := by
    intro w e w' hinv honcall hwe
    rcases step_cases hwe with ⟨cmd, rfl, -⟩ | ⟨i, env, c, k, s', r, -, -, hnext, hex, rfl⟩ |
      ⟨rfl, -⟩
    · exact hinv
    · exact hexec w.shared c env s' r hinv (honcall (c, env) hnext) hex
    · exact hcrash _ hinv
  exact Trace.run_invariant_along hstep hw hcond hrun

end Rule

end System

/-! ## A program on its own -/

section Alone

variable {σ τ Cmd : Type} (S : System I ε σ τ Cmd) (env : τ)

/-- The program run with nothing in between and a fixed environment: how it ends and the state it
leaves, or `none` when one of its actions stays blocked. -/
def runAlone : Prog I ε α → σ → Option (Except ε α × σ)
  | .ret a, s => some (.ok a, s)
  | .fail e, s => some (.error e, s)
  | .call c k, s => (S.exec s c env).bind fun sr => runAlone (k sr.2) sr.1

variable {S env}

@[simp] theorem runAlone_ret (a : α) (s : σ) :
    runAlone S env (ret a : Prog I ε α) s = some (.ok a, s) := rfl

@[simp] theorem runAlone_fail (e : ε) (s : σ) :
    runAlone S env (fail e : Prog I ε α) s = some (.error e, s) := rfl

@[simp] theorem runAlone_call (c : I.Call) (k : I.Reply c → Prog I ε α) (s : σ) :
    runAlone S env (call c k) s = (S.exec s c env).bind fun sr => runAlone S env (k sr.2) sr.1 :=
  rfl

/-- How a sequence runs: the second program starts in the state the first returned in. -/
theorem runAlone_bind (p : Prog I ε α) (f : α → Prog I ε β) (s : σ) :
    runAlone S env (p.bind f) s = (runAlone S env p s).bind fun
      | (.ok a, s') => runAlone S env (f a) s'
      | (.error e, s') => some (.error e, s') := by
  induction p generalizing s with
  | ret a => rfl
  | fail e => rfl
  | call c k ih =>
    rw [call_bind, runAlone_call, runAlone_call, Option.bind_assoc]
    simp only [ih]

/-- A guard's cleanup runs after the program, whichever way it ended. -/
theorem runAlone_ensuring (p : Prog I ε α) (cleanup : Prog I ε Unit) (s : σ) :
    runAlone S env (p.ensuring cleanup) s = (runAlone S env p s).bind fun xs =>
      (runAlone S env cleanup xs.2).map fun ys => (ys.1.bind fun _ => xs.1, ys.2) := by
  induction p generalizing s with
  | ret a =>
    rw [ensuring, runAlone_bind, runAlone_ret, Option.bind_some]
    rcases runAlone S env cleanup s with _ | ⟨_ | _, _⟩ <;> rfl
  | fail e =>
    rw [ensuring, runAlone_bind, runAlone_fail, Option.bind_some]
    rcases runAlone S env cleanup s with _ | ⟨_ | _, _⟩ <;> rfl
  | call c k ih =>
    rw [ensuring, runAlone_call, runAlone_call, Option.bind_assoc]
    simp only [ih]

/-! ### What a program returns -/

variable (S env) in
/-- Whatever the program returns from `s`, and the state it leaves, meets `Q`. -/
def Returns (p : Prog I ε α) (s : σ) (Q : α → σ → Prop) : Prop :=
  ∀ a s', runAlone S env p s = some (.ok a, s') → Q a s'

variable {s s' : σ} {Q Q' : α → σ → Prop}

@[simp] theorem returns_ret (a : α) : Returns S env (ret a : Prog I ε α) s Q ↔ Q a s := by
  simp [Returns]

@[simp] theorem returns_fail (e : ε) : Returns S env (fail e : Prog I ε α) s Q := by
  simp [Returns]

/-- A program that starts with an action that goes through. -/
theorem returns_call {c : I.Call} {k : I.Reply c → Prog I ε α} {r : I.Reply c}
    (h : S.exec s c env = some (s', r)) :
    Returns S env (call c k) s Q ↔ Returns S env (k r) s' Q := by
  rw [Returns, Returns, runAlone_call, h, Option.bind_some]

theorem returns_fromExcept (x : Except ε α) :
    Returns S env (fromExcept x : Prog I ε α) s Q ↔ ∀ a, x = .ok a → Q a s := by
  cases x with
  | ok a => simp [fromExcept]
  | error e => simp [fromExcept]

variable {p : Prog I ε α}

/-- **Composition.** -/
theorem returns_bind {f : α → Prog I ε β} {R : β → σ → Prop} :
    Returns S env (p.bind f) s R
      ↔ Returns S env p s fun a s' => Returns S env (f a) s' R := by
  rw [Returns, Returns, runAlone_bind]
  rcases runAlone S env p s with _ | ⟨x, s₁⟩
  · simp
  · cases x with
    | ok a => simp [Returns]
    | error e => simp

theorem Returns.mono (h : Returns S env p s Q) (hQ : ∀ a s', Q a s' → Q' a s') :
    Returns S env p s Q' := fun a s' hrun => hQ a s' (h a s' hrun)

theorem Returns.ensuring {cleanup : Prog I ε Unit}
    (h : Returns S env p s fun a s' => Returns S env cleanup s' fun _ s'' => Q a s'') :
    Returns S env (p.ensuring cleanup) s Q := by
  intro a s'' hrun
  rw [runAlone_ensuring, Option.bind_eq_some_iff] at hrun
  obtain ⟨⟨x, s₁⟩, hp, hcleanup⟩ := hrun
  obtain ⟨⟨y, s₂⟩, hc, heq⟩ := Option.map_eq_some_iff.mp hcleanup
  obtain ⟨hx, rfl⟩ := Prod.mk.inj heq
  rcases y with e | u
  · exact absurd hx (by simp [Except.bind])
  · obtain rfl : x = .ok a := hx
    exact h a s₁ hp u s₂ hc

/-- A fold, by an invariant of the elements still to come. -/
theorem Returns.foldl {γ : Type} {J : List γ → β → σ → Prop} {f : β → γ → Prog I ε β}
    (hf : ∀ x xs b s, J (x :: xs) b s → Returns S env (f b x) s (J xs)) {xs : List γ} {b : β}
    (hb : J xs b s) : Returns S env (Prog.foldl f b xs) s (J []) := by
  induction xs generalizing b s with
  | nil => exact (returns_ret b).mpr hb
  | cons x xs ih =>
    rw [Prog.foldl, returns_bind]
    exact (hf x xs b s hb).mono fun b' s' hb' => ih hb'

end Alone

end AtomicProgram
