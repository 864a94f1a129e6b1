/-
# Programs that others disturb, and that may crash

A program calls operations and goes on with their answers.  Between two calls others may change the world;
a crash ends a run wherever it stands.  What a program does is stated by a precondition transformer: the
postcondition holds when the program ends, and each call meets its guard, whatever the answers and whatever
others do in between.

* `Program`, `Program.bind` : programs over operations and their answers;
* `Program.exec`, `Program.worlds` : the run when every operation has one outcome, and the worlds a crash may
  leave;
* `Machine`, `Machine.Reach` : what an operation does, and the runs of a program;
* `Fallible` : programs whose failure ends them;
* `Machine.wp`, `wp_bind`, `wp_mono`, `wp_call`, `wp_andThen` : the transformer and its rules;
* `Machine.Reach.sound` : at every point of a run the invariant holds, and the rest of the program is safe.
-/
import Mathlib

namespace Crash

variable {Op : Type} {Ret : Op → Type} {World : Type} {α β ε : Type}

/-- A program: it has ended with a result, or calls an operation and goes on with its answer. -/
inductive Program (Op : Type) (Ret : Op → Type) (α : Type)
  | ret (a : α)
  | call (o : Op) (next : Ret o → Program Op Ret α)

namespace Program

/-- One program after another. -/
def bind : Program Op Ret α → (α → Program Op Ret β) → Program Op Ret β
  | .ret a, f => f a
  | .call o next, f => .call o fun r => (next r).bind f

instance : Monad (Program Op Ret) where
  pure := .ret
  bind := bind

/-- A single call. -/
def perform (o : Op) : Program Op Ret (Ret o) := .call o .ret

/-- The run of a program when every operation has one outcome. -/
def exec (handle : World → (o : Op) → Ret o × World) : Program Op Ret α → World → α × World
  | .ret a, w => (a, w)
  | .call o next, w => exec handle (next (handle w o).1) (handle w o).2

theorem exec_bind (handle : World → (o : Op) → Ret o × World) (p : Program Op Ret α)
    (f : α → Program Op Ret β) (w : World) :
    exec handle (p.bind f) w = exec handle (f (exec handle p w).1) (exec handle p w).2 := by
  induction p generalizing w with
  | ret a => rfl
  | call o next ih => exact ih _ _

/-- The worlds that the run of a program goes through: where a crash may leave it. -/
def worlds (handle : World → (o : Op) → Ret o × World) : Program Op Ret α → World → List World
  | .ret _, w => [w]
  | .call o next, w => w :: worlds handle (next (handle w o).1) (handle w o).2

end Program

/-! ## Programs that may fail -/

/-- A program whose failure ends it. -/
def Fallible (Op : Type) (Ret : Op → Type) (ε α : Type) := Program Op Ret (Except ε α)

namespace Fallible

/-- Go on with the result, or fail. -/
def andThen (p : Fallible Op Ret ε α) (f : α → Fallible Op Ret ε β) : Fallible Op Ret ε β :=
  Program.bind p fun
    | .ok a => f a
    | .error e => .ret (.error e)

instance : Monad (Fallible Op Ret ε) where
  pure a := .ret (.ok a)
  bind := andThen

/-- A single call. -/
def call (o : Op) : Fallible Op Ret ε (Ret o) := Program.call o fun r => Program.ret (.ok r)

/-- The end in a failure. -/
def fail (e : ε) : Fallible Op Ret ε α := .ret (.error e)

/-- A result computed without a call. -/
def lift (r : Except ε α) : Fallible Op Ret ε α := .ret r

theorem call_bind (o : Op) (f : Ret o → Fallible Op Ret ε β) : (call o >>= f) = Program.call o f := rfl

variable {handle : World → (o : Op) → Ret o × World} {p : Fallible Op Ret ε α}
  {f : α → Fallible Op Ret ε β} {w w' : World}

theorem exec_call_bind (o : Op) (f : Ret o → Fallible Op Ret ε β) (w : World) :
    Program.exec handle (call o >>= f : Fallible Op Ret ε β) w =
      (f (handle w o).1).exec handle (handle w o).2 := rfl

theorem worlds_call_bind (o : Op) (f : Ret o → Fallible Op Ret ε β) (w : World) :
    Program.worlds handle (call o >>= f : Fallible Op Ret ε β) w =
      w :: (f (handle w o).1).worlds handle (handle w o).2 := rfl

/-- **The run of a sequence** whose first part ends in a result. -/
theorem exec_bind_ok {a : α} (h : p.exec handle w = (.ok a, w')) :
    Program.exec handle (p >>= f : Fallible Op Ret ε β) w = (f a).exec handle w' := by
  refine (Program.exec_bind handle p _ w).trans ?_
  rw [h]

/-- The run of a sequence whose first part fails. -/
theorem exec_bind_error {err : ε} (h : p.exec handle w = (.error err, w')) :
    Program.exec handle (p >>= f : Fallible Op Ret ε β) w = (.error err, w') := by
  refine (Program.exec_bind handle p _ w).trans ?_
  rw [h]
  rfl

/-- First parts with the same run make sequences with the same run. -/
theorem exec_bind_congr {q : Fallible Op Ret ε α} (h : p.exec handle w = q.exec handle w') :
    Program.exec handle (p >>= f : Fallible Op Ret ε β) w =
      Program.exec handle (q >>= f : Fallible Op Ret ε β) w' := by
  refine (Program.exec_bind handle p _ w).trans (Eq.trans ?_ (Program.exec_bind handle q _ w').symm)
  rw [h]

/-- A sequence that ends in a result has a first part that does. -/
theorem exec_bind_eq_ok {b : β} (h : Program.exec handle (p >>= f : Fallible Op Ret ε β) w = (.ok b, w')) :
    ∃ a w₁, p.exec handle w = (.ok a, w₁) ∧ (f a).exec handle w₁ = (.ok b, w') := by
  rcases hp : p.exec handle w with ⟨err | a, w₁⟩
  · rw [exec_bind_error hp] at h
    cases h
  · exact ⟨a, w₁, rfl, (exec_bind_ok hp).symm.trans h⟩

end Fallible

/-! ## Runs -/

/-- What operations do to the world and answer, and what others may do between two calls. -/
structure Machine (Op : Type) (Ret : Op → Type) (World : Type) where
  perform : World → (o : Op) → Ret o → World → Prop
  disturb : World → World → Prop
  disturb_refl : ∀ w, disturb w w
  disturb_trans : ∀ {a b c}, disturb a b → disturb b c → disturb a c

namespace Machine

variable (m : Machine Op Ret World)

/-- The points of the runs of a program: the world, and what is left of the program. -/
inductive Reach (w : World) (p : Program Op Ret α) : World → Program Op Ret α → Prop
  | start : Reach w p w p
  | disturb {w₁ w₂ p₁} : Reach w p w₁ p₁ → m.disturb w₁ w₂ → Reach w p w₂ p₁
  | call {w₁ w₂ o next r} : Reach w p w₁ (.call o next) → m.perform w₁ o r w₂ → Reach w p w₂ (next r)

variable {m} in
/-- A run in which every operation has one outcome is one of the runs. -/
theorem Reach.of_worlds {handle : World → (o : Op) → Ret o × World}
    (hhandle : ∀ w o, m.perform w o (handle w o).1 (handle w o).2) {p : Program Op Ret α} {w w' : World}
    (h : w' ∈ p.worlds handle w) : ∃ p', m.Reach w p w' p' := by
  have hfrom : ∀ {w₀ w₁ w₂ : World} {p₀ p₁ : Program Op Ret α},
      m.Reach w₀ p₀ w₁ p₁ → w₂ ∈ p₁.worlds handle w₁ → ∃ p', m.Reach w₀ p₀ w₂ p' := by
    intro w₀ w₁ w₂ p₀ p₁ hreach hmem
    induction p₁ generalizing w₁ with
    | ret a =>
      obtain rfl := List.mem_singleton.mp hmem
      exact ⟨_, hreach⟩
    | call o next ih =>
      rcases List.mem_cons.mp hmem with rfl | hmem
      · exact ⟨_, hreach⟩
      · exact ih _ (hreach.call (hhandle _ _)) hmem
  exact hfrom .start h

/-- What runs keep: an invariant of the world, and a guard on calls under which they keep it. -/
structure Discipline where
  inv : World → Prop
  guard : World → Op → Prop
  disturb_inv : ∀ {w w'}, inv w → m.disturb w w' → inv w'
  perform_inv : ∀ {w o r w'}, inv w → guard w o → m.perform w o r w' → inv w'

variable {m}

/-- The programs that, from a world on, make only guarded calls and end in the postcondition. -/
def wp (d : m.Discipline) (post : α → World → Prop) : Program Op Ret α → World → Prop
  | .ret a, w => ∀ w', m.disturb w w' → post a w'
  | .call o next, w => ∀ w₁, d.inv w₁ → m.disturb w w₁ →
      d.guard w₁ o ∧ ∀ r w₂, m.perform w₁ o r w₂ → wp d post (next r) w₂

variable {d : m.Discipline} {post post' : α → World → Prop} {p : Program Op Ret α} {w w' : World}

/-- What others do first makes no difference. -/
theorem wp_disturb (h : wp d post p w) (hw : m.disturb w w') : wp d post p w' := by
  cases p with
  | ret a => exact fun w₁ h₁ => h w₁ (m.disturb_trans hw h₁)
  | call o next => exact fun w₁ hinv h₁ => h w₁ hinv (m.disturb_trans hw h₁)

theorem wp_mono (hpost : ∀ a w, post a w → post' a w) (h : wp d post p w) : wp d post' p w := by
  induction p generalizing w with
  | ret a => exact fun w' hw => hpost a w' (h w' hw)
  | call o next ih =>
    intro w₁ hinv hw
    obtain ⟨hguard, hnext⟩ := h w₁ hinv hw
    exact ⟨hguard, fun r w₂ hr => ih r (hnext r w₂ hr)⟩

/-- **The rule of sequence.** -/
theorem wp_bind {f : α → Program Op Ret β} {post : β → World → Prop}
    (h : wp d (fun a w => wp d post (f a) w) p w) : wp d post (p.bind f) w := by
  induction p generalizing w with
  | ret a => exact h w (m.disturb_refl w)
  | call o next ih =>
    intro w₁ hinv hw
    obtain ⟨hguard, hnext⟩ := h w₁ hinv hw
    exact ⟨hguard, fun r w₂ hr => ih r (hnext r w₂ hr)⟩

/-- **The rule of a call** in the middle of a program. -/
theorem wp_call {o : Op} {next : Ret o → Program Op Ret α}
    (h : ∀ w₁, d.inv w₁ → m.disturb w w₁ → d.guard w₁ o ∧
      ∀ r w₂, m.perform w₁ o r w₂ → wp d post (next r) w₂) :
    wp d post (.call o next) w := h

/-- What a program that may fail ends in, when it does not fail. -/
def onOk (post : α → World → Prop) : Except ε α → World → Prop
  | .ok a, w => post a w
  | .error _, _ => True

/-- **The rule of sequence** for programs that may fail. -/
theorem wp_andThen {q : Fallible Op Ret ε α} {f : α → Fallible Op Ret ε β} {post : β → World → Prop}
    (h : wp d (onOk fun a w => wp d (onOk post) (f a) w) q w) :
    wp d (onOk post) (q >>= f : Fallible Op Ret ε β) w := by
  refine wp_bind (wp_mono (fun r w hr => ?_) h)
  cases r with
  | ok a => exact hr
  | error e => exact fun _ _ => trivial

/-- A failure meets every postcondition on results. -/
theorem wp_fail {post : α → World → Prop} (e : ε) :
    wp d (onOk post) (Fallible.fail e : Fallible Op Ret ε α) w :=
  fun _ _ => trivial

/-- **Soundness**: at every point of a run the invariant holds and the rest of the program is safe. -/
theorem Reach.sound (hinv : d.inv w) (hwp : wp d post p w) {p' : Program Op Ret α}
    (h : m.Reach w p w' p') : d.inv w' ∧ wp d post p' w' := by
  induction h with
  | start => exact ⟨hinv, hwp⟩
  | disturb _ hw ih => exact ⟨d.disturb_inv ih.1 hw, wp_disturb ih.2 hw⟩
  | call _ hr ih =>
    obtain ⟨hguard, hnext⟩ := ih.2 _ ih.1 (m.disturb_refl _)
    exact ⟨d.perform_inv ih.1 hguard hr, hnext _ _ hr⟩

/-- A call that a run is about to make is guarded. -/
theorem Reach.guard (hinv : d.inv w) (hwp : wp d post p w) {o : Op} {next : Ret o → Program Op Ret α}
    (h : m.Reach w p w' (.call o next)) : d.guard w' o := by
  obtain ⟨hinv', hwp'⟩ := h.sound hinv hwp
  exact (hwp' w' hinv' (m.disturb_refl w')).1

/-- The postcondition holds where a run ends. -/
theorem Reach.ends (hinv : d.inv w) (hwp : wp d post p w) {a : α} (h : m.Reach w p w' (.ret a)) :
    post a w' :=
  (h.sound hinv hwp).2 w' (m.disturb_refl w')

/-- The runs of one program after another, each ending or crashing: the worlds that are reached. -/
inductive Lives (m : Machine Op Ret World) (starts : World → Program Op Ret α → Prop) (w : World) :
    World → Prop
  | start : Lives m starts w w
  | run {w₁ w₂ p p'} : Lives m starts w w₁ → starts w₁ p → m.Reach w₁ p w₂ p' → Lives m starts w w₂

/-- The invariant holds wherever safe programs lead. -/
theorem Lives.inv {starts : World → Program Op Ret α → Prop} (hinv : d.inv w)
    (hsafe : ∀ {w p}, d.inv w → starts w p → ∃ post, wp d post p w) (h : m.Lives starts w w') :
    d.inv w' := by
  induction h with
  | start => exact hinv
  | run _ hstart hreach ih =>
    obtain ⟨post, hwp⟩ := hsafe ih hstart
    exact (hreach.sound ih hwp).1

end Machine

end Crash
