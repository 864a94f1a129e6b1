/-
# Cancellation tokens

Tokens share an inner state behind counted handles.  A parent holds its children weakly, keyed by registration
ids, and a child holds weak links back to its parents, so that the last handle of a child takes its
registrations away.  A cancellation walks the live children breadth first.

* `Heap` : the inner states by address;
* `cancel`, `attach`, `child`, `dropHandle` : the operations;
* `step`, `run` : the operations that a program performs, with the calls of `attach` they make.
-/
import Mathlib

namespace Cancellation

/-! ## Data -/

/-- The address of an inner state. -/
abbrev Token : Type := ℕ

/-- `Inner` with the count of its handles: a cascade registration is its id with a weak child, a link back is a
weak parent with the id; the ids of a map ascend, as they are handed out. -/
structure Inner where
  strong : ℕ
  cancelled : Bool
  waiters : List (ℕ × Token)
  parents : List (Token × ℕ)
  deriving DecidableEq, Repr

/-- `Inner::default`, with its first handle. -/
def Inner.default : Inner := ⟨1, false, [], []⟩

/-- An address without an inner state. -/
def Inner.absent : Inner := ⟨0, false, [], []⟩

structure Heap where
  inners : List Inner
  nextRegistrationId : ℕ
  deriving DecidableEq, Repr

namespace Heap

def empty : Heap := ⟨[], 1⟩

def get (h : Heap) (t : Token) : Inner := h.inners.getD t Inner.absent

def modify (h : Heap) (t : Token) (f : Inner → Inner) : Heap := { h with inners := h.inners.modify t f }

/-- A weak reference to the token can be upgraded. -/
def Live (h : Heap) (t : Token) : Prop := 0 < (h.get t).strong

instance (h : Heap) (t : Token) : Decidable (h.Live t) := inferInstanceAs (Decidable (0 < _))

end Heap

/-! ## Cancellation -/

/-- The cascade children of a token that are alive. -/
def cascade (h : Heap) (t : Token) : List Token :=
  ((h.get t).waiters.map Prod.snd).filter fun child => h.Live child

/-- The flag of a token is set. -/
def mark (h : Heap) (t : Token) : Heap := h.modify t fun inner => { inner with cancelled := true }

/-- The tokens that are not cancelled. -/
def uncancelled (h : Heap) : ℕ := h.inners.countP fun inner => !inner.cancelled

theorem countP_modify_lt {l : List Inner} {t : Token} {inner : Inner} (hget : l[t]? = some inner)
    (hc : inner.cancelled = false) :
    (l.modify t fun inner => { inner with cancelled := true }).countP (fun inner => !inner.cancelled) <
      l.countP fun inner => !inner.cancelled := by
  induction l generalizing t with
  | nil => cases hget
  | cons x l ih =>
    cases t with
    | zero =>
      obtain rfl := Option.some.inj hget
      rw [List.modify_zero_cons, List.countP_cons, List.countP_cons, hc]
      simp
    | succ t =>
      have h := ih hget
      rw [List.modify_succ_cons, List.countP_cons, List.countP_cons]
      omega

theorem uncancelled_mark_lt {h : Heap} {t : Token} {inner : Inner} (hget : h.inners[t]? = some inner)
    (hc : inner.cancelled = false) : uncancelled (mark h t) < uncancelled h :=
  countP_modify_lt hget hc

/-- The loop of `cancel`; a queued token is alive, so that its address is never outside. -/
def drain : Heap → List Token → Heap
  | h, [] => h
  | h, t :: queue =>
    match hget : h.inners[t]? with
    | none => drain h queue
    | some inner =>
      if hc : inner.cancelled = true then drain h queue
      else
        have := uncancelled_mark_lt hget (Bool.eq_false_iff.mpr hc)
        drain (mark h t) (queue ++ cascade h t)
termination_by h queue => (uncancelled h, queue.length)

/-- `cancel`; the flag says whether this call performed it. -/
def cancel (h : Heap) (t : Token) : Heap × Bool :=
  if (h.get t).cancelled then (h, false) else (drain (mark h t) (cascade h t), true)

/-! ## Handles -/

/-- `CancellationToken::new`. -/
def new (h : Heap) : Heap × Token := ({ h with inners := h.inners ++ [Inner.default] }, h.inners.length)

/-- A second handle of a token. -/
def clone (h : Heap) (t : Token) : Heap := h.modify t fun inner => { inner with strong := inner.strong + 1 }

/-- One link of a dropped token: its registration leaves the parent, if that is alive. -/
def unregister (h : Heap) (link : Token × ℕ) : Heap :=
  if h.Live link.1 then
    h.modify link.1 fun parent => { parent with waiters := parent.waiters.filter fun entry => entry.1 ≠ link.2 }
  else h

/-- `Inner::drop`, when the last handle goes. -/
def dropInner (h : Heap) (t : Token) : Heap :=
  (h.get t).parents.foldl unregister
    (h.modify t fun inner => { inner with strong := 0, waiters := [], parents := [] })

/-- A handle goes. -/
def dropHandle (h : Heap) (t : Token) : Heap :=
  if (h.get t).strong ≤ 1 then dropInner h t
  else h.modify t fun inner => { inner with strong := inner.strong - 1 }

/-! ## Attachment -/

/-- The registration and its link back. -/
def register (h : Heap) (t other : Token) : Heap :=
  let id := h.nextRegistrationId
  let h := h.modify t fun inner => { inner with waiters := inner.waiters ++ [(id, other)] }
  let h := h.modify other fun inner => { inner with parents := inner.parents ++ [(t, id)] }
  { h with nextRegistrationId := id + 1 }

/-- `attach`; it consumes a handle of the other token. -/
def attach (h : Heap) (t other : Token) : Heap :=
  if (h.get t).cancelled then
    dropHandle (cancel { h with nextRegistrationId := h.nextRegistrationId + 1 } other).1 other
  else
    let h := register h t other
    -- the flag is read again after the locks
    let h := if (h.get t).cancelled then (cancel h other).1 else h
    dropHandle h other

/-- `child`. -/
def child (h : Heap) (t : Token) : Heap × Token :=
  let (h, child) := new h
  (attach (clone h child) t child, child)

/-! ## Programs -/

inductive Op
  | new
  | child (t : Token)
  | attach (t other : Token)
  | clone (t : Token)
  | drop (t : Token)
  | cancel (t : Token)
  deriving DecidableEq, Repr

/-- A call of `attach`, with whether its parent was not cancelled then. -/
structure Call where
  parent : Token
  child : Token
  registered : Bool
  deriving DecidableEq, Repr

/-- The call of `attach` that an operation makes. -/
def callsOf (h : Heap) : Op → List Call
  | .child t => [⟨t, h.inners.length, !(h.get t).cancelled⟩]
  | .attach t other => [⟨t, other, !(h.get t).cancelled⟩]
  | _ => []

/-- One operation, through handles that the program has; `attach` is called on one handle and takes another. -/
def step (h : Heap) : Op → Option Heap
  | .new => some (new h).1
  | .child t => if h.Live t then some (child h t).1 else none
  | .attach t other =>
    if h.Live t ∧ h.Live other ∧ (t = other → 2 ≤ (h.get t).strong) then some (attach h t other) else none
  | .clone t => if h.Live t then some (clone h t) else none
  | .drop t => if h.Live t then some (dropHandle h t) else none
  | .cancel t => if h.Live t then some (cancel h t).1 else none

/-- A program, and the calls of `attach` in their order. -/
def runFrom : Heap × List Call → List Op → Option (Heap × List Call)
  | s, [] => some s
  | (h, calls), op :: ops => do
    let h' ← step h op
    runFrom (h', calls ++ callsOf h op) ops

def run (ops : List Op) : Option (Heap × List Call) := runFrom (Heap.empty, []) ops

end Cancellation
