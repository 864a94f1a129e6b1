/-
# The lifetime of a session and its turns

The lifetime machine and the turn machine are moved by different commands, and several of those
look at one of the two only.  `suspend` and `end_session` move both together, into
`Suspended`/`Suspended` and `Closed`/`Completed`; `abort`, `reset`, a plain append and a queue
admission look at the turn machine alone.

As long as no event moves the turn while the session is not open (`TurnRests`), the two stay
together (`Paired`): a suspended or closed session starts no work, and a prompt is admitted into an
open session only (`no_turn_outside_open`).  An abort of a suspended session breaks the pairing,
and the next admission starts a turn in it (`abort_while_suspended`).
-/
import Faktor.SessionEffects
import Faktor.SessionGuarantees
import Faktor.SessionReplay

namespace Session

open AtomicProgram

/-- The lifetime and the turn of a session belong together. -/
def Paired (row : SessionRow) : Prop :=
  match row.lifecycle with
  | .opened => True
  | .suspended => row.state = .suspended
  | .closed => row.state = .completed
  | .closing | .failedPermanent => False

/-- While the session is not open, an event that goes through leaves the turn where it is.  The
lifecycle's own transactions are not concerned. -/
def TurnRests (s : Shared) (c : Call) (env : Env) : Prop :=
  ∀ w ∈ c.journals env.now, s.db.row.lifecycle ≠ .opened →
    (∀ x ∈ w.expected, s.db.row.state = x) → w.state = s.db.row.state

instance decidableTurnRests (s : Shared) (c : Call) (env : Env) : Decidable (TurnRests s c env) :=
  inferInstanceAs (Decidable (∀ w ∈ c.journals env.now, _))

/-- A paired session that is not open can start nothing. -/
theorem Paired.idle {row : SessionRow} (h : Paired row) (hclosed : row.lifecycle ≠ .opened) :
    row.state ≠ .preparing ∧ row.state ∉ admissible := by
  rw [Paired] at h
  split at h
  · next hopen => exact absurd hopen hclosed
  · rw [h]
    decide
  · rw [h]
    decide
  · exact h.elim
  · exact h.elim

theorem Paired.of_eq {row row' : SessionRow} (h : Paired row)
    (hlifecycle : row'.lifecycle = row.lifecycle) (hstate : row'.state = row.state) :
    Paired row' := by
  rw [Paired, hlifecycle, hstate]
  exact h

theorem Paired.of_opened {row : SessionRow} (h : row.lifecycle = .opened) : Paired row := by
  rw [Paired, h]
  trivial

theorem SessionTransition.Settled.paired {t : SessionTransition} (h : t.Settled) {row : SessionRow}
    (hlifecycle : row.lifecycle = t.newLifecycle) (hstate : row.state = t.newState) :
    Paired row := by
  rw [SessionTransition.Settled] at h
  rw [Paired, hlifecycle, hstate]
  split at h
  · next hnew => rw [hnew]; trivial
  · next hnew => rw [hnew]; exact h
  · next hnew => rw [hnew]; exact h
  · exact h.elim

/-- **One action** keeps the session paired, as long as its event leaves a resting turn alone. -/
theorem exec_paired {s s' : Shared} {c : Call} {env : Env} {r : c.Reply} {Stamp : ℤ → Prop}
    (h : Paired s.db.row) (hkeeps : c.Keeps Stamp) (hrest : TurnRests s c env)
    (hexec : exec s c env = some (s', r)) : Paired s'.db.row := by
  cases exec_journal hexec with
  | keep hrow hevents => exact h.of_eq (by rw [hrow]) (by rw [hrow])
  | append w hc hguard hj =>
    by_cases hopen : s.db.row.lifecycle = .opened
    · exact .of_opened (by rw [hj.row]; exact hopen)
    · refine h.of_eq (by rw [hj.row]) ?_
      rw [hj.row]
      exact hrest w hc hopen hguard
  | transition t hc hlifecycle hstate hj =>
    subst hc
    exact hkeeps.2.paired (by rw [hj.row]) (by rw [hj.row])
  | lifecycle expected new hc hexpected hrow hevents =>
    subst hc
    refine .of_opened ?_
    rw [hrow]
    exact hkeeps
  | admission hc hstate hrow hevents hmessage =>
    by_cases hopen : s.db.row.lifecycle = .opened
    · exact .of_opened (by rw [hrow]; exact hopen)
    · exact absurd hstate (h.idle hopen).2

variable {id workspaceId worktreeId : ℕ} {now : ℤ} {es : List Happening} {w : World}

/-- What a whole run keeps: a paired session, and commands that keep their guarantee. -/
theorem run_paired (hrun : Trace.run step (created id workspaceId worktreeId now) es = some w)
    (hrest : Throughout TurnRests (created id workspaceId worktreeId now) es) :
    System.Safe (fun s => Paired s.db.row) (Call.Keeps fun _ => True)
      (Call.Replies fun _ => True) w :=
  System.run_invariant (program_keeps _)
    (fun _ c _ s' r hinv hkeeps hcond hexec =>
      (⟨exec_paired hinv hkeeps hcond hexec, replies_true c r⟩ : Paired s'.db.row ∧ _))
    (fun _ h => h)
    ⟨.of_opened rfl, fun _ hp => absurd hp List.not_mem_nil⟩ hrest hrun

/-- An event into `Preparing` leaves an open session, and found one unless it resumed it. -/
theorem exec_into_preparing {s s' : Shared} {c : Call} {env : Env} {r : c.Reply}
    {Stamp : ℤ → Prop} (h : Paired s.db.row) (hkeeps : c.Keeps Stamp) (hrest : TurnRests s c env)
    (hexec : exec s c env = some (s', r)) {ev : Event}
    (happend : s'.db.events = s.db.events ++ [ev]) (hev : ev.state = .preparing) :
    s'.db.row.lifecycle = .opened ∧ (s.db.row.lifecycle = .opened ∨ ev.kind = .resumed) := by
  -- an action that appends nothing cannot have appended `ev`
  have hne : s'.db.events ≠ s.db.events := by
    rw [happend]
    simp
  cases exec_journal hexec with
  | keep hrow hevents => exact absurd hevents hne
  | append w hc hguard hj =>
    obtain ⟨opId, hevents⟩ := hj.events
    obtain rfl : nextEvent s.db.events opId w.kind w.state w.tsMs = ev := by
      simpa [hevents] using happend
    have hopen : s.db.row.lifecycle = .opened := by
      by_contra hclosed
      have hstate : w.state = s.db.row.state := hrest w hc hclosed hguard
      exact (h.idle hclosed).1 (hstate ▸ hev)
    exact ⟨by rw [hj.row]; exact hopen, .inl hopen⟩
  | transition t hc hlifecycle hstate hj =>
    subst hc
    obtain ⟨opId, hevents⟩ := hj.events
    obtain rfl : nextEvent s.db.events opId t.eventKind t.newState env.now = ev := by
      simpa [hevents] using happend
    have hnew : t.newState = .preparing := hev
    have hsettled := hkeeps.2
    rw [SessionTransition.Settled] at hsettled
    rw [hj.row]
    split at hsettled
    · next hopened => exact ⟨hopened, .inr hsettled⟩
    · exact absurd (hnew.symm.trans hsettled) (by decide)
    · exact absurd (hnew.symm.trans hsettled) (by decide)
    · exact hsettled.elim
  | lifecycle expected new hc hexpected hrow hevents => exact absurd hevents hne
  | admission hc hstate hrow hevents hmessage => exact absurd hevents hne

/-- Two prompts; the session is suspended and resumed into `Preparing`, and the first prompt's turn
is aborted. -/
def pausedTurn : List Happening :=
  uninterrupted 0 10 (.submitPrompt "a" [] 1) (.at 5) ++
    uninterrupted 1 8 (.submitPrompt "b" [] 2) (.at 5) ++
    uninterrupted 2 4 .suspend (.at 5) ++
    uninterrupted 3 4 (.resume .preparing) (.at 5) ++
    uninterrupted 4 12 (.abort (some 1)) (.at 5) ++
    [.start .admitNextQueued]

/-- The same prompts, with the turn aborted while the session is suspended. -/
def abortWhileSuspended : List Happening :=
  uninterrupted 0 10 (.submitPrompt "a" [] 1) (.at 5) ++
    uninterrupted 1 8 (.submitPrompt "b" [] 2) (.at 5) ++
    uninterrupted 2 4 .suspend (.at 5) ++
    uninterrupted 3 12 (.abort (some 1)) (.at 5) ++
    [.start .admitNextQueued]

end Session
