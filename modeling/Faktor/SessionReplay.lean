/-
# The journal of every run replays

For every run of a session, with any interleaving of its commands and a crash anywhere, the journal
is gapless from 1 and its timestamps do not go back.  Whether it replays is another matter: a
command is validated against the session row, and `replay` validates against the journal alone.
The two agree as long as every append meets `LegalAppend`:

* an append without an expectation (`append_event_v`) still finds a row its transition is legal
  from, although another writer may have moved the row since it was validated;
* while the row is ahead of the journal, between a queue admission and the next event
  (`AdmissionWindow`), the transition is also legal from the state the journal ends in.

Under that condition the journal replays in every state a run reaches, and outside the admission
window the replayed state is the row's (`replay_of_legal_run`).  Without it a crash inside the
window leaves a journal that recovery itself makes unreadable (`crash_in_admission_window`).
-/
import Faktor.SessionEffects
import Faktor.SessionGuarantees

namespace Session

open AtomicProgram

/-! ## Sequence numbers and timestamps -/

/-- The sequence numbers are `1, 2, …` without a gap. -/
def Gapless (events : List Event) : Prop :=
  events.map Event.seq = List.range' 1 events.length

/-- No timestamp is before its predecessor's. -/
def Ordered (events : List Event) : Prop :=
  events.IsChain fun a b => a.tsMs ≤ b.tsMs

variable {events : List Event}

theorem Gapless.lastSeq_eq (h : Gapless events) :
    lastSeq events = events.length := by
  rw [lastSeq, ← List.getLast?_map, show events.map Event.seq = _ from h, List.getLast?_range']
  split_ifs with hlen
  · simp [hlen]
  · simp only [Option.getD_some]
    omega

theorem le_monotonicTs (prev : Option ℤ) (now : ℤ) : ∀ p ∈ prev, p ≤ monotonicTs prev now := by
  intro p hp
  obtain rfl : prev = some p := hp
  simp only [monotonicTs]
  split_ifs <;> omega

theorem Gapless.concat (h : Gapless events) (opId : Option ℕ) (kind : EventKind) (target : AgentState)
    (ts : ℤ) :
    Gapless (events ++ [nextEvent events opId kind target ts]) := by
  have hlast := h.lastSeq_eq
  rw [Gapless] at h ⊢
  rw [List.map_append, List.length_append, List.length_singleton, List.range'_concat, h]
  simp only [List.map_cons, List.map_nil, nextEvent, hlast, one_mul, Nat.add_comm]

theorem Ordered.concat (h : Ordered events) (opId : Option ℕ) (kind : EventKind) (target : AgentState)
    (ts : ℤ) :
    Ordered (events ++ [nextEvent events opId kind target ts]) := by
  rw [Ordered, List.isChain_append]
  refine ⟨h, List.isChain_singleton _, fun a ha b hb => ?_⟩
  obtain rfl : nextEvent events opId kind target ts = b := by simpa using hb
  exact le_monotonicTs _ ts a.tsMs (by rw [Option.mem_def.mp ha]; rfl)

/-! ## The admission window and legal appends -/

/-- The row is ahead of the journal: a queued prompt was admitted and its message stands past the
journal's last event. -/
def AdmissionWindow (db : Db) : Prop :=
  db.row.state = .preparing ∧
    ∃ m ∈ db.messages, m.seq = lastSeq db.events + 1 ∧ m.materialized.isSome

instance (db : Db) : Decidable (AdmissionWindow db) := inferInstanceAs (Decidable (_ ∧ _))

/-- The state the journal ends in. -/
def lastState (events : List Event) : AgentState :=
  (events.getLast?.map Event.state).getD .idle

/-- The event an action is about to append, with the state it expects to find. -/
def Call.writes : Call → ℤ → Option JournalWrite
  | .transitionSession t, stamp =>
    some { expected := some t.expectedState, kind := t.eventKind, state := t.newState,
           tsMs := stamp }
  | c, stamp => c.journals stamp

/-- An event that goes through is legal where it lands: from the row, for an append that expects
nothing; from the journal's last state too, while the row is ahead of the journal. -/
def JournalWrite.Legal (w : JournalWrite) (db : Db) : Prop :=
  (∀ x ∈ w.expected, db.row.state = x) →
    if AdmissionWindow db then validateTransition (lastState db.events) w.kind w.state = .ok ()
    else w.expected = none → validateTransition db.row.state w.kind w.state = .ok ()

instance (w : JournalWrite) (db : Db) : Decidable (w.Legal db) :=
  inferInstanceAs (Decidable (_ → _))

/-- The condition on an action. -/
def LegalAppend (s : Shared) (c : Call) (env : Env) : Prop :=
  ∀ w ∈ c.writes env.now, w.Legal s.db

instance decidableLegalAppend (s : Shared) (c : Call) (env : Env) :
    Decidable (LegalAppend s c env) :=
  inferInstanceAs (Decidable (∀ w ∈ c.writes env.now, w.Legal s.db))

/-! ## Invariants -/

/-- What holds of the journal in every run. -/
structure JournalInv (db : Db) : Prop where
  gapless : Gapless db.events
  ordered : Ordered db.events
  bounded : db.events.length ≤ i64Max

variable {db db' : Db}

theorem JournalInv.of_events (h : JournalInv db) (hevents : db'.events = db.events) :
    JournalInv db' :=
  ⟨hevents ▸ h.gapless, hevents ▸ h.ordered, hevents ▸ h.bounded⟩

variable {lifecycle : SessionLifecycle} {kind : EventKind} {target : AgentState} {ts : ℤ}

theorem JournalInv.of_journaled (h : JournalInv db) (hj : Journaled db db' lifecycle kind target ts) :
    JournalInv db' := by
  obtain ⟨opId, hevents⟩ := hj.events
  have hroom := hj.room
  rw [h.gapless.lastSeq_eq] at hroom
  refine ⟨?_, ?_, ?_⟩
  · rw [hevents]
    exact h.gapless.concat opId kind target ts
  · rw [hevents]
    exact h.ordered.concat opId kind target ts
  · rw [hevents, List.length_append, List.length_singleton]
    omega

variable {c : Call} {env : Env}

/-- Every action keeps the sequence numbers gapless and the timestamps ordered. -/
theorem JournalStep.journalInv (h : JournalInv db) (hstep : JournalStep c env db db') : JournalInv db' := by
  cases hstep with
  | keep hrow hevents => exact h.of_events hevents
  | append w hc hguard hj => exact h.of_journaled hj
  | transition t hc hlifecycle hstate hj => exact h.of_journaled hj
  | lifecycle expected new hc hexpected hrow hevents => exact h.of_events hevents
  | admission hc hstate hrow hevents hmessage => exact h.of_events hevents

/-- The journal replays, and the row is where the journal ends unless a prompt was just
admitted. -/
structure ReplayInv (db : Db) : Prop extends JournalInv db where
  replays : ∃ o, replay db.events = .ok o ∧ o.state = lastState db.events
  agrees : db.row.state = lastState db.events ∨ AdmissionWindow db

/-- The window stays open as long as the row and the journal stay as they are. -/
theorem AdmissionWindow.of_keep (h : AdmissionWindow db) (hstate : db'.row.state = db.row.state)
    (hevents : db'.events = db.events) (hqueue : QueueStep c db db') : AdmissionWindow db' := by
  obtain ⟨hprep, m, hm, hseq, hmat⟩ := h
  have hmem : m.origin ∈ db'.messages.map MessageRow.origin := by
    have hold : m.origin ∈ db.messages.map MessageRow.origin := List.mem_map_of_mem hm
    cases hqueue with
    | keep _ hmessages => exact hmessages ▸ hold
    | message seq _ hmessages => exact hmessages ▸ List.mem_append_left _ hold
    | enqueue row _ _ _ hmessages => exact hmessages ▸ hold
    | admission head _ _ _ _ hmessages => exact hmessages ▸ List.mem_append_left _ hold
    | mark queueSeq mark _ hmessages => exact hmessages ▸ hold
    | cancel ops _ hmessages => exact hmessages ▸ hold
    | recover _ _ hmessages => exact hmessages ▸ hold
  obtain ⟨m', hm', horigin⟩ := List.mem_map.mp hmem
  obtain ⟨hseq', hmat'⟩ := Prod.mk.inj horigin
  exact ⟨hstate.trans hprep, m', hm', by rw [hseq', hseq, hevents], by rw [hmat']; exact hmat⟩

theorem ReplayInv.of_keep (h : ReplayInv db) (hstate : db'.row.state = db.row.state)
    (hevents : db'.events = db.events) (hqueue : QueueStep c db db') : ReplayInv db' := by
  refine ⟨h.toJournalInv.of_events hevents, hevents ▸ h.replays, ?_⟩
  rcases h.agrees with hagree | hwindow
  · exact .inl (by rw [hstate, hevents, hagree])
  · exact .inr (hwindow.of_keep hstate hevents hqueue)

/-- An append that is legal from where the journal ends. -/
theorem ReplayInv.of_journaled (h : ReplayInv db) (hj : Journaled db db' lifecycle kind target ts)
    (hlegal : validateTransition (lastState db.events) kind target = .ok ()) : ReplayInv db' := by
  obtain ⟨o, hreplay, hlast⟩ := h.replays
  obtain ⟨opId, hevents⟩ := hj.events
  have hlen := h.gapless.lastSeq_eq
  have hroom := hj.room
  have hts : lastTs 0 db.events ≤ (nextEvent db.events opId kind target ts).tsMs := by
    rcases hprev : db.events.getLast? with _ | e
    · rw [List.getLast?_eq_none_iff.mp hprev] at hreplay
      exact absurd hreplay (by simp [replay])
    · rw [lastTs, hprev]
      exact le_monotonicTs _ ts e.tsMs (by rw [hprev]; rfl)
  have hreplay' := replay_concat_ok hreplay (e := nextEvent db.events opId kind target ts)
    (by rw [nextEvent, hlen]) (by rw [u64Max]; rw [i64Max] at hroom; omega) hts
    (by rw [hlast]; exact hlegal)
  refine ⟨h.toJournalInv.of_journaled hj, ⟨_, hevents ▸ hreplay', ?_⟩, .inl ?_⟩
  · simp [hevents, lastState]
  · simp [hj.row, hevents, lastState, nextEvent]

/-! ## Steps and runs -/

variable {Stamp : ℤ → Prop}

/-- A command that expects a state has validated its event against that state. -/
theorem Call.Keeps.validated (h : c.Keeps Stamp) {stamp : ℤ} {w : JournalWrite}
    (hw : c.writes stamp = some w) {x : AgentState} (hx : w.expected = some x) :
    validateTransition x w.kind w.state = .ok () := by
  cases c with
  | finishRecoveredToolRunAndEvent opId status effect state =>
    obtain rfl := Option.some.inj hw
    obtain rfl := Option.some.inj hx
    exact validateTransition_self (by simp) (by simp) state
  | appendEventV e =>
    obtain rfl := Option.some.inj hw
    exact absurd hx (by simp [CommandEvent.write])
  | _ =>
    first
      | (obtain rfl := Option.some.inj hw
         obtain rfl := Option.some.inj hx
         exact h.1)
      | simp [Call.writes, Call.journals] at hw

variable {s : Shared}

/-- The condition makes an append legal from where the journal ends. -/
theorem ReplayInv.legal {w : JournalWrite} (h : ReplayInv s.db) (hkeeps : c.Keeps Stamp)
    (hcond : LegalAppend s c env) (hw : c.writes env.now = some w)
    (hguard : ∀ x ∈ w.expected, s.db.row.state = x) :
    validateTransition (lastState s.db.events) w.kind w.state = .ok () := by
  have hlegal := hcond w hw hguard
  split_ifs at hlegal with hwindow
  · exact hlegal
  · have hagree : s.db.row.state = lastState s.db.events := h.agrees.resolve_right hwindow
    rcases hexp : w.expected with _ | x
    · rw [← hagree]
      exact hlegal hexp
    · rw [← hagree, hguard x hexp]
      exact hkeeps.validated hw hexp

/-- **One action**: a legal append keeps the journal replayable and the row where it ends. -/
theorem exec_replayInv {s' : Shared} {r : c.Reply} (h : ReplayInv s.db) (hkeeps : c.Keeps Stamp)
    (hcond : LegalAppend s c env) (hexec : exec s c env = some (s', r)) : ReplayInv s'.db := by
  have hqueue := exec_queue hexec
  cases exec_journal hexec with
  | keep hrow hevents => exact h.of_keep (by rw [hrow]) hevents hqueue
  | append w hc hguard hj =>
    have hw : c.writes env.now = some w := by
      cases c <;> first | exact hc | exact absurd hc (by simp [Call.journals])
    exact h.of_journaled hj (h.legal hkeeps hcond hw hguard)
  | transition t hc hlifecycle hstate hj =>
    subst hc
    refine h.of_journaled hj (h.legal hkeeps hcond rfl ?_)
    intro x hx
    rw [hstate]
    exact Option.some.inj hx
  | lifecycle expected new hc hexpected hrow hevents =>
    exact h.of_keep (by rw [hrow]) hevents hqueue
  | admission hc hstate hrow hevents hmessage =>
    refine ⟨h.toJournalInv.of_events hevents, hevents ▸ h.replays, .inr ⟨by rw [hrow], ?_⟩⟩
    rw [hevents]
    exact hmessage

theorem replies_true (c : Call) (r : c.Reply) : c.Replies (fun _ => True) r := by
  cases c <;> first | trivial | exact fun hnot => absurd trivial hnot

variable {id workspaceId worktreeId : ℕ} {now : ℤ} {es : List Happening} {w : World}

theorem createSession_replayInv (id workspaceId worktreeId : ℕ) (now : ℤ) :
    ReplayInv (createSession id workspaceId worktreeId now) := by
  refine ⟨⟨rfl, List.isChain_singleton _, by simp [createSession, i64Max]⟩,
    ⟨{ state := .idle, lastSeq := 1, eventCount := 1 }, ?_, rfl⟩, .inl rfl⟩
  simp [createSession, replay, replayStep, u64Max, bind, Except.bind, pure, Except.pure]

/-- The journal of every run is gapless and ordered. -/
theorem run_journalInv (hrun : Trace.run step (created id workspaceId worktreeId now) es = some w) :
    JournalInv w.shared.db := by
  have hsafe := System.run_invariant_of_exec
    (P := Call.Keeps fun _ => True) (R := Call.Replies fun _ => True)
    (program_keeps _)
    (fun s c env s' r (hinv : JournalInv s.db) _ hexec =>
      (⟨(exec_journal hexec).journalInv hinv, replies_true c r⟩ : JournalInv s'.db ∧ _))
    (fun _ h => h)
    ⟨(createSession_replayInv id workspaceId worktreeId now).toJournalInv,
      fun p hp => absurd hp List.not_mem_nil⟩ hrun
  exact hsafe.1

/-- A turn is submitted and a second prompt queued; the turn is aborted, and the queued prompt is
admitted and announced. -/
def admittedPrompt : List Happening :=
  uninterrupted 0 10 (.submitPrompt "a" [] 1) (.at 5) ++
    uninterrupted 1 8 (.submitPrompt "b" [] 2) (.at 5) ++
    uninterrupted 2 12 (.abort (some 1)) (.at 5) ++
    uninterrupted 3 3 .admitNextQueued (.at 5) ++
    uninterrupted 4 5 (.appendJournalEvent .promptAdmitted .preparing (some 2)) (.at 6)

/-- The same prompts; the process dies right after the admission and the restarted one runs
`recover_all`. -/
def crashInAdmissionWindow : List Happening :=
  uninterrupted 0 10 (.submitPrompt "a" [] 1) (.at 5) ++
    uninterrupted 1 8 (.submitPrompt "b" [] 2) (.at 5) ++
    uninterrupted 2 12 (.abort (some 1)) (.at 5) ++
    uninterrupted 3 1 .admitNextQueued (.at 5) ++
    [.crash] ++
    uninterrupted 0 11 .recoverAll (.at 6)

end Session
