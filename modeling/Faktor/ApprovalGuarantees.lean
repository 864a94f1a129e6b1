/-
# Tokens follow from recorded approvals

A token is minted only for a request whose single decision is the approval of another, registered human,
made in the lifetime of the request, and only while no observed time is past its expiry.

* `replay_rows` : the replayed tables are the lines of the file;
* `World.Sound` : decisions are recorded once, and the clock bounds every observation;
* `minted_only_when_approved` : the whole guarantee, over every run.
-/
import Faktor.ApprovalAuthority

namespace Approval

variable {Key : Type} (p : Primitives Key)

/-! ## The lines of the file -/

/-- The requests that the file records. -/
def requestsIn (lines : List Line) : List ApprovalRequest :=
  lines.filterMap fun
    | .entry ⟨_, _, _, .requested request, _⟩ => some request
    | _ => none

/-- The decisions that the file records. -/
def decisionsIn (lines : List Line) : List ApprovalDecision :=
  lines.filterMap fun
    | .entry ⟨_, _, _, .decided decision, _⟩ => some decision
    | _ => none

theorem requestsIn_append (lines more : List Line) :
    requestsIn (lines ++ more) = requestsIn lines ++ requestsIn more := List.filterMap_append

theorem decisionsIn_append (lines more : List Line) :
    decisionsIn (lines ++ more) = decisionsIn lines ++ decisionsIn more := List.filterMap_append

variable {p}

theorem eq_ok_of_toOption {α : Type} {x : Except ApprovalError α} {a : α} (h : x.toOption = some a) :
    x = .ok a := by
  cases x with
  | error e => cases h
  | ok b => exact congrArg Except.ok (Option.some.inj h)

theorem bind_eq_ok {α β : Type} {x : Except ApprovalError α} {f : α → Except ApprovalError β} {b : β}
    (h : (x >>= f) = .ok b) : ∃ a, x = .ok a ∧ f a = .ok b := by
  cases x with
  | error e => cases h
  | ok a => exact ⟨a, rfl, h⟩

variable {ledger ledger' : ApprovalLedger}

/-- An entry that is taken up is a new row of its table. -/
theorem record_rows {entry : LedgerEntry} (h : ledger.record p entry = .ok ledger') :
    ledger'.requests.rows = ledger.requests.rows ++ requestsIn [.entry entry] ∧
      ledger'.decisions.rows = ledger.decisions.rows ++ decisionsIn [.entry entry] := by
  obtain ⟨seq, at_, prev, body, digest⟩ := entry
  unfold ApprovalLedger.record at h
  split at h
  · cases h
  · cases body with
    | requested request =>
      simp only at h
      split at h
      · cases h
      · split at h
        · cases h
        · next requests hinsert =>
          cases h
          exact ⟨(KeyTable.insert?_eq_some.mp hinsert).2, (List.append_nil _).symm⟩
    | decided decision =>
      simp only at h
      split at h
      · cases h
      · obtain ⟨-, -, h⟩ := bind_eq_ok h
        split at h
        · cases h
        · split at h
          · cases h
          · next decisions hinsert =>
            cases h
            exact ⟨(List.append_nil _).symm, (KeyTable.insert?_eq_some.mp hinsert).2⟩

variable {lines : List Line}

/-- **The replayed tables are the lines of the file.** -/
theorem replay_rows (h : replay p ledger lines = .ok ledger') :
    ledger'.requests.rows = ledger.requests.rows ++ requestsIn lines ∧
      ledger'.decisions.rows = ledger.decisions.rows ++ decisionsIn lines := by
  induction lines generalizing ledger with
  | nil =>
    cases h
    exact ⟨(List.append_nil _).symm, (List.append_nil _).symm⟩
  | cons line rest ih =>
    cases line with
    | torn => cases h
    | entry entry =>
      obtain ⟨middle, hrecord, hrest⟩ := bind_eq_ok h
      obtain ⟨hrequests, hdecisions⟩ := record_rows hrecord
      obtain ⟨hrequests', hdecisions'⟩ := ih hrest
      rw [hrequests', hrequests, hdecisions', hdecisions, List.append_assoc, List.append_assoc,
        ← requestsIn_append, ← decisionsIn_append]
      exact ⟨rfl, rfl⟩

variable {disk : Disk} {heal : Bool}

theorem verifyAnchor_keeps {disk' : Disk} (h : disk.verifyAnchor ledger heal = .ok disk') :
    disk'.lines = disk.lines ∧ disk'.clock = disk.clock := by
  unfold Disk.verifyAnchor at h
  split at h
  · split at h <;> cases h
    exact ⟨rfl, rfl⟩
  · split at h
    · cases h
    · split at h
      · cases h
      · split at h
        · split at h <;> cases h
          exact ⟨rfl, rfl⟩
        · cases h
          exact ⟨rfl, rfl⟩

/-- A load changes at most the anchor, and its tables are the lines of the file. -/
theorem loadInner_spec (disk : Disk) (heal : Bool) :
    ((disk.loadInner p heal).2.lines = disk.lines ∧ (disk.loadInner p heal).2.clock = disk.clock) ∧
    ∀ ledger, (disk.loadInner p heal).1 = .ok ledger →
      ledger.requests.rows = requestsIn disk.lines ∧
      ledger.decisions.rows = decisionsIn disk.lines := by
  unfold Disk.loadInner
  split
  · next hlines =>
    split
    · refine ⟨⟨rfl, rfl⟩, fun ledger h => ?_⟩
      cases h
    · next disk' hanchor =>
      refine ⟨verifyAnchor_keeps hanchor, fun ledger h => ?_⟩
      cases h
      rw [hlines]
      exact ⟨rfl, rfl⟩
  · split
    · refine ⟨⟨rfl, rfl⟩, fun ledger h => ?_⟩
      cases h
    · next ledger' hreplay =>
      split
      · refine ⟨⟨rfl, rfl⟩, fun ledger h => ?_⟩
        cases h
      · next disk' hanchor =>
        split
        · refine ⟨verifyAnchor_keeps hanchor, fun ledger h => ?_⟩
          cases h
        · refine ⟨verifyAnchor_keeps hanchor, fun ledger h => ?_⟩
          cases h
          exact replay_rows hreplay

/-! ## Appends -/

variable {decision : ApprovalDecision} {now : ℕ}

/-- A decision that is appended is the first one of its request. -/
theorem appendCheck_decided (h : Disk.appendCheck p ledger (.decided decision) now = .ok true) :
    ledger.decisions.get? decision.requestId = none := by
  unfold Disk.appendCheck at h
  split at h
  · cases h
  · simp only at h
    split at h
    · cases h
    · obtain ⟨-, -, h⟩ := bind_eq_ok h
      split at h
      · cases h
      · split at h
        · cases h
        · split at h
          · split at h <;> cases h
          · next hnone => exact hnone

/-- **What an append does to the file**: nothing, or one more line, which carries no decision or the
first one of its request. -/
theorem append_lines (disk : Disk) (ledger : ApprovalLedger) (body : LedgerBody) (now : ℕ)
    (crash : Crash) :
    (disk.append p ledger body now crash).2.clock = disk.clock ∧
      ∃ more, (disk.append p ledger body now crash).2.lines = disk.lines ++ more ∧
        (decisionsIn more = [] ∨ ∃ decision, body = .decided decision ∧
          decisionsIn more = [decision] ∧ ledger.decisions.get? decision.requestId = none) := by
  unfold Disk.append
  split
  · exact ⟨rfl, [], (List.append_nil _).symm, .inl rfl⟩
  · exact ⟨rfl, [], (List.append_nil _).symm, .inl rfl⟩
  · next hcheck =>
    -- the line is torn, or it is the entry of the body
    have hentry : decisionsIn [.entry (Disk.nextEntry p ledger body now)] = [] ∨
        ∃ decision, body = .decided decision ∧
          decisionsIn [.entry (Disk.nextEntry p ledger body now)] = [decision] ∧
          ledger.decisions.get? decision.requestId = none := by
      cases body with
      | requested request => exact .inl rfl
      | decided decision => exact .inr ⟨decision, rfl, rfl, appendCheck_decided hcheck⟩
    cases crash with
    | inLine => exact ⟨rfl, [.torn], rfl, .inl rfl⟩
    | beforeHead => exact ⟨rfl, [.entry (Disk.nextEntry p ledger body now)], rfl, hentry⟩
    | beforeAnchor => exact ⟨rfl, [.entry (Disk.nextEntry p ledger body now)], rfl, hentry⟩
    | never => exact ⟨rfl, [.entry (Disk.nextEntry p ledger body now)], rfl, hentry⟩

/-- **A write to the file**: lines are only added, and a decision that is added is the first one of its
request. -/
def Extends (lines lines' : List Line) : Prop :=
  ∃ more, lines' = lines ++ more ∧
    (decisionsIn more = [] ∨ ∃ decision, decisionsIn more = [decision] ∧
      ∀ d ∈ decisionsIn lines, d.requestId ≠ decision.requestId)

variable {lines' : List Line}

theorem Extends.of_eq (h : lines' = lines) : Extends lines lines' :=
  ⟨[], h.trans (List.append_nil _).symm, .inl rfl⟩

/-- An append to the ledger that was loaded. -/
theorem Extends.append (hload : (disk.loadInner p heal).1 = .ok ledger) (body : LedgerBody) (now : ℕ)
    (crash : Crash) :
    Extends disk.lines ((disk.loadInner p heal).2.append p ledger body now crash).2.lines := by
  obtain ⟨⟨hlines, -⟩, hrows⟩ := loadInner_spec (p := p) disk heal
  obtain ⟨-, more, hmore, hbody⟩ :=
    append_lines (p := p) (disk.loadInner p heal).2 ledger body now crash
  refine ⟨more, hlines ▸ hmore, hbody.imp_right ?_⟩
  rintro ⟨decision, -, hdecision, hnone⟩
  refine ⟨decision, hdecision, fun d hd => ?_⟩
  rw [← (hrows ledger hload).2] at hd
  exact KeyTable.get?_eq_none.mp hnone d hd

theorem propose_extends (disk : Disk) (draft : ApprovalDraft) (observed : ℕ) (crash : Crash) :
    Extends disk.lines (propose p disk draft observed crash).2.lines ∧
      (propose p disk draft observed crash).2.clock = max observed disk.clock := by
  obtain ⟨hlines, hclock⟩ := (loadInner_spec (p := p) (disk.observe observed) true).1
  unfold propose
  simp only
  split
  · exact ⟨.of_eq rfl, rfl⟩
  · next request _ =>
    split
    · next e disk' heq =>
      rw [Disk.begin] at heq
      rw [heq] at hlines hclock
      exact ⟨.of_eq hlines, hclock⟩
    · next ledger disk' heq =>
      rw [Disk.begin] at heq
      have hload : ((disk.observe observed).loadInner p true).1 = .ok ledger := by rw [heq]
      have happend := Extends.append hload (.requested request) (disk.effectiveNow observed) crash
      rw [heq] at happend hlines hclock
      split
      · exact ⟨.of_eq hlines, hclock⟩
      · exact ⟨happend, (append_lines disk' ledger _ _ crash).1.trans hclock⟩

theorem decide_extends (disk : Disk) (requestId : String) (principal : Principal) (key : Key)
    (outcome : DecisionOutcome) (rationale : String) (observed : ℕ) (crash : Crash) :
    Extends disk.lines
        (decide p disk requestId principal key outcome rationale observed crash).2.lines ∧
      (decide p disk requestId principal key outcome rationale observed crash).2.clock
        = if principal.validate then max observed disk.clock else disk.clock := by
  obtain ⟨hlines, hclock⟩ := (loadInner_spec (p := p) (disk.observe observed) true).1
  unfold decide
  by_cases hvalid : principal.validate = true
  · rw [if_neg (by simp [hvalid]), if_pos hvalid]
    simp only
    split
    · exact ⟨.of_eq rfl, rfl⟩
    · split
      · next e disk' heq =>
        rw [Disk.begin] at heq
        rw [heq] at hlines hclock
        exact ⟨.of_eq hlines, hclock⟩
      · next ledger disk' heq =>
        rw [Disk.begin] at heq
        have hload : ((disk.observe observed).loadInner p true).1 = .ok ledger := by rw [heq]
        have happend := fun decision =>
          Extends.append hload (.decided decision) (disk.effectiveNow observed) crash
        rw [heq] at hlines hclock
        simp only [heq] at happend
        split
        · exact ⟨.of_eq hlines, hclock⟩
        · split
          · exact ⟨.of_eq hlines, hclock⟩
          · split
            · exact ⟨.of_eq hlines, hclock⟩
            · split
              · exact ⟨.of_eq hlines, hclock⟩
              · next decision _ =>
                exact ⟨happend decision,
                  (append_lines disk' ledger _ _ crash).1.trans hclock⟩
  · rw [if_pos (by simpa using hvalid), if_neg hvalid]
    exact ⟨.of_eq rfl, rfl⟩

/-! ## Minting -/

/-- **The approval that a token stands for**, in files whose decisions are these rows. -/
structure ApprovedBy (p : Primitives Key) (disk : Disk) (request : ApprovalRequest)
    (decision : ApprovalDecision) : Prop where
  proposed : request ∈ requestsIn disk.lines
  decided : decision ∈ decisionsIn disk.lines
  decides : decision.requestId = request.id
  only : ∀ d ∈ decisionsIn disk.lines, d.requestId = request.id → d = decision
  approved : decision.outcome = .approved
  human : decision.principal.kind = .humanOperator
  other : decision.principal.id ≠ request.requester.id
  registered : ∃ operator ∈ disk.operators, operator.principalId = decision.principal.id ∧
    operator.keyId = decision.signature.keyId ∧ operator.publicKey = decision.signature.publicKey
  signed : p.verifySignature decision.signature.publicKey
    (signingMessage (p.statementDigest decision.toDecisionStatement)) decision.signature.signature
  lifetime : request.createdAtMs ≤ decision.decidedAtMs ∧ decision.decidedAtMs ≤ request.expiresAtMs

theorem verify_signed {trusted : List String} (h : decision.verify p trusted = .ok ()) :
    p.verifySignature decision.signature.publicKey
      (signingMessage (p.statementDigest decision.toDecisionStatement))
      decision.signature.signature = true := by
  obtain ⟨-, -, h⟩ := bind_eq_ok h
  split at h
  · cases h
  · split at h
    · cases h
    · next hsigned => simpa using hsigned

variable {request : ApprovalRequest} {token : ApprovalToken}

/-- A request that evaluates to a token. -/
theorem evaluate_approved (hload : disk.load p = .ok ledger) (hrequest : request ∈ ledger.requests.rows)
    (h : evaluateWithTrust p request ledger now disk.operators = .ok token) :
    token.check = request.check ∧ token.requestId = request.id ∧ now ≤ request.expiresAtMs ∧
      ∃ decision, ApprovedBy p disk request decision := by
  obtain ⟨hrequests, hdecisions⟩ := (loadInner_spec (p := p) disk false).2 ledger hload
  unfold evaluateWithTrust at h
  split at h
  · cases h
  · next hexpiry =>
    split at h
    · cases h
    · next decision hdecision =>
      obtain ⟨hmem, hdecides⟩ := KeyTable.get?_eq_some.mp hdecision
      obtain ⟨_, hverify, h⟩ := bind_eq_ok h
      split at h
      · next happroved =>
        unfold verifyDecisionWith at hverify
        split at hverify
        · cases hverify
        · next hhuman =>
          split at hverify
          · cases hverify
          · next hother =>
            split at hverify
            · cases hverify
            · next hlifetime =>
              obtain ⟨_, hsigned, htrusted⟩ := bind_eq_ok hverify
              split at htrusted
              · next hregistered =>
                obtain ⟨operator, hoperator, hkey⟩ := List.any_eq_true.mp hregistered
                unfold ApprovalToken.fromVerified at h
                split at h
                · cases h
                · cases h
                  refine ⟨rfl, rfl, not_lt.mp hexpiry, decision, ?_⟩
                  push Not at hlifetime
                  constructor
                  case proposed => exact hrequests ▸ hrequest
                  case decided => exact hdecisions ▸ hmem
                  case decides => exact hdecides
                  case only =>
                    intro d hd hid
                    rw [← hdecisions] at hd
                    exact KeyTable.eq_of_key_eq hd hmem (hid.trans hdecides.symm)
                  case approved => exact happroved
                  case human => exact not_not.mp hhuman
                  case other => exact hother
                  case registered =>
                    simp only [Bool.and_eq_true, decide_eq_true_eq] at hkey
                    exact ⟨operator, hoperator, hkey.1.2, hkey.1.1, hkey.2⟩
                  case signed => exact verify_signed hsigned
                  case lifetime => exact hlifetime
              · cases htrusted
      · cases h

/-- The first request that is approved is one of the list. -/
theorem firstAuthorized_mem {operators : List RegisteredOperator} {requests : List ApprovalRequest}
    (h : firstAuthorized p ledger now operators requests = .ok (some token)) :
    ∃ request ∈ requests, evaluateWithTrust p request ledger now operators = .ok token := by
  induction requests with
  | nil => cases h
  | cons request rest ih =>
    unfold firstAuthorized at h
    split at h
    · next token' htoken =>
      cases h
      exact ⟨request, List.mem_cons_self, htoken⟩
    · obtain ⟨request', hmem, htoken⟩ := ih h
      exact ⟨request', List.mem_cons_of_mem _ hmem, htoken⟩
    · obtain ⟨request', hmem, htoken⟩ := ih h
      exact ⟨request', List.mem_cons_of_mem _ hmem, htoken⟩
    · obtain ⟨request', hmem, htoken⟩ := ih h
      exact ⟨request', List.mem_cons_of_mem _ hmem, htoken⟩
    · cases h

theorem mem_newest {select : ApprovalRequest → Bool} (h : request ∈ newest ledger select) :
    request ∈ ledger.requests.rows ∧ select request = true := by
  rw [newest, List.mem_insertionSort] at h
  exact List.mem_filter.mp h

/-! ## Runs -/

/-- A call of a process, with the time it observes, or a change of the registry of operators. -/
inductive Step (Key : Type)
  | propose (draft : ApprovalDraft) (observed : ℕ) (crash : Crash)
  | decide (requestId : String) (principal : Principal) (key : Key) (outcome : DecisionOutcome)
      (rationale : String) (observed : ℕ) (crash : Crash)
  | authorize (check : ApprovalCheck) (observed : ℕ)
  | authorizeRequest (requestId : String) (check : ApprovalCheck) (observed : ℕ)
  | latestAuthorized (kind : ApprovalKind) (subject : String) (observed : ℕ)
  | status (observed : ℕ)
  | register (operators : List RegisteredOperator)

/-- The files, and every time that was observed. -/
structure World where
  disk : Disk
  seen : List ℕ

/-- A data directory without a ledger. -/
def World.start (operators : List RegisteredOperator) : World where
  disk := { lines := [], head := none, anchor := none, clock := 0, operators := operators }
  seen := []

namespace World

variable (p)

/-- One call, from beginning to end. -/
def step (w : World) : Step Key → World
  | .propose draft observed crash =>
    { disk := (Approval.propose p w.disk draft observed crash).2, seen := observed :: w.seen }
  | .decide requestId principal key outcome rationale observed crash =>
    { disk :=
        (Approval.decide p w.disk requestId principal key outcome rationale observed crash).2
      seen := if principal.validate then observed :: w.seen else w.seen }
  | .authorize check observed =>
    { disk := (Approval.authorize p w.disk check observed).2, seen := observed :: w.seen }
  | .authorizeRequest requestId check observed =>
    { disk := (Approval.authorizeRequest p w.disk requestId check observed).2
      seen := observed :: w.seen }
  | .latestAuthorized kind subject observed =>
    { disk := (Approval.latestAuthorized p w.disk kind subject observed).2
      seen := observed :: w.seen }
  | .status observed => { disk := w.disk.observe observed, seen := observed :: w.seen }
  | .register operators => { w with disk := { w.disk with operators := operators } }

def run (w : World) : List (Step Key) → World
  | [] => w
  | s :: rest => (w.step p s).run rest

/-- The token that a call returns. -/
def mints (w : World) : Step Key → Option ApprovalToken
  | .authorize check observed => (Approval.authorize p w.disk check observed).1.toOption
  | .authorizeRequest requestId check observed =>
    (Approval.authorizeRequest p w.disk requestId check observed).1.toOption
  | .latestAuthorized kind subject observed =>
    (Approval.latestAuthorized p w.disk kind subject observed).1.toOption.join
  | _ => none

end World

/-- The checks that a call asks about. -/
def Step.asks : Step Key → ApprovalCheck → Prop
  | .authorize check _, c | .authorizeRequest _ check _, c => c = check
  | .latestAuthorized kind subject _, c => c.kind = kind ∧ c.subject = subject
  | _, _ => False

/-- **Decisions are recorded once, and the clock is at least every observed time.** -/
structure World.Sound (w : World) : Prop where
  once : ((decisionsIn w.disk.lines).map (·.requestId)).Nodup
  clock : ∀ t ∈ w.seen, t ≤ w.disk.clock

theorem World.start_sound (operators : List RegisteredOperator) : (World.start operators).Sound where
  once := List.nodup_nil
  clock _ h := by cases h

/-- The decisions after a write. -/
theorem Extends.once (h : Extends lines lines') (honce : ((decisionsIn lines).map (·.requestId)).Nodup) :
    ((decisionsIn lines').map (·.requestId)).Nodup := by
  obtain ⟨more, rfl, hdecisions⟩ := h
  rw [decisionsIn_append]
  rcases hdecisions with hnone | ⟨decision, hone, hnew⟩
  · rw [hnone, List.append_nil]
    exact honce
  · rw [hone, List.map_append]
    refine honce.append (List.nodup_singleton _) fun id hid hid' => ?_
    obtain ⟨d, hd, rfl⟩ := List.mem_map.mp hid
    exact hnew d hd (List.mem_singleton.mp hid')

variable {d : ApprovalDecision}

theorem Extends.mem (h : Extends lines lines') (hd : d ∈ decisionsIn lines) : d ∈ decisionsIn lines' := by
  obtain ⟨more, rfl, -⟩ := h
  rw [decisionsIn_append]
  exact List.mem_append_left _ hd

/-- **A step only adds to the file.** -/
theorem step_extends (w : World) (s : Step Key) : Extends w.disk.lines (w.step p s).disk.lines := by
  cases s with
  | propose draft observed crash => exact (propose_extends w.disk draft observed crash).1
  | decide requestId principal key outcome rationale observed crash =>
    exact (decide_extends w.disk requestId principal key outcome rationale observed crash).1
  | authorize check observed => exact .of_eq rfl
  | authorizeRequest requestId check observed => exact .of_eq rfl
  | latestAuthorized kind subject observed => exact .of_eq rfl
  | status observed => exact .of_eq rfl
  | register operators => exact .of_eq rfl

variable {seen : List ℕ}

/-- An observed time is kept under the clock. -/
theorem observed_le_clock {observed clock clock' : ℕ} (h : ∀ t ∈ seen, t ≤ clock)
    (hclock : clock' = max observed clock) : ∀ t ∈ observed :: seen, t ≤ clock' := by
  intro t ht
  rw [hclock]
  rcases List.mem_cons.mp ht with rfl | ht
  · exact le_max_left _ _
  · exact (h t ht).trans (le_max_right _ _)

variable {w : World}

theorem step_sound (h : w.Sound) (s : Step Key) : (w.step p s).Sound := by
  refine ⟨(step_extends w s).once h.once, ?_⟩
  cases s with
  | propose draft observed crash =>
    exact observed_le_clock h.clock (propose_extends w.disk draft observed crash).2
  | decide requestId principal key outcome rationale observed crash =>
    have hclock :=
      (decide_extends (p := p) w.disk requestId principal key outcome rationale observed crash).2
    show ∀ t ∈ if principal.validate then observed :: w.seen else w.seen, _
    by_cases hvalid : principal.validate = true
    · rw [if_pos hvalid] at hclock ⊢
      exact observed_le_clock h.clock hclock
    · rw [if_neg hvalid] at hclock ⊢
      intro t ht
      exact hclock ▸ h.clock t ht
  | authorize check observed => exact observed_le_clock h.clock rfl
  | authorizeRequest requestId check observed => exact observed_le_clock h.clock rfl
  | latestAuthorized kind subject observed => exact observed_le_clock h.clock rfl
  | status observed => exact observed_le_clock h.clock rfl
  | register operators => exact h.clock

theorem run_sound (h : w.Sound) (steps : List (Step Key)) : (w.run p steps).Sound := by
  induction steps generalizing w with
  | nil => exact h
  | cons s rest ih => exact ih (step_sound h s)

theorem run_keeps_decision (steps : List (Step Key)) (hd : d ∈ decisionsIn w.disk.lines) :
    d ∈ decisionsIn (w.run p steps).disk.lines := by
  induction steps generalizing w with
  | nil => exact hd
  | cons s rest ih => exact ih ((step_extends w s).mem hd)

theorem run_append (w : World) (steps later : List (Step Key)) :
    w.run p (steps ++ later) = (w.run p steps).run p later := by
  induction steps generalizing w with
  | nil => rfl
  | cons s rest ih => exact ih (w.step p s)

/-- Decisions of one request are one decision. -/
theorem World.Sound.decision_unique (h : w.Sound) {d' : ApprovalDecision}
    (hd : d ∈ decisionsIn w.disk.lines) (hd' : d' ∈ decisionsIn w.disk.lines)
    (hid : d'.requestId = d.requestId) : d' = d := List.inj_on_of_nodup_map h.once hd' hd hid

/-- A request of the ledger that evaluates to a token, when the call goes by the clock. -/
theorem evaluate_mints (hseen : ∀ t ∈ seen, t ≤ disk.clock) (hload : disk.load p = .ok ledger)
    (hrequest : request ∈ ledger.requests.rows)
    (h : evaluateWithTrust p request ledger disk.clock disk.operators = .ok token) :
    token.check = request.check ∧ ∃ request decision, request.check = token.check ∧
      request.id = token.requestId ∧ ApprovedBy p disk request decision ∧
      ∀ t ∈ seen, t ≤ request.expiresAtMs := by
  obtain ⟨hcheck, hid, hnow, decision, hdecision⟩ := evaluate_approved hload hrequest h
  exact ⟨hcheck, request, decision, hcheck.symm, hid.symm, hdecision,
    fun t ht => (hseen t ht).trans hnow⟩

/-- **What a mint needs**, at any world. -/
theorem mints_approved (h : w.Sound) {s : Step Key} (hmints : w.mints p s = some token) :
    s.asks token.check ∧ ∃ request decision, request.check = token.check ∧
      request.id = token.requestId ∧ ApprovedBy p (w.step p s).disk request decision ∧
      ∀ t ∈ (w.step p s).seen, t ≤ request.expiresAtMs := by
  have hseen := (step_sound (p := p) h s).clock
  cases s with
  | authorize check observed =>
    obtain ⟨ledger, hload, htoken⟩ := bind_eq_ok (eq_ok_of_toOption hmints)
    split at htoken
    · cases htoken
    · next request rest hnewest =>
      have hmem : request ∈ newest ledger fun request => request.check = check :=
        hnewest ▸ List.mem_cons_self
      obtain ⟨hrequest, hcheck⟩ := mem_newest hmem
      obtain ⟨hsame, hmint⟩ := evaluate_mints hseen hload hrequest htoken
      exact ⟨hsame.trans (of_decide_eq_true hcheck), hmint⟩
  | authorizeRequest requestId check observed =>
    obtain ⟨ledger, hload, htoken⟩ := bind_eq_ok (eq_ok_of_toOption hmints)
    split at htoken
    · cases htoken
    · next request hget =>
      split at htoken
      · cases htoken
      · next hcheck =>
        obtain ⟨hsame, hmint⟩ :=
          evaluate_mints hseen hload (KeyTable.get?_eq_some.mp hget).1 htoken
        exact ⟨hsame.trans (not_not.mp hcheck), hmint⟩
  | latestAuthorized kind subject observed =>
    obtain ⟨ledger, hload, htoken⟩ :=
      bind_eq_ok (eq_ok_of_toOption (Option.join_eq_some_iff.mp hmints))
    obtain ⟨request, hmem, htoken⟩ := firstAuthorized_mem htoken
    obtain ⟨hrequest, habout⟩ := mem_newest hmem
    obtain ⟨hsame, hmint⟩ := evaluate_mints hseen hload hrequest htoken
    rw [about, Bool.and_eq_true, decide_eq_true_eq, decide_eq_true_eq] at habout
    exact ⟨hsame ▸ habout, hmint⟩
  | propose draft observed crash => cases hmints
  | decide requestId principal key outcome rationale observed crash => cases hmints
  | status observed => cases hmints
  | register operators => cases hmints

/-- **A token is minted only for an approval**: in every run, the call asks for the check of the token;
the ledger holds a request with that check, whose only decision is an approval by a registered human
other than the requester, made in the request's lifetime; and no time observed so far is past its
expiry.  A decision that is recorded stays the only one of its request. -/
theorem minted_only_when_approved (p : Primitives Key) (operators : List RegisteredOperator)
    (steps : List (Step Key)) :
    (∀ s token, ((World.start operators).run p steps).mints p s = some token →
      s.asks token.check ∧ ∃ request decision, request.check = token.check ∧
        request.id = token.requestId ∧
        ApprovedBy p (((World.start operators).run p steps).step p s).disk request decision ∧
        ∀ t ∈ (((World.start operators).run p steps).step p s).seen, t ≤ request.expiresAtMs) ∧
    ∀ decision ∈ decisionsIn ((World.start operators).run p steps).disk.lines, ∀ later,
      decision ∈ decisionsIn ((World.start operators).run p (steps ++ later)).disk.lines ∧
      ∀ d ∈ decisionsIn ((World.start operators).run p (steps ++ later)).disk.lines,
        d.requestId = decision.requestId → d = decision := by
  have hstart := World.start_sound operators
  refine ⟨fun s token hmints => mints_approved (run_sound hstart steps) hmints,
    fun decision hdecision later => ?_⟩
  rw [run_append]
  have hkept := run_keeps_decision (p := p) later hdecision
  exact ⟨hkept, fun d hd hid =>
    (run_sound (run_sound hstart steps) later).decision_unique hkept hd hid⟩

/-- So many zeros. -/
def zeros (digits : ℕ) : String := String.ofList (List.replicate digits '0')

/-- Digests and signatures of zeros, which verify. -/
def zeroPrimitives : Primitives Unit where
  identityDigest _ _ := zeros 64
  requestDigest _ := zeros 64
  statementDigest _ := zeros 64
  entryDigest _ _ _ _ := zeros 64
  fingerprint _ := zeros 64
  publicKey _ := zeros 64
  sign _ _ := zeros 128
  verifySignature _ _ signature := signature = zeros 128
  credential _ := false

/-- An agent asks to send a purchase order. -/
def orderDraft : ApprovalDraft where
  kind := .supplyPurchaseOrder
  subject := "po"
  evidence := []
  proposedChange := "send"
  risk := .high
  requester := { id := "agent", kind := .agent }
  boundRevision := "1"
  boundDigest := zeros 64
  expiresAtMs := 20

def operator : RegisteredOperator where
  principalId := "ana"
  keyId := zeros 64
  publicKey := zeros 64

def orderCheck : ApprovalCheck where
  kind := .supplyPurchaseOrder
  subject := "po"
  boundRevision := "1"
  boundDigest := zeros 64

/-- The order is proposed, approved, and authorized while the clock goes back. -/
def approveOrder : List (Step Unit) :=
  [.propose orderDraft 10 .never,
    .decide ("apr-" ++ zeros 32) { id := "ana", kind := .humanOperator } () .approved "ok" 15 .never]

theorem approvedOrder_minted :
    ∃ token, ((World.start [operator]).run zeroPrimitives approveOrder).mints zeroPrimitives
        (.authorize orderCheck 12) = some token ∧ token.check = orderCheck := by
  have hmints : (((World.start [operator]).run zeroPrimitives approveOrder).mints zeroPrimitives
      (.authorize orderCheck 12)).isSome := by decide +kernel
  obtain ⟨token, htoken⟩ := Option.isSome_iff_exists.mp hmints
  exact ⟨token, htoken, ((minted_only_when_approved zeroPrimitives [operator] approveOrder).1
    (.authorize orderCheck 12) token htoken).1⟩

end Approval
