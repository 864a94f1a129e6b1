/-
# Approvals of one exact check

A check may have several requests: an agent that proposes one action again makes a new request with the
same binding.  `authorize` sorts the requests of the check and evaluates the newest one only, while
`latestAuthorized` walks them all; the two answer alike as long as the newest request is the one that
was approved.

* `Live` : an approval of a request that is recorded, verified and in time;
* `authorize_exact_iff` : when a check that has a live approval is authorized.
-/
import Faktor.ApprovalGuarantees

namespace Approval

variable {Key : Type} (p : Primitives Key)

/-! ## Live approvals -/

/-- **A live approval**: the decision of the request is in the ledger, every property of it verifies, it
approves, and the request has not expired. -/
structure Live (ledger : ApprovalLedger) (now : ℕ) (operators : List RegisteredOperator)
    (request : ApprovalRequest) : Prop where
  unexpired : now ≤ request.expiresAtMs
  verified : ∃ decision, ledger.decisions.get? request.id = some decision ∧
    verifyDecisionWith p request decision operators = .ok () ∧ decision.outcome = .approved

/-- Every decision of a ledger carries the digest of a request that the ledger has. -/
def ApprovalLedger.Bound (ledger : ApprovalLedger) : Prop :=
  ∀ decision ∈ ledger.decisions.rows, ∃ request ∈ ledger.requests.rows,
    request.id = decision.requestId ∧ p.requestDigest request = decision.requestDigest

variable {p}

theorem ApprovalLedger.empty_bound : ApprovalLedger.empty.Bound p := by
  intro decision hdecision
  cases hdecision

variable {ledger ledger' : ApprovalLedger}

/-- An entry that is taken up keeps every decision bound. -/
theorem record_bound {entry : LedgerEntry} (hbound : ledger.Bound p)
    (h : ledger.record p entry = .ok ledger') : ledger'.Bound p := by
  obtain ⟨seq, at_, prev, body, digest⟩ := entry
  unfold ApprovalLedger.record at h
  split at h
  · cases h
  · cases body with
    | requested request =>
      simp only at h
      split at h
      · cases h
      · split at h
        · cases h
        · next requests hinsert =>
          cases h
          intro decision hdecision
          obtain ⟨bound, hmem, hbinds⟩ := hbound decision hdecision
          refine ⟨bound, ?_, hbinds⟩
          show bound ∈ requests.rows
          rw [(KeyTable.insert?_eq_some.mp hinsert).2]
          exact List.mem_append_left _ hmem
    | decided decision =>
      simp only at h
      split at h
      · cases h
      · next request hrequest =>
        obtain ⟨-, -, h⟩ := bind_eq_ok h
        split at h
        · cases h
        · next hbinds =>
          split at h
          · cases h
          · next decisions hinsert =>
            cases h
            intro decision' hdecision'
            change decision' ∈ decisions.rows at hdecision'
            rw [(KeyTable.insert?_eq_some.mp hinsert).2, List.mem_append, List.mem_singleton]
              at hdecision'
            obtain hold | rfl := hdecision'
            · exact hbound decision' hold
            · obtain ⟨hmem, hid⟩ := KeyTable.get?_eq_some.mp hrequest
              refine ⟨request, hmem, hid, ?_⟩
              simp only [ApprovalLedger.binds, Bool.or_eq_true, Bool.not_eq_true',
                not_or, Bool.not_eq_false, Bool.and_eq_true, decide_eq_true_eq] at hbinds
              exact hbinds.1.1.1

/-- The replay of a file keeps every decision bound. -/
theorem replay_bound {lines : List Line} (hbound : ledger.Bound p) (h : replay p ledger lines = .ok ledger') :
    ledger'.Bound p := by
  induction lines generalizing ledger with
  | nil =>
    cases h
    exact hbound
  | cons line rest ih =>
    cases line with
    | torn => cases h
    | entry entry =>
      obtain ⟨middle, hrecord, hrest⟩ := bind_eq_ok h
      exact ih (record_bound hbound hrecord) hrest

variable {disk : Disk}

/-- **In a ledger that loads, every decision is bound to its request.** -/
theorem load_bound (h : disk.load p = .ok ledger) :
    ledger.Bound p := by
  unfold Disk.load Disk.loadInner at h
  split at h
  · split at h
    · cases h
    · cases h
      exact ApprovalLedger.empty_bound
  · split at h
    · cases h
    · next ledger' hreplay =>
      split at h
      · cases h
      · split at h
        · cases h
        · cases h
          exact replay_bound ApprovalLedger.empty_bound hreplay

theorem verifyAnchor_observe (disk : Disk) (observed : ℕ) (ledger : ApprovalLedger) (heal : Bool) :
    (disk.observe observed).verifyAnchor ledger heal =
      (disk.verifyAnchor ledger heal).map (·.observe observed) := by
  obtain ⟨lines, head, anchor, clock, operators⟩ := disk
  unfold Disk.verifyAnchor Disk.observe
  cases anchor with
  | none =>
    simp only
    split <;> rfl
  | some position =>
    obtain ⟨seq, digest⟩ := position
    simp only
    split
    · rfl
    · split
      · rfl
      · split
        · split <;> rfl
        · rfl

/-- The time that is observed does not matter to a load. -/
theorem load_observe (disk : Disk) (observed : ℕ) : (disk.observe observed).load p = disk.load p := by
  unfold Disk.load Disk.loadInner
  simp only [verifyAnchor_observe]
  have hlines : (disk.observe observed).lines = disk.lines := rfl
  rw [hlines]
  split
  · cases disk.verifyAnchor .empty false <;> rfl
  · cases replay p .empty disk.lines with
    | error e => rfl
    | ok ledger =>
      simp only
      cases disk.verifyAnchor ledger false with
      | error e => rfl
      | ok disk' =>
        have hhead : (disk'.observe observed).verifyCommittedHead ledger =
          disk'.verifyCommittedHead ledger := rfl
        simp only [Except.map, hhead]
        cases disk'.verifyCommittedHead ledger <;> rfl

/-- A request of a ledger that loads evaluates to a token exactly when its approval is live. -/
theorem evaluate_ok_iff {request : ApprovalRequest} {now : ℕ} {operators : List RegisteredOperator}
    (hbound : ledger.Bound p) (hrequest : request ∈ ledger.requests.rows) :
    (∃ token, evaluateWithTrust p request ledger now operators = .ok token) ↔
      Live p ledger now operators request := by
  unfold evaluateWithTrust
  by_cases hexpired : request.expiresAtMs < now
  · rw [if_pos hexpired]
    constructor
    · rintro ⟨token, h⟩
      cases h
    · rintro ⟨hunexpired, -⟩
      omega
  · rw [if_neg hexpired]
    constructor
    · rintro ⟨token, h⟩
      split at h
      · cases h
      · next decision hdecision =>
        obtain ⟨_, hverify, h⟩ := bind_eq_ok h
        split at h
        · next happroved => exact ⟨not_lt.mp hexpired, decision, hdecision, hverify, happroved⟩
        · cases h
    · rintro ⟨-, decision, hdecision, hverify, happroved⟩
      obtain ⟨hmem, hdecides⟩ := KeyTable.get?_eq_some.mp hdecision
      obtain ⟨bound, hboundMem, hid, hdigest⟩ := hbound decision hmem
      have hsame : bound = request := KeyTable.eq_of_key_eq hboundMem hrequest (hid.trans hdecides)
      subst hsame
      rw [hdecision]
      simp only [hverify, happroved]
      show ∃ token, ApprovalToken.fromVerified p bound decision = .ok token
      unfold ApprovalToken.fromVerified
      rw [if_neg (by simp [hid, hdigest])]
      exact ⟨_, rfl⟩

/-! ## The newest request -/

theorem newerFirst_total (left right : ApprovalRequest) : NewerFirst left right ∨ NewerFirst right left := by
  unfold NewerFirst
  obtain h | h | h := lt_trichotomy left.createdAtMs right.createdAtMs
  · exact .inr (.inl h)
  · obtain hid | hid := le_total left.id right.id
    · exact .inr (.inr ⟨h, hid⟩)
    · exact .inl (.inr ⟨h.symm, hid⟩)
  · exact .inl (.inl h)

theorem NewerFirst.trans {first second third : ApprovalRequest} (h : NewerFirst first second)
    (h' : NewerFirst second third) : NewerFirst first third := by
  unfold NewerFirst at *
  obtain h | ⟨h, hid⟩ := h
  · obtain h' | ⟨h', -⟩ := h'
    · exact .inl (by omega)
    · exact .inl (by omega)
  · obtain h' | ⟨h', hid'⟩ := h'
    · exact .inl (by omega)
    · exact .inr ⟨by omega, hid'.trans hid⟩

/-- Two requests that come each before the other are one. -/
theorem NewerFirst.antisymm {left right : ApprovalRequest} (hleft : left ∈ ledger.requests.rows)
    (hright : right ∈ ledger.requests.rows) (h : NewerFirst left right) (h' : NewerFirst right left) :
    left = right := by
  unfold NewerFirst at h h'
  apply KeyTable.eq_of_key_eq hleft hright
  obtain h | ⟨h, hid⟩ := h
  · omega
  · obtain h' | ⟨-, hid'⟩ := h'
    · omega
    · exact le_antisymm hid' hid

theorem newest_eq_nil {select : ApprovalRequest → Bool} (h : newest ledger select = []) :
    ∀ request ∈ ledger.requests.rows, select request = false := by
  intro request hrequest
  by_contra hselect
  have hmem : request ∈ newest ledger select := by
    rw [newest, List.mem_insertionSort]
    exact List.mem_filter.mpr ⟨hrequest, by simpa using hselect⟩
  rw [h] at hmem
  cases hmem

/-- The head of the sorted requests comes before each of them. -/
theorem newest_head {select : ApprovalRequest → Bool} {request : ApprovalRequest}
    {rest : List ApprovalRequest} (h : newest ledger select = request :: rest) :
    ∀ other ∈ ledger.requests.rows, select other = true → NewerFirst request other := by
  have : Std.Total NewerFirst := ⟨newerFirst_total⟩
  have : IsTrans ApprovalRequest NewerFirst := ⟨fun _ _ _ => NewerFirst.trans⟩
  have hsorted := List.pairwise_insertionSort NewerFirst (ledger.requests.rows.filter select)
  intro other hother hselect
  have hmem : other ∈ newest ledger select := by
    rw [newest, List.mem_insertionSort]
    exact List.mem_filter.mpr ⟨hother, hselect⟩
  rw [newest] at h hmem
  rw [h] at hsorted hmem
  obtain rfl | hrest := List.mem_cons.mp hmem
  · exact (newerFirst_total _ _).elim id id
  · exact List.rel_of_pairwise_cons hsorted hrest

/-- **A check is authorized by its newest request**, and by no other one. -/
theorem authorize_ok_iff (hload : disk.load p = .ok ledger) (check : ApprovalCheck) (observed : ℕ) :
    (∃ token, (authorize p disk check observed).1 = .ok token) ↔
      ∃ request ∈ ledger.requests.rows, request.check = check ∧
        (∀ other ∈ ledger.requests.rows, other.check = check → NewerFirst request other) ∧
        Live p ledger (disk.effectiveNow observed) disk.operators request := by
  show (∃ token, (((disk.observe observed).load p).bind fun ledger => _) = .ok token) ↔ _
  rw [load_observe, hload, Except.bind]
  cases hnewest : newest ledger fun request => request.check = check with
  | nil =>
    constructor
    · rintro ⟨token, h⟩
      cases h
    · rintro ⟨request, hrequest, hcheck, -⟩
      have := newest_eq_nil hnewest request hrequest
      simp [hcheck] at this
  | cons head rest =>
    have hhead : head ∈ newest ledger fun request => request.check = check := by
      rw [hnewest]
      exact List.mem_cons_self
    obtain ⟨hmem, hcheck⟩ := mem_newest hhead
    have hfirst : ∀ other ∈ ledger.requests.rows, other.check = check → NewerFirst head other :=
      fun other hother hsame => newest_head hnewest other hother (by simpa using hsame)
    show (∃ token, evaluateWithTrust p head ledger _ _ = .ok token) ↔ _
    rw [evaluate_ok_iff (load_bound hload) hmem]
    constructor
    · intro hlive
      exact ⟨head, hmem, by simpa using hcheck, hfirst, hlive⟩
    · rintro ⟨request, hrequest, hsame, hnewer, hlive⟩
      have heq := NewerFirst.antisymm hmem hrequest (hfirst request hrequest hsame)
        (hnewer head hmem (by simpa using hcheck))
      rw [heq]
      exact hlive

/-- **When a check that has a live approval is authorized.**  For every ledger, check and time:
`authorize` succeeds exactly when some request of the exact check has a live approval, if and only if no
request of the check has one, or its newest request has. -/
theorem authorize_exact_iff (p : Primitives Key) (disk : Disk) (ledger : ApprovalLedger)
    (hload : disk.load p = .ok ledger) (check : ApprovalCheck) (observed : ℕ) :
    ((∃ token, (authorize p disk check observed).1 = .ok token) ↔
        ∃ request ∈ ledger.requests.rows, request.check = check ∧
          Live p ledger (disk.effectiveNow observed) disk.operators request) ↔
      (∀ request ∈ ledger.requests.rows, request.check = check →
          ¬Live p ledger (disk.effectiveNow observed) disk.operators request) ∨
        ∃ request ∈ ledger.requests.rows, request.check = check ∧
          (∀ other ∈ ledger.requests.rows, other.check = check → NewerFirst request other) ∧
          Live p ledger (disk.effectiveNow observed) disk.operators request := by
  rw [authorize_ok_iff hload]
  constructor
  · intro hagree
    by_cases hlive : ∃ request ∈ ledger.requests.rows, request.check = check ∧
        Live p ledger (disk.effectiveNow observed) disk.operators request
    · exact .inr (hagree.mpr hlive)
    · left
      intro request hrequest hcheck h
      exact hlive ⟨request, hrequest, hcheck, h⟩
  · rintro (hnone | hnewest)
    · constructor
      · rintro ⟨request, hrequest, hcheck, -, hlive⟩
        exact absurd hlive (hnone request hrequest hcheck)
      · rintro ⟨request, hrequest, hcheck, hlive⟩
        exact absurd hlive (hnone request hrequest hcheck)
    · constructor
      · rintro ⟨request, hrequest, hcheck, -, hlive⟩
        exact ⟨request, hrequest, hcheck, hlive⟩
      · intro _
        exact hnewest

/-- Before the order is proposed again, it is authorized exactly as its approval is live. -/
theorem authorize_exact_iff_approvedOrder :
    let disk := ((World.start [operator]).run zeroPrimitives approveOrder).disk
    ∃ ledger, disk.load zeroPrimitives = .ok ledger ∧
      ((∃ token, (authorize zeroPrimitives disk orderCheck 17).1 = .ok token) ↔
        ∃ request ∈ ledger.requests.rows, request.check = orderCheck ∧
          Live zeroPrimitives ledger (disk.effectiveNow 17) disk.operators request) := by
  intro disk
  -- both are read off one evaluation of the run
  have hruns : (disk.load zeroPrimitives).toOption.isSome ∧
      (authorize zeroPrimitives disk orderCheck 17).1.toOption.isSome := by decide +kernel
  obtain ⟨hloads, hauthorized⟩ := hruns
  obtain ⟨ledger, hledger⟩ := Option.isSome_iff_exists.mp hloads
  have hload := eq_ok_of_toOption hledger
  obtain ⟨token, htoken⟩ := Option.isSome_iff_exists.mp hauthorized
  refine ⟨ledger, hload, (authorize_exact_iff zeroPrimitives disk ledger hload orderCheck 17).mpr
    (.inr ?_)⟩
  exact (authorize_ok_iff hload orderCheck 17).mp ⟨token, eq_ok_of_toOption htoken⟩

/-! ## A duplicate proposal -/

/-- As `zeroPrimitives`, with one id for the time 10 and another one for every other time. -/
def timedPrimitives : Primitives Unit where
  identityDigest _ now := if now = 10 then zeros 64 else String.ofList (List.replicate 64 '1')
  requestDigest _ := zeros 64
  statementDigest _ := zeros 64
  entryDigest _ _ _ _ := zeros 64
  fingerprint _ := zeros 64
  publicKey _ := zeros 64
  sign _ _ := zeros 128
  verifySignature _ _ signature := signature = zeros 128
  credential _ := false

/-- The order is approved, and then the agent proposes it again. -/
def proposeAgain : List (Step Unit) :=
  approveOrder ++ [.propose orderDraft 16 .never]

/-- The files after the second proposal. -/
def proposedAgain : Disk := ((World.start [operator]).run timedPrimitives proposeAgain).disk

/-- **A later duplicate proposal revokes an approval that is live**: the first request of the order is
approved, verified and in time, and yet the order is not authorized while the second one is pending. -/
theorem duplicateProposal_revokes_approval :
    ∃ ledger, proposedAgain.load timedPrimitives = .ok ledger ∧
      (∃ request ∈ ledger.requests.rows, request.check = orderCheck ∧
        Live timedPrimitives ledger (proposedAgain.effectiveNow 17) proposedAgain.operators request) ∧
      ¬∃ token, (authorize timedPrimitives proposedAgain orderCheck 17).1 = .ok token := by
  -- both are read off one evaluation of the run
  have hruns : (proposedAgain.load timedPrimitives).toOption.any (fun ledger =>
      ledger.requests.rows.any fun request => request.check = orderCheck &&
        (evaluateWithTrust timedPrimitives request ledger (proposedAgain.effectiveNow 17)
          proposedAgain.operators).toOption.isSome) = true ∧
      (authorize timedPrimitives proposedAgain orderCheck 17).1.toOption.isSome = false := by
    decide +kernel
  obtain ⟨hlive, hrefused⟩ := hruns
  obtain ⟨ledger, hledger, hany⟩ := (Option.any_eq_true _ _).mp hlive
  obtain ⟨request, hrequest, hevaluates⟩ := List.any_eq_true.mp hany
  simp only [Bool.and_eq_true, decide_eq_true_eq] at hevaluates
  obtain ⟨hcheck, hsome⟩ := hevaluates
  obtain ⟨token, htoken⟩ := Option.isSome_iff_exists.mp hsome
  have hload := eq_ok_of_toOption hledger
  refine ⟨ledger, hload, ⟨request, hrequest, hcheck,
    (evaluate_ok_iff (load_bound hload) hrequest).mp ⟨token, eq_ok_of_toOption htoken⟩⟩, ?_⟩
  rintro ⟨token', h⟩
  rw [h] at hrefused
  cases hrefused

end Approval
