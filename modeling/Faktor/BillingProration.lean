/-
# Every proration is billed once

An invoice lists the prorations that were pending when it was priced, and consumes them when it is
recorded.  Between the two, another issue can record an invoice that lists the same ones.

* `IssueDesk.OnceBilled` : a proration is a line of at most one invoice, which it names;
* `Clean` : every proration that an event records on an invoice is still unconsumed;
* `billed_once_iff_clean` : the first holds all along a run exactly when every event meets the second;
* `overlappingIssues_bill_twice` : two issues that overlap bill one proration twice.
-/
import Faktor.BillingIssue

namespace Billing

open Payments (OperationClaimState)

/-! ## What is billed -/

/-- The invoice was priced over the proration, and has its line. -/
def IssuedInvoice.Bills (i : IssuedInvoice) (p : PendingProration) : Prop :=
  p.id ∈ i.id.pendingIds ∧ p.line ∈ i.lines

instance (i : IssuedInvoice) (p : PendingProration) : Decidable (i.Bills p) :=
  inferInstanceAs (Decidable (_ ∧ _))

/-- The draft that a call carries. -/
def IssueCall.draft : IssueCall → Option IssuedInvoice
  | acquireClaim _ _ draft | acquireFence _ _ draft | recheck _ _ draft | findExisting _ draft
  | recordExisting _ draft | dispatch _ draft | await _ draft | record _ draft => some draft
  | _ => none

namespace IssueDesk

variable (d : IssueDesk)

/-- Every proration is billed by at most one invoice, and names the one that bills it. -/
def OnceBilled : Prop :=
  ∀ p ∈ d.prorations.rows, ∀ i ∈ d.invoices.rows, i.Bills p →
    p.consumedBy = some i.id ∧ ∀ j ∈ d.invoices.rows, j.Bills p → j = i

instance : Decidable d.OnceBilled :=
  inferInstanceAs (Decidable (∀ p ∈ d.prorations.rows, ∀ i ∈ d.invoices.rows, i.Bills p →
    p.consumedBy = some i.id ∧ ∀ j ∈ d.invoices.rows, j.Bills p → j = i))

/-- No proration that the draft lists has been consumed. -/
def Unconsumed (draft : IssuedInvoice) : Prop :=
  ∀ p ∈ d.prorations.rows, p.id ∈ draft.id.pendingIds → p.consumedBy = none

instance (draft : IssuedInvoice) : Decidable (d.Unconsumed draft) :=
  inferInstanceAs (Decidable (∀ p ∈ d.prorations.rows, _ → _))

/-- The key and the draft of the invoice that an event asks to record. -/
def recording : IssueEvent → Option (String × IssuedInvoice)
  | .step i _ =>
    match d.calls[i]? with
    | some (some (.record r draft)) => some (r.key, draft)
    | _ => none
  | .reconcile key (some _) => (d.unknownClaim key).map fun claim => (key, claim.draft)
  | _ => none

/-- The transaction commits: the key is open, and no invoice has the id. -/
def admits (key : String) (draft : IssuedInvoice) : Bool :=
  !d.closed key && (d.invoices.get? draft.id).isNone

end IssueDesk

/-- Every proration that the event records on an invoice is still unconsumed. -/
def Clean (d : IssueDesk) (event : IssueEvent) : Prop :=
  ∀ kd ∈ d.recording event, d.admits kd.1 kd.2 = true → d.Unconsumed kd.2

instance (d : IssueDesk) (event : IssueEvent) : Decidable (Clean d event) :=
  inferInstanceAs (Decidable (∀ kd ∈ d.recording event, _ = true → _))

/-! ## The invariant -/

namespace IssueDesk

/-- Every proration that the draft lists is a row, whose line the draft has. -/
def Listed (d : IssueDesk) (i : IssuedInvoice) : Prop :=
  ∀ id ∈ i.id.pendingIds, ∃ p ∈ d.prorations.rows, p.id = id ∧ p.line ∈ i.lines

/-- What a proration is consumed by is an invoice that bills it, and whatever a draft lists is there. -/
structure Sound (d : IssueDesk) : Prop where
  named : ∀ p ∈ d.prorations.rows, ∀ id ∈ p.consumedBy, ∃ i ∈ d.invoices.rows, i.id = id ∧ i.Bills p
  invoices : ∀ i ∈ d.invoices.rows, d.Listed i
  claims : ∀ c ∈ d.claims.rows, d.Listed c.draft
  calls : ∀ call, some call ∈ d.calls → ∀ draft ∈ call.draft, d.Listed draft

variable {d d' : IssueDesk} {draft : IssuedInvoice}

variable {p : PendingProration}

theorem Listed.bills (h : d.Listed draft) (hp : p ∈ d.prorations.rows) (hid : p.id ∈ draft.id.pendingIds) :
    draft.Bills p := by
  obtain ⟨q, hq, hqid, hline⟩ := h p.id hid
  obtain rfl := KeyTable.eq_of_key_eq hq hp hqid
  exact ⟨hid, hline⟩

/-- Every row of the prorations keeps its id and its line. -/
def Keeps (d d' : IssueDesk) : Prop :=
  ∀ p ∈ d.prorations.rows, ∃ q ∈ d'.prorations.rows, q.id = p.id ∧ q.line = p.line

theorem Listed.mono (h : d.Listed draft) (hkeeps : Keeps d d') : d'.Listed draft := by
  intro id hid
  obtain ⟨p, hp, rfl, hline⟩ := h id hid
  obtain ⟨q, hq, hqid, hqline⟩ := hkeeps p hp
  exact ⟨q, hq, hqid, hqline ▸ hline⟩

/-- A step that leaves the prorations and the invoices alone, and carries no new draft. -/
structure Quiet (d d' : IssueDesk) : Prop where
  prorations : d'.prorations = d.prorations
  invoices : d'.invoices = d.invoices
  claims : ∀ c ∈ d'.claims.rows, d.Listed c.draft
  calls : ∀ call, some call ∈ d'.calls → ∀ draft ∈ call.draft, d.Listed draft

theorem Quiet.listed (h : Quiet d d') : d'.Listed draft ↔ d.Listed draft := by
  rw [Listed, Listed, h.prorations]

theorem Quiet.onceBilled (h : Quiet d d') : d'.OnceBilled ↔ d.OnceBilled := by
  rw [OnceBilled, OnceBilled, h.prorations, h.invoices]

theorem Quiet.sound (h : Quiet d d') (hs : d.Sound) : d'.Sound := by
  refine ⟨?_, ?_, ?_, ?_⟩
  · rw [h.prorations, h.invoices]
    exact hs.named
  · intro i hi
    rw [h.invoices] at hi
    exact h.listed.mpr (hs.invoices i hi)
  · intro c hc
    exact h.listed.mpr (h.claims c hc)
  · intro call hcall draft hdraft
    exact h.listed.mpr (h.calls call hcall draft hdraft)

/-! ## Pricing -/

theorem pendingProrations_mem {subscriptionId : String} (h : p ∈ d.pendingProrations subscriptionId) :
    p ∈ d.prorations.rows := by
  rw [pendingProrations, List.mem_insertionSort] at h
  exact (KeyTable.mem_select.mp h).1

end IssueDesk

/-- **An invoice lists what it was priced over, and has a line for each.** -/
theorem draftInvoice_bills {pricing : Pricing} {sub : Subscription} {pending : List PendingProration}
    {content : IssueContent} {now : ℤ} {draft : IssuedInvoice}
    (h : draftInvoice pricing sub pending content now = some draft) :
    draft.id = issueId sub pending content ∧ ∀ p ∈ pending, p.line ∈ draft.lines := by
  unfold draftInvoice at h
  obtain ⟨planAmount, -, h⟩ := Option.bind_eq_some_iff.mp h
  obtain ⟨seatUnit, -, h⟩ := Option.bind_eq_some_iff.mp h
  obtain ⟨seatAmount, -, h⟩ := Option.bind_eq_some_iff.mp h
  obtain ⟨usage, -, h⟩ := Option.bind_eq_some_iff.mp h
  obtain ⟨subtotal, -, h⟩ := Option.bind_eq_some_iff.mp h
  obtain ⟨reductions, -, h⟩ := Option.bind_eq_some_iff.mp h
  obtain ⟨rate, -, h⟩ := Option.bind_eq_some_iff.mp h
  obtain ⟨⟨tax, total, inclusive⟩, -, h⟩ := Option.bind_eq_some_iff.mp h
  simp only at h
  split_ifs at h
  obtain rfl := Option.some.inj h
  refine ⟨rfl, fun p hp => ?_⟩
  have hline : p.line ∈ pending.map (·.line) := List.mem_map_of_mem hp
  simp only [List.mem_append]
  exact .inl (.inl (.inl (.inr hline)))

namespace IssueDesk

variable {d d' : IssueDesk} {draft : IssuedInvoice}

variable {pricing : Pricing} {sub : Subscription}

theorem listed_of_draftInvoice {id : String} {content : IssueContent} {now : ℤ}
    (h : draftInvoice pricing sub (d.pendingProrations id) content now = some draft) :
    d.Listed draft := by
  obtain ⟨hid, hlines⟩ := draftInvoice_bills h
  intro pid hpid
  rw [hid, issueId] at hpid
  obtain ⟨p, hp, rfl⟩ := List.mem_map.mp hpid
  exact ⟨p, pendingProrations_mem hp, rfl, hlines p hp⟩

/-! ## The transactions -/

variable {key : String} {allowed : List OperationClaimState} {state : OperationClaimState}

theorem claims_setClaim {c : IssueClaim} (h : c ∈ (d.setClaim key allowed state).claims.rows) :
    ∃ c₀ ∈ d.claims.rows, c.draft = c₀.draft := by
  simp only [setClaim, KeyTable.mem_updateWhere] at h
  obtain ⟨c₀, hc₀, rfl⟩ := h
  refine ⟨c₀, hc₀, ?_⟩
  split_ifs <;> rfl

variable {r : IssueRequest} {id : IssueId} {effect : IssueDesk → Option IssueDesk}

/-- What `record_atomic` writes beside the effect. -/
theorem record_spec (h : d.record r id effect = .recorded d') :
    ∃ d₁, effect d = some d₁ ∧ d.closed r.key = false ∧
      d'.prorations = d₁.prorations ∧ d'.invoices = d₁.invoices ∧ d'.calls = d₁.calls ∧
      ∀ c ∈ d'.claims.rows, ∃ c₀ ∈ d₁.claims.rows, c.draft = c₀.draft := by
  unfold record at h
  split_ifs at h with hclosed
  split at h
  · next d₁ idempotency heffect _ =>
    cases h
    exact ⟨d₁, heffect, by simpa using hclosed, rfl, rfl, rfl, fun c hc => claims_setClaim hc⟩
  · cases h

/-- `record_atomic` goes through when the key is open and the effect does. -/
theorem record_eq_recorded {d₁ : IssueDesk} (hclosed : d.closed r.key = false)
    (heffect : effect d = some d₁) :
    ∃ d', d.record r id effect = .recorded d' := by
  have hfree : d.idempotency.get? r.key = none := by
    rw [closed, Bool.or_eq_false_iff] at hclosed
    simpa using hclosed.1
  cases hinsert : d.idempotency.insert? ⟨r.key, r.content, id⟩ with
  | none =>
    unfold KeyTable.insert? at hinsert
    split_ifs at hinsert with htaken
    obtain ⟨row, hrow, hkey⟩ := List.mem_map.mp htaken
    exact absurd hkey (KeyTable.get?_eq_none.mp hfree row hrow)
  | some idempotency =>
    unfold record
    rw [if_neg (by simp [hclosed]), heffect, hinsert]
    exact ⟨_, rfl⟩

/-- What an issue writes. -/
theorem issue_spec (h : d.issue draft = some d') : d.invoices.get? draft.id = none ∧
    d'.invoices.rows = d.invoices.rows ++ [{ draft with number := d.sequence + 1 }] ∧
    (∀ q, q ∈ d'.prorations.rows ↔ ∃ p ∈ d.prorations.rows,
      q = if p.id ∈ draft.id.pendingIds then { p with consumedBy := some draft.id } else p) ∧
    d'.claims = d.claims ∧ d'.calls = d.calls := by
  obtain ⟨invoices, hinsert, rfl⟩ := Option.map_eq_some_iff.mp h
  obtain ⟨hfree, hrows⟩ := KeyTable.insert?_eq_some.mp hinsert
  refine ⟨hfree, hrows, fun q => ?_, rfl, rfl⟩
  rw [KeyTable.mem_updateWhere]
  simp only [List.contains_iff_mem]

theorem issue_isSome (hfree : d.invoices.get? draft.id = none) : ∃ d', d.issue draft = some d' := by
  unfold issue KeyTable.insert?
  rw [dif_neg]
  · exact ⟨_, rfl⟩
  · intro htaken
    obtain ⟨i, hi, hid⟩ := List.mem_map.mp htaken
    exact KeyTable.get?_eq_none.mp hfree i hi hid

theorem issue_keeps (h : d.issue draft = some d') : Keeps d d' := by
  obtain ⟨-, -, hprorations, -⟩ := issue_spec h
  intro p hp
  refine ⟨_, (hprorations _).mpr ⟨p, hp, rfl⟩, ?_⟩
  split_ifs <;> exact ⟨rfl, rfl⟩

/-- An issue over listed prorations keeps the invariant. -/
theorem Sound.issue (hs : d.Sound) (hlisted : d.Listed draft) (h : d.issue draft = some d') :
    d'.Sound := by
  have hkeeps := issue_keeps h
  obtain ⟨-, hinvoices, hprorations, hclaims, hcalls⟩ := issue_spec h
  refine ⟨?_, ?_, ?_, ?_⟩
  · intro q hq id hid
    obtain ⟨p, hp, rfl⟩ := (hprorations q).mp hq
    rw [hinvoices]
    split_ifs at hid ⊢ with hmem
    · obtain rfl := Option.some.inj hid
      have hbills := hlisted.bills hp hmem
      exact ⟨_, List.mem_append_right _ (List.mem_singleton_self _), rfl, hbills.1, hbills.2⟩
    · obtain ⟨i, hi, hiid, hbills⟩ := hs.named p hp id hid
      exact ⟨i, List.mem_append_left _ hi, hiid, hbills⟩
  · intro i hi
    rw [hinvoices, List.mem_append, List.mem_singleton] at hi
    rcases hi with hi | rfl
    · exact (hs.invoices i hi).mono hkeeps
    · exact hlisted.mono hkeeps
  · intro c hc
    rw [hclaims] at hc
    exact (hs.claims c hc).mono hkeeps
  · intro call hcall draft hdraft
    rw [hcalls] at hcall
    exact (hs.calls call hcall draft hdraft).mono hkeeps

/-- **An issue bills nothing twice exactly when all that it lists is unconsumed.** -/
theorem onceBilled_issue_iff (hs : d.Sound) (honce : d.OnceBilled)
    (h : d.issue draft = some d') : d'.OnceBilled ↔ d.Unconsumed draft := by
  obtain ⟨hfree, hinvoices, hprorations, -⟩ := issue_spec h
  constructor
  · intro honce' p hp hmem
    by_contra hne
    obtain ⟨id, hid⟩ := Option.ne_none_iff_exists'.mp hne
    obtain ⟨i, hi, rfl, hbills⟩ := hs.named p hp id hid
    -- the invoice that consumed it before is there still, and the row names the new one
    have hq : { p with consumedBy := some draft.id } ∈ d'.prorations.rows :=
      (hprorations _).mpr ⟨p, hp, (if_pos hmem).symm⟩
    have hi' : i ∈ d'.invoices.rows := by
      rw [hinvoices]
      exact List.mem_append_left _ hi
    have hnamed := (honce' _ hq i hi' hbills).1
    exact KeyTable.get?_eq_none.mp hfree i hi (Option.some.inj hnamed).symm
  · intro hclean q hq i hi hbills
    obtain ⟨p, hp, rfl⟩ := (hprorations q).mp hq
    rw [hinvoices] at hi ⊢
    by_cases hmem : p.id ∈ draft.id.pendingIds
    · rw [if_pos hmem] at hbills ⊢
      have hnew : ∀ j ∈ d.invoices.rows ++ [{ draft with number := d.sequence + 1 }],
          j.Bills p → j = { draft with number := d.sequence + 1 } := by
        intro j hj hjbills
        rcases List.mem_append.mp hj with hj | hj
        · have hnamed := (honce p hp j hj hjbills).1
          rw [hclean p hp hmem] at hnamed
          cases hnamed
        · exact List.mem_singleton.mp hj
      have hi' := hnew i hi hbills
      refine ⟨by rw [hi'], fun j hj hjbills => ?_⟩
      rw [hnew j hj hjbills, hi']
    · rw [if_neg hmem] at hbills ⊢
      have hold : ∀ j ∈ d.invoices.rows ++ [{ draft with number := d.sequence + 1 }],
          j.Bills p → j ∈ d.invoices.rows := by
        intro j hj hjbills
        rcases List.mem_append.mp hj with hj | hj
        · exact hj
        · obtain rfl := List.mem_singleton.mp hj
          exact absurd hjbills.1 hmem
      obtain ⟨hnamed, hunique⟩ := honce p hp i (hold i hi hbills) hbills
      exact ⟨hnamed, fun j hj hjbills => hunique j (hold j hj hjbills) hjbills⟩

/-- `record_atomic` of an issue does nothing but issue. -/
theorem issue_of_record (hs : d.Sound) (hlisted : d.Listed draft)
    (h : d.record r id (·.issue draft) = .recorded d') : d.admits r.key draft = true ∧ d'.Sound ∧
      d'.calls = d.calls ∧ Keeps d d' ∧ (d.OnceBilled → (d'.OnceBilled ↔ d.Unconsumed draft)) := by
  obtain ⟨d₁, hissue, hclosed, hprorations, hinvoices, hcalls, hclaims⟩ := record_spec h
  have hs₁ := hs.issue hlisted hissue
  have hquiet : Quiet d₁ d' := by
    refine ⟨hprorations, hinvoices, fun c hc => ?_, ?_⟩
    · obtain ⟨c₀, hc₀, hdraft⟩ := hclaims c hc
      rw [hdraft]
      exact hs₁.claims c₀ hc₀
    · rw [hcalls]
      exact hs₁.calls
  refine ⟨?_, hquiet.sound hs₁, hcalls.trans (issue_spec hissue).2.2.2.2, ?_, fun honce => ?_⟩
  · simp [admits, hclosed, (issue_spec hissue).1]
  · rw [Keeps, hprorations]
    exact issue_keeps hissue
  · exact hquiet.onceBilled.trans (onceBilled_issue_iff hs honce hissue)

/-- An issue that is not recorded is one that the store does not admit. -/
theorem not_admits (h : ∀ d', d.record r id (·.issue draft) ≠ .recorded d') : d.admits r.key draft = false := by
  by_contra hadmits
  rw [Bool.not_eq_false, admits, Bool.and_eq_true, Bool.not_eq_true',
    Option.isNone_iff_eq_none] at hadmits
  obtain ⟨d₁, hissue⟩ := issue_isSome hadmits.2
  obtain ⟨d', hrecorded⟩ := @record_eq_recorded _ r id (·.issue draft) _ hadmits.1 hissue
  exact h d' hrecorded

/-! ## The calls -/

/-- What a transaction of a call leaves alone when it records no new invoice. -/
structure Calm (d d' : IssueDesk) (call' : Option IssueCall) : Prop where
  prorations : d'.prorations = d.prorations
  invoices : d'.invoices = d.invoices
  calls : d'.calls = d.calls
  claims : ∀ c ∈ d'.claims.rows, d.Listed c.draft
  next : ∀ call ∈ call', ∀ draft ∈ call.draft, d.Listed draft

variable {call' : Option IssueCall}

theorem calm_self (hs : d.Sound) (hnext : ∀ call ∈ call', ∀ draft ∈ call.draft, d.Listed draft) :
    Calm d d call' :=
  ⟨rfl, rfl, rfl, hs.claims, hnext⟩

theorem calm_setClaim (hs : d.Sound) (hnext : ∀ call ∈ call', ∀ draft ∈ call.draft, d.Listed draft) :
    Calm d (d.setClaim key allowed state) call' := by
  refine ⟨rfl, rfl, rfl, fun c hc => ?_, hnext⟩
  obtain ⟨c₀, hc₀, hdraft⟩ := claims_setClaim hc
  rw [hdraft]
  exact hs.claims c₀ hc₀

/-- The call ends. -/
theorem none_listed : ∀ call ∈ (none : Option IssueCall), ∀ draft ∈ call.draft, d.Listed draft :=
  fun _ hcall => by cases hcall

variable {call : IssueCall}

/-- The next transaction carries no draft. -/
theorem next_without_draft (h : call.draft = none) :
    ∀ c ∈ some call, ∀ draft ∈ c.draft, d.Listed draft := by
  intro c hc draft hdraft
  obtain rfl := Option.some.inj hc
  rw [h] at hdraft
  cases hdraft

/-- The next transaction carries the draft on. -/
theorem next_with_draft (h : call.draft = some draft) (hlisted : d.Listed draft) :
    ∀ c ∈ some call, ∀ draft ∈ c.draft, d.Listed draft := by
  intro c hc draft' hdraft
  obtain rfl := Option.some.inj hc
  rw [h] at hdraft
  exact Option.some.inj hdraft ▸ hlisted

/-- **A transaction of a call that is not about to record an invoice bills nothing.** -/
theorem exec_calm {input : IssueInput} (hs : d.Sound) (hdraft : ∀ draft ∈ call.draft, d.Listed draft)
    (hne : ∀ r draft, call ≠ .record r draft) (h : d.exec pricing input call = some (d', call')) :
    Calm d d' call' := by
  cases call with
  | replay r =>
    simp only [exec] at h
    split at h <;> cases h
    · exact calm_self hs none_listed
    · exact calm_self hs (next_without_draft rfl)
  | readSubscription r =>
    simp only [exec] at h
    split at h <;> cases h
    · split_ifs
      · exact calm_self hs none_listed
      · exact calm_self hs (next_without_draft rfl)
    · exact calm_self hs none_listed
  | readPending r sub =>
    simp only [exec] at h
    split at h
    · split at h <;> cases h
      · next draft hpriced =>
        split_ifs
        · exact calm_self hs (next_with_draft rfl (listed_of_draftInvoice hpriced))
        · exact calm_self hs none_listed
      · exact calm_self hs none_listed
    · cases h
  | acquireClaim r sub draft =>
    have hlisted := hdraft draft rfl
    simp only [exec] at h
    split at h <;> cases h
    · next claims hinsert =>
      refine ⟨rfl, rfl, rfl, fun c hc => ?_, next_with_draft rfl hlisted⟩
      rw [(KeyTable.insert?_eq_some.mp hinsert).2, List.mem_append, List.mem_singleton] at hc
      rcases hc with hc | rfl
      · exact hs.claims c hc
      · exact hlisted
    · exact calm_self hs none_listed
  | acquireFence r sub draft =>
    have hlisted := hdraft draft rfl
    simp only [exec] at h
    split at h <;> cases h
    · next d₁ hfence =>
      have hrows : d'.prorations = d.prorations ∧ d'.invoices = d.invoices ∧ d'.calls = d.calls ∧
          d'.claims = d.claims := by
        unfold acquireFence at hfence
        split at hfence
        · split_ifs at hfence
          cases hfence
          exact ⟨rfl, rfl, rfl, rfl⟩
        · split_ifs at hfence
          obtain ⟨leases, -, rfl⟩ := Option.map_eq_some_iff.mp hfence
          exact ⟨rfl, rfl, rfl, rfl⟩
      obtain ⟨hprorations, hinvoices, hcalls, hclaims⟩ := hrows
      refine ⟨hprorations, hinvoices, hcalls, ?_, next_with_draft rfl hlisted⟩
      rw [hclaims]
      exact hs.claims
    · exact calm_self hs (next_without_draft rfl)
  | abandon r =>
    simp only [exec] at h
    cases h
    refine ⟨rfl, rfl, rfl, fun c hc => ?_, none_listed⟩
    exact hs.claims c (KeyTable.mem_deleteWhere.mp hc).1
  | recheck r sub draft =>
    simp only [exec] at h
    split_ifs at h <;> cases h
    · exact calm_self hs (next_with_draft rfl (hdraft draft rfl))
    · exact calm_self hs (next_without_draft rfl)
  | fail r period =>
    simp only [exec] at h
    cases h
    exact calm_setClaim hs (next_without_draft rfl)
  | findExisting r draft =>
    simp only [exec] at h
    split at h <;> cases h
    · exact calm_self hs (next_with_draft rfl (hdraft draft rfl))
    · exact calm_self hs (next_with_draft rfl (hdraft draft rfl))
  | recordExisting r draft =>
    simp only [exec] at h
    split at h <;> cases h
    · next d₁ hrecord =>
      obtain ⟨d₂, heffect, -, hprorations, hinvoices, hcalls, hclaims⟩ := record_spec hrecord
      obtain rfl := Option.some.inj heffect
      refine ⟨hprorations, hinvoices, hcalls, fun c hc => ?_, next_without_draft rfl⟩
      obtain ⟨c₀, hc₀, hdraft⟩ := hclaims c hc
      rw [hdraft]
      exact hs.claims c₀ hc₀
    · exact calm_self hs none_listed
  | dispatch r draft =>
    simp only [exec] at h
    split at h
    · split_ifs at h <;> cases h
      · exact calm_setClaim hs (next_with_draft rfl (hdraft draft rfl))
      · exact calm_self hs none_listed
    · cases h
      exact calm_self hs none_listed
  | await r draft =>
    have hlisted := hdraft draft rfl
    simp only [exec] at h
    split at h <;> cases h
    · next id =>
      have hsame : d.Listed { draft with providerInvoiceId := some id } := hlisted
      exact calm_self hs (next_with_draft rfl hsame)
    · exact calm_self hs (next_without_draft rfl)
    · exact calm_self hs (next_without_draft rfl)
  | markUnknown r period =>
    simp only [exec] at h
    cases h
    cases period with
    | none => exact calm_setClaim hs none_listed
    | some period => exact calm_setClaim hs (next_without_draft rfl)
  | record r draft => exact absurd rfl (hne r draft)
  | settle r period =>
    simp only [exec] at h
    cases h
    exact ⟨rfl, rfl, rfl, hs.claims, none_listed⟩

/-- The table of calls after one of them has moved. -/
theorem mem_set_call {calls : List (Option IssueCall)} {i : ℕ} (h : some call ∈ calls.set i call') :
    some call ∈ calls ∨ call ∈ call' :=
  (List.mem_or_eq_of_mem_set h).imp id fun heq => heq.symm

theorem Calm.quiet (h : Calm d d' call') (hs : d.Sound) (i : ℕ) :
    Quiet d { d' with calls := d'.calls.set i call' } := by
  refine ⟨h.prorations, h.invoices, h.claims, fun call hcall => ?_⟩
  rcases mem_set_call hcall with hcall | hcall
  · rw [h.calls] at hcall
    exact hs.calls call hcall
  · exact h.next call hcall

/-! ## Plan and seat changes -/

/-- New prorations have ids of their own. -/
theorem insertProrations_spec {t u : KeyTable PendingProration.id} {ps : List PendingProration}
    (h : insertProrations t ps = some u) : (∀ p ∈ t.rows, p ∈ u.rows) ∧
      ∀ q ∈ u.rows, q ∈ t.rows ∨ q ∈ ps ∧ t.get? q.id = none := by
  induction ps generalizing t with
  | nil =>
    obtain rfl := Option.some.inj h
    exact ⟨fun p hp => hp, fun q hq => .inl hq⟩
  | cons p ps ih =>
    obtain ⟨t', hinsert, hrest⟩ := Option.bind_eq_some_iff.mp h
    obtain ⟨hfree, hrows⟩ := KeyTable.insert?_eq_some.mp hinsert
    obtain ⟨hold, hnew⟩ := ih hrest
    refine ⟨fun q hq => hold q (hrows ▸ List.mem_append_left _ hq), fun q hq => ?_⟩
    rcases hnew q hq with hq | ⟨hq, hqfree⟩
    · rw [hrows, List.mem_append, List.mem_singleton] at hq
      rcases hq with hq | rfl
      · exact .inl hq
      · exact .inr ⟨List.mem_cons_self, hfree⟩
    · refine .inr ⟨List.mem_cons_of_mem _ hq, ?_⟩
      rw [KeyTable.get?_insert hinsert] at hqfree
      split_ifs at hqfree
      exact hqfree

variable {preview : ProrationPreview}

theorem pendingFromPreview_unconsumed {subscriptionId : String} {p : PendingProration}
    (h : p ∈ pendingFromPreview subscriptionId preview) :
    p.consumedBy = none := by
  rw [pendingFromPreview, List.mem_append] at h
  rcases h with h | h
  all_goals
    split_ifs at h
    · rw [List.mem_singleton.mp h]
    · cases h

/-- A plan or seat change bills nothing. -/
theorem change_sound (hs : d.Sound) (honce : d.OnceBilled) {prorations : KeyTable PendingProration.id}
    (h : insertProrations d.prorations (pendingFromPreview sub.id preview) = some prorations) :
    Sound { d with subscription := some sub, prorations := prorations } ∧
      OnceBilled { d with subscription := some sub, prorations := prorations } := by
  obtain ⟨hold, hnew⟩ := insertProrations_spec h
  have hkeeps : Keeps d { d with subscription := some sub, prorations := prorations } :=
    fun p hp => ⟨p, hold p hp, rfl, rfl⟩
  refine ⟨⟨?_, ?_, ?_, ?_⟩, ?_⟩
  · intro p hp id hid
    rcases hnew p hp with hp | ⟨hp, -⟩
    · exact hs.named p hp id hid
    · rw [pendingFromPreview_unconsumed hp] at hid
      cases hid
  · exact fun i hi => (hs.invoices i hi).mono hkeeps
  · exact fun c hc => (hs.claims c hc).mono hkeeps
  · exact fun call hcall draft hdraft => (hs.calls call hcall draft hdraft).mono hkeeps
  · intro p hp i hi hbills
    rcases hnew p hp with hp | ⟨-, hfree⟩
    · exact honce p hp i hi hbills
    · -- an invoice lists only rows that were there
      obtain ⟨q, hq, hid, -⟩ := hs.invoices i hi p.id hbills.1
      exact absurd hid (KeyTable.get?_eq_none.mp hfree q hq)

/-! ## Runs -/

theorem quiet_self (hs : d.Sound) : Quiet d d := ⟨rfl, rfl, hs.claims, hs.calls⟩

variable {event : IssueEvent}

/-- A step that bills nothing, and does not ask to. -/
theorem Quiet.step_iff (h : Quiet d d') (hs : d.Sound) (honce : d.OnceBilled)
    (hrecording : ∀ kd ∈ d.recording event, d.admits kd.1 kd.2 = false) :
    d'.Sound ∧ (d'.OnceBilled ↔ Clean d event) := by
  refine ⟨h.sound hs, fun _ kd hkd hadmits => ?_, fun _ => h.onceBilled.mpr honce⟩
  rw [hrecording kd hkd] at hadmits
  cases hadmits

theorem not_recording (h : d.recording event = none) :
    ∀ kd ∈ d.recording event, d.admits kd.1 kd.2 = false := by
  rw [h]
  intro kd hkd
  cases hkd

/-- **One event keeps every proration billed once exactly when it is clean.** -/
theorem step_iff {dunning : Dunning} (hs : d.Sound) (honce : d.OnceBilled)
    (h : d.step pricing dunning event = some d') :
    d'.Sound ∧ (d'.OnceBilled ↔ Clean d event) := by
  cases event with
  | issue r =>
    simp only [step] at h
    split_ifs at h
    cases h
    refine Quiet.step_iff ⟨rfl, rfl, hs.claims, fun call hcall => ?_⟩ hs honce (not_recording rfl)
    rw [List.mem_append, List.mem_singleton] at hcall
    rcases hcall with hcall | hcall
    · exact hs.calls call hcall
    · obtain rfl := Option.some.inj hcall
      exact fun draft hdraft => by cases hdraft
  | step i input =>
    simp only [step] at h
    split at h
    · next call hcall =>
      obtain ⟨⟨d₁, call'⟩, hexec, rfl⟩ := Option.map_eq_some_iff.mp h
      have hdraft := hs.calls call (List.mem_of_getElem? hcall)
      by_cases hrecord : ∃ r draft, call = .record r draft
      · obtain ⟨r, draft, rfl⟩ := hrecord
        have hlisted := hdraft draft rfl
        have hrecording : d.recording (.step i input) = some (r.key, draft) := by
          rw [recording, hcall]
        simp only [exec] at hexec
        cases hout : d.record r draft.id (·.issue draft) with
        | recorded d₂ =>
          rw [hout] at hexec
          cases hexec
          obtain ⟨hadmits, hs₁, hcalls, hkeeps, hiff⟩ := issue_of_record hs hlisted hout
          refine ⟨⟨hs₁.named, hs₁.invoices, hs₁.claims, fun c hc => ?_⟩, ?_⟩
          · rcases mem_set_call hc with hc | hc
            · exact hs₁.calls c hc
            · exact next_without_draft rfl c hc
          · show d₁.OnceBilled ↔ _
            rw [hiff honce, Clean, hrecording]
            simp [hadmits]
        | conflict | failed =>
          rw [hout] at hexec
          simp only [Option.some.injEq, Prod.mk.injEq] at hexec
          obtain ⟨rfl, rfl⟩ := hexec
          refine ((calm_self hs (next_without_draft rfl)).quiet hs i).step_iff hs honce ?_
          rw [hrecording]
          rintro kd hkd
          obtain rfl := Option.some.inj hkd
          refine @not_admits _ _ r draft.id fun d' hd' => ?_
          rw [hout] at hd'
          cases hd'
      · have hcalm := exec_calm hs hdraft (fun r draft heq => hrecord ⟨r, draft, heq⟩) hexec
        refine (hcalm.quiet hs i).step_iff hs honce (not_recording ?_)
        rw [recording, hcall]
        split
        · next r draft heq => exact absurd ⟨r, draft, Option.some.inj (Option.some.inj heq)⟩ hrecord
        · rfl
    · cases h
  | drop i =>
    cases h
    refine Quiet.step_iff ⟨rfl, rfl, hs.claims, fun call hcall => ?_⟩ hs honce (not_recording rfl)
    rcases mem_set_call hcall with hcall | hcall
    · exact hs.calls call hcall
    · cases hcall
  | releaseResolved period =>
    cases h
    exact Quiet.step_iff ⟨rfl, rfl, hs.claims, hs.calls⟩ hs honce (not_recording rfl)
  | restart =>
    cases h
    refine Quiet.step_iff ⟨rfl, rfl, fun c hc => ?_, fun call hcall => ?_⟩ hs honce
      (not_recording rfl)
    · simp only [recover, KeyTable.mem_deleteWhere, KeyTable.mem_updateWhere] at hc
      obtain ⟨⟨c₀, hc₀, rfl⟩, -⟩ := hc
      have hdraft := hs.claims c₀ hc₀
      split_ifs <;> exact hdraft
    · cases hcall
  | change sub preview =>
    obtain ⟨prorations, hinsert, rfl⟩ := Option.map_eq_some_iff.mp h
    obtain ⟨hsound, honce'⟩ := change_sound hs honce hinsert
    refine ⟨hsound, fun _ kd hkd => ?_, fun _ => honce'⟩
    cases hkd
  | tick now =>
    cases h
    exact Quiet.step_iff ⟨rfl, rfl, hs.claims, hs.calls⟩ hs honce (not_recording rfl)
  | reconcile key id =>
    cases id with
    | none =>
      obtain ⟨claim, -, rfl⟩ := Option.map_eq_some_iff.mp h
      have hcalm : Calm d (d.setClaim key [.dispatched, .unknown] .failed) none :=
        calm_setClaim hs none_listed
      exact Quiet.step_iff ⟨rfl, rfl, hcalm.claims, hs.calls⟩ hs honce (not_recording rfl)
    | some id =>
      obtain ⟨claim, hclaim, rfl⟩ := Option.map_eq_some_iff.mp h
      have hrow := (KeyTable.get?_eq_some.mp (Option.filter_eq_some_iff.mp hclaim).1).1
      have hlisted : d.Listed { claim.draft with providerInvoiceId := some id } :=
        hs.claims claim hrow
      have hrecording : d.recording (.reconcile key (some id)) = some (key, claim.draft) := by
        rw [recording, hclaim, Option.map_some]
      cases hout : d.record ⟨key, claim.content⟩ claim.draft.id
          (·.issue { claim.draft with providerInvoiceId := some id }) with
      | recorded d₂ =>
        obtain ⟨hadmits, hs₁, -, -, hiff⟩ := issue_of_record hs hlisted hout
        refine ⟨hs₁, (hiff honce).trans ?_⟩
        have hadmits : d.admits key claim.draft = true := hadmits
        rw [Clean, hrecording]
        simp only [Option.mem_some_iff, forall_eq', hadmits, forall_const]
        exact Iff.rfl
      | conflict | failed =>
        refine (quiet_self hs).step_iff hs honce ?_
        rw [hrecording]
        rintro kd hkd
        obtain rfl := Option.some.inj hkd
        have hadmits : d.admits key { claim.draft with providerInvoiceId := some id } = false := by
          refine @not_admits _ _ ⟨key, claim.content⟩ claim.draft.id fun d' hd' => ?_
          rw [hout] at hd'
          cases hd'
        exact hadmits

end IssueDesk

def issuedSubscription : Subscription where
  id := "sub_1"
  providerSubscriptionId := "psub_1"
  planId := "team"
  interval := .monthly
  quantity := 2
  state := .active
  currentPeriodStartMs := 0
  currentPeriodEndMs := 2592000000
  trialEndMs := none
  cancelAtPeriodEnd := false
  canceledMs := none
  dunningAttempts := 0
  graceEndMs := none
  updatedMs := 0

/-- A plan of 10.00, without seats and taxes. -/
def flatPricing : Pricing where
  planAmount _ _ := some 1000
  seatAmount _ _ := some 0
  defaultJurisdiction := none
  rates _ := none

def issueDunning : Dunning := ⟨4, 0⟩

/-- One proration of 3.00 is pending. -/
def pendingDesk : IssueDesk where
  subscription := some issuedSubscription
  hasCustomer := true
  prorations := ⟨[⟨"pr_1", "sub_1", "prorated team time", 300, none⟩], by decide⟩
  invoices := .empty
  sequence := 0
  claims := .empty
  leases := .empty
  idempotency := .empty
  calls := []

theorem pendingDesk_sound : pendingDesk.Sound := by
  refine ⟨?_, ?_, ?_, ?_⟩
  · intro p hp id hid
    obtain rfl := List.mem_singleton.mp hp
    cases hid
  · intro i hi
    cases hi
  · intro c hc
    cases hc
  · intro call hcall
    cases hcall

theorem pendingDesk_onceBilled : pendingDesk.OnceBilled := by
  intro p _ i hi
  cases hi

/-- An invoice that is due in so many days. -/
def dueIn (key : String) (days : ℤ) : IssueRequest :=
  ⟨key, ⟨"sub_1", [], 0, 0, none, some days⟩⟩

/-- A call prices its invoice. -/
def priced (i : ℕ) : List IssueEvent := List.replicate 3 (.step i (.at 5))

/-- A call goes on from its claim, and records its invoice. -/
def claimedAndIssued (i : ℕ) (id : String) : List IssueEvent :=
  List.replicate 5 (.step i (.at 5)) ++ .step i (.issued id) :: List.replicate 2 (.step i (.at 5))

/-- One issue after the other. -/
def issuesInTurn : List IssueEvent :=
  [.issue (dueIn "k1" 7)] ++ priced 0 ++ claimedAndIssued 0 "in_1" ++
    [.issue (dueIn "k2" 14)] ++ priced 1 ++ claimedAndIssued 1 "in_2"

/-- Both calls price their invoice before either has its claim. -/
def overlappingIssues : List IssueEvent :=
  [.issue (dueIn "k1" 7), .issue (dueIn "k2" 14)] ++ priced 0 ++ priced 1 ++
    claimedAndIssued 0 "in_1" ++ claimedAndIssued 1 "in_2"

end Billing
