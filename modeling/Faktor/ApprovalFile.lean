/-
# The bytes of the ledger file, and what they commit to

An append writes its entry as one line of JSON and never looks at the length of the file, which a load
bounds.  The anchor names the last entry, and through its digest every entry before it.

* `fileBytes` : the length of the file;
* `LedgerTransaction.appendAll` : what a sequence of bodies leaves;
* `loads_iff_fits` : the file loads to what the transaction holds exactly while it fits the bound, and no
  other file passes under its anchor.
-/
import Faktor.ApprovalTransaction
import Faktor.JsonText

namespace Approval

open TextBytes JsonText

/-! ## The JSON of an entry -/

def ApprovalKind.name : ApprovalKind → String
  | .engineeringConstraintRelaxation => "engineering_constraint_relaxation"
  | .engineeringAcceptanceCriteriaChange => "engineering_acceptance_criteria_change"
  | .engineeringProofObligationWaiver => "engineering_proof_obligation_waiver"
  | .engineeringModelValidityOverride => "engineering_model_validity_override"
  | .engineeringVerifiedConstraintChange => "engineering_verified_constraint_change"
  | .supplyShouldCostAssumptionOverride => "supply_should_cost_assumption_override"
  | .supplySupplierQualification => "supply_supplier_qualification"
  | .supplyAvlChange => "supply_avl_change"
  | .supplyRfqAcceptance => "supply_rfq_acceptance"
  | .supplyPurchaseOrder => "supply_purchase_order"
  | .supplySupplierMessage => "supply_supplier_message"
  | .supplyPaymentTerms => "supply_payment_terms"
  | .supplyContractTerms => "supply_contract_terms"
  | .supplyTariffClassification => "supply_tariff_classification"
  | .supplyInventoryPolicy => "supply_inventory_policy"
  | .supplyPlanProceed => "supply_plan_proceed"

def RiskLevel.name : RiskLevel → String
  | .low => "low"
  | .medium => "medium"
  | .high => "high"
  | .critical => "critical"

def PrincipalKind.name : PrincipalKind → String
  | .humanOperator => "human_operator"
  | .agent => "agent"
  | .service => "service"

def Principal.json (principal : Principal) : Text :=
  object [("id", quote principal.id), ("kind", quote principal.kind.name)]

def ApprovalRequest.json (request : ApprovalRequest) : Text :=
  object
    [("id", quote request.id),
      ("kind", quote request.kind.name),
      ("subject", quote request.subject),
      ("evidence", array (request.evidence.map quote)),
      ("proposed_change", quote request.proposedChange),
      ("risk", quote request.risk.name),
      ("requester", request.requester.json),
      ("bound_revision", quote request.boundRevision),
      ("bound_digest", quote request.boundDigest),
      ("created_at_ms", number request.createdAtMs),
      ("expires_at_ms", number request.expiresAtMs)]

def DecisionOutcome.json : DecisionOutcome → Text
  | .approved => object [("decision", quote "approved")]
  | .denied reason => object [("decision", quote "denied"), ("reason", quote reason)]

def DecisionSignature.json (signature : DecisionSignature) : Text :=
  object
    [("algorithm", quote signature.algorithm),
      ("key_id", quote signature.keyId),
      ("public_key", quote signature.publicKey),
      ("signature", quote signature.signature)]

def ApprovalDecision.json (decision : ApprovalDecision) : Text :=
  object
    [("request_id", quote decision.requestId),
      ("request_digest", quote decision.requestDigest),
      ("outcome", decision.outcome.json),
      ("principal", decision.principal.json),
      ("rationale", quote decision.rationale),
      ("decided_at_ms", number decision.decidedAtMs),
      ("signature", decision.signature.json)]

def LedgerBody.json : LedgerBody → Text
  | .requested request => object [("event", quote "requested"), ("request", request.json)]
  | .decided decision => object [("event", quote "decided"), ("decision", decision.json)]

def ledgerSchema : String := "faktor.approval.ledger-entry/v1"

/-- The line of an entry, without its newline. -/
def LedgerEntry.json (entry : LedgerEntry) : Text :=
  object
    [("schema", quote ledgerSchema),
      ("seq", number entry.seq),
      ("recorded_at_ms", number entry.recordedAtMs),
      ("prev_digest", quote entry.prevDigest),
      ("body", entry.body.json),
      ("digest", quote entry.digest)]

/-- The length of a file of these entries. -/
def fileBytes (entries : List LedgerEntry) : ℕ :=
  (entries.map fun entry => byteLen entry.json + 1).sum

theorem fileBytes_append (entries more : List LedgerEntry) :
    fileBytes (entries ++ more) = fileBytes entries + fileBytes more := by
  simp [fileBytes]

/-! ## A sequence of appends -/

variable {Key : Type} (p : Primitives Key)

/-- The appends of one transaction, or of one after the other. -/
def LedgerTransaction.appendAll (transaction : LedgerTransaction) :
    List (LedgerBody × ℕ) → LedgerTransaction
  | [] => transaction
  | (body, now) :: rest => LedgerTransaction.appendAll (transaction.append p body now).2 rest

/-- The transaction on a data directory without a ledger. -/
def LedgerTransaction.start (operators : List RegisteredOperator) : LedgerTransaction where
  disk := (World.start operators).disk
  ledger := .empty

variable {p}

theorem append_settled {transaction : LedgerTransaction}
    (h : transaction.disk.Settled p transaction.ledger) (body : LedgerBody) (now : ℕ) :
    (transaction.append p body now).2.disk.Settled p (transaction.append p body now).2.ledger := by
  unfold LedgerTransaction.append
  split
  · exact h
  · split <;> exact h
  · next hcheck => exact h.append hcheck

/-- **After any sequence of appends the files agree with the chain in memory.** -/
theorem appendAll_settled {transaction : LedgerTransaction}
    (h : transaction.disk.Settled p transaction.ledger) (bodies : List (LedgerBody × ℕ)) :
    (transaction.appendAll p bodies).disk.Settled p (transaction.appendAll p bodies).ledger := by
  induction bodies generalizing transaction with
  | nil => exact h
  | cons step rest ih => exact ih (append_settled h step.1 step.2)

theorem start_settled (operators : List RegisteredOperator) :
    (LedgerTransaction.start operators).disk.Settled p (LedgerTransaction.start operators).ledger where
  replayed := rfl
  head position h := by cases h
  anchor := rfl

/-! ## Files under one anchor -/

/-- The entries among the lines. -/
def entriesIn (lines : List Line) : List LedgerEntry :=
  lines.filterMap fun
    | .entry entry => some entry
    | .torn => none

theorem entriesIn_map (entries : List LedgerEntry) : entriesIn (entries.map .entry) = entries := by
  rw [entriesIn, List.filterMap_map]
  exact List.filterMap_some

variable (p) in
/-- No two different entries of the two files have one digest. -/
def NoCollision (lines lines' : List Line) : Prop :=
  ∀ entry ∈ entriesIn lines, ∀ entry' ∈ entriesIn lines',
    p.entryDigest entry.prevDigest entry.seq entry.recordedAtMs entry.body
        = p.entryDigest entry'.prevDigest entry'.seq entry'.recordedAtMs entry'.body →
      entry.prevDigest = entry'.prevDigest ∧ entry.seq = entry'.seq ∧
        entry.recordedAtMs = entry'.recordedAtMs ∧ entry.body = entry'.body

/-- A reader replaces no anchor. -/
theorem verifyAnchor_read {disk left : Disk} {ledger : ApprovalLedger}
    (h : disk.verifyAnchor ledger false = .ok left) : left = disk := by
  unfold Disk.verifyAnchor at h
  split at h
  · split at h <;> cases h
    rfl
  · split at h
    · cases h
    · split at h
      · cases h
      · split at h
        · rw [if_neg fun habsurd => Bool.false_ne_true habsurd.1] at h
          cases h
        · cases h
          rfl

/-- Two verified chains of one position are one, if their digests do not collide. -/
theorem entries_eq_of_position {ledger got : ApprovalLedger} (h : ledger.Verified p)
    (hgot : got.Verified p) {position : ℕ × String} (hposition : ledger.position = some position)
    (hposition' : got.position = some position)
    (hcollision : NoCollision p (got.entries.map .entry) (ledger.entries.map .entry)) :
    got.entries = ledger.entries := by
  have hlength : got.entries.length = ledger.entries.length :=
    (hgot.position_fst hposition').1.symm.trans (h.position_fst hposition).1
  have htail : ∀ {chain : ApprovalLedger}, chain.position = some position →
      HashChain.tail (·.digest) (String.ofList (List.replicate 64 '0')) chain.entries = position.2 := by
    intro chain hchain
    obtain ⟨entry, hentry, rfl⟩ := Option.map_eq_some_iff.mp hchain
    rw [HashChain.tail, hentry]
    rfl
  refine HashChain.eq_of_last_digest hgot.chained h.chained hlength
    ((htail hposition').trans (htail hposition).symm) ?_
  rw [NoCollision, entriesIn_map, entriesIn_map] at hcollision
  intro entry hentry entry' hentry' hdigest
  have hdigests := hcollision entry hentry entry' hentry'
  rw [hgot.digest entry hentry, h.digest entry' hentry'] at hdigests
  obtain ⟨hprev, hseq, htime, hbody⟩ := hdigests hdigest
  obtain ⟨seq, time, prev, body, digest⟩ := entry
  obtain ⟨seq', time', prev', body', digest'⟩ := entry'
  cases hprev
  cases hseq
  cases htime
  cases hbody
  cases hdigest
  rfl

/-- **What loads under the anchor of a ledger is its file**: the lines are the same. -/
theorem lines_eq_of_load {disk left : Disk} {ledger got : ApprovalLedger} (h : disk.Settled p ledger)
    (hne : disk.lines ≠ []) (hload : (left.loadInner p false).1 = .ok got)
    (hanchor : left.anchor = disk.anchor) (hcollision : NoCollision p left.lines disk.lines) :
    left.lines = disk.lines := by
  have hverified := h.verified
  have hentries : ledger.entries ≠ [] := by simpa [h.lines_eq] using hne
  obtain ⟨position, hposition⟩ :=
    Option.ne_none_iff_exists'.mp (mt ApprovalLedger.position_eq_none.mp hentries)
  have hnamed : left.anchor = some position := hanchor.trans (h.anchor.trans hposition)
  have hreplay := loadInner_replays hload
  obtain ⟨hgot, entries, hlines, hgotEntries⟩ :=
    replay_verified ApprovalLedger.empty_verified hreplay
  have hleft : left.lines ≠ [] := by
    intro hnil
    unfold Disk.loadInner at hload
    rw [if_pos hnil] at hload
    split at hload
    · cases hload
    · next heq =>
      rw [(verifyAnchor_empty heq).1] at hnamed
      cases hnamed
  rw [loadInner_of_replay hleft hreplay] at hload
  split at hload
  · cases hload
  · next left' hcheck =>
    have hgotEntries' : got.entries = entries := by simpa [ApprovalLedger.empty] using hgotEntries
    have hgotNe : got.entries ≠ [] := by
      rw [hgotEntries']
      intro hnil
      exact hleft (by rw [hlines, hnil, List.map_nil])
    obtain ⟨hlast, -, -⟩ := verifyAnchor_position hgot hgotNe hcheck
    rw [verifyAnchor_read hcheck, hnamed] at hlast
    have hlines' : left.lines = got.entries.map .entry := by rw [hlines, hgotEntries']
    rw [hlines', h.lines_eq] at hcollision
    rw [hlines', h.lines_eq, entries_eq_of_position hverified hgot hposition hlast.symm hcollision]

/-! ## The bound -/

/-- **A transaction and a load agree as long as the file fits.**  After any sequence of bodies the file loads
to the entries, requests and decisions that the transaction holds, and no other lines load under its anchor
(whatever the head, if no digests collide), exactly when the file has at most `maxLedgerBytes`. -/
theorem loads_iff_fits (p : Primitives Key) (hhex : Hexadecimal p) (operators : List RegisteredOperator)
    (bodies : List (LedgerBody × ℕ)) :
    let transaction := (LedgerTransaction.start operators).appendAll p bodies
    let disk := transaction.disk
    ((disk.loadFile p (fileBytes transaction.ledger.entries) false).1 = .ok transaction.ledger ∧
        ∀ lines head size, disk.lines ≠ [] → lines ≠ disk.lines → NoCollision p lines disk.lines →
          ∃ e, ({ disk with lines := lines, head := head }.loadFile p size false).1 = .error e) ↔
      fileBytes transaction.ledger.entries ≤ maxLedgerBytes := by
  intro transaction disk
  have hsettled : disk.Settled p transaction.ledger := appendAll_settled (start_settled operators) bodies
  constructor
  · rintro ⟨hload, -⟩
    by_contra hlarge
    have hlines : disk.lines ≠ [] := by
      rw [hsettled.lines_eq]
      intro hnil
      rw [List.map_eq_nil_iff.mp hnil] at hlarge
      exact hlarge (Nat.zero_le _)
    unfold Disk.loadFile at hload
    rw [if_pos ⟨hlines, not_le.mp hlarge⟩] at hload
    cases hload
  · intro hfits
    constructor
    · unfold Disk.loadFile
      rw [if_neg fun habsurd => absurd habsurd.2 (not_lt.mpr hfits), hsettled.loadInner hhex]
    · intro lines head size hne hlines hcollision
      cases hload : ({ disk with lines := lines, head := head }.loadFile p size false).1 with
      | error e => exact ⟨e, rfl⟩
      | ok got =>
        unfold Disk.loadFile at hload
        split at hload
        · cases hload
        · exact absurd (lines_eq_of_load hsettled hne hload rfl hcollision) hlines

/-- As `zeroPrimitives`, with one digest for the entries of the time 10 and another one for all others. -/
def datedPrimitives : Primitives Unit where
  identityDigest _ _ := zeros 64
  requestDigest _ := zeros 64
  statementDigest _ := zeros 64
  entryDigest _ _ now _ := if now = 10 then zeros 64 else String.ofList (List.replicate 64 '1')
  fingerprint _ := zeros 64
  publicKey _ := zeros 64
  sign _ _ := zeros 128
  verifySignature _ _ signature := signature = zeros 128
  credential _ := false

/-- The entry of `orderRequest`, moved to the time 11 with the digest that belongs to it. -/
def movedEntry : LedgerEntry :=
  Disk.nextEntry datedPrimitives .empty (.requested { orderRequest with createdAtMs := 11 }) 11

/-- One request loads, and does not when its time is altered. -/
theorem loads_iff_fits_order :
    let transaction := (LedgerTransaction.start [operator]).appendAll datedPrimitives
      [(.requested orderRequest, 10)]
    (transaction.disk.loadFile datedPrimitives (fileBytes transaction.ledger.entries) false).1
        = .ok transaction.ledger ∧
      ∃ e, ({ transaction.disk with lines := [.entry movedEntry] }.loadFile datedPrimitives 4096 false).1
        = .error e := by
  intro transaction
  have hhex : Hexadecimal datedPrimitives := by
    intro prev seq now body
    show isHex 64 (if now = 10 then zeros 64 else String.ofList (List.replicate 64 '1')) = true
    split <;> decide +kernel
  obtain ⟨hload, haltered⟩ := (loads_iff_fits datedPrimitives hhex [operator]
    [(.requested orderRequest, 10)]).mpr (by decide +kernel)
  refine ⟨hload, haltered [.entry movedEntry] transaction.disk.head 4096 ?_ ?_ ?_⟩
  · decide +kernel
  · decide +kernel
  · unfold NoCollision
    decide +kernel

/-! ## A file past the bound -/

/-- Thirty-two digits of a number in binary. -/
def binaryId (i : ℕ) : String :=
  "apr-" ++ String.ofList ((List.range 32).map fun k => if i.testBit k then '1' else '0')

/-- A request that has expired when the next one is made. -/
def expiringRequest (i : ℕ) : ApprovalRequest :=
  { orderRequest with id := binaryId i, createdAtMs := 2 * i + 1, expiresAtMs := 2 * i + 2 }

/-- So many requests, one after the other. -/
def manyRequests (n : ℕ) : List (LedgerBody × ℕ) :=
  (List.range n).map fun i => (.requested (expiringRequest i), 2 * i + 1)

theorem binaryId_inj {i j : ℕ} (hi : i < 2 ^ 32) (hj : j < 2 ^ 32) (h : binaryId i = binaryId j) :
    i = j := by
  apply Nat.eq_of_testBit_eq
  intro k
  by_cases hk : k < 32
  · have hlists := congrArg String.toList h
    simp only [binaryId, String.toList_append, String.toList_ofList, List.append_cancel_left_eq] at hlists
    have hdigit := List.map_inj_left.mp hlists k (List.mem_range.mpr hk)
    by_cases hbit : i.testBit k = true
    · by_cases hbit' : j.testBit k = true
      · rw [hbit, hbit']
      · rw [if_pos hbit, if_neg hbit'] at hdigit
        exact absurd hdigit (by decide)
    · by_cases hbit' : j.testBit k = true
      · rw [if_neg hbit, if_pos hbit'] at hdigit
        exact absurd hdigit (by decide)
      · rw [Bool.not_eq_true] at hbit hbit'
        rw [hbit, hbit']
  · have hpow : 2 ^ 32 ≤ 2 ^ k := Nat.pow_le_pow_right (by decide) (not_lt.mp hk)
    rw [Nat.testBit_lt_two_pow (hi.trans_le hpow), Nat.testBit_lt_two_pow (hj.trans_le hpow)]

theorem validRequestId_binaryId (i : ℕ) : validRequestId (binaryId i) = true := by
  have hlist : (binaryId i).toList
      = "apr-".toList ++ (List.range 32).map fun k => if i.testBit k then '1' else '0' := by
    simp [binaryId, String.toList_append]
  have hprefix : "apr-".toList.length = 4 := rfl
  rw [validRequestId, hlist, List.take_left' hprefix, List.drop_left' hprefix, List.length_map,
    List.length_range]
  simp only [beq_self_eq_true, Bool.true_and, List.all_eq_true, List.mem_map]
  rintro c ⟨k, -, rfl⟩
  split <;> decide

theorem expiringRequest_valid (i : ℕ) : (expiringRequest i).validate zeroPrimitives = true := by
  -- all but the id and the times is as in `orderRequest`
  have horder : orderRequest.validate zeroPrimitives = true := by decide +kernel
  unfold ApprovalRequest.validate at horder ⊢
  simp only [Bool.and_eq_true, bne_iff_ne, decide_eq_true_eq] at horder ⊢
  obtain ⟨⟨⟨⟨⟨⟨⟨⟨⟨⟨⟨⟨-, h⟩, h₂⟩, h₃⟩, h₄⟩, h₅⟩, h₆⟩, h₇⟩, h₈⟩, h₉⟩, -⟩, -⟩, -⟩ := horder
  refine ⟨⟨⟨⟨⟨⟨⟨⟨⟨⟨⟨⟨validRequestId_binaryId i, h⟩, h₂⟩, h₃⟩, h₄⟩, h₅⟩, h₆⟩, h₇⟩, h₈⟩, h₉⟩, ?_⟩, ?_⟩, ?_⟩
  · show 2 * i + 1 ≠ 0
    omega
  · show 2 * i + 1 < 2 * i + 2
    omega
  · show 2 * i + 2 - (2 * i + 1) ≤ maxRequestLifetimeMs
    unfold maxRequestLifetimeMs
    omega

theorem LedgerTransaction.appendAll_append {Key : Type} (p : Primitives Key) (transaction : LedgerTransaction)
    (bodies more : List (LedgerBody × ℕ)) :
    transaction.appendAll p (bodies ++ more) = (transaction.appendAll p bodies).appendAll p more := by
  induction bodies generalizing transaction with
  | nil => rfl
  | cons step rest ih => exact ih _

/-- The requests are all that the ledger has, and none is decided. -/
structure ManyRequested (ledger : ApprovalLedger) (n : ℕ) : Prop where
  requests : ledger.requests.rows = (List.range n).map expiringRequest
  decisions : ledger.decisions = KeyTable.empty
  length : ledger.entries.length = n
  bytes : 129 * n ≤ fileBytes ledger.entries

/-- Every later request is accepted. -/
theorem ManyRequested.check {ledger : ApprovalLedger} {n : ℕ} (h : ManyRequested ledger n)
    (hn : n < 2 ^ 32) :
    Disk.appendCheck zeroPrimitives ledger (.requested (expiringRequest n)) (2 * n + 1) = .ok true := by
  have hfree : ledger.requests.get? (expiringRequest n).id = none := by
    rw [KeyTable.get?_eq_none, h.requests]
    intro request hrequest
    obtain ⟨i, hi, rfl⟩ := List.mem_map.mp hrequest
    have hlt := List.mem_range.mp hi
    intro hid
    exact absurd (binaryId_inj (hlt.trans hn) hn hid) (ne_of_lt hlt)
  have hopen : (ledger.requests.rows.filter fun request =>
      (ledger.decisions.get? request.id).isNone &&
        Decidable.decide (2 * n + 1 ≤ request.expiresAtMs)) = [] := by
    rw [List.filter_eq_nil_iff, h.requests]
    intro request hrequest
    obtain ⟨i, hi, rfl⟩ := List.mem_map.mp hrequest
    have hlt := List.mem_range.mp hi
    have hexpired : ¬2 * n + 1 ≤ (expiringRequest i).expiresAtMs := by
      show ¬2 * n + 1 ≤ 2 * i + 2
      omega
    simp [hexpired]
  unfold Disk.appendCheck
  rw [if_neg (by omega)]
  simp only [expiringRequest_valid]
  rw [if_neg (by simp [expiringRequest]), hfree]
  simp only [hopen]
  rfl

/-- A value of an object is no longer than the object. -/
theorem byteLen_le_object (name : String) {value : Text} {fields : List (String × Text)}
    (h : (name, value) ∈ fields) : byteLen value ≤ byteLen (object fields) :=
  (List.le_sum_of_mem (List.mem_map.mpr ⟨(name, value), h, rfl⟩)).trans (sum_le_object fields)

/-- The line of a request is longer than its digests. -/
theorem request_bytes (ledger : ApprovalLedger) (i now : ℕ) :
    129 ≤ fileBytes [Disk.nextEntry zeroPrimitives ledger (.requested (expiringRequest i)) now] := by
  set entry := Disk.nextEntry zeroPrimitives ledger (.requested (expiringRequest i)) now with hentry
  have hzeros : 64 ≤ byteLen (quote (zeros 64)) := by
    refine le_trans ?_ (le_byteLen_quote (zeros 64))
    decide +kernel
  have hrequest : 64 ≤ byteLen (expiringRequest i).json := by
    unfold ApprovalRequest.json
    exact hzeros.trans (byteLen_le_object "bound_digest" (List.mem_of_getElem? (i := 8) rfl))
  have hbody : 64 ≤ byteLen entry.body.json := by
    refine hrequest.trans (byteLen_le_object "request" (List.mem_cons_of_mem _ (List.mem_singleton.mpr rfl)))
  have hsum := sum_le_object
    [("schema", quote ledgerSchema), ("seq", number entry.seq), ("recorded_at_ms", number now),
      ("prev_digest", quote entry.prevDigest), ("body", entry.body.json), ("digest", quote entry.digest)]
  simp only [List.map_cons, List.map_nil, List.sum_cons, List.sum_nil] at hsum
  have hdigest : 64 ≤ byteLen (quote entry.digest) := hzeros
  have hline : byteLen entry.json = byteLen (object
    [("schema", quote ledgerSchema), ("seq", number entry.seq), ("recorded_at_ms", number now),
      ("prev_digest", quote entry.prevDigest), ("body", entry.body.json),
      ("digest", quote entry.digest)]) := rfl
  simp only [fileBytes, List.map_cons, List.map_nil, List.sum_cons, List.sum_nil]
  omega

theorem ManyRequested.append {transaction : LedgerTransaction} {n : ℕ}
    (h : ManyRequested transaction.ledger n) (hn : n < 2 ^ 32) :
    ManyRequested (transaction.append zeroPrimitives (.requested (expiringRequest n)) (2 * n + 1)).2.ledger
      (n + 1) := by
  have hcheck := h.check hn
  have hrecord := record_nextEntry hcheck
  obtain ⟨hrequests, hdecisions⟩ := record_rows hrecord
  have hledger : (transaction.append zeroPrimitives (.requested (expiringRequest n)) (2 * n + 1)).2.ledger
      = transaction.ledger.remember
        (Disk.nextEntry zeroPrimitives transaction.ledger (.requested (expiringRequest n)) (2 * n + 1)) := by
    unfold LedgerTransaction.append
    rw [hcheck]
  rw [hledger]
  constructor
  case requests =>
    rw [hrequests, h.requests, List.range_succ, List.map_append]
    rfl
  case decisions =>
    apply KeyTable.ext_rows
    rw [hdecisions, h.decisions]
    rfl
  case length =>
    rw [ApprovalLedger.remember_entries, List.length_append, h.length]
    rfl
  case bytes =>
    rw [ApprovalLedger.remember_entries, fileBytes_append]
    have hbytes := h.bytes
    have hline := request_bytes transaction.ledger n (2 * n + 1)
    omega

/-- Any number of requests is accepted. -/
theorem manyRequested (n : ℕ) (hn : n ≤ 2 ^ 32) :
    ManyRequested ((LedgerTransaction.start [operator]).appendAll zeroPrimitives (manyRequests n)).ledger
      n := by
  induction n with
  | zero => exact ⟨rfl, rfl, rfl, le_rfl⟩
  | succ n ih =>
    have hsplit : manyRequests (n + 1)
        = manyRequests n ++ [(.requested (expiringRequest n), 2 * n + 1)] := by
      simp [manyRequests, List.range_succ]
    rw [hsplit, LedgerTransaction.appendAll_append]
    exact (ih (Nat.le_of_succ_le hn)).append (Nat.lt_of_succ_le hn)

/-- Once the requests are too many, no load and no `begin` succeeds. -/
theorem manyRequests_locked {n : ℕ} (hn : n ≤ 2 ^ 32) (hlarge : maxLedgerBytes < 129 * n) :
    let transaction := (LedgerTransaction.start [operator]).appendAll zeroPrimitives (manyRequests n)
    transaction.ledger.entries.length = n ∧
      ∀ heal, transaction.disk.loadFile zeroPrimitives (fileBytes transaction.ledger.entries) heal
        = (.error .store, transaction.disk) := by
  intro transaction
  have hmany := manyRequested n hn
  have hsettled := appendAll_settled (p := zeroPrimitives) (start_settled [operator]) (manyRequests n)
  have hlines : transaction.disk.lines ≠ [] := by
    rw [hsettled.lines_eq, Ne, List.map_eq_nil_iff, ← List.length_eq_zero_iff, hmany.length]
    omega
  refine ⟨hmany.length, fun heal => ?_⟩
  unfold Disk.loadFile
  rw [if_pos ⟨hlines, hlarge.trans_le hmany.bytes⟩]

/-- **An accepted append can lock the ledger**: 131072 requests, of which each has expired when the next one
is made, are all accepted, and the file that they leave is refused by every load and every `begin`. -/
theorem longFile_locks_ledger :
    let transaction := (LedgerTransaction.start [operator]).appendAll zeroPrimitives (manyRequests 131072)
    transaction.ledger.entries.length = 131072 ∧
      ∀ heal, transaction.disk.loadFile zeroPrimitives (fileBytes transaction.ledger.entries) heal
        = (.error .store, transaction.disk) :=
  manyRequests_locked (by norm_num) (by norm_num [maxLedgerBytes])

end Approval
