/-
# The approval authority

The calls of the authority, each of which observes the time and then replays the files, and the runs
that any number of processes make of them, one call after the other.

* `propose`, `decide` : what is recorded;
* `authorize`, `authorizeRequest`, `latestAuthorized` : the three ways to a token.
-/
import Faktor.ApprovalLedger

namespace Approval

variable {Key : Type} (p : Primitives Key)

/-! ## Recording -/

/-- `ApprovalAuthority::propose`. -/
def propose (disk : Disk) (draft : ApprovalDraft) (observed : ℕ) (crash : Crash) :
    Except ApprovalError ApprovalRequest × Disk :=
  let now := disk.effectiveNow observed
  let disk := disk.observe observed
  match ApprovalRequest.propose p draft now with
  | .error e => (.error e, disk)
  | .ok request =>
    match disk.begin p with
    | (.error e, disk) => (.error e, disk)
    | (.ok ledger, disk) =>
      match ledger.requests.get? request.id with
      | some existing => (if existing = request then .ok existing else .error .conflict, disk)
      | none =>
        let (result, disk) := disk.append p ledger (.requested request) now crash
        (result.map fun _ => request, disk)

/-- `key_registered_for`. -/
def keyRegisteredFor (operators : List RegisteredOperator) (principalId : String) (key : Key) : Bool :=
  operators.any fun operator =>
    operator.principalId = principalId && operator.keyId = p.fingerprint (p.publicKey key)
      && operator.publicKey = p.publicKey key

/-- The request that a principal may decide with a key. -/
def deciding (disk : Disk) (ledger : ApprovalLedger) (requestId : String) (principal : Principal)
    (key : Key) : Except ApprovalError ApprovalRequest :=
  match ledger.requests.get? requestId with
  | none => .error (.notFound requestId)
  | some request =>
    if request.requester.id = principal.id then .error (.selfApproval principal.id)
    else if !keyRegisteredFor p disk.operators principal.id key then
      .error (.untrustedOperator (p.fingerprint (p.publicKey key)))
    else .ok request

/-- `ApprovalAuthority::decide`. -/
def decide (disk : Disk) (requestId : String) (principal : Principal) (key : Key)
    (outcome : DecisionOutcome) (rationale : String) (observed : ℕ) (crash : Crash) :
    Except ApprovalError ApprovalDecision × Disk :=
  if !principal.validate then (.error .invalid, disk)
  else
    let now := disk.effectiveNow observed
    let disk := disk.observe observed
    if principal.kind ≠ .humanOperator then (.error (.agentApproval principal.id), disk)
    else
      match disk.begin p with
      | (.error e, disk) => (.error e, disk)
      | (.ok ledger, disk) =>
        match deciding p disk ledger requestId principal key with
        | .error e => (.error e, disk)
        | .ok request =>
          match ledger.decisions.get? requestId with
          | some existing =>
            (if existing.outcome = outcome ∧ existing.principal = principal
                ∧ existing.rationale = rationale then .ok existing
              else .error .conflict, disk)
          | none =>
            if request.expiresAtMs < now then (.error (.expired request.id request.expiresAtMs), disk)
            else
              match ApprovalDecision.issue p request outcome principal rationale now key with
              | .error e => (.error e, disk)
              | .ok decision =>
                let (result, disk) := disk.append p ledger (.decided decision) now crash
                (result.map fun _ => decision, disk)

/-! ## Minting -/

/-- `verify_decision_with`. -/
def verifyDecisionWith (request : ApprovalRequest) (decision : ApprovalDecision)
    (operators : List RegisteredOperator) : Except ApprovalError Unit :=
  if decision.principal.kind ≠ .humanOperator then .error (.agentApproval decision.principal.id)
  else if decision.principal.id = request.requester.id then
    .error (.selfApproval decision.principal.id)
  else if decision.decidedAtMs < request.createdAtMs ∨ request.expiresAtMs < decision.decidedAtMs then
    .error .invalid
  else do
    decision.verify p (operators.map (·.keyId))
    if operators.any fun operator =>
        operator.keyId = decision.signature.keyId && operator.principalId = decision.principal.id
          && operator.publicKey = decision.signature.publicKey then .ok ()
    else .error (.untrustedOperator decision.signature.keyId)

/-- `evaluate_with_trust`. -/
def evaluateWithTrust (request : ApprovalRequest) (ledger : ApprovalLedger) (now : ℕ)
    (operators : List RegisteredOperator) : Except ApprovalError ApprovalToken :=
  if request.expiresAtMs < now then .error (.expired request.id request.expiresAtMs)
  else
    match ledger.decisions.get? request.id with
    | none => .error (.pending request.id)
    | some decision => do
      verifyDecisionWith p request decision operators
      match decision.outcome with
      | .approved => ApprovalToken.fromVerified p request decision
      | .denied reason => .error (.denied request.id decision.principal.id reason)

/-- The newer request comes first. -/
def NewerFirst (left right : ApprovalRequest) : Prop :=
  right.createdAtMs < left.createdAtMs ∨ right.createdAtMs = left.createdAtMs ∧ right.id ≤ left.id

instance : DecidableRel NewerFirst := fun left right =>
  inferInstanceAs (Decidable (right.createdAtMs < left.createdAtMs ∨
    right.createdAtMs = left.createdAtMs ∧ right.id ≤ left.id))

/-- The requests of a condition, the newest first. -/
def newest (ledger : ApprovalLedger) (select : ApprovalRequest → Bool) : List ApprovalRequest :=
  (ledger.requests.rows.filter select).insertionSort NewerFirst

/-- The requests of one kind and subject. -/
def about (kind : ApprovalKind) (subject : String) (request : ApprovalRequest) : Bool :=
  request.kind = kind && request.subject = subject

/-- The refusal of a check that no request is bound to: the newest request of the kind and subject is
stale. -/
def unbound (ledger : ApprovalLedger) (check : ApprovalCheck) : ApprovalError :=
  match newest ledger (about check.kind check.subject) with
  | request :: _ => .stale request.id check request.check
  | [] => .approvalRequired check

/-- `ApprovalAuthority::authorize`. -/
def authorize (disk : Disk) (check : ApprovalCheck) (observed : ℕ) :
    Except ApprovalError ApprovalToken × Disk :=
  let now := disk.effectiveNow observed
  let disk := disk.observe observed
  let token := do
    let ledger ← disk.load p
    match newest ledger fun request => request.check = check with
    | [] => .error (unbound ledger check)
    | request :: _ => evaluateWithTrust p request ledger now disk.operators
  (token, disk)

/-- `ApprovalAuthority::authorize_request`. -/
def authorizeRequest (disk : Disk) (requestId : String) (check : ApprovalCheck) (observed : ℕ) :
    Except ApprovalError ApprovalToken × Disk :=
  let now := disk.effectiveNow observed
  let disk := disk.observe observed
  let token := do
    let ledger ← disk.load p
    match ledger.requests.get? requestId with
    | none => .error (.notFound requestId)
    | some request =>
      if request.check ≠ check then .error (.stale request.id check request.check)
      else evaluateWithTrust p request ledger now disk.operators
  (token, disk)

/-- The first request of a list that is approved: a request that is pending, denied or expired is
passed over. -/
def firstAuthorized (ledger : ApprovalLedger) (now : ℕ) (operators : List RegisteredOperator) :
    List ApprovalRequest → Except ApprovalError (Option ApprovalToken)
  | [] => .ok none
  | request :: rest =>
    match evaluateWithTrust p request ledger now operators with
    | .ok token => .ok (some token)
    | .error (.pending _) | .error (.denied _ _ _) | .error (.expired _ _) =>
      firstAuthorized ledger now operators rest
    | .error e => .error e

/-- `ApprovalAuthority::latest_authorized`. -/
def latestAuthorized (disk : Disk) (kind : ApprovalKind) (subject : String) (observed : ℕ) :
    Except ApprovalError (Option ApprovalToken) × Disk :=
  let now := disk.effectiveNow observed
  let disk := disk.observe observed
  let token := do
    let ledger ← disk.load p
    firstAuthorized p ledger now disk.operators (newest ledger (about kind subject))
  (token, disk)

end Approval
