/-
# Requests and decisions of a human approval

What an agent proposes, what a human operator decides about it, and what both have to look like before
they are recorded.

* `ApprovalRequest.propose` : a request, from its draft and the time;
* `ApprovalDecision.issue` : a signed decision;
* `ApprovalDecision.verify` : its signature, under the keys that are trusted.

The digests, the signatures and the scan for credentials are parameters (`Primitives`): every result
holds whatever they are.
-/
import Faktor.KeyTable

namespace Approval

/-! ## Texts -/

def maxPrincipalIdBytes : ℕ := 128

def maxApprovalTextBytes : ℕ := 4096

def maxApprovalEvidence : ℕ := 64

def maxApprovalEvidenceBytes : ℕ := 16 * 1024

def maxOpenApprovals : ℕ := 128

def maxRequestLifetimeMs : ℕ := 30 * 24 * 60 * 60 * 1000

/-- `u8::is_ascii_hexdigit`. -/
def isHexDigit (c : Char) : Bool :=
  ('0' ≤ c && c ≤ '9') || ('a' ≤ c && c ≤ 'f') || ('A' ≤ c && c ≤ 'F')

/-- A text of so many hexadecimal digits. -/
def isHex (digits : ℕ) (text : String) : Bool :=
  text.toList.length == digits && text.toList.all isHexDigit

/-- `char::is_whitespace`. -/
def isWhitespace (c : Char) : Bool :=
  let n := c.toNat
  (0x9 ≤ n && n ≤ 0xd) || n == 0x20 || n == 0x85 || n == 0xa0 || n == 0x1680
    || (0x2000 ≤ n && n ≤ 0x200a) || n == 0x2028 || n == 0x2029 || n == 0x202f || n == 0x205f
    || n == 0x3000

/-- `contains_forbidden_formatting`: controls other than newline and tab, and direction marks. -/
def forbiddenFormatting (c : Char) : Bool :=
  let n := c.toNat
  ((n ≤ 0x1f || (0x7f ≤ n && n ≤ 0x9f)) && n != 0xa && n != 0x9)
    || n == 0x200e || n == 0x200f || (0x202a ≤ n && n ≤ 0x202e) || (0x2066 ≤ n && n ≤ 0x2069)

/-- `bounded_text`. -/
def boundedText (text : String) (max : ℕ) : Bool :=
  !text.toList.all isWhitespace && text.utf8ByteSize ≤ max && !text.toList.any forbiddenFormatting

/-- `bounded_single_line`. -/
def boundedSingleLine (text : String) (max : ℕ) : Bool :=
  boundedText text max && !text.toList.any fun c => c == '\n' || c == '\r' || c == '\t'

/-! ## Data -/

inductive ApprovalKind
  | engineeringConstraintRelaxation
  | engineeringAcceptanceCriteriaChange
  | engineeringProofObligationWaiver
  | engineeringModelValidityOverride
  | engineeringVerifiedConstraintChange
  | supplyShouldCostAssumptionOverride
  | supplySupplierQualification
  | supplyAvlChange
  | supplyRfqAcceptance
  | supplyPurchaseOrder
  | supplySupplierMessage
  | supplyPaymentTerms
  | supplyContractTerms
  | supplyTariffClassification
  | supplyInventoryPolicy
  | supplyPlanProceed
  deriving DecidableEq, Repr

inductive RiskLevel
  | low
  | medium
  | high
  | critical
  deriving DecidableEq, Repr

inductive PrincipalKind
  | humanOperator
  | agent
  | service
  deriving DecidableEq, Repr

structure Principal where
  id : String
  kind : PrincipalKind
  deriving DecidableEq, Repr

structure ApprovalDraft where
  kind : ApprovalKind
  subject : String
  evidence : List String
  proposedChange : String
  risk : RiskLevel
  requester : Principal
  boundRevision : String
  boundDigest : String
  expiresAtMs : ℕ
  deriving DecidableEq, Repr

structure ApprovalRequest where
  id : String
  kind : ApprovalKind
  subject : String
  evidence : List String
  proposedChange : String
  risk : RiskLevel
  requester : Principal
  boundRevision : String
  boundDigest : String
  createdAtMs : ℕ
  expiresAtMs : ℕ
  deriving DecidableEq, Repr

/-- What a gate asks about. -/
structure ApprovalCheck where
  kind : ApprovalKind
  subject : String
  boundRevision : String
  boundDigest : String
  deriving DecidableEq, Repr

/-- The check that a gate makes for a request. -/
def ApprovalRequest.check (request : ApprovalRequest) : ApprovalCheck where
  kind := request.kind
  subject := request.subject
  boundRevision := request.boundRevision
  boundDigest := request.boundDigest

inductive DecisionOutcome
  | approved
  | denied (reason : String)
  deriving DecidableEq, Repr

structure DecisionSignature where
  algorithm : String
  keyId : String
  publicKey : String
  signature : String
  deriving DecidableEq, Repr

/-- `DecisionStatement`: what is signed. -/
structure DecisionStatement where
  requestId : String
  requestDigest : String
  outcome : DecisionOutcome
  principal : Principal
  rationale : String
  decidedAtMs : ℕ
  deriving DecidableEq, Repr

structure ApprovalDecision extends DecisionStatement where
  signature : DecisionSignature
  deriving DecidableEq, Repr

structure RegisteredOperator where
  principalId : String
  keyId : String
  publicKey : String
  deriving DecidableEq, Repr

/-- A proof that a gate accepts; the deadline of the process is left out. -/
structure ApprovalToken where
  kind : ApprovalKind
  subject : String
  boundRevision : String
  boundDigest : String
  requestId : String
  decisionKeyId : String
  decidedAtMs : ℕ
  expiresAtMs : ℕ
  deriving DecidableEq, Repr

/-- The check that a token satisfies. -/
def ApprovalToken.check (token : ApprovalToken) : ApprovalCheck where
  kind := token.kind
  subject := token.subject
  boundRevision := token.boundRevision
  boundDigest := token.boundDigest

/-- `ApprovalError`, without the texts. -/
inductive ApprovalError
  | approvalRequired (check : ApprovalCheck)
  | pending (requestId : String)
  | pendingLimit (openRequests : ℕ)
  | denied (requestId principal reason : String)
  | stale (requestId : String) (expected actual : ApprovalCheck)
  | expired (requestId : String) (expiredAtMs : ℕ)
  | selfApproval (principal : String)
  | agentApproval (principal : String)
  | untrustedOperator (keyId : String)
  | signatureMismatch
  | invalid
  | store
  | anchorDegraded
  | ledgerRollback
  | conflict
  | notFound (requestId : String)
  deriving DecidableEq, Repr

inductive LedgerBody
  | requested (request : ApprovalRequest)
  | decided (decision : ApprovalDecision)
  deriving DecidableEq, Repr

/-! ## Primitives -/

/-- Hashing, signing and the scan for credentials. -/
structure Primitives (Key : Type) where
  /-- The digest of a request's identity; its first half is in the id. -/
  identityDigest : ApprovalDraft → ℕ → String
  requestDigest : ApprovalRequest → String
  statementDigest : DecisionStatement → String
  entryDigest : String → ℕ → ℕ → LedgerBody → String
  /-- The fingerprint of a public key. -/
  fingerprint : String → String
  publicKey : Key → String
  sign : Key → String → String
  verifySignature : String → String → String → Bool
  /-- `scan_secrets` finds something. -/
  credential : String → Bool

variable {Key : Type} (p : Primitives Key)

/-! ## Requests -/

/-- `Principal::validate`. -/
def Principal.validate (principal : Principal) : Bool :=
  principal.id ≠ "" && principal.id.utf8ByteSize ≤ maxPrincipalIdBytes
    && principal.id.toList.all fun c => 0x20 ≤ c.toNat && c.toNat ≤ 0x7e

/-- `"apr-"` and 32 hexadecimal digits. -/
def validRequestId (id : String) : Bool :=
  id.toList.take 4 == "apr-".toList && (id.toList.drop 4).length == 32
    && (id.toList.drop 4).all isHexDigit

/-- No text that a human reviews carries a credential. -/
def ApprovalRequest.clean (request : ApprovalRequest) : Bool :=
  !p.credential request.subject && !p.credential request.proposedChange
    && !p.credential request.boundRevision && !p.credential request.requester.id
    && request.evidence.all fun evidence => !p.credential evidence

/-- `ApprovalRequest::validate`. -/
def ApprovalRequest.validate (request : ApprovalRequest) : Bool :=
  validRequestId request.id
    && boundedSingleLine request.subject maxPrincipalIdBytes
    && boundedText request.proposedChange maxApprovalTextBytes
    && boundedSingleLine request.boundRevision 256
    && isHex 64 request.boundDigest
    && request.evidence.length ≤ maxApprovalEvidence
    && request.evidence.all (boundedSingleLine · maxApprovalTextBytes)
    && (request.evidence.map String.utf8ByteSize).sum ≤ maxApprovalEvidenceBytes
    && request.clean p
    && request.requester.validate
    && request.createdAtMs != 0 && request.createdAtMs < request.expiresAtMs
    && request.expiresAtMs - request.createdAtMs ≤ maxRequestLifetimeMs

/-- `ApprovalRequest::propose`: its first checks are among those of `validate`. -/
def ApprovalRequest.propose (draft : ApprovalDraft) (now : ℕ) : Except ApprovalError ApprovalRequest :=
  if now = 0 ∨ draft.expiresAtMs ≤ now ∨ maxRequestLifetimeMs < draft.expiresAtMs - now then
    .error .invalid
  else
    let request : ApprovalRequest :=
      { id := "apr-" ++ String.ofList ((p.identityDigest draft now).toList.take 32)
        kind := draft.kind
        subject := draft.subject
        evidence := draft.evidence
        proposedChange := draft.proposedChange
        risk := draft.risk
        requester := draft.requester
        boundRevision := draft.boundRevision
        boundDigest := draft.boundDigest
        createdAtMs := now
        expiresAtMs := draft.expiresAtMs }
    if request.validate p then .ok request else .error .invalid

/-! ## Decisions -/

/-- The parts of a decision that `validate` only measures. -/
def ApprovalDecision.shaped (decision : ApprovalDecision) : Bool :=
  decision.principal.validate
    && boundedText decision.rationale maxApprovalTextBytes
    && !p.credential decision.rationale
    && (match decision.outcome with
      | .approved => true
      | .denied reason => boundedText reason maxApprovalTextBytes)
    && decision.decidedAtMs != 0
    && decision.signature.algorithm = "ed25519"
    && isHex 64 decision.signature.publicKey
    && isHex 128 decision.signature.signature
    && isHex 64 decision.signature.keyId

/-- `ApprovalDecision::validate`. -/
def ApprovalDecision.validate (decision : ApprovalDecision) : Except ApprovalError Unit :=
  if !validRequestId decision.requestId || !isHex 64 decision.requestDigest then .error .invalid
  else if decision.principal.kind ≠ .humanOperator then .error (.agentApproval decision.principal.id)
  else if !decision.shaped p then .error .invalid
  else if p.fingerprint decision.signature.publicKey ≠ decision.signature.keyId then
    .error .signatureMismatch
  else .ok ()

/-- `signing_message`. -/
def signingMessage (digest : String) : String := "faktor.approval.decision-signature/v1" ++ digest

/-- `ApprovalDecision::verify`. -/
def ApprovalDecision.verify (decision : ApprovalDecision) (trusted : List String) :
    Except ApprovalError Unit := do
  decision.validate p
  if decision.signature.keyId ∉ trusted then
    .error (.untrustedOperator decision.signature.keyId)
  else if !p.verifySignature decision.signature.publicKey
      (signingMessage (p.statementDigest decision.toDecisionStatement))
      decision.signature.signature then .error .signatureMismatch
  else .ok ()

/-- `ApprovalDecision::issue`. -/
def ApprovalDecision.issue (request : ApprovalRequest) (outcome : DecisionOutcome)
    (principal : Principal) (rationale : String) (decidedAtMs : ℕ) (key : Key) :
    Except ApprovalError ApprovalDecision :=
  if principal.kind ≠ .humanOperator then .error (.agentApproval principal.id)
  else if principal.id = request.requester.id then .error (.selfApproval principal.id)
  else if decidedAtMs < request.createdAtMs then .error .invalid
  else if request.expiresAtMs < decidedAtMs then .error (.expired request.id request.expiresAtMs)
  else if p.credential rationale then .error .invalid
  else if (match outcome with | .approved => false | .denied reason => p.credential reason) then
    .error .invalid
  else do
    let statement : DecisionStatement :=
      { requestId := request.id
        requestDigest := p.requestDigest request
        outcome := outcome
        principal := principal
        rationale := rationale
        decidedAtMs := decidedAtMs }
    let decision : ApprovalDecision :=
      { statement with
        signature :=
          { algorithm := "ed25519"
            keyId := p.fingerprint (p.publicKey key)
            publicKey := p.publicKey key
            signature := p.sign key (signingMessage (p.statementDigest statement)) } }
    decision.validate p
    return decision

/-- `ApprovalToken::from_verified`. -/
def ApprovalToken.fromVerified (request : ApprovalRequest) (decision : ApprovalDecision) :
    Except ApprovalError ApprovalToken :=
  if request.id ≠ decision.requestId ∨ p.requestDigest request ≠ decision.requestDigest then
    .error (.stale request.id request.check
      { request.check with boundDigest := decision.requestDigest })
  else
    .ok
      { kind := request.kind
        subject := request.subject
        boundRevision := request.boundRevision
        boundDigest := request.boundDigest
        requestId := request.id
        decisionKeyId := decision.signature.keyId
        decidedAtMs := decision.decidedAtMs
        expiresAtMs := request.expiresAtMs }

end Approval
