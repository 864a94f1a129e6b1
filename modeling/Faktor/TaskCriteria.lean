/-
# Acceptance criteria of a task

A criterion is persisted inside one entry of its task's row, as a marker and a JSON envelope; an entry without
them is plain text of older builds and migrates when it is read.  The id of a criterion is a hash of its
content, in one of two derivations.

* `Criterion.validate`, `validateCriteria` : the bounds and the ids;
* `Criterion.encode`, `Criterion.decode`, `Criterion.legacy` : the entries;
* `mergeDerivedCriteria` : what a new derivation makes of a row;
* `updateTask`, `setTaskCriteria`, `rederiveTaskCriteria` : the operations on the rows.

The hash function BLAKE3 and the JSON reader are parameters, as are the checks of a task's attachments and of
its contract, which no operation here changes.
-/
import Mathlib
import Faktor.CommandBinding
import Faktor.CostLedger
import Faktor.JsonText

namespace TaskCriteria

open Authority CostLedger TextBytes

/-! ## Bounds -/

def maxTaskGoalBytes : ℕ := 16 * 1024
def maxTaskCriteria : ℕ := 32
def maxTaskCriterionBytes : ℕ := 3000
def maxTaskPlanSteps : ℕ := 256
def maxTaskStepBytes : ℕ := 3000
def maxTaskCriterionTextBytes : ℕ := maxTaskCriterionBytes - 512
def maxCriterionSnapshotBytes : ℕ := 256
def maxCriterionBindingTextBytes : ℕ := 512
def maxCriterionBindingDigestBytes : ℕ := 128
def maxCriterionBindingWorkItems : ℕ := 64
def maxAttachmentsPerTask : ℕ := 64

def criterionV2Version : ℕ := 2

/-- `CRITERION_V2_PREFIX`. -/
def criterionV2Marker : Text := "v2:".toList

/-! ## Data -/

inductive CriterionOrigin
  | user | projectPolicy | verificationPolicy | semanticProvider
  deriving DecidableEq, Repr

/-- `is_user`. -/
def CriterionOrigin.isUser : CriterionOrigin → Bool
  | .user => true
  | _ => false

/-- `CriterionOrigin::label`. -/
def CriterionOrigin.label : CriterionOrigin → String
  | .user => "user"
  | .projectPolicy => "project_policy"
  | .verificationPolicy => "verification_policy"
  | .semanticProvider => "semantic_provider"

inductive CriterionRequirement
  | required | preferred
  deriving DecidableEq, Repr

/-- `CriterionRequirement::label`. -/
def CriterionRequirement.label : CriterionRequirement → String
  | .required => "required"
  | .preferred => "preferred"

/-- `CriterionId`; the high half is zero for the ids of older builds only. -/
structure CriterionId where
  high : UInt64
  low : UInt64
  deriving DecidableEq, Repr

structure Criterion where
  id : CriterionId
  text : Str
  origin : CriterionOrigin
  requirement : CriterionRequirement
  evidenceSource : Option UInt64
  semanticSnapshot : Option Str
  binding : Option CriterionBinding
  deriving DecidableEq

/-- `CriterionEnvelope`. -/
structure CriterionEnvelope where
  v : ℕ
  id : CriterionId
  text : Str
  origin : CriterionOrigin
  requirement : CriterionRequirement
  evidenceSource : Option UInt64
  semanticSnapshot : Option Str
  binding : Option CriterionBinding
  deriving DecidableEq

/-- The code outside: the hash function, the JSON reader, and the checks of the parts of a task that the
criteria do not touch. -/
structure Outside (Attachment Contract : Type) where
  blake3 : List UInt8 → Vector UInt8 32
  fromStr : String → Option CriterionEnvelope
  validateAttachment : Attachment → Bool
  validateContract : Contract → Bool

/-- A violation of a binding, by its field. -/
inductive Violation
  | empty (field : String)
  | oversized (field : String) (bytes max : ℕ)
  | notPrintable (field : String) (value : Str)
  | tooManyItems (count : ℕ)
  deriving DecidableEq

/-- `TaskError`, with what its texts name. -/
inductive TaskError
  | zeroTaskId
  | notFound (id : TaskId)
  | criterionText (bytes : ℕ)
  | criterionBinding (text : Str) (violations : List Violation)
  | criterionSnapshot (bytes : ℕ)
  | criterionId (id expected legacy : CriterionId)
  | criterionEncoding (id : CriterionId) (bytes : ℕ)
  | tooManyCriteria (count : ℕ)
  | duplicateCriterion (id : CriterionId)
  | goal (bytes : ℕ)
  | entry (bytes : ℕ)
  | tooManySteps (count : ℕ)
  | step (bytes : ℕ)
  | tooManyAttachments (count : ℕ)
  | attachment
  | contract
  | completionStateViaPatch (state : TaskState)
  | illegalTransition (source target : TaskState)
  | terminalTask (id : TaskId) (state : TaskState)
  | revisionOverflow
  deriving DecidableEq

/-! ## The ids -/

/-- Eight bytes, the most significant first. -/
def bigEndian64 (bytes : List UInt8) : UInt64 :=
  bytes.foldl (fun word byte => word * 256 + byte.toUInt64) 0

/-- What `for_content` hashes. -/
def contentBytes (origin : CriterionOrigin) (requirement : CriterionRequirement) (text : Str)
    (snapshot : Option Str) : List UInt8 :=
  (Str.lit "criterion:v3\x00").bytes ++ origin.label.toByteArray.data.toList ++ 0 ::
    (requirement.label.toByteArray.data.toList ++ 0 :: (text.bytes ++ 0 :: (snapshot.elim [] Str.bytes)))

/-- `for_content`. -/
def CriterionId.forContent (blake3 : List UInt8 → Vector UInt8 32) (origin : CriterionOrigin)
    (requirement : CriterionRequirement) (text : Str) (snapshot : Option Str) : CriterionId :=
  let digest := (blake3 (contentBytes origin requirement text snapshot)).toList
  let high := bigEndian64 (digest.take 8)
  let low := bigEndian64 ((digest.drop 8).take 8)
  { high := if high = 0 then 1 else high, low }

/-- One field of the older hash: its bytes and a separator. -/
def feed (hash : UInt64) (bytes : List UInt8) : UInt64 :=
  let prime : UInt64 := 0x00000100000001b3
  let hash := bytes.foldl (fun hash byte => (hash ^^^ byte.toUInt64) * prime) hash
  (hash ^^^ 0x1f) * prime

/-- `legacy_for_content`. -/
def CriterionId.legacyForContent (origin : CriterionOrigin) (requirement : CriterionRequirement) (text : Str)
    (snapshot : Option Str) : CriterionId :=
  let hash : UInt64 := 0xcbf29ce484222325
  let hash := feed hash origin.label.toByteArray.data.toList
  let hash := feed hash requirement.label.toByteArray.data.toList
  let hash := feed hash text.bytes
  let hash := feed hash (snapshot.elim [] Str.bytes)
  { high := 0, low := if hash = 0 then 1 else hash }

/-! ## Bindings -/

/-- `validate_binding_text`. -/
def validateBindingText (field : String) (value : Str) (max : ℕ) : List Violation :=
  if value.value = "" then [.empty field]
  else if max < value.value.utf8ByteSize then [.oversized field value.value.utf8ByteSize max]
  else if ¬ value.value.toList.all (fun c => 0x20 ≤ c.toNat && c.toNat ≤ 0x7e) then [.notPrintable field value]
  else []

/-- `CriterionBinding::validate`: every violation. -/
def violations : CriterionBinding → List Violation
  | .requiredCheck checkId commandDigest =>
    (if checkId.value = "" then []
      else validateBindingText "check_id" checkId maxCriterionBindingTextBytes) ++
      validateBindingText "command_digest" commandDigest maxCriterionBindingDigestBytes
  | .integrationCoverage items =>
    (if maxCriterionBindingWorkItems < items.length then [.tooManyItems items.length] else []) ++
      items.flatMap fun item => validateBindingText "required_work_items" item maxCriterionBindingTextBytes
  | .fileState path expectedDigest =>
    validateBindingText "path" path maxCriterionBindingTextBytes ++
      validateBindingText "expected_digest" expectedDigest maxCriterionBindingDigestBytes
  | .evidence evidenceId evidenceDigest =>
    validateBindingText "evidence_id" evidenceId maxCriterionBindingTextBytes ++
      validateBindingText "evidence_digest" evidenceDigest maxCriterionBindingDigestBytes
  | .independentReview reviewerId => validateBindingText "reviewer_id" reviewerId maxCriterionBindingTextBytes
  | .aggregateGoal => []
  | .unavailable reason => validateBindingText "reason" reason maxCriterionBindingTextBytes

/-- `digest.to_hex()`. -/
def hexDigest (digest : Vector UInt8 32) : Text :=
  digest.toList.flatMap fun byte => [JsonText.hexDigit (byte.toNat / 16), JsonText.hexDigit (byte.toNat % 16)]

theorem length_hexDigest (digest : Vector UInt8 32) : (hexDigest digest).length = 64 := by
  have hlength : ∀ bytes : List UInt8, (bytes.flatMap fun byte =>
      [JsonText.hexDigit (byte.toNat / 16), JsonText.hexDigit (byte.toNat % 16)]).length = 2 * bytes.length := by
    intro bytes
    induction bytes with
    | nil => rfl
    | cons byte bytes ih =>
      rw [List.flatMap_cons, List.length_append, ih, List.length_cons, List.length_cons, List.length_cons,
        List.length_nil]
      omega
  rw [hexDigest, hlength, Vector.length_toList]

/-- A text of few characters is a string. -/
theorem bounded_of_length {text : Text} (h : text.length ≤ 128) : (String.ofList text).utf8ByteSize < 2 ^ 63 := by
  have hle : ∀ text : Text, byteLen text ≤ 4 * text.length := by
    intro text
    induction text with
    | nil => simp [byteLen]
    | cons c text ih =>
      have hc := c.utf8Size_le_four
      rw [JsonText.byteLen_cons, List.length_cons]
      omega
  rw [utf8ByteSize_ofList]
  have := hle text
  omega

/-- The labelled digest of a check command. -/
def commandDigest (blake3 : List UInt8 → Vector UInt8 32) (command : Str) : Str where
  value := commandBindingDigest (fun bytes => String.ofList (hexDigest (blake3 bytes))) command
  bounded := by
    have hlength : ∀ bytes, ("blake3:" ++ String.ofList (hexDigest (blake3 bytes))).utf8ByteSize < 2 ^ 63 := by
      intro bytes
      have htext : "blake3:" ++ String.ofList (hexDigest (blake3 bytes)) =
          String.ofList ("blake3:".toList ++ hexDigest (blake3 bytes)) := by
        rw [String.ofList_append, String.ofList_toList]
      rw [htext]
      apply bounded_of_length
      rw [List.length_append, length_hexDigest]
      decide
    exact hlength _

/-- The rest of a string behind a marker. -/
def stripStr (lead : Text) (s : Str) : Option Str :=
  if lead.isPrefixOf s.value.toList then
    some (s.part (s.value.toList.drop lead.length) (List.drop_sublist _ _))
  else none

/-- `legacy_binding_for_criterion_text`. -/
def legacyBinding (blake3 : List UInt8 → Vector UInt8 32) (text : Str) : CriterionBinding :=
  if "goal: ".toList.isPrefixOf text.value.toList then .aggregateGoal
  else
    match stripStr "required check: ".toList text with
    | some command => .requiredCheck (.lit "") (commandDigest blake3 command)
    | none => .unavailable (.lit "legacy criterion text carries no typed binding")

/-! ## Entries -/

/-- `{:016x}`. -/
def hexWord (word : UInt64) : Text :=
  (List.range 16).reverse.map fun i => JsonText.hexDigit (word.toNat / 16 ^ i % 16)

/-- An id of an older build is a number, the others are hexadecimal strings. -/
def CriterionId.json (id : CriterionId) : Text :=
  if id.high = 0 then JsonText.number id.low.toNat
  else JsonText.quote (String.ofList (hexWord id.high ++ hexWord id.low))

/-- The object of a binding, its kind first. -/
def bindingJson (binding : CriterionBinding) : Text :=
  let fields : List (String × Text) :=
    match binding with
    | .requiredCheck checkId digest =>
      [("check_id", JsonText.quote checkId.value), ("command_digest", JsonText.quote digest.value)]
    | .integrationCoverage items =>
      [("required_work_items", JsonText.array (items.map fun item => JsonText.quote item.value))]
    | .fileState path digest =>
      [("path", JsonText.quote path.value), ("expected_digest", JsonText.quote digest.value)]
    | .evidence id digest =>
      [("evidence_id", JsonText.quote id.value), ("evidence_digest", JsonText.quote digest.value)]
    | .independentReview reviewerId => [("reviewer_id", JsonText.quote reviewerId.value)]
    | .aggregateGoal => []
    | .unavailable reason => [("reason", JsonText.quote reason.value)]
  JsonText.object (("kind", JsonText.quote binding.kindLabel.value) :: fields)

/-- The compact JSON of an envelope; absent fields are left out. -/
def CriterionEnvelope.json (e : CriterionEnvelope) : Text :=
  JsonText.object ([("v", JsonText.number e.v), ("id", e.id.json), ("text", JsonText.quote e.text.value),
      ("origin", JsonText.quote e.origin.label), ("requirement", JsonText.quote e.requirement.label)] ++
    (e.evidenceSource.elim [] fun source => [("evidence_source", JsonText.number source.toNat)]) ++
    (e.semanticSnapshot.elim [] fun snapshot => [("semantic_snapshot", JsonText.quote snapshot.value)]) ++
    e.binding.elim [] fun binding => [("binding", bindingJson binding)])

namespace Criterion

def envelope (c : Criterion) : CriterionEnvelope where
  v := criterionV2Version
  id := c.id
  text := c.text
  origin := c.origin
  requirement := c.requirement
  evidenceSource := c.evidenceSource
  semanticSnapshot := c.semanticSnapshot
  binding := c.binding

/-- `encode`; the JSON of an envelope never fails. -/
def encode (c : Criterion) : Text := criterionV2Marker ++ c.envelope.json

/-- `validate`. -/
def validate (blake3 : List UInt8 → Vector UInt8 32) (c : Criterion) : Except TaskError Unit :=
  let expected := CriterionId.forContent blake3 c.origin c.requirement c.text c.semanticSnapshot
  let legacy := CriterionId.legacyForContent c.origin c.requirement c.text c.semanticSnapshot
  if maxTaskCriterionTextBytes < c.text.value.utf8ByteSize then .error (.criterionText c.text.value.utf8ByteSize)
  else if c.binding.elim [] violations ≠ [] then
    .error (.criterionBinding c.text (c.binding.elim [] violations))
  else if maxCriterionSnapshotBytes < c.semanticSnapshot.elim 0 (fun s => s.value.utf8ByteSize) then
    .error (.criterionSnapshot (c.semanticSnapshot.elim 0 fun s => s.value.utf8ByteSize))
  else if c.id ≠ expected ∧ c.id ≠ legacy then .error (.criterionId c.id expected legacy)
  else if maxTaskCriterionBytes < byteLen c.encode then .error (.criterionEncoding c.id (byteLen c.encode))
  else .ok ()

/-- `encoded_entry`. -/
def encodedEntry (c : Criterion) : Str :=
  if h : byteLen c.encode ≤ maxTaskCriterionBytes then
    ⟨String.ofList c.encode, by
      rw [utf8ByteSize_ofList]
      exact h.trans_lt (by decide)⟩
  else c.text

/-- `decode`. -/
def decode (fromStr : String → Option CriterionEnvelope) (entry : Str) : Option Criterion := do
  let json ← stripStr criterionV2Marker entry
  let envelope ← fromStr json.value
  if envelope.v ≠ criterionV2Version then none
  else some { id := envelope.id
              text := envelope.text
              origin := envelope.origin
              requirement := envelope.requirement
              evidenceSource := envelope.evidenceSource
              semanticSnapshot := envelope.semanticSnapshot
              binding := envelope.binding }

/-- `legacy`. -/
def legacy (blake3 : List UInt8 → Vector UInt8 32) (entry : Str) : Criterion :=
  let origin := if "goal: ".toList.isPrefixOf entry.value.toList then .user else .projectPolicy
  { id := CriterionId.forContent blake3 origin .required entry none
    text := entry
    origin
    requirement := .required
    evidenceSource := none
    semanticSnapshot := none
    binding := some (legacyBinding blake3 entry) }

end Criterion

section Operations

variable {Attachment Contract : Type} (outside : Outside Attachment Contract)

/-- `decode_criteria`. -/
def decodeCriteria (entries : List Str) : List Criterion :=
  entries.map fun entry => (Criterion.decode outside.fromStr entry).getD (Criterion.legacy outside.blake3 entry)

/-- `encode_criteria`. -/
def encodeCriteria (criteria : List Criterion) : List Str := criteria.map Criterion.encodedEntry

/-! ## The merge -/

/-- The user criteria, each id at its first place. -/
def keepUser (out : List Criterion) (c : Criterion) : List Criterion :=
  if out.any (fun o => o.id = c.id) then out else out ++ [c]

/-- A derived criterion joins unless its id or its text is there. -/
def addDerived (out : List Criterion) (c : Criterion) : List Criterion :=
  if out.any (fun o => o.id = c.id) then out
  else if out.any (fun o => o.text = c.text) then out
  else out ++ [c]

/-- `merge_derived_criteria`. -/
def mergeDerivedCriteria (existing derived : List Criterion) : List Criterion :=
  derived.foldl addDerived ((existing.filter fun c => c.origin.isUser).foldl keepUser [])

/-! ## Validation -/

/-- The criteria in order; `ids` are those before them. -/
def validateEach (ids : List CriterionId) : List Criterion → Except TaskError Unit
  | [] => .ok ()
  | c :: rest => do
    c.validate outside.blake3
    if c.id ∈ ids then .error (.duplicateCriterion c.id) else validateEach (c.id :: ids) rest

/-- `validate_criteria`. -/
def validateCriteria (criteria : List Criterion) : Except TaskError Unit :=
  if maxTaskCriteria < criteria.length then .error (.tooManyCriteria criteria.length)
  else validateEach outside [] criteria

structure TaskBudget where
  maxTokens : Option ℕ
  maxTurns : Option ℕ
  spentTokens : ℕ
  spentTurns : ℕ
  deriving DecidableEq, Repr

/-- `Task`. -/
structure Task (Attachment Contract : Type) where
  taskId : TaskId
  sessionId : SessionId
  goal : Str
  acceptanceCriteria : List Str
  plan : List Str
  attachments : List Attachment
  contract : Contract
  budget : TaskBudget
  state : TaskState
  createdMs : ℤ
  updatedMs : ℤ
  deriving DecidableEq

/-- `TaskRow`: a task with its revision. -/
structure TaskRow (Attachment Contract : Type) where
  task : Task Attachment Contract
  revision : ℕ
  deriving DecidableEq

/-- The entries of a row in order; `ids` are those of the typed ones before them. -/
def validateEntries (ids : List CriterionId) : List Str → Except TaskError Unit
  | [] => .ok ()
  | entry :: rest =>
    if maxTaskCriterionBytes < entry.value.utf8ByteSize then .error (.entry entry.value.utf8ByteSize)
    else
      match Criterion.decode outside.fromStr entry with
      | none => validateEntries ids rest
      | some c => do
        c.validate outside.blake3
        if c.id ∈ ids then .error (.duplicateCriterion c.id) else validateEntries (c.id :: ids) rest

/-- The steps of a plan in order. -/
def validateSteps : List Str → Except TaskError Unit
  | [] => .ok ()
  | s :: rest =>
    if maxTaskStepBytes < s.value.utf8ByteSize then .error (.step s.value.utf8ByteSize) else validateSteps rest

/-- `validate_task_fields`. -/
def validateTaskFields (t : Task Attachment Contract) : Except TaskError Unit :=
  if maxTaskGoalBytes < t.goal.value.utf8ByteSize then .error (.goal t.goal.value.utf8ByteSize)
  else if maxTaskCriteria < t.acceptanceCriteria.length then .error (.tooManyCriteria t.acceptanceCriteria.length)
  else do
    validateEntries outside [] t.acceptanceCriteria
    if maxTaskPlanSteps < t.plan.length then .error (.tooManySteps t.plan.length)
    else do
      validateSteps t.plan
      if maxAttachmentsPerTask < t.attachments.length then .error (.tooManyAttachments t.attachments.length)
      else if ¬ t.attachments.all outside.validateAttachment then .error .attachment
      else if ¬ outside.validateContract t.contract then .error .contract
      else .ok ()

/-! ## The rows -/

/-- `TaskPatch`. -/
structure TaskPatch (Attachment : Type) where
  goal : Option Str := none
  acceptanceCriteria : Option (List Str) := none
  plan : Option (List Str) := none
  attachments : Option (List Attachment) := none
  budget : Option TaskBudget := none
  state : Option TaskState := none

/-- `allowed_transitions`. -/
def allowedTransitions : TaskState → List TaskState
  | .pending => [.planning, .running, .cancelled]
  | .planning => [.running, .cancelled]
  | .running => [.waiting, .blocked, .needsVerification, .failed, .cancelled]
  | .waiting => [.running, .blocked, .cancelled]
  | .blocked => [.running, .failed, .cancelled]
  | .needsVerification => [.verifying, .cancelled]
  | .verifying => [.failed, .needsVerification, .cancelled]
  | .verifiedComplete => []
  | .failed => []
  | .cancelled => []

/-- A budget of a patch: what is spent only grows. -/
def patchBudget (current patched : TaskBudget) : TaskBudget where
  maxTokens := patched.maxTokens
  maxTurns := patched.maxTurns
  spentTokens := max patched.spentTokens current.spentTokens
  spentTurns := max patched.spentTurns current.spentTurns

/-- The state of a patch. -/
def patchState (current : TaskState) : Option TaskState → Except TaskError TaskState
  | none => .ok current
  | some state =>
    if state.isCompletionRelevant then .error (.completionStateViaPatch state)
    else if state ≠ current ∧ state ∉ allowedTransitions current then .error (.illegalTransition current state)
    else .ok state

/-- The task rows of a session. -/
abbrev Rows (Attachment Contract : Type) : Type := TaskId → Option (TaskRow Attachment Contract)

/-- `checked_next`, of a 64-bit revision. -/
def checkedNext (revision : ℕ) : Option ℕ := if revision + 1 < 2 ^ 64 then some (revision + 1) else none

variable [DecidableEq Attachment] [DecidableEq Contract]

/-- `update_task`; `now` is the clock. -/
def updateTask (rows : Rows Attachment Contract) (id : TaskId) (patch : TaskPatch Attachment) (now : ℤ) :
    Except TaskError (Rows Attachment Contract × Task Attachment Contract) :=
  if id = 0 then .error .zeroTaskId
  else
    match rows id with
    | none => .error (.notFound id)
    | some row => do
      let state ← patchState row.task.state patch.state
      let next : Task Attachment Contract :=
        { row.task with
          goal := patch.goal.getD row.task.goal
          acceptanceCriteria := patch.acceptanceCriteria.getD row.task.acceptanceCriteria
          plan := patch.plan.getD row.task.plan
          attachments := patch.attachments.getD row.task.attachments
          budget := patch.budget.elim row.task.budget (patchBudget row.task.budget)
          state }
      validateTaskFields outside next
      if next = row.task then .ok (rows, row.task)
      else if row.task.state.isTerminal then .error (.terminalTask id row.task.state)
      else
        match checkedNext row.revision with
        | none => .error .revisionOverflow
        | some revision =>
          let out := { next with updatedMs := now }
          .ok (Function.update rows id (some ⟨out, revision⟩), out)

/-- `set_task_criteria`. -/
def setTaskCriteria (rows : Rows Attachment Contract) (id : TaskId) (criteria : List Criterion) (now : ℤ) :
    Except TaskError (Rows Attachment Contract × Task Attachment Contract) :=
  if id = 0 then .error .zeroTaskId
  else do
    validateCriteria outside criteria
    updateTask outside rows id { acceptanceCriteria := some (encodeCriteria criteria) } now

/-- `rederive_task_criteria`. -/
def rederiveTaskCriteria (rows : Rows Attachment Contract) (id : TaskId) (derived : List Criterion) (now : ℤ) :
    Except TaskError (Rows Attachment Contract × Task Attachment Contract) :=
  if id = 0 then .error .zeroTaskId
  else do
    validateCriteria outside derived
    match rows id with
    | none => .error (.notFound id)
    | some row =>
      setTaskCriteria outside rows id
        (mergeDerivedCriteria (decodeCriteria outside row.task.acceptanceCriteria) derived) now

end Operations

end TaskCriteria
