/-
# What an accepted request costs and holds

The renderer adds up the system text, the history, the volatile message and the tools; the tripwire
measures the rendered request again, message by message in the order they are sent.  Both are the exact sum
of the same parts, cut once.  The volatile message is inserted among the messages of the history, which all
stay as they are, and none of what it is made of reaches the system text.

* `withVolatile_spec` : the messages with the volatile message among them;
* `planWireRequest_eq_ok_iff` : the accepted requests;
* `plan_accounting` : **the guarantee of an accepted request**.
-/
import Mathlib
import Faktor.WireRender
import Faktor.StablePrefix

namespace Wire

open TextBytes Saturating Compaction Context

variable {Digest : Type}

/-! ## The messages -/

theorem insertAt_le (history : List RequestMessage) : insertAt history ≤ history.length := by
  rw [insertAt]
  split
  · exact Nat.sub_le _ _
  · exact le_rfl

/-- An element inserted between two lists. -/
theorem insertIdx_append {α : Type*} (front back : List α) (a : α) :
    (front ++ back).insertIdx front.length a = front ++ a :: back := by
  induction front with
  | nil => rfl
  | cons b front ih => rw [List.cons_append, List.length_cons, List.insertIdx_succ_cons, ih, List.cons_append]

/-- The history in order, each message once, and at most one system message among them. -/
def HistoryWithOneSystem (history messages : List RequestMessage) : Prop :=
  messages = history ∨
    ∃ older newer volatile, history = older ++ newer ∧ volatile.role = .system ∧
      messages = older ++ volatile :: newer

/-- The volatile message is inserted among the messages, and costs what it costs as one of them. -/
theorem withVolatile_spec (counter : TokenCounter) (text : Text) (history : List RequestMessage) :
    HistoryWithOneSystem history (withVolatile counter text history).1 ∧
      messagesSum counter (withVolatile counter text history).1
        = messagesSum counter history + (withVolatile counter text history).2 := by
  rw [withVolatile]
  split
  · exact ⟨Or.inl rfl, rfl⟩
  · dsimp only
    have hlength : (history.take (insertAt history)).length = insertAt history := by
      rw [List.length_take, min_eq_left (insertAt_le history)]
    have hsplit := List.take_append_drop (insertAt history) history
    have hinsert : history.insertIdx (insertAt history) (volatileMessage text)
        = history.take (insertAt history) ++ volatileMessage text :: history.drop (insertAt history) := by
      conv_lhs => rw [← hsplit]
      rw [← insertIdx_append, hlength, hsplit]
    have hsum : messagesSum counter history
        = messagesSum counter (history.take (insertAt history))
          + messagesSum counter (history.drop (insertAt history)) := by
      rw [← messagesSum_append, hsplit]
    rw [hinsert]
    refine ⟨Or.inr ⟨_, _, volatileMessage text, hsplit.symm, rfl, rfl⟩, ?_⟩
    rw [messagesSum_append, messagesSum_cons, hsum]
    omega

/-! ## The accepted requests -/

/-- **What an accepted request is**: its total is the sum of its sections and within the budget, its
messages are the history with the volatile message, and its system text is the stable head. -/
theorem planWireRequest_ok {codec : Codec Digest} {instructions systemExtra : Text}
    {toolSchemas : List ToolSpec} {projectRules : Text} {ledger : TaskLedger} {repoMap : Text}
    {history : List RequestMessage} {evidence : List Evidence} {errors : Text} {budget : ContextBudget}
    {counter : TokenCounter} {plan : WirePlan Digest}
    (h : planWireRequest codec instructions systemExtra toolSchemas projectRules ledger repoMap history
      evidence errors budget counter = .ok plan) :
    let rendered := withVolatile counter
      (renderVolatile systemExtra ledger history evidence errors) history
    plan.system = renderHead instructions projectRules ledger repoMap ∧
      plan.messages = rendered.1 ∧ plan.tools = toolSchemas ∧
      plan.totalTokens
        = add (add (add (counter.countText plan.system).count (estimateMessages counter history).count)
            rendered.2) (estimateTools counter toolSchemas).count ∧
      plan.totalTokens ≤ budget.contextMax := by
  rw [planWireRequest] at h
  rcases ite_eq_iff.mp h with ⟨-, hrefused⟩ | ⟨hfits, hplan⟩
  · exact absurd hrefused (by simp)
  · rw [not_or, not_lt] at hfits
    obtain rfl := Except.ok.inj hplan
    exact ⟨rfl, rfl, rfl, rfl, hfits.2⟩

/-- The renderer's sum and the tripwire's are the same sum. -/
theorem total_eq_measure (counter : TokenCounter) (system text : Text) (history : List RequestMessage)
    (tools : List ToolSpec) :
    add (add (add (counter.countText system).count (estimateMessages counter history).count)
        (withVolatile counter text history).2) (estimateTools counter tools).count
      = measureWireRequestWithCounter counter system (withVolatile counter text history).1 tools := by
  have hsum := (withVolatile_spec counter text history).2
  rw [measureWireRequestWithCounter, sizeRequestWithCounter_count, estimateMessages_count,
    estimateTools_count, hsum]
  simp only [add, cut]
  omega

/-- The stable head reads the task contract of the ledger only. -/
theorem renderHead_congr {instructions projectRules repoMap : Text} {ledger ledger' : TaskLedger}
    (hgoal : ledger.goal = ledger'.goal) (hconstraints : ledger.constraints = ledger'.constraints)
    (hpreferences : ledger.userPreferences = ledger'.userPreferences) :
    renderHead instructions projectRules ledger repoMap
      = renderHead instructions projectRules ledger' repoMap := by
  simp only [renderHead, renderTaskContract, hgoal, hconstraints, hpreferences]

/-- **The guarantee of an accepted request**: its total is what measuring it gives, within the budget; its
messages are the history and at most one system message; and any other accepted request with the same
instructions, rules, task contract and repository map has the same system text, whatever else differs. -/
theorem plan_accounting {codec : Codec Digest} {instructions systemExtra : Text}
    {toolSchemas : List ToolSpec} {projectRules : Text} {ledger : TaskLedger} {repoMap : Text}
    {history : List RequestMessage} {evidence : List Evidence} {errors : Text} {budget : ContextBudget}
    {counter : TokenCounter} {plan : WirePlan Digest}
    (h : planWireRequest codec instructions systemExtra toolSchemas projectRules ledger repoMap history
      evidence errors budget counter = .ok plan) :
    (plan.totalTokens = measureWireRequestWithCounter counter plan.system plan.messages plan.tools ∧
      plan.totalTokens ≤ budget.contextMax) ∧
    HistoryWithOneSystem history plan.messages ∧
    ∀ (systemExtra' : Text) (toolSchemas' : List ToolSpec) (ledger' : TaskLedger)
      (history' : List RequestMessage) (evidence' : List Evidence) (errors' : Text)
      (budget' : ContextBudget) (counter' : TokenCounter) (plan' : WirePlan Digest),
      ledger'.goal = ledger.goal → ledger'.constraints = ledger.constraints →
      ledger'.userPreferences = ledger.userPreferences →
      planWireRequest codec instructions systemExtra' toolSchemas' projectRules ledger' repoMap history'
        evidence' errors' budget' counter' = .ok plan' →
      plan'.system = plan.system := by
  obtain ⟨hsystem, hmessages, htools, htotal, hfits⟩ := planWireRequest_ok h
  refine ⟨⟨?_, hfits⟩, ?_, ?_⟩
  · rw [htotal, hmessages, htools]
    exact total_eq_measure _ _ _ _ _
  · rw [hmessages]
    exact (withVolatile_spec counter _ history).1
  · intro systemExtra' toolSchemas' ledger' history' evidence' errors' budget' counter' plan' hgoal
      hconstraints hpreferences h'
    obtain ⟨hsystem', -⟩ := planWireRequest_ok h'
    rw [hsystem', hsystem]
    exact renderHead_congr hgoal hconstraints hpreferences

/-- The estimator as a counter; a JSON value is counted by its text. -/
def estimatorCounter : TokenCounter where
  countText text := ⟨estimateTokens text, false, estimateChars_le _⟩
  countJson value := ⟨estimateTokens value, false, estimateChars_le _⟩

/-- A codec whose digests are lengths, and which serializes nothing. -/
def lengthCodec : Codec ℕ := ⟨byteLen, fun _ => none, fun _ => none⟩

/-- A task with one open step. -/
def oneStepLedger : TaskLedger := ⟨"Ship".toList, [], [], ["tests".toList], [], [], [], [], [], []⟩

def oneAsk : List RequestMessage := [⟨.user, [.ofText "go on".toList]⟩]

/-- A request with one open step is accepted: the block on it stands before the user's text. -/
theorem plan_accounting_oneAsk :
    ∃ plan : WirePlan ℕ,
      planWireRequest lengthCodec "Be exact.".toList [] [] [] oneStepLedger [] oneAsk [] []
        ContextBudget.default estimatorCounter = .ok plan ∧
      plan.totalTokens = measureWireRequestWithCounter estimatorCounter plan.system plan.messages plan.tools ∧
      HistoryWithOneSystem oneAsk plan.messages := by
  have haccepted : (planWireRequest lengthCodec "Be exact.".toList [] [] [] oneStepLedger [] oneAsk [] []
      ContextBudget.default estimatorCounter).isOk = true := by
    decide +kernel
  cases hplan : planWireRequest lengthCodec "Be exact.".toList [] [] [] oneStepLedger [] oneAsk [] []
      ContextBudget.default estimatorCounter with
  | ok plan =>
    have hguarantee := plan_accounting hplan
    exact ⟨plan, rfl, hguarantee.1.1, hguarantee.2.1⟩
  | error refused =>
    rw [hplan] at haccepted
    exact absurd haccepted (by simp [Except.isOk, Except.toBool])

end Wire
