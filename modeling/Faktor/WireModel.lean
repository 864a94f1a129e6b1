/-
# A provider request and what it counts

A request is a system text, messages made of parts, and tool schemas.  Its cost is counted by one counter,
part by part, with a small envelope for each message, part and tool; the sums stop at the largest `u64`.
A saturating sum is the exact sum cut once, so the order in which the parts are added does not matter.

* `RequestMessage`, `ContentKind`, `ToolSpec` : the request;
* `TokenCounter`, `measureMessage`, `estimateMessages`, `estimateTools` : what it costs;
* `sizeRequestWithCounter` : the cost of a whole request, added up in another order;
* `sizeRequestWithCounter_count` : that order gives the same count.
-/
import Mathlib
import Faktor.Saturating
import Faktor.TextBytes

namespace Wire

open TextBytes Saturating

/-! ## The request -/

/-- `Role`. -/
inductive Role
  | user | assistant | system
  deriving DecidableEq, Repr

/-- `MAX_MEDIA_BYTES_HARD`. -/
def maxMediaBytesHard : ℕ := 32 * 1024 * 1024

/-- `MediaBytes`: the bounded bytes of an attachment. -/
structure MediaBytes where
  bytes : List UInt8
  length_le : bytes.length ≤ maxMediaBytesHard
  deriving DecidableEq

/-- `serde_json::Value`, by its text. -/
abbrev Value := Text

/-- `ContentKind`. -/
inductive ContentKind
  | text (text : Text)
  | reasoning (text : Text)
  | image (url : Text)
  | imageData (mime : Text) (data : MediaBytes)
  | fileData (mime : Text) (filename : Option Text) (data : MediaBytes)
  | toolCall (id name : Text) (input : Value)
  | toolResult (content : Text) (isError : Bool)
  deriving DecidableEq

/-- `ContentPart`. -/
structure ContentPart where
  kind : ContentKind
  toolCallId : Option Text
  deriving DecidableEq

/-- `ContentPart::text`. -/
def ContentPart.ofText (text : Text) : ContentPart := ⟨.text text, none⟩

/-- `RequestMessage`. -/
structure RequestMessage where
  role : Role
  content : List ContentPart
  deriving DecidableEq

/-- `ToolEffects`. -/
structure ToolEffects where
  workspaceRead : Bool
  workspaceWrite : Bool
  processExec : Bool
  networkRead : Bool
  networkWrite : Bool
  externalMutation : Bool
  gitMutation : Bool
  deriving DecidableEq, Repr

/-- `ToolSpec`. -/
structure ToolSpec where
  name : Text
  description : Text
  inputSchema : Value
  effects : ToolEffects
  deriving DecidableEq

/-! ## Saturating sums -/

theorem add_le_max (a b : ℕ) : add a b ≤ u64Max := min_le_right _ _

/-- A number is cut at the largest one. -/
def cut (n : ℕ) : ℕ := min n u64Max

theorem cut_of_le {n : ℕ} (h : n ≤ u64Max) : cut n = n := min_eq_left h

/-! ## Counting -/

/-- `TokenEstimate`: a `u64` count, and whether it is exact. -/
structure TokenEstimate where
  count : ℕ
  exact : Bool
  count_le : count ≤ u64Max
  deriving DecidableEq

namespace TokenEstimate

/-- An exact count below the largest one. -/
def ofExact (n : ℕ) (h : n ≤ u64Max) : TokenEstimate := ⟨n, true, h⟩

/-- `add_estimate`: the counts add, and one upper bound makes the sum one. -/
def addEstimate (a b : TokenEstimate) : TokenEstimate :=
  ⟨add a.count b.count, a.exact && b.exact, add_le_max _ _⟩

/-- An envelope of so many tokens. -/
def plus (a : TokenEstimate) (n : ℕ) : TokenEstimate := ⟨add a.count n, a.exact, add_le_max _ _⟩

theorem cut_count (a : TokenEstimate) : cut a.count = a.count := cut_of_le a.count_le

end TokenEstimate

open TokenEstimate

/-- `TokenCounter`: it counts a text and a JSON value. -/
structure TokenCounter where
  countText : Text → TokenEstimate
  countJson : Value → TokenEstimate

def imagePartTokenEstimate : ℕ := 4096
def documentPartTokenEstimate : ℕ := 16384

/-- The cost of an attachment: the label and a fixed estimate, and never less than a token for each
64 KiB. -/
def mediaEstimate (label : TokenEstimate) (partEstimate : ℕ) (data : MediaBytes) : TokenEstimate where
  count := max (add label.count partEstimate) (data.bytes.length / (64 * 1024))
  exact := false
  count_le := by
    refine max_le (add_le_max _ _) ((Nat.div_le_self _ _).trans (data.length_le.trans ?_))
    decide

/-- The cost of a part without its envelope. -/
def measurePart (counter : TokenCounter) : ContentKind → TokenEstimate
  | .text text => counter.countText text
  | .reasoning text => counter.countText text
  | .image url =>
    let estimate := counter.countText url
    ⟨max estimate.count 1, estimate.exact, max_le estimate.count_le (by decide)⟩
  | .imageData mime data => mediaEstimate (counter.countText mime) imagePartTokenEstimate data
  | .fileData mime _ data => mediaEstimate (counter.countText mime) documentPartTokenEstimate data
  | .toolCall id name input =>
    (addEstimate (addEstimate (counter.countText id) (counter.countText name)) (counter.countJson input)).plus 2
  | .toolResult content isError => (counter.countText content).plus isError.toNat

/-- `measure_message`: two tokens for the message, one for each part. -/
def measureMessage (counter : TokenCounter) (m : RequestMessage) : TokenEstimate :=
  m.content.foldl (fun t p => (addEstimate t (measurePart counter p.kind)).plus 1) (ofExact 2 (by decide))

/-- `estimate_messages`. -/
def estimateMessages (counter : TokenCounter) (messages : List RequestMessage) : TokenEstimate :=
  messages.foldl (fun total m => addEstimate total (measureMessage counter m)) (ofExact 0 (by decide))

/-- `estimate_tools`: the cost of each tool is added as one sum. -/
def estimateTools (counter : TokenCounter) (specs : List ToolSpec) : TokenEstimate :=
  specs.foldl (fun total s =>
    addEstimate total
      ((addEstimate (addEstimate (counter.countText s.name) (counter.countText s.description))
        (counter.countJson s.inputSchema)).plus 2)) (ofExact 0 (by decide))

/-- `size_request_with_counter`: one running total, to which each text of a tool is added. -/
def sizeRequestWithCounter (counter : TokenCounter) (system : Text) (messages : List RequestMessage)
    (tools : List ToolSpec) : TokenEstimate :=
  let withMessages := messages.foldl (fun total m => addEstimate total (measureMessage counter m))
    (counter.countText system)
  tools.foldl (fun total s =>
    (addEstimate (addEstimate (addEstimate total (counter.countText s.name))
      (counter.countText s.description)) (counter.countJson s.inputSchema)).plus 2) withMessages

/-- `measure_wire_request_with_counter`. -/
def measureWireRequestWithCounter (counter : TokenCounter) (system : Text)
    (messages : List RequestMessage) (tools : List ToolSpec) : ℕ :=
  (sizeRequestWithCounter counter system messages tools).count

/-! ## The exact sums behind the counts -/

section Sums

variable (counter : TokenCounter)

/-- The exact cost of messages. -/
def messagesSum (messages : List RequestMessage) : ℕ :=
  (messages.map fun m => (measureMessage counter m).count).sum

/-- The exact cost of a tool. -/
def toolSum (s : ToolSpec) : ℕ :=
  (counter.countText s.name).count + (counter.countText s.description).count +
    (counter.countJson s.inputSchema).count + 2

/-- The exact cost of tools. -/
def toolsSum (tools : List ToolSpec) : ℕ := (tools.map (toolSum counter)).sum

theorem messagesSum_cons (m : RequestMessage) (rest : List RequestMessage) :
    messagesSum counter (m :: rest) = (measureMessage counter m).count + messagesSum counter rest := by
  simp [messagesSum]

theorem toolsSum_cons (s : ToolSpec) (rest : List ToolSpec) :
    toolsSum counter (s :: rest) = toolSum counter s + toolsSum counter rest := by
  simp [toolsSum]

theorem messagesSum_append (a b : List RequestMessage) :
    messagesSum counter (a ++ b) = messagesSum counter a + messagesSum counter b := by
  rw [messagesSum, List.map_append, List.sum_append]
  rfl

/-- The messages are added to what a running total has. -/
theorem foldl_messages_count (messages : List RequestMessage) (start : TokenEstimate) :
    (messages.foldl (fun total m => addEstimate total (measureMessage counter m)) start).count
      = cut (start.count + messagesSum counter messages) := by
  induction messages generalizing start with
  | nil => exact (cut_count start).symm
  | cons m rest ih =>
    rw [List.foldl_cons, ih, messagesSum_cons]
    simp only [addEstimate, add, cut]
    omega

theorem estimateMessages_count (messages : List RequestMessage) :
    (estimateMessages counter messages).count = cut (messagesSum counter messages) := by
  rw [estimateMessages, foldl_messages_count]
  simp [ofExact]

/-- Tools added as one sum each. -/
theorem foldl_tools_count (tools : List ToolSpec) (start : TokenEstimate) :
    (tools.foldl (fun total s =>
      addEstimate total
        ((addEstimate (addEstimate (counter.countText s.name) (counter.countText s.description))
          (counter.countJson s.inputSchema)).plus 2)) start).count
      = cut (start.count + toolsSum counter tools) := by
  induction tools generalizing start with
  | nil => exact (cut_count start).symm
  | cons s rest ih =>
    rw [List.foldl_cons, ih, toolsSum_cons, toolSum]
    simp only [addEstimate, plus, add, cut]
    omega

theorem estimateTools_count (tools : List ToolSpec) :
    (estimateTools counter tools).count = cut (toolsSum counter tools) := by
  rw [estimateTools, foldl_tools_count]
  simp [ofExact]

/-- Tools added text by text. -/
theorem foldl_toolTexts_count (tools : List ToolSpec) (start : TokenEstimate) :
    (tools.foldl (fun total s =>
      (addEstimate (addEstimate (addEstimate total (counter.countText s.name))
        (counter.countText s.description)) (counter.countJson s.inputSchema)).plus 2) start).count
      = cut (start.count + toolsSum counter tools) := by
  induction tools generalizing start with
  | nil => exact (cut_count start).symm
  | cons s rest ih =>
    rw [List.foldl_cons, ih, toolsSum_cons, toolSum]
    simp only [addEstimate, plus, add, cut]
    omega

/-- **The cost of a request** is the exact sum of its parts, cut once. -/
theorem sizeRequestWithCounter_count (system : Text) (messages : List RequestMessage)
    (tools : List ToolSpec) :
    (sizeRequestWithCounter counter system messages tools).count
      = cut ((counter.countText system).count + messagesSum counter messages + toolsSum counter tools) := by
  rw [sizeRequestWithCounter, foldl_toolTexts_count, foldl_messages_count]
  simp only [cut]
  omega

end Sums

end Wire
