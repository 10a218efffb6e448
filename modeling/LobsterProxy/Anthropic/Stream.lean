import LobsterProxy.Base.Emitter
import LobsterProxy.Base.SortedMap
import LobsterProxy.Chat.Chunk

/-! The Anthropic stream converter: chat chunks become Messages events, block by
block, and accumulate for the non-stream response. -/

namespace Lobster.Anthropic
open Chat Emitter

inductive BlockKind where
  | thinking
  | text
  | toolUse
  deriving DecidableEq, Repr

inductive ContentBlock where
  | thinking
  | text
  | toolUse (id name : String)
  deriving DecidableEq, Repr

inductive BlockDelta where
  | thinking (thinking : String)
  | text (text : String)
  | inputJson (partialJson : String)
  deriving DecidableEq, Repr

def ContentBlock.kind : ContentBlock → BlockKind
  | thinking => .thinking
  | text => .text
  | toolUse .. => .toolUse

def BlockDelta.kind : BlockDelta → BlockKind
  | thinking _ => .thinking
  | text _ => .text
  | inputJson _ => .toolUse

def ContentBlock.json : ContentBlock → Json
  | thinking => .obj [("type", .str "thinking"), ("thinking", .str "")]
  | text => .obj [("type", .str "text"), ("text", .str "")]
  | toolUse id name =>
    .obj [("type", .str "tool_use"), ("id", .str id), ("name", .str name), ("input", .obj [])]

def BlockDelta.json : BlockDelta → Json
  | thinking s => .obj [("type", .str "thinking_delta"), ("thinking", .str s)]
  | text s => .obj [("type", .str "text_delta"), ("text", .str s)]
  | inputJson s => .obj [("type", .str "input_json_delta"), ("partial_json", .str s)]

inductive Event where
  | messageStart (id model : String)
  | contentBlockStart (index : Nat) (block : ContentBlock)
  | contentBlockDelta (index : Nat) (delta : BlockDelta)
  | contentBlockStop (index : Nat)
  | messageDelta (stopReason : String) (outputTokens : UInt64)
  | messageStop
  deriving DecidableEq, Repr

namespace Event

def name : Event → String
  | messageStart .. => "message_start"
  | contentBlockStart .. => "content_block_start"
  | contentBlockDelta .. => "content_block_delta"
  | contentBlockStop _ => "content_block_stop"
  | messageDelta .. => "message_delta"
  | messageStop => "message_stop"

def data (event : Event) : Json :=
  .obj (("type", .str event.name) :: match event with
    | messageStart id model => [("message", .obj [("id", .str id), ("type", .str "message"),
        ("role", .str "assistant"), ("content", .arr []), ("model", .str model),
        ("stop_reason", .null), ("stop_sequence", .null),
        ("usage", .obj [("input_tokens", .ofNat 0), ("output_tokens", .ofNat 0)])])]
    | contentBlockStart index block => [("index", .ofNat index), ("content_block", block.json)]
    | contentBlockDelta index delta => [("index", .ofNat index), ("delta", delta.json)]
    | contentBlockStop index => [("index", .ofNat index)]
    | messageDelta stopReason outputTokens =>
      [("delta", .obj [("stop_reason", .str stopReason), ("stop_sequence", .null)]),
        ("usage", .obj [("output_tokens", .num (.posInt outputTokens))])]
    | messageStop => [])

end Event

def sseEvent (serde : Serde) (event : String) (data : Json) : String :=
  s!"event: {event}\ndata: {serde.toString data}\n\n"

def stopReasonFromFinish (finish : Option String) : String :=
  match finish with
  | some "tool_calls" | some "function_call" => "tool_use"
  | some "length" => "max_tokens"
  | some "stop_sequence" => "stop_sequence"
  | _ => "end_turn"

structure Usage where
  input : UInt64
  output : UInt64
  cached : UInt64
  deriving DecidableEq, Repr

/-- Cached reads are subtracted from the input, saturating at zero. -/
def mapUsage (usage : Json) : Usage :=
  let prompt := usageCount usage ["prompt_tokens"]
  let cached := usageCount usage ["prompt_tokens_details", "cached_tokens"]
  ⟨if cached ≤ prompt then prompt - cached else 0, usageCount usage ["completion_tokens"], cached⟩

structure ToolCallAccum where
  id : String
  name : String
  arguments : String
  deriving DecidableEq, Repr

structure Accumulated where
  reasoning : String
  text : String
  toolCalls : List ToolCallAccum
  finishReason : Option String
  usage : Option Usage
  model : Option String

structure ToolSlot where
  id : String
  name : String
  arguments : String
  blockIdx : Nat
  started : Bool

structure StreamConverter where
  msgId : String
  exposeThinking : Bool
  started : Bool
  nextBlockIdx : Nat
  thinkingOpen : Bool
  thinkingIdx : Nat
  thinkingAccum : String
  textOpen : Bool
  textIdx : Nat
  textAccum : String
  tools : SortedMap Int ToolSlot
  finishReason : Option String
  usage : Option Usage
  model : Option String
  finished : Bool

namespace ToolSlot

def fresh (call : ToolCallDelta) (blockIdx : Nat) : ToolSlot :=
  ⟨call.id.getD "", call.name.getD "", "", blockIdx, false⟩

def update (slot : ToolSlot) (call : ToolCallDelta) : ToolSlot :=
  { slot with
    id := keepOr call.id slot.id
    name := keepOr call.name slot.name
    arguments := slot.arguments ++ call.arguments.getD "" }

def accum (slot : ToolSlot) : ToolCallAccum := ⟨slot.id, slot.name, slot.arguments⟩

end ToolSlot

namespace StreamConverter

/-- `hex` is the random half of the message id. -/
def new (hex : String) (exposeThinking : Bool) : StreamConverter where
  msgId := "msg_" ++ hex
  exposeThinking := exposeThinking
  started := false
  nextBlockIdx := 0
  thinkingOpen := false
  thinkingIdx := 0
  thinkingAccum := ""
  textOpen := false
  textIdx := 0
  textAccum := ""
  tools := .empty
  finishReason := none
  usage := none
  model := none
  finished := false

def noteChunk (chunk : Json) (c : StreamConverter) : StreamConverter :=
  { c with
    model := (chunkModel chunk).or c.model
    usage := ((chunkUsage chunk).map mapUsage).or c.usage }

def ensureStarted : Emitter StreamConverter Event := fun c =>
  if c.started then (c, [])
  else ({ c with started := true }, [.messageStart c.msgId (c.model.getD "")])

def closeThinking : Emitter StreamConverter Event := fun c =>
  if c.thinkingOpen then ({ c with thinkingOpen := false }, [.contentBlockStop c.thinkingIdx])
  else (c, [])

def openThinking : Emitter StreamConverter Event := fun c =>
  if c.thinkingOpen then (c, [])
  else ({ c with
    thinkingIdx := c.nextBlockIdx
    nextBlockIdx := c.nextBlockIdx + 1
    thinkingOpen := true }, [.contentBlockStart c.nextBlockIdx .thinking])

def openText : Emitter StreamConverter Event := fun c =>
  if c.textOpen then (c, [])
  else ({ c with
    textIdx := c.nextBlockIdx
    nextBlockIdx := c.nextBlockIdx + 1
    textOpen := true }, [.contentBlockStart c.nextBlockIdx .text])

def feedReasoning (reasoning : String) : Emitter StreamConverter Event := fun c =>
  let c := { c with thinkingAccum := c.thinkingAccum ++ reasoning }
  -- hidden thinking is accumulated all the same
  if c.exposeThinking then
    openThinking.andThen (fun c => (c, [.contentBlockDelta c.thinkingIdx (.thinking reasoning)])) c
  else (c, [])

def feedContent (content : String) : Emitter StreamConverter Event :=
  closeThinking.andThen <|
  (silent fun c => { c with textAccum := c.textAccum ++ content }).andThen <|
    openText.andThen fun c => (c, [.contentBlockDelta c.textIdx (.text content)])

def slotFor (call : ToolCallDelta) (c : StreamConverter) : StreamConverter × ToolSlot :=
  match c.tools.find? call.index with
  | some slot => (c, slot)
  | none => ({ c with nextBlockIdx := c.nextBlockIdx + 1 }, .fresh call c.nextBlockIdx)

def feedSlot (call : ToolCallDelta) : Emitter StreamConverter Event := fun c =>
  let (c, slot) := c.slotFor call
  let slot := slot.update call
  -- announced once, under the id and the name that are known by then
  let start := if slot.started then [] else
    [.contentBlockStart slot.blockIdx (.toolUse slot.id slot.name)]
  let arguments := (call.arguments.filter (fun s => s ≠ "")).toList.map
    fun s => .contentBlockDelta slot.blockIdx (.inputJson s)
  ({ c with tools := c.tools.insert call.index { slot with started := true } }, start ++ arguments)

def feedToolCall (call : ToolCallDelta) : Emitter StreamConverter Event :=
  closeThinking.andThen (feedSlot call)

def feedDelta : Delta → Emitter StreamConverter Event
  | .finish reason => silent fun c => { c with finishReason := some reason }
  | .reasoning text => feedReasoning text
  | .content text => feedContent text
  | .toolCalls calls => forEach feedToolCall calls

def feedChunk (chunk : Json) : Emitter StreamConverter Event := fun c =>
  if c.finished then (c, [])
  else ((silent (noteChunk chunk)).andThen
    (ensureStarted.andThen (forEach feedDelta (chunkDeltas chunk)))) c

def semantic (chunk : Json) (c : StreamConverter) : Bool :=
  !c.finished && (chunkDeltas chunk).any fun delta => delta ≠ .toolCalls []

def closeText : Emitter StreamConverter Event := fun c =>
  if c.textOpen then ({ c with textOpen := false }, [.contentBlockStop c.textIdx]) else (c, [])

def closeTools : Emitter StreamConverter Event := fun c =>
  ({ c with tools := c.tools.mapValues fun slot => { slot with started := false } },
    (c.tools.values.filter ToolSlot.started).map fun slot => .contentBlockStop slot.blockIdx)

def finishWithStop (stopReason : String) : Emitter StreamConverter Event := fun c =>
  if c.finished then (c, [])
  else ((silent fun c => { c with finished := true }).andThen <| closeThinking.andThen <|
    closeText.andThen <| closeTools.andThen fun c =>
      (c, [.messageDelta stopReason (c.usage.elim 0 Usage.output), .messageStop])) c

def finish : Emitter StreamConverter Event := fun c =>
  finishWithStop (stopReasonFromFinish c.finishReason) c

def accumulated (c : StreamConverter) : Accumulated where
  reasoning := c.thinkingAccum
  text := c.textAccum
  toolCalls := c.tools.values.map ToolSlot.accum
  finishReason := c.finishReason
  usage := c.usage
  model := c.model

def hasReasoning (c : StreamConverter) : Bool := c.thinkingAccum ≠ ""

def hasText (c : StreamConverter) : Bool := c.textAccum ≠ ""

def hasTools (c : StreamConverter) : Bool := !c.tools.isEmpty

def toolUseContent (serde : Serde) (slot : ToolSlot) : Json :=
  -- arguments that are no object are dropped
  let input := ((serde.fromStr slot.arguments).filter Json.isObject).getD (.obj [])
  .obj [("type", .str "tool_use"), ("id", .str slot.id), ("name", .str slot.name), ("input", input)]

def nonstreamContent (serde : Serde) (c : StreamConverter) : List Json :=
  (if c.exposeThinking ∧ c.thinkingAccum ≠ "" then
    [.obj [("type", .str "thinking"), ("thinking", .str c.thinkingAccum), ("signature", .str "")]]
  else []) ++
  (if c.textAccum ≠ "" then [.obj [("type", .str "text"), ("text", .str c.textAccum)]] else []) ++
  c.tools.values.map (toolUseContent serde)

def nonstreamResponse (serde : Serde) (c : StreamConverter) : Json :=
  let usage := c.usage.getD ⟨0, 0, 0⟩
  .obj [("id", .str c.msgId), ("type", .str "message"), ("role", .str "assistant"),
    ("content", .arr (c.nonstreamContent serde)), ("model", .str (c.model.getD "")),
    ("stop_reason", .str (stopReasonFromFinish c.finishReason)), ("stop_sequence", .null),
    ("usage", .obj [("input_tokens", .num (.posInt usage.input)),
      ("cache_creation_input_tokens", .ofNat 0),
      ("cache_read_input_tokens", .num (.posInt usage.cached)),
      ("output_tokens", .num (.posInt usage.output))])]

end StreamConverter
end Lobster.Anthropic
