import LobsterProxy.Base.Emitter
import LobsterProxy.Base.SortedMap
import LobsterProxy.Responses.Frame

/-! The Responses stream converter: chat chunks become numbered frames, item by
item, and accumulate for the response object. -/

namespace Lobster.Responses
open Chat Emitter

structure ToolSlot where
  itemId : String
  callId : String
  name : String
  arguments : String
  outputIndex : Nat
  done : Bool
  server : Bool

def ToolSlot.item (slot : ToolSlot) : Item :=
  .functionCall slot.itemId slot.callId slot.name (some slot.arguments)

/-- An output item in allocation order; its text lives in the accumulators. -/
inductive OutputItem where
  | reasoning (itemId : String)
  | message (itemId : String)
  | functionCall (itemId : String)
  deriving DecidableEq, Repr

/-- `ReasoningState` and `MessageState`; no output index stands for `usize::MAX`. -/
structure ItemState where
  itemId : String
  outputIndex : Option Nat
  accum : String
  itemAdded : Bool
  partAdded : Bool
  partDone : Bool
  itemDone : Bool

namespace ItemState

def fresh (itemId : String) : ItemState := ⟨itemId, none, "", false, false, false, false⟩

def wireIndex (state : ItemState) : Nat := state.outputIndex.getD (2 ^ 64 - 1)

end ItemState

structure ResponsesConverter where
  responseId : String
  model : String
  exposeThinking : Bool
  started : Bool
  sequence : Nat
  createdAt : UInt64
  nextOutputIndex : Nat
  reasoning : Option ItemState
  message : Option ItemState
  tools : SortedMap Int ToolSlot
  serverToolNames : List String
  outputItems : List OutputItem
  finishReason : Option String
  usage : Option Usage
  error : Option String
  modelSeen : Option String
  /-- How many random ids have been drawn. -/
  draws : Nat

namespace ResponsesConverter

/-- `hex n` is the `n`-th random half of an id. -/
def withServerTools (hex : Nat → String) (createdAt : UInt64) (model : String)
    (exposeThinking : Bool) (serverToolNames : List String) : ResponsesConverter where
  responseId := "resp_" ++ hex 0
  model := model
  exposeThinking := exposeThinking
  started := false
  sequence := 0
  createdAt := createdAt
  nextOutputIndex := 0
  reasoning := none
  message := none
  tools := .empty
  serverToolNames := serverToolNames
  outputItems := []
  finishReason := none
  usage := none
  error := none
  modelSeen := none
  draws := 1

def new (hex : Nat → String) (createdAt : UInt64) (model : String) (exposeThinking : Bool) :
    ResponsesConverter := withServerTools hex createdAt model exposeThinking []

def currentModel (c : ResponsesConverter) : String := c.modelSeen.getD c.model

def hasReasoning (c : ResponsesConverter) : Bool := c.reasoning.any fun r => r.accum ≠ ""

def hasText (c : ResponsesConverter) : Bool := c.message.any fun m => m.accum ≠ ""

def hasTools (c : ResponsesConverter) : Bool := !c.tools.isEmpty

def numbered (f : Emitter ResponsesConverter Event) : Emitter ResponsesConverter Frame := fun c =>
  let (c', events) := f c
  ({ c' with sequence := c.sequence + events.length },
    events.mapIdx fun i event => ⟨event, c.sequence + (i + 1)⟩)

def ensureStarted : Emitter ResponsesConverter Event := fun c =>
  if c.started then (c, [])
  else
    let response := baseResponse c.responseId c.currentModel "in_progress" [] none c.createdAt
    ({ c with started := true }, [.created response, .inProgress response])

def noteChunk (chunk : Json) (c : ResponsesConverter) : ResponsesConverter :=
  { c with
    modelSeen := ((chunkModel chunk).filter fun model => model ≠ "").or c.modelSeen
    usage := ((chunkUsage chunk).map mapUsage).or c.usage }

section Items
variable (hex : Nat → String)

def stateOr (idPrefix : String) (state : Option ItemState) (c : ResponsesConverter) :
    ItemState × ResponsesConverter :=
  match state with
  | some state => (state, c)
  | none => (.fresh (idPrefix ++ hex c.draws), { c with draws := c.draws + 1 })

def allocate (state : ItemState) (c : ResponsesConverter) : Nat × ResponsesConverter :=
  match state.outputIndex with
  | some outputIndex => (outputIndex, c)
  | none => (c.nextOutputIndex, { c with nextOutputIndex := c.nextOutputIndex + 1 })

def feedReasoning (reasoning : String) : Emitter ResponsesConverter Event := fun c =>
  let (state, c) := stateOr hex "rs_" c.reasoning c
  -- hidden reasoning has an id and no output index
  if c.exposeThinking then
    let (outputIndex, c) := allocate state c
    ({ c with
      reasoning := some { state with
        accum := state.accum ++ reasoning
        outputIndex := some outputIndex
        itemAdded := true
        partAdded := true }
      outputItems := c.outputItems ++ if state.itemAdded then [] else [.reasoning state.itemId] },
    (if state.itemAdded then
    [] else [.outputItemAdded outputIndex (.reasoning state.itemId none)]) ++
      (if state.partAdded then [] else [.reasoningPartAdded state.itemId outputIndex]) ++
      [.reasoningDelta state.itemId outputIndex reasoning])
  else ({ c with reasoning := some { state with accum := state.accum ++ reasoning } }, [])

def feedText (content : String) : Emitter ResponsesConverter Event := fun c =>
  let (state, c) := stateOr hex "msg_" c.message c
  let (outputIndex, c) := allocate state c
  ({ c with
    message := some { state with
      accum := state.accum ++ content
      outputIndex := some outputIndex
      itemAdded := true
      partAdded := if state.itemAdded then state.partAdded else true }
    outputItems := c.outputItems ++ if state.itemAdded then [] else [.message state.itemId] },
  (if state.itemAdded then [] else [.outputItemAdded outputIndex (.message state.itemId none),
      .contentPartAdded state.itemId outputIndex]) ++
    [.outputTextDelta state.itemId outputIndex content])

def closeMessageItem : Emitter ResponsesConverter Event := fun c =>
  match c.message with
  | none => (c, [])
  | some state =>
    if state.itemDone then (c, [])
    else
      let i := state.wireIndex
      let parts := if state.partAdded && !state.partDone then
          [.outputTextDone state.itemId i state.accum,
            .contentPartDone state.itemId i state.accum]
        else []
      ({ c with message := some { state with itemDone := true, partDone := true } },
        parts ++ [.outputItemDone i (.message state.itemId (some state.accum))])

def closeReasoningItem : Emitter ResponsesConverter Event := fun c =>
  match c.reasoning with
  | none => (c, [])
  | some state =>
    if !state.itemAdded || state.itemDone then (c, [])
    else
      let i := state.wireIndex
      let parts := if state.partAdded && !state.partDone then
        [.reasoningTextDone state.itemId i state.accum,
          .reasoningPartDone state.itemId i state.accum]
      else []
      ({ c with reasoning := some { state with itemDone := true, partDone := true } },
        parts ++ [.outputItemDone i (.reasoning state.itemId (some state.accum))])

def addToolItem (call : ToolCallDelta) : Emitter ResponsesConverter Event := fun c =>
  let name := call.name.getD ""
  let slot : ToolSlot := ⟨"fc_" ++ hex c.draws, call.id.getD "", name, "", c.nextOutputIndex, false,
    c.serverToolNames.contains name⟩
  let c := { c with
    nextOutputIndex := c.nextOutputIndex + 1
    draws := c.draws + 1
    tools := c.tools.insert call.index slot }
  -- a server tool has an output index and no item
  if slot.server then (c, [])
  else ({ c with outputItems := c.outputItems ++ [.functionCall slot.itemId] },
    [.outputItemAdded slot.outputIndex (.functionCall slot.itemId slot.callId name none)])

def ensureToolItemAdded (call : ToolCallDelta) : Emitter ResponsesConverter Event := fun c =>
  if c.tools.contains call.index then (c, [])
  -- the first call ends the message
  else if c.tools.isEmpty then (closeMessageItem.andThen (addToolItem hex call)) c
  else addToolItem hex call c

def feedToolCallArguments (call : ToolCallDelta) : Emitter ResponsesConverter Event := fun c =>
  match c.tools.find? call.index with
  | none => (c, [])
  | some slot =>
    -- a name that comes late can still be that of a server tool
    let server :=
      slot.server || (call.name.filter fun name => name ≠ "").any c.serverToolNames.contains
    let arguments := call.arguments.getD ""
    ({ c with tools := c.tools.insert call.index { slot with
        callId := keepOr call.id slot.callId
        name := keepOr call.name slot.name
        arguments := slot.arguments ++ arguments
        server := server } },
      if server ∨ arguments = "" then []
      else [.argumentsDelta slot.itemId slot.outputIndex arguments])

def feedDelta : Delta → Emitter ResponsesConverter Event
  | .finish reason => silent fun c => { c with finishReason := some reason }
  | .reasoning text => feedReasoning hex text
  | .content text => feedText hex text
  -- every item of the chunk is added before any of its arguments
  | .toolCalls calls => (forEach (ensureToolItemAdded hex) calls).andThen
      (forEach feedToolCallArguments calls)

def feedChunkEvents (chunk : Json) : Emitter ResponsesConverter Event :=
  ensureStarted.andThen <| (silent (noteChunk chunk)).andThen <|
    forEach (feedDelta hex) (chunkDeltas chunk)

def feedChunk (chunk : Json) : Emitter ResponsesConverter Frame :=
  numbered (feedChunkEvents hex chunk)

def semantic (chunk : Json) : Bool := !(chunkDeltas chunk).isEmpty

end Items

section Terminal

def stateText (state : Option ItemState) (itemId : String) : String :=
  ((state.filter fun state => state.itemId = itemId).map ItemState.accum).getD ""

def outputItem (c : ResponsesConverter) : OutputItem → Option Item
  | .reasoning itemId => some (.reasoning itemId (some (stateText c.reasoning itemId)))
  | .message itemId => some (.message itemId (some (stateText c.message itemId)))
  | .functionCall itemId =>
    (c.tools.values.find? fun slot => slot.itemId = itemId).map ToolSlot.item

def terminalResponse (status : String) (c : ResponsesConverter) : ResponseObject :=
  baseResponse c.responseId c.currentModel status (c.outputItems.filterMap c.outputItem) c.usage
    c.createdAt

def nonstreamStatus (c : ResponsesConverter) : String :=
  match c.error, c.finishReason with
  | some _, _ => "failed"
  | none, some "length" => "incomplete"
  | _, _ => "completed"

def nonstreamResponse (c : ResponsesConverter) : ResponseObject :=
  let status := c.nonstreamStatus
  { c.terminalResponse status with
    error := if status = "failed" then some (c.error.getD "upstream error") else none
    incompleteReason := if status = "incomplete" then some "max_output_tokens" else none }

def closeTool (slot : ToolSlot) : List Event :=
  [.argumentsDone slot.itemId slot.outputIndex slot.arguments,
    .outputItemDone slot.outputIndex slot.item]

def closeTools : Emitter ResponsesConverter Event := fun c =>
  ({ c with tools := c.tools.mapValues fun slot => { slot with done := true } },
    (c.tools.values.filter fun slot => !slot.done && !slot.server).flatMap closeTool)

def terminalEvent (c : ResponsesConverter) : Event :=
  if c.finishReason = some "length" then
    .incomplete
      { c.terminalResponse "incomplete" with incompleteReason := some "max_output_tokens" }
  else .completed (c.terminalResponse "completed")

def finishEvents (error : Option String) : Emitter ResponsesConverter Event := fun c =>
  let c := { c with error := error }
  match error with
  | some message => (c, [.failed { c.terminalResponse "failed" with error := some message }])
  | none => (closeReasoningItem.andThen <| closeMessageItem.andThen <| closeTools.andThen fun c =>
      (c, [c.terminalEvent])) c

def finish (error : Option String) : Emitter ResponsesConverter Frame :=
  numbered (finishEvents error)

end Terminal

end ResponsesConverter
end Lobster.Responses
