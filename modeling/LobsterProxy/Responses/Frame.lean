import LobsterProxy.Chat.Chunk

/-! The frames of a Responses event stream and the response object they carry. -/

namespace Lobster.Responses
open Chat

/-- Input, output, cached and reasoning tokens. -/
structure Usage where
  input : UInt64
  output : UInt64
  cached : UInt64
  reasoning : UInt64
  deriving DecidableEq, Repr

/-- The details never exceed the totals they are part of. -/
def mapUsage (usage : Json) : Usage :=
  let input := usageCount usage ["prompt_tokens"]
  let output := usageCount usage ["completion_tokens"]
  ⟨input, output, min (usageCount usage ["prompt_tokens_details", "cached_tokens"]) input,
    min (usageCount usage ["completion_tokens_details", "reasoning_tokens"]) output⟩

def Usage.json (usage : Usage) : Json :=
  .obj [("input_tokens", .num (.posInt usage.input)),
    ("input_tokens_details", .obj [("cached_tokens", .num (.posInt usage.cached))]),
    ("output_tokens", .num (.posInt usage.output)),
    ("output_tokens_details", .obj [("reasoning_tokens", .num (.posInt usage.reasoning))]),
    ("total_tokens", .num (.posInt (usage.input + usage.output)))]

def summaryText (text : String) : Json := .obj [("type", .str "summary_text"), ("text", .str text)]

def outputText (text : String) : Json :=
  .obj [("type", .str "output_text"), ("text", .str text), ("annotations", .arr [])]

/-- An output item as it stands in a frame: without content while it is in progress. -/
inductive Item where
  | reasoning (id : String) (summary : Option String)
  | message (id : String) (text : Option String)
  | functionCall (id callId name : String) (arguments : Option String)
  deriving DecidableEq, Repr

inductive ItemKind where
  | reasoning
  | message
  | functionCall
  deriving DecidableEq, Repr

namespace Item

def id : Item → String
  | reasoning id _ => id
  | message id _ => id
  | functionCall id _ _ _ => id

def kind : Item → ItemKind
  | reasoning .. => .reasoning
  | message .. => .message
  | functionCall .. => .functionCall

/-- The summary, the text or the arguments of a completed item. -/
def text? : Item → Option String
  | reasoning _ summary => summary
  | message _ text => text
  | functionCall _ _ _ arguments => arguments

def status (content : Option String) : Json :=
  .str (if content.isSome then "completed" else "in_progress")

def json : Item → Json
  | reasoning id summary => .obj [("type", .str "reasoning"), ("id", .str id),
      ("summary", .arr (summary.toList.map summaryText)), ("status", status summary)]
  | message id text => .obj [("type", .str "message"), ("id", .str id), ("role", .str "assistant"),
      ("status", status text), ("content", .arr (text.toList.map outputText))]
  | functionCall id callId name arguments =>
    .obj [("type", .str "function_call"), ("id", .str id), ("call_id", .str callId),
      ("name", .str name),
      ("arguments", .str (arguments.getD "")), ("status", status arguments)]

end Item

structure ResponseObject where
  id : String
  createdAt : UInt64
  status : String
  model : String
  output : List Item
  usage : Usage
  error : Option String
  incompleteReason : Option String
  deriving DecidableEq, Repr

def baseResponse (id model status : String) (output : List Item) (usage : Option Usage)
    (createdAt : UInt64) : ResponseObject :=
  ⟨id, createdAt, status, model, output, usage.getD ⟨0, 0, 0, 0⟩, none, none⟩

def ResponseObject.json (response : ResponseObject) : Json :=
  .obj [("id", .str response.id), ("object", .str "response"),
    ("created_at", .num (.posInt response.createdAt)), ("status", .str response.status),
    ("model", .str response.model), ("output", .arr (response.output.map Item.json)),
    ("usage", response.usage.json),
    ("error", response.error.elim .null fun message =>
      .obj [("code", .str "upstream_error"), ("message", .str message)]),
    ("incomplete_details", response.incompleteReason.elim .null fun reason =>
      .obj [("reason", .str reason)]),
    ("parallel_tool_calls", .bool true)]

inductive Event where
  | created (response : ResponseObject)
  | inProgress (response : ResponseObject)
  | outputItemAdded (outputIndex : Nat) (item : Item)
  | outputItemDone (outputIndex : Nat) (item : Item)
  | reasoningPartAdded (itemId : String) (outputIndex : Nat)
  | reasoningDelta (itemId : String) (outputIndex : Nat) (delta : String)
  | reasoningTextDone (itemId : String) (outputIndex : Nat) (text : String)
  | reasoningPartDone (itemId : String) (outputIndex : Nat) (text : String)
  | contentPartAdded (itemId : String) (outputIndex : Nat)
  | outputTextDelta (itemId : String) (outputIndex : Nat) (delta : String)
  | outputTextDone (itemId : String) (outputIndex : Nat) (text : String)
  | contentPartDone (itemId : String) (outputIndex : Nat) (text : String)
  | argumentsDelta (itemId : String) (outputIndex : Nat) (delta : String)
  | argumentsDone (itemId : String) (outputIndex : Nat) (arguments : String)
  | completed (response : ResponseObject)
  | incomplete (response : ResponseObject)
  | failed (response : ResponseObject)
  deriving DecidableEq, Repr

namespace Event

def name : Event → String
  | created _ => "response.created"
  | inProgress _ => "response.in_progress"
  | outputItemAdded .. => "response.output_item.added"
  | outputItemDone .. => "response.output_item.done"
  | reasoningPartAdded .. => "response.reasoning_summary_part.added"
  | reasoningDelta .. => "response.reasoning_summary_text.delta"
  | reasoningTextDone .. => "response.reasoning_summary_text.done"
  | reasoningPartDone .. => "response.reasoning_summary_part.done"
  | contentPartAdded .. => "response.content_part.added"
  | outputTextDelta .. => "response.output_text.delta"
  | outputTextDone .. => "response.output_text.done"
  | contentPartDone .. => "response.content_part.done"
  | argumentsDelta .. => "response.function_call_arguments.delta"
  | argumentsDone .. => "response.function_call_arguments.done"
  | completed _ => "response.completed"
  | incomplete _ => "response.incomplete"
  | failed _ => "response.failed"

/-- The place of a frame inside an item: `part` names the index of the part, if any. -/
def place (itemId : String) (outputIndex : Nat) (part : Option String) : Fields :=
  [("item_id", .str itemId), ("output_index", .ofNat outputIndex)] ++
    part.toList.map fun key => (key, .ofNat 0)

def fields : Event → Fields
  | created response | inProgress response | completed response | incomplete response
  | failed response => [("response", response.json)]
  | outputItemAdded outputIndex item | outputItemDone outputIndex item =>
    [("output_index", .ofNat outputIndex), ("item", item.json)]
  | reasoningPartAdded itemId i =>
    place itemId i (some "summary_index") ++ [("part", summaryText "")]
  | reasoningDelta itemId i delta =>
    place itemId i (some "summary_index") ++ [("delta", .str delta)]
  | reasoningTextDone itemId i text =>
    place itemId i (some "summary_index") ++ [("text", .str text)]
  | reasoningPartDone itemId i text =>
    place itemId i (some "summary_index") ++ [("part", summaryText text)]
  | contentPartAdded itemId i => place itemId i (some "content_index") ++ [("part", outputText "")]
  | outputTextDelta itemId i delta =>
    place itemId i (some "content_index") ++ [("delta", .str delta)]
  | outputTextDone itemId i text => place itemId i (some "content_index") ++ [("text", .str text)]
  | contentPartDone itemId i text =>
    place itemId i (some "content_index") ++ [("part", outputText text)]
  | argumentsDelta itemId i delta => place itemId i none ++ [("delta", .str delta)]
  | argumentsDone itemId i arguments => place itemId i none ++ [("arguments", .str arguments)]

end Event

structure Frame where
  event : Event
  sequence : Nat
  deriving DecidableEq, Repr

def Frame.json (frame : Frame) : Json :=
  .obj (("type", .str frame.event.name) :: frame.event.fields ++
    [("sequence_number", .ofNat frame.sequence)])

def sseEvent (serde : Serde) (data : Json) : String := s!"data: {serde.toString data}\n\n"

end Lobster.Responses
