import LobsterProxy.Base.SortedMap
import LobsterProxy.Chat.ProtocolError
import LobsterProxy.Deepseek.Policy
import Mathlib.Data.String.Basic

/-! The Anthropic Messages request converter: an Anthropic request object
becomes an OpenAI Chat Completions body. -/

namespace Lobster.Anthropic
open Conversion Deepseek

structure Converted where
  chatBody : Json
  thinkingRequested : Bool
  clientModel : Option String

/-- The ids of the unanswered tool calls, each with the index of its message. -/
abbrev PendingToolUses := SortedMap String Nat

def cleanBlock (block : Json) : Json :=
  match block with
  | .obj fields => .obj ((Fields.swapRemove "cache_control" fields).swapRemove "citations")
  | other => other

def trimMatches (p : Char → Bool) (s : String) : String :=
  String.ofList ((s.toList.dropWhile p).reverse.dropWhile p).reverse

def dataUrl (source : Json) (defaultMediaType : String) : String :=
  "data:" ++ (source.getStr? "media_type").getD defaultMediaType ++ ";base64," ++
    source.getStrD "data"

def imageUrl (source : Json) (index : Nat) : Conversion String :=
  match source.getStr? "type" with
  | some "base64" => .ok (dataUrl source "image/png")
  | some "url" => .ok (source.getStrD "url")
  | other => invalid (.text s!"messages[{index}]: unsupported image source " :: debugOption other)

def convertImageBlock (block : Json) (index : Nat) : Conversion Json := do
  let source ← orInvalid ((block.get? "source").filter Json.isObject)
    [.text s!"messages[{index}]: image source must be an object"]
  let url ← imageUrl source index
  return .obj [("type", .str "image_url"), ("image_url", .obj [("url", .str url)])]

def documentData (serde : Serde) (source : Json) (index : Nat) : Conversion String :=
  match source.getStr? "type" with
  | some "base64" => .ok (dataUrl source "application/pdf")
  | some "text" =>
    -- the text itself, escaped, and not in base64
    let encoded := canonicalJsonString serde (.str (source.getStrD "data"))
    .ok ("data:text/plain;base64," ++ trimMatches (· = '"') encoded)
  | other =>
    invalid (.text s!"messages[{index}]: unsupported document source " :: debugOption other)

def convertDocumentBlock (serde : Serde) (block : Json) (index : Nat) : Conversion Json := do
  let source ← orInvalid ((block.get? "source").filter Json.isObject)
    [.text s!"messages[{index}]: document source must be an object"]
  let filename := (block.getStr? "title").getD "document"
  let fileData ← documentData serde source index
  return .obj [("type", .str "file"),
    ("file", .obj [("filename", .str filename), ("file_data", .str fileData)])]

def convertToolResultPart (serde : Serde) (index : Nat) (part : Json) :
    Conversion (List String × List Json) :=
  let part := cleanBlock part
  match part.getStr? "type" with
  | some "text" => .ok ([part.getStrD "text"], [])
  | some "image" => do return ([], [← convertImageBlock part index])
  | some "document" => do return ([], [← convertDocumentBlock serde part index])
  | some "tool_reference" =>
    .ok (["[tool reference: " ++ (part.getStr? "tool_name").getD "?" ++ "]"], [])
  | some "search_result" =>
    let heading := part.getStrD "title" ++ "\n" ++ part.getStrD "url"
    .ok (heading :: (part.getStr? "content").toList, [])
  | some other =>
    invalid [.text s!"messages[{index}]: unsupported tool_result content block ", .debug other]
  -- a part without a type is passed over
  | none => .ok ([], [])

def toolResultContent (texts : List String) (images : List Json) : Json :=
  if images.isEmpty then .str ("\n".intercalate texts)
  else if texts.isEmpty then .arr images
  else .arr (.obj [("type", .str "text"), ("text", .str ("\n".intercalate texts))] :: images)

def convertToolResultContent (serde : Serde) (index : Nat) (content : Option Json) :
    Conversion Json :=
  match content with
  | none | some .null => .ok (.str "")
  | some (.str text) => .ok (.str text)
  | some (.arr parts) => do
    let converted ← parts.mapM (convertToolResultPart serde index)
    return toolResultContent (converted.flatMap Prod.fst) (converted.flatMap Prod.snd)
  | some _ => invalid [.text s!"messages[{index}]: invalid tool_result content"]

def convertToolResult (serde : Serde) (block : Json) (index : Nat) : Conversion Json := do
  let toolUseId ← orInvalid ((block.getStr? "tool_use_id").filter (fun id => id ≠ ""))
    [.text s!"messages[{index}]: tool_result requires tool_use_id"]
  let content ← convertToolResultContent serde index (block.get? "content")
  return .obj [("role", .str "tool"), ("tool_call_id", .str toolUseId), ("content", content)]

inductive UserPart where
  | nothing
  | ordinary (part : Json)
  | toolMessage (message : Json)

namespace UserPart

def ordinary? : UserPart → Option Json
  | ordinary part => some part
  | _ => none

def toolMessage? : UserPart → Option Json
  | toolMessage message => some message
  | _ => none

end UserPart

def convertUserBlock (serde : Serde) (index : Nat) (block : Json) : Conversion UserPart :=
  let block := cleanBlock block
  match block.getStrD "type" with
  | "text" =>
    let text := block.getStrD "text"
    .ok
      (if text = "" then
      .nothing else .ordinary (.obj [("type", .str "text"), ("text", .str text)]))
  | "image" => do return .ordinary (← convertImageBlock block index)
  | "document" => do return .ordinary (← convertDocumentBlock serde block index)
  | "tool_result" => do return .toolMessage (← convertToolResult serde block index)
  | "thinking" | "redacted_thinking" =>
    invalid [.text s!"messages[{index}]: thinking blocks are not valid in user messages"]
  | other => invalid [.text s!"messages[{index}]: unsupported content block type ", .debug other]

/-- The user message of the remaining human content; a single text part becomes a string. -/
def ordinaryMessage (ordinary : List Json) : List Json :=
  match ordinary with
  | [] => []
  | [part] =>
    if part.getStr? "type" = some "text" then
      [.obj [("role", .str "user"), ("content", .str (part.getStrD "text"))]]
    else [.obj [("role", .str "user"), ("content", .arr [part])]]
  | parts => [.obj [("role", .str "user"), ("content", .arr parts)]]

def contentError {α : Type} (index : Nat) : Conversion α :=
  invalid [.text s!"messages[{index}].content must be a string or block array"]

def convertUserMessage (serde : Serde) (message : Fields) (index : Nat) : Conversion (List Json) :=
  match (message.get? "content").getD .null with
  | .str text => .ok [.obj [("role", .str "user"), ("content", .str text)]]
  | .arr blocks => do
    let parts ← blocks.mapM (convertUserBlock serde index)
    return parts.filterMap UserPart.toolMessage? ++ ordinaryMessage
      (parts.filterMap UserPart.ordinary?)
  | _ => contentError index

inductive AssistantPart where
  | text (s : String)
  | reasoning (s : String)
  | toolCall (call : Json)
  | nothing

namespace AssistantPart

def text? : AssistantPart → Option String
  | text s => some s
  | _ => none

def reasoning? : AssistantPart → Option String
  | reasoning s => some s
  | _ => none

def toolCall? : AssistantPart → Option Json
  | toolCall call => some call
  | _ => none

end AssistantPart

structure Segment where
  textParts : List String
  reasoningParts : List String
  toolCalls : List Json

namespace Segment

def ofParts (parts : List AssistantPart) : Segment :=
  ⟨parts.filterMap AssistantPart.text?, parts.filterMap AssistantPart.reasoning?,
    parts.filterMap AssistantPart.toolCall?⟩

def isEmpty (segment : Segment) : Bool :=
  segment.textParts.isEmpty && segment.reasoningParts.isEmpty && segment.toolCalls.isEmpty

def intoMessage (segment : Segment) : Json :=
  let text := "\n\n".intercalate segment.textParts
  let reasoning := if segment.reasoningParts.isEmpty then none
    else some (.str ("\n\n".intercalate segment.reasoningParts))
  let toolCalls := if segment.toolCalls.isEmpty then none else some (.arr segment.toolCalls)
  let message : Fields :=
    [("role", .str "assistant"), ("content", if text = "" then .null else .str text)]
  .obj ((message.insertSome "reasoning_content" reasoning).insertSome "tool_calls" toolCalls)

end Segment

def convertAssistantBlock (serde : Serde) (index : Nat) (block : Json) : Conversion AssistantPart :=
  let block := cleanBlock block
  match block.getStrD "type" with
  | "text" => .ok (.text (block.getStrD "text"))
  | "thinking" => .ok ((block.getStr? "thinking").elim .nothing .reasoning)
  | "redacted_thinking" => .ok .nothing
  | "tool_use" => do
    let id ← orInvalid ((block.getStr? "id").filter (fun id => id ≠ ""))
      [.text s!"messages[{index}]: tool_use requires id"]
    let name ← orInvalid ((block.getStr? "name").filter (fun name => name ≠ ""))
      [.text s!"messages[{index}]: tool_use requires name"]
    let input := (block.get? "input").getD (.obj [])
    if input.isObject then
      return .toolCall (.obj [("id", .str id), ("type", .str "function"),
        ("function", .obj [("name", .str name), ("arguments", .str (serde.toString input))])])
    else invalid [.text s!"messages[{index}]: tool_use input must be an object"]
  | other =>
    invalid [.text s!"messages[{index}]: unsupported assistant content block ", .debug other]

def convertAssistantMessage (serde : Serde) (message : Fields) (index : Nat) :
    Conversion (List Json) :=
  match (message.get? "content").getD .null with
  | .str text => .ok [.obj [("role", .str "assistant"), ("content", .str text)]]
  | .arr blocks => do
    let parts ← blocks.mapM (convertAssistantBlock serde index)
    let segment := Segment.ofParts parts
    -- an empty block array keeps a valid assistant turn
    return if segment.isEmpty then [.obj [("role", .str "assistant"), ("content", .null)]]
      else [segment.intoMessage]
  | _ => contentError index

def settleToolResults (index : Nat) : PendingToolUses → List Json → Conversion PendingToolUses
  | pending, [] => .ok pending
  | pending, message :: rest =>
    if message.getStr? "role" = some "tool" then
      let toolCallId := message.getStrD "tool_call_id"
      if pending.contains toolCallId then settleToolResults index (pending.remove toolCallId) rest
      else invalid [.text s!"messages[{index}]: tool_result references unknown tool_use_id ",
        .debug toolCallId, .text ("; each tool_result must follow the assistant message " ++
          "containing its tool_use")]
    else settleToolResults index pending rest

def registerIds (index : Nat) : PendingToolUses → List Json → Conversion PendingToolUses
  | pending, [] => .ok pending
  | pending, toolCall :: rest =>
    let id := toolCall.getStrD "id"
    if pending.contains id then
      invalid [.text s!"messages[{index}]: duplicate tool_use id ", .debug id]
    else registerIds index (pending.insert id index) rest

def registerToolCalls (index : Nat) : PendingToolUses → List Json → Conversion PendingToolUses
  | pending, [] => .ok pending
  | pending, message :: rest => do
    let pending ← registerIds index pending
        (((message.get? "tool_calls").bind Json.asArray).getD [])
    let pending := if message.getStr? "role" = some "tool" then
        pending.remove (message.getStrD "tool_call_id") else pending
    registerToolCalls index pending rest

def systemText (message : Fields) : String :=
  match message.get? "content" with
  | some (.str text) => text
  | some (.arr blocks) => "\n".intercalate (blocks.filterMap (fun b => b.getStr? "text"))
  | _ => ""

def systemReminder (message : Fields) : Json :=
  .obj [("role", .str "user"),
    ("content", .str ("<system-reminder>\n" ++ systemText message ++ "\n</system-reminder>"))]

/-- One iteration of the loop over the messages: the new pending map and what is appended. -/
def convertMessage (serde : Serde) (index : Nat) (pending : PendingToolUses) (message : Json) :
    Conversion (PendingToolUses × List Json) := do
  let object ← orInvalid message.asObject [.text s!"messages[{index}] must be an object"]
  match message.getStrD "role" with
  | "user" =>
    let converted ← convertUserMessage serde object index
    return (← settleToolResults index pending converted, converted)
  | "assistant" =>
    let converted ← convertAssistantMessage serde object index
    return (← registerToolCalls index pending converted, converted)
  -- a system message among the others is taken for a reminder
  | "system" | "developer" => return (pending, [systemReminder object])
  | other => invalid [.text s!"messages[{index}].role ", .debug other,
      .text " is not supported (expected user or assistant)"]

def convertMessagesFrom (serde : Serde) :
    Nat → PendingToolUses → List Json → Conversion (PendingToolUses × List Json)
  | _, pending, [] => .ok (pending, [])
  | index, pending, message :: rest => do
    let (pending, converted) ← convertMessage serde index pending message
    let (pending, out) ← convertMessagesFrom serde (index + 1) pending rest
    return (pending, converted ++ out)

def convertMessages (serde : Serde) (messages : List Json) : Conversion (List Json) := do
  let (pending, out) ← convertMessagesFrom serde 0 .empty messages
  match pending.entries with
  | ⟨id, index⟩ :: _ => invalid [.text s!"messages[{index}]: tool_use id ", .debug id,
      .text " has no tool_result in the following message"]
  | [] => return out

def inputSchema (object : Fields) (index : Nat) : Conversion (Option Json) :=
  match object.get? "input_schema" with
  | none => .ok none
  | some schema =>
    if schema.isObject then .ok (some schema)
    else invalid [.text s!"tools[{index}].input_schema must be an object"]

def convertTool (index : Nat) (tool : Json) : Conversion Json := do
  let object ← orInvalid tool.asObject [.text s!"tools[{index}] must be an object"]
  -- a tool in chat form is passed on
  if object.containsKey "function" then return tool
  let kind := (tool.getStr? "type").getD "custom"
  if kind ≠ "custom" then
    invalid [.text s!"tools[{index}]: tool type ", .debug kind, .text " is not supported"]
  else
    let name ← orInvalid ((tool.getStr? "name").filter (fun name => name ≠ ""))
      [.text s!"tools[{index}].name is required"]
    let function : Fields := Fields.insertSome "description"
      ((tool.getStr? "description").map Json.str) [("name", .str name)]
    let schema ← inputSchema object index
    return .obj
      [("type", .str "function"), ("function", .obj (function.insertSome "parameters" schema))]

def convertToolsFrom : Nat → List Json → Conversion (List Json)
  | _, [] => .ok []
  | index, tool :: rest => do return (← convertTool index tool) ::
      (← convertToolsFrom (index + 1) rest)

def convertTools (tools : List Json) : Conversion (List Json) := convertToolsFrom 0 tools

def convertToolChoice (choice : Json) (thinkingRequested : Bool) : Conversion (Option Json) := do
  if !choice.isObject then invalid [.text "tool_choice must be an object"]
  else
    let kind := choice.getStrD "type"
    if thinkingRequested && kind ≠ "auto" then
      invalid [.text "thinking mode only supports tool_choice type \"auto\""]
    else match kind with
      | "auto" => return some (.str "auto")
      | "any" => return some (.str "required")
      | "none" => return some (.str "none")
      | "tool" =>
        let _ ← orInvalid ((choice.getStr? "name").filter (fun name => name ≠ ""))
          [.text "tool_choice.type=tool requires name"]
        return some (.str "auto")
      | other => invalid [.text "unsupported tool_choice type ", .debug other]

def stopSequences (object : Fields) : Conversion (Option Json) :=
  match object.get? "stop_sequences" with
  | none => .ok none
  | some stop => do
    let sequences ← orInvalid stop.asArray [.text "stop_sequences must be an array"]
    if sequences.all (fun sequence => sequence.asStr.isSome) then
      return if sequences.isEmpty then none else some (.arr sequences)
    else invalid [.text "stop_sequences entries must be strings"]

def requestTools (object : Fields) : Conversion (Option Json) :=
  match (object.get? "tools").bind Json.asArray with
  | some (tool :: rest) => do return some (.arr (← convertTools (tool :: rest)))
  | _ => .ok none

def requestToolChoice (object : Fields) (thinkingRequested : Bool) : Conversion (Option Json) :=
  match object.get? "tool_choice" with
  | some choice => convertToolChoice choice thinkingRequested
  | none => .ok none

def thinkingRequested (object : Fields) : Bool :=
  resolveExposure (object.get? "thinking") = .requested

def chatFields (defaultModel : String) (object : Fields) (maxTokens : UInt64) (stop : Option Json)
    (messages : List Json) (tools toolChoice : Option Json) : Fields :=
  let float (key : String) := ((object.get? key).bind Json.asF64).map (fun f => Json.num (.float f))
  let topK := ((object.get? "top_k").bind Json.asU64).map (fun n => Json.num (.posInt n))
  let chat : Fields := [("model", .str defaultModel), ("max_tokens", .num (.posInt maxTokens))]
  let chat :=
    (chat.insertSome "temperature" (float "temperature")).insertSome "top_p" (float "top_p")
  let chat := (chat.insertSome "top_k" topK).insertSome "stop" stop
  ((chat.insert "messages" (.arr messages)).insertSome "tools" tools).insertSome
    "tool_choice" toolChoice

def nonEmptyMessages (messages : List Json) : Conversion (List Json) :=
  if messages.isEmpty then invalid [.text "messages must not be empty"] else .ok messages

def convertObject (serde : Serde) (defaultModel : String) (object : Fields) :
    Conversion Converted := do
  let maxTokens ← orInvalid (((object.get? "max_tokens").bind Json.asU64).filter (fun v => 0 < v))
    [.text "max_tokens is required and must be a positive integer"]
  let stop ← stopSequences object
  let messages ← orInvalid ((object.get? "messages").bind Json.asArray)
    [.text "messages must be an array"]
  let messages ← nonEmptyMessages messages
  let converted ← convertMessages serde messages
  let tools ← requestTools object
  let toolChoice ← requestToolChoice object (thinkingRequested object)
  return ⟨.obj (chatFields defaultModel object maxTokens stop converted tools toolChoice),
    thinkingRequested object, (object.get? "model").bind Json.asStr⟩

def convertRequest (serde : Serde) (defaultModel : String) (request : Json) :
    Conversion Converted := do
  let _ ← orInvalid request.asObject [.text "request body must be a JSON object"]
  convertObject serde defaultModel ((stripBillingInAnthropicSystem request).asObject.getD [])

section Accepted
variable {serde : Serde} {index : Nat} {pending pending' : PendingToolUses} {object : Fields}
    {message : Json}
  {out : List Json}

theorem convertToolResultPart_kinds {part : Json} {share : List String × List Json}
    (h : convertToolResultPart serde index part = .ok share) :
    ((cleanBlock part).getStr? "type" = some "text" ∧ share =
      ([(cleanBlock part).getStrD "text"], [])) ∨
      ((cleanBlock part).getStr? "type" = some "image" ∧
        ∃ image, convertImageBlock (cleanBlock part) index = .ok image ∧ share = ([], [image])) ∨
      ((cleanBlock part).getStr? "type" = some "document" ∧
        ∃ file, convertDocumentBlock serde (cleanBlock part) index = .ok file ∧
          share = ([], [file])) ∨
      ((cleanBlock part).getStr? "type" = some "tool_reference" ∧ share =
        (["[tool reference: " ++ ((cleanBlock part).getStr? "tool_name").getD "?" ++ "]"], [])) ∨
      ((cleanBlock part).getStr? "type" = some "search_result" ∧ share =
        (((cleanBlock part).getStrD "title" ++ "\n" ++ (cleanBlock part).getStrD "url") ::
          ((cleanBlock part).getStr? "content").toList, [])) ∨
      (cleanBlock part).getStr? "type" = none ∧ share = ([], []) := by
  unfold convertToolResultPart at h
  dsimp only at h
  split at h
  case h_1 hkind =>
    cases h
    exact .inl ⟨hkind, rfl⟩
  case h_2 hkind =>
    obtain ⟨image, himage, h⟩ := bind_eq_ok.mp h
    cases h
    exact .inr (.inl ⟨hkind, image, himage, rfl⟩)
  case h_3 hkind =>
    obtain ⟨file, hfile, h⟩ := bind_eq_ok.mp h
    cases h
    exact .inr (.inr (.inl ⟨hkind, file, hfile, rfl⟩))
  case h_4 hkind =>
    cases h
    exact .inr (.inr (.inr (.inl ⟨hkind, rfl⟩)))
  case h_5 hkind =>
    cases h
    exact .inr (.inr (.inr (.inr (.inl ⟨hkind, rfl⟩))))
  case h_6 => exact absurd h invalid_ne_ok
  case h_7 hkind =>
    cases h
    exact .inr (.inr (.inr (.inr (.inr ⟨hkind, rfl⟩))))

theorem convertUserBlock_kinds {block : Json} {part : UserPart}
    (h : convertUserBlock serde index block = .ok part) :
    ((cleanBlock block).getStrD "type" = "text" ∧ part =
        if (cleanBlock block).getStrD "text" = "" then .nothing
        else .ordinary
          (.obj [("type", .str "text"), ("text", .str ((cleanBlock block).getStrD "text"))])) ∨
      ((cleanBlock block).getStrD "type" = "image" ∧
        ∃ image, convertImageBlock (cleanBlock block) index = .ok image ∧ part = .ordinary image) ∨
      ((cleanBlock block).getStrD "type" = "document" ∧
        ∃ file, convertDocumentBlock serde (cleanBlock block) index = .ok file ∧
          part = .ordinary file) ∨
      (cleanBlock block).getStrD "type" = "tool_result" ∧
        ∃ tool, convertToolResult serde (cleanBlock block) index = .ok tool ∧
          part = .toolMessage tool := by
  unfold convertUserBlock at h
  dsimp only at h
  split at h
  case h_1 hkind =>
    cases h
    exact .inl ⟨hkind, rfl⟩
  case h_2 hkind =>
    obtain ⟨image, himage, h⟩ := bind_eq_ok.mp h
    cases h
    exact .inr (.inl ⟨hkind, image, himage, rfl⟩)
  case h_3 hkind =>
    obtain ⟨file, hfile, h⟩ := bind_eq_ok.mp h
    cases h
    exact .inr (.inr (.inl ⟨hkind, file, hfile, rfl⟩))
  case h_4 hkind =>
    obtain ⟨tool, htool, h⟩ := bind_eq_ok.mp h
    cases h
    exact .inr (.inr (.inr ⟨hkind, tool, htool, rfl⟩))
  all_goals exact absurd h invalid_ne_ok

theorem convertUserMessage_cases (h : convertUserMessage serde object index = .ok out) :
    (∃ text, object.get? "content" = some (.str text) ∧
        out = [.obj [("role", .str "user"), ("content", .str text)]]) ∨
      ∃ blocks parts, object.get? "content" = some (.arr blocks) ∧
        List.Forall₂ (fun block part => convertUserBlock serde index block = .ok part)
          blocks parts ∧
        out = parts.filterMap UserPart.toolMessage? ++ ordinaryMessage
          (parts.filterMap UserPart.ordinary?) := by
  unfold convertUserMessage at h
  cases hcontent : object.get? "content" with
  | none =>
    rw [hcontent] at h
    exact absurd h invalid_ne_ok
  | some content =>
    rw [hcontent, Option.getD_some] at h
    cases content with
    | str text =>
      cases h
      exact .inl ⟨text, rfl, rfl⟩
    | arr blocks =>
      obtain ⟨parts, hparts, h⟩ := bind_eq_ok.mp h
      cases h
      exact .inr ⟨blocks, parts, rfl, mapM_eq_ok.mp hparts, rfl⟩
    | _ => exact absurd h invalid_ne_ok

theorem convertAssistantMessage_cases (h : convertAssistantMessage serde object index = .ok out) :
    (∃ text, object.get? "content" = some (.str text) ∧
        out = [.obj [("role", .str "assistant"), ("content", .str text)]]) ∨
      ∃ blocks parts, object.get? "content" = some (.arr blocks) ∧
        List.Forall₂ (fun block part => convertAssistantBlock serde index block = .ok part)
          blocks parts ∧
        out = [if (Segment.ofParts parts).isEmpty then
            .obj [("role", .str "assistant"), ("content", .null)]
          else (Segment.ofParts parts).intoMessage] := by
  unfold convertAssistantMessage at h
  cases hcontent : object.get? "content" with
  | none =>
    rw [hcontent] at h
    exact absurd h invalid_ne_ok
  | some content =>
    rw [hcontent, Option.getD_some] at h
    cases content with
    | str text =>
      cases h
      exact .inl ⟨text, rfl, rfl⟩
    | arr blocks =>
      obtain ⟨parts, hparts, h⟩ := bind_eq_ok.mp h
      cases h
      refine .inr ⟨blocks, parts, rfl, mapM_eq_ok.mp hparts, ?_⟩
      split_ifs <;> rfl
    | _ => exact absurd h invalid_ne_ok

/-- A message is of one of three kinds, each with its own effect on the calls that are left to
answer. -/
theorem convertMessage_cases
    (h : convertMessage serde index pending message = .ok (pending', out)) :
    ∃ object : Fields, message = .obj object ∧
      (message.getStrD "role" = "user" ∧ convertUserMessage serde object index = .ok out ∧
          settleToolResults index pending out = .ok pending' ∨
        message.getStrD "role" = "assistant" ∧
          convertAssistantMessage serde object index = .ok out ∧
          registerToolCalls index pending out = .ok pending' ∨
        (message.getStrD "role" = "system" ∨ message.getStrD "role" = "developer") ∧
          pending' = pending ∧ out = [systemReminder object]) := by
  unfold convertMessage at h
  obtain ⟨object, hobject, h⟩ := bind_eq_ok.mp h
  refine ⟨object, Json.asObject_eq_some.mp (orInvalid_eq_ok.mp hobject), ?_⟩
  split at h
  case h_1 hrole =>
    obtain ⟨converted, hconverted, h⟩ := bind_eq_ok.mp h
    obtain ⟨settled, hsettled, h⟩ := bind_eq_ok.mp h
    cases h
    exact .inl ⟨hrole, hconverted, hsettled⟩
  case h_2 hrole =>
    obtain ⟨converted, hconverted, h⟩ := bind_eq_ok.mp h
    obtain ⟨registered, hregistered, h⟩ := bind_eq_ok.mp h
    cases h
    exact .inr (.inl ⟨hrole, hconverted, hregistered⟩)
  case h_3 hrole =>
    cases h
    exact .inr (.inr ⟨.inl hrole, rfl, rfl⟩)
  case h_4 hrole =>
    cases h
    exact .inr (.inr ⟨.inr hrole, rfl, rfl⟩)
  case h_5 => exact absurd h invalid_ne_ok

theorem convertMessage_user (h : convertMessage serde index pending message = .ok (pending', out))
    (hrole : message.getStrD "role" = "user") :
    ∃ object : Fields, message = .obj object ∧ convertUserMessage serde object index = .ok out := by
  obtain ⟨object, hobject, ⟨-, hconverted, -⟩ | ⟨hother, -⟩ | ⟨hother, -⟩⟩ := convertMessage_cases h
  · exact ⟨object, hobject, hconverted⟩
  · rw [hrole] at hother
    exact absurd hother (by decide)
  · rw [hrole] at hother
    exact absurd hother (by decide)

theorem convertMessage_assistant
    (h : convertMessage serde index pending message = .ok (pending', out))
    (hrole : message.getStrD "role" = "assistant") :
    ∃ object : Fields, message = .obj object ∧ convertAssistantMessage serde object index =
      .ok out := by
  obtain ⟨object, hobject, ⟨hother, -⟩ | ⟨-, hconverted, -⟩ | ⟨hother, -⟩⟩ := convertMessage_cases h
  · rw [hrole] at hother
    exact absurd hother (by decide)
  · exact ⟨object, hobject, hconverted⟩
  · rw [hrole] at hother
    exact absurd hother (by decide)

end Accepted

end Lobster.Anthropic
