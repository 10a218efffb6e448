import LobsterProxy.Chat.ProtocolError

/-! The Responses request converter: a Responses request object becomes the same
OpenAI Chat Completions body that the Anthropic frontend produces. -/

namespace Lobster.Responses
open Conversion

structure Converted where
  chatBody : Json
  thinkingRequested : Bool
  clientModel : Option String
  promptCacheKey : Option String

def convertPartsFrom {α : Type} (convert : Nat → Json → Conversion α) :
    Nat → List Json → Conversion (List α)
  | _, [] => .ok []
  | partIndex, part :: rest => do
    return (← convert partIndex part) :: (← convertPartsFrom convert (partIndex + 1) rest)

def imageError {α : Type} (index partIndex : Nat) (problem : String) : Conversion α :=
  invalid [.text s!"input[{index}].output[{partIndex}]: {problem}"]

def inputImageUrl (part : Json) (index partIndex : Nat) : Conversion String :=
  match part.get? "image_url" with
  | some (.str url) => .ok url
  | some (.obj fields) => match (Json.obj fields).getStr? "url" with
    | some url => .ok url
    | none => imageError index partIndex "input_image.image_url object requires url"
  | some .null | none => match part.getStr? "url" with
    | some url => .ok url
    | none => imageError index partIndex "input_image requires image_url or url"
  | some _ => imageError index partIndex "input_image.image_url must be a string or object"

def convertInputImage (part : Json) (index partIndex : Nat) : Conversion Json := do
  let url ← inputImageUrl part index partIndex
  if url = "" then imageError index partIndex "input_image url is empty"
  else return .obj [("type", .str "image_url"), ("image_url", .obj [("url", .str url)])]

/-- What one content part contributes: its texts and its images. The content of a
message, unlike a tool output, also takes refusals. -/
def convertContentPart (place : String) (refusals : Bool) (index partIndex : Nat) (part : Json) :
    Conversion (List String × List Json) := do
  let _ ← orInvalid part.asObject [.text s!"input[{index}].{place}[{partIndex}] must be an object"]
  match part.getStr? "type" with
  | some "input_text" | some "output_text" => return ([part.getStrD "text"], [])
  | some "input_image" => return ([], [← convertInputImage part index partIndex])
  | some other =>
    if refusals ∧ other = "refusal" then return ([part.getStrD "refusal"], [])
    else invalid [.text s!"input[{index}].{place}[{partIndex}]: unsupported content type ",
      .debug other]
  | none => invalid [.text s!"input[{index}].{place}[{partIndex}] requires a type"]

def convertContentParts (place : String) (refusals : Bool) (index : Nat) (parts : List Json) :
    Conversion (List String × List Json) := do
  let converted ← convertPartsFrom (convertContentPart place refusals index) 0 parts
  return (converted.flatMap Prod.fst, converted.flatMap Prod.snd)

def messageContent (object : Fields) (index : Nat) : Conversion (String × List Json) :=
  match (object.get? "content").getD .null with
  | .str text => .ok (text, [])
  | .arr parts => do
    let (texts, images) ← convertContentParts "content" true index parts
    return ("\n".intercalate texts, images)
  | .null => .ok ("", [])
  | _ => invalid [.text s!"input[{index}].content must be a string or an array"]

def textPart (text : String) : Json := .obj [("type", .str "text"), ("text", .str text)]

def chatMessage (role : String) (content : Json) : Json :=
  .obj [("role", .str role), ("content", content)]

def roleMessage (index : Nat) (role text : String) (images : List Json) : Conversion Json :=
  match role with
  | "system" | "developer" =>
    if images.isEmpty then .ok (chatMessage "system" (.str text))
    else invalid [.text s!"input[{index}]: system/developer messages cannot carry images"]
  | "user" =>
    .ok (chatMessage "user" (if images.isEmpty then .str text
      else .arr ((if text = "" then [] else [textPart text]) ++ images)))
  | "assistant" =>
    if images.isEmpty then .ok (chatMessage "assistant" (if text = "" then .null else .str text))
    else invalid [.text s!"input[{index}]: assistant messages cannot carry images"]
  | other => invalid [.text s!"input[{index}]: unsupported message role ", .debug other]

def convertMessageItem (object : Fields) (index : Nat) : Conversion Json := do
  let role ← orInvalid ((object.get? "role").bind Json.asStr)
    [.text s!"input[{index}]: message requires a role"]
  let (text, images) ← messageContent object index
  roleMessage index role text images

/-- A string field that must be present and not empty. -/
def requiredStr (object : Fields) (key : String) (message : List Piece) : Conversion String :=
  orInvalid (((object.get? key).bind Json.asStr).filter (fun s => s ≠ "")) message

def convertFunctionCall (object : Fields) (index : Nat) : Conversion Json := do
  let callId ← requiredStr object "call_id"
      [.text s!"input[{index}]: function_call requires call_id"]
  let name ← requiredStr object "name" [.text s!"input[{index}]: function_call requires name"]
  let arguments := ((object.get? "arguments").bind Json.asStr).getD "\x7b\x7d"
  return .obj [("id", .str callId), ("type", .str "function"),
    ("function", .obj [("name", .str name), ("arguments", .str arguments)])]

def outputContent (object : Fields) (index : Nat) : Conversion Json :=
  match object.get? "output" with
  | none | some .null => .ok (.str "")
  | some (.str text) => .ok (.str text)
  | some (.arr parts) => do
    let (texts, images) ← convertContentParts "output" false index parts
    return if images.isEmpty then .str ("\n".intercalate texts)
      else .arr ((if texts.isEmpty then [] else [textPart ("\n".intercalate texts)]) ++ images)
  | some _ =>
    invalid [.text s!"input[{index}]: function_call_output.output must be a string or an array"]

def convertFunctionCallOutput (object : Fields) (index : Nat) : Conversion Json := do
  let callId ← requiredStr object "call_id"
    [.text s!"input[{index}]: function_call_output requires call_id"]
  let content ← outputContent object index
  return .obj [("role", .str "tool"), ("tool_call_id", .str callId), ("content", content)]

def flushCalls (pending : List Json) : List Json :=
  if pending.isEmpty then []
  else [.obj [("role", .str "assistant"), ("content", .null), ("tool_calls", .arr pending)]]

def itemKind (item : Json) : String := (item.getStr? "type").getD "message"

/-- One iteration of the loop over the items: the calls now pending and what is pushed. -/
def convertInputItem (index : Nat) (pending : List Json) (item : Json) :
    Conversion (List Json × List Json) := do
  let object ← orInvalid item.asObject [.text s!"input[{index}] must be an object"]
  match itemKind item with
  | "message" => return (pending, [← convertMessageItem object index])
  | "function_call" => return (pending ++ [← convertFunctionCall object index], [])
  | "function_call_output" =>
    return ([], flushCalls pending ++ [← convertFunctionCallOutput object index])
  | "reasoning" => return ([], flushCalls pending)
  | "web_search_call" =>
    invalid [.text ("input item type \"web_search_call\" is not supported: this proxy does not " ++
      "execute hosted web search")]
  | "item_reference" =>
    invalid
      [.text ("input item type \"item_reference\" is not supported (this proxy is stateless; " ++
      "replay full items)")]
  | other => invalid [.text s!"input[{index}]: unsupported item type ", .debug other]

def convertItemsFrom : Nat → List Json → List Json → Conversion (List Json)
  | _, pending, [] => .ok (flushCalls pending)
  | index, pending, item :: rest => do
    let (pending, pushed) ← convertInputItem index pending item
    let messages ← convertItemsFrom (index + 1) pending rest
    return pushed ++ messages

def convertInputItems (items : List Json) : Conversion (List Json) := do
  let messages ← convertItemsFrom 0 [] items
  if messages.isEmpty then invalid [.text "input must not be empty"] else return messages

def convertInput (object : Fields) : Conversion (List Json) :=
  match object.get? "input" with
  | some (.str text) => .ok [chatMessage "user" (.str text)]
  | some (.arr items) => convertInputItems items
  | some _ => invalid [.text "input must be a string or an array of items"]
  | none => invalid [.text "input is required"]

def toolParameters (object : Fields) (index : Nat) : Conversion (Option Json) :=
  match object.get? "parameters" with
  | none => .ok none
  | some schema =>
    if schema.isObject then .ok (some schema)
    else invalid [.text s!"tools[{index}].parameters must be an object"]

/-- A hosted tool is dropped: it converts to nothing. -/
def convertTool (index : Nat) (tool : Json) : Conversion (Option Json) := do
  let object ← orInvalid tool.asObject [.text s!"tools[{index}] must be an object"]
  match tool.getStr? "type" with
  | some "function" | none =>
    if tool.getStr? "type" = some "function" ∧ object.containsKey "function" then return some tool
    else
      let name ← requiredStr object "name" [.text s!"tools[{index}].name is required"]
      let description := ((object.get? "description").bind Json.asStr).map Json.str
      let schema ← toolParameters object index
      let strict := (object.get? "strict").filter Json.isBoolean
      let function : Fields := Fields.insertSome "description" description [("name", .str name)]
      let function := (function.insertSome "parameters" schema).insertSome "strict" strict
      return some (.obj [("type", .str "function"), ("function", .obj function)])
  | some _ => return none

def convertTools (tools : List Json) : Conversion (List Json) := do
  return (← convertPartsFrom convertTool 0 tools).filterMap id

def convertToolChoice (choice : Json) : Conversion (Option Json) :=
  match choice with
  | .str mode =>
    if mode = "auto" ∨ mode = "none" ∨ mode = "required" then .ok (some (.str mode))
    else invalid [.text "unsupported tool_choice mode ", .debug mode]
  | .obj fields => match (Json.obj fields).getStr? "type" with
    | some "function" => do
      let _ ← requiredStr fields "name" [.text "tool_choice.type=function requires name"]
      return some (.str "auto")
    | some "auto" | some "none" | some "required" | some "allowed_tools" => .ok (some (.str "auto"))
    | some other => invalid [.text "unsupported tool_choice type ", .debug other]
    | none => invalid [.text "tool_choice requires a type"]
  | .null => .ok none
  | _ => invalid [.text "tool_choice must be a string or object"]

def maxOutputTokens (object : Fields) : Conversion (Option Json) :=
  match object.get? "max_output_tokens" with
  | none => .ok none
  | some max => do
    let max ← orInvalid (max.asU64.filter (fun v => 0 < v))
      [.text "max_output_tokens must be a positive integer"]
    return some (.num (.posInt max))

def wireEffort (effort : String) : Conversion String :=
  match effort with
  | "none" | "minimal" => .ok "low"
  | "low" => .ok "low"
  | "medium" | "high" | "xhigh" | "max" => .ok "high"
  | other => invalid [.text "reasoning.effort ", .debug other,
      .text " is not supported (expected one of none, minimal, low, medium, high, xhigh, max)"]

def wireEffort? (reasoning : Json) : Conversion (Option Json) :=
  match reasoning.getStr? "effort" with
  | none => .ok none
  | some effort => do return some (.str (← wireEffort effort))

/-- The wire effort and the exposure flag of a `reasoning` value. -/
def convertReasoning (reasoning : Option Json) : Conversion (Option Json × Bool) :=
  match reasoning with
  | none => .ok (none, false)
  | some reasoning => do
    let _ ← orInvalid reasoning.asObject [.text "reasoning must be an object"]
    let effort ← wireEffort? reasoning
    return (effort, (reasoning.getStr? "summary").any (fun summary => summary ≠ "none") ||
      (reasoning.getStr? "effort").isNone)

def requestTools (object : Fields) : Conversion (Option Json) :=
  match object.get? "tools" with
  | none => .ok none
  | some tools => do
    let tools ← orInvalid tools.asArray [.text "tools must be an array"]
    let converted ← convertTools tools
    return if converted.isEmpty then none else some (.arr converted)

def requestToolChoice (object : Fields) : Conversion (Option Json) :=
  match object.get? "tool_choice" with
  | none => .ok none
  | some choice => convertToolChoice choice

def chatFields (defaultModel : String) (object : Fields)
    (maxTokens promptCacheKey effort : Option Json) (messages : List Json)
    (tools toolChoice : Option Json) : Fields :=
  let float (key : String) := ((object.get? key).bind Json.asF64).map (fun f => Json.num (.float f))
  let chat : Fields := Fields.insertSome "max_tokens" maxTokens [("model", .str defaultModel)]
  let chat :=
    (chat.insertSome "temperature" (float "temperature")).insertSome "top_p" (float "top_p")
  let chat :=
    (chat.insertSome "prompt_cache_key" promptCacheKey).insertSome "reasoning_effort" effort
  ((chat.insert "messages" (.arr messages)).insertSome "tools" tools).insertSome
    "tool_choice" toolChoice

def convertRequest (defaultModel : String) (request : Json) : Conversion Converted := do
  let object ← orInvalid request.asObject [.text "request body must be a JSON object"]
  let maxTokens ← maxOutputTokens object
  let promptCacheKey :=
    ((object.get? "prompt_cache_key").bind Json.asStr).filter (fun key => key ≠ "")
  let (effort, thinkingRequested) ← convertReasoning (object.get? "reasoning")
  let messages ← convertInput object
  let tools ← requestTools object
  let toolChoice ← requestToolChoice object
  return ⟨.obj
    (chatFields defaultModel object maxTokens (promptCacheKey.map Json.str) effort messages
    tools toolChoice), thinkingRequested, (object.get? "model").bind Json.asStr, promptCacheKey⟩

end Lobster.Responses
