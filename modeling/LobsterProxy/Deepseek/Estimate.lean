import LobsterProxy.Deepseek.Policy

/-! The token estimate of a request. What it sums over lies in memory, so that the sums stay
below the range of their 64 bits. -/

namespace Lobster.Deepseek

def isAscii (c : Char) : Bool := c.toNat < 128

def estimateStringTokens (text : String) : Nat :=
  (text.toList.countP isAscii + 3) / 4 + text.toList.countP (fun c => !isAscii c) * 2

def textTokens (text : Option String) : Nat := (text.map estimateStringTokens).getD 0

/-- A content that is a text, or has texts in its blocks. -/
def contentTokens (content : Option Json) : Nat :=
  match content with
  | some (.str text) => estimateStringTokens text
  | some (.arr blocks) =>
    ((blocks.filterMap fun block => block.getStr? "text").map estimateStringTokens).sum
  | _ => 0

section Request
variable (serde : Serde)

def estimateBlockTokens (block : Json) : Nat :=
  match block.getStrD "type" with
  | "text" => textTokens (block.getStr? "text")
  | "thinking" | "redacted_thinking" => textTokens (block.getStr? "thinking") + 8
  | "tool_use" =>
    8 + textTokens (block.getStr? "name") +
      textTokens ((block.get? "input").map (canonicalJsonString serde))
  | "tool_result" => 8 + contentTokens (block.get? "content")
  | "image" | "document" => 1024
  | _ => 16

def estimateMessageTokens (message : Json) : Nat :=
  match message.get? "content" with
  | some (.str text) => estimateStringTokens text
  | some (.arr blocks) => (blocks.map (estimateBlockTokens serde)).sum
  | _ => 0

def estimateToolTokens (tool : Json) : Nat :=
  8 + textTokens (tool.getStr? "name") + textTokens (tool.getStr? "description") +
    textTokens ((tool.get? "input_schema").map (canonicalJsonString serde)) / 2

def estimateToolsTokens (request : Json) : Nat :=
  ((((request.get? "tools").bind Json.asArray).getD []).map (estimateToolTokens serde)).sum

def budgetTokens (request : Json) : Nat :=
  (((request.pointer ["thinking", "budget_tokens"]).bind Json.asU64).map
    fun budget => budget.toNat / 4).getD 0

def estimateAnthropicTokens (request : Json) : Nat :=
  16 + contentTokens (request.get? "system") +
    ((((request.get? "messages").bind Json.asArray).getD []).map fun message =>
      8 + estimateMessageTokens serde message).sum +
    estimateToolsTokens serde request + budgetTokens request

end Request

end Lobster.Deepseek
