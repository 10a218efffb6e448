import LobsterProxy.Base.Json

/-! What both stream converters read of an OpenAI Chat Completions chunk. -/

namespace Lobster.Chat

structure ToolCallDelta where
  index : Int
  id : Option String
  name : Option String
  arguments : Option String
  deriving DecidableEq, Repr

inductive Delta where
  | finish (reason : String)
  | reasoning (text : String)
  | content (text : String)
  | toolCalls (calls : List ToolCallDelta)
  deriving DecidableEq, Repr

def readToolCall (toolCall : Json) : ToolCallDelta where
  index := ((toolCall.get? "index").bind Json.asI64).getD 0
  id := toolCall.getStr? "id"
  name := (toolCall.pointer ["function", "name"]).bind Json.asStr
  arguments := (toolCall.pointer ["function", "arguments"]).bind Json.asStr

def Delta.finish? : Delta → Option String
  | finish reason => some reason
  | _ => none

def lastFinish (deltas : List Delta) : Option String := (deltas.filterMap Delta.finish?).getLast?

theorem lastFinish_snoc (deltas : List Delta) (delta : Delta) :
    lastFinish (deltas ++ [delta]) = delta.finish?.or (lastFinish deltas) := by
  unfold lastFinish
  rw [List.filterMap_append]
  cases h : delta.finish? with
  | none => simp [h]
  | some reason => simp [h]

def nonEmptyStr (v : Json) (key : String) : List String :=
  ((v.getStr? key).filter (fun s => s ≠ "")).toList

def choiceDeltas (choice : Json) : List Delta :=
  let finish := (choice.getStr? "finish_reason").toList.map Delta.finish
  match choice.get? "delta" with
  | none => finish
  | some delta =>
    finish ++ (nonEmptyStr delta "reasoning_content").map Delta.reasoning ++
      (nonEmptyStr delta "content").map Delta.content ++
      ((delta.get? "tool_calls").bind Json.asArray).toList.map
        (fun toolCalls => Delta.toolCalls (toolCalls.map readToolCall))

def chunkDeltas (chunk : Json) : List Delta :=
  (((chunk.get? "choices").bind Json.asArray).getD []).flatMap choiceDeltas

def chunkModel (chunk : Json) : Option String := chunk.getStr? "model"

def chunkUsage (chunk : Json) : Option Json := (chunk.get? "usage").filter Json.isObject

def usageCount (usage : Json) (path : List String) : UInt64 :=
  ((usage.pointer path).bind Json.asU64).getD 0

def keepOr (new : Option String) (old : String) : String := (new.filter (fun s => s ≠ "")).getD old

end Lobster.Chat
