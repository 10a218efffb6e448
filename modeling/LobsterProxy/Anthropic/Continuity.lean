import LobsterProxy.Anthropic.History
import LobsterProxy.Anthropic.Pump
import LobsterProxy.Server.Shadowing

/-! The reasoning of a turn with tool calls in the next request of its session: the answer
comes back with the results of its calls, and goes upstream with what it had thought. -/

namespace Lobster.Anthropic
open Chat Conversion Deepseek Emitter Server Shadow ReasoningShadowStore

section Turn
variable {serde : Serde} {expose : Bool} {a : Accumulated}

theorem callIds_entries (serde : Serde) (calls : List ToolCallAccum) :
    callIds (calls.map (ToolCallAccum.entry serde)) = calls.map ToolCallAccum.id := by
  unfold callIds
  rw [List.filterMap_map]
  exact congrFun (List.filterMap_eq_map (f := ToolCallAccum.id)) calls

theorem toolCallIds_recalled (reasoning : String) (message : Json) :
    toolCallIds (recalled reasoning message) = toolCallIds message := by
  unfold toolCallIds recalled
  split_ifs
  · rfl
  · rw [get?_setReasoning_ne message reasoning (by decide)]

theorem reasoning_recalled (hthought : a.reasoning ≠ "") :
    (recalled a.reasoning (a.segment serde expose).intoMessage).get? "reasoning_content" =
      some (.str a.reasoning) := by
  have hown := reasoning_intoMessage (a.segment serde expose)
  unfold recalled
  cases expose with
  | true =>
    have hbrought : (a.segment serde true).intoMessage.get? "reasoning_content" =
        some (.str a.reasoning) := by
      rw [hown]
      simp [Accumulated.segment, hthought]
    rw [hbrought]
    exact hbrought
  | false =>
    have hnone : (a.segment serde false).intoMessage.get? "reasoning_content" = none := by
      rw [hown]
      simp [Accumulated.segment]
    rw [hnone, if_neg (by simp)]
    exact Fields.get?_insert_self _ _ _

theorem finish_update (error : Option String) (c : StreamConverter) :
    (StreamPump.finish error c).2.2 =
    shadowUpdate c.accumulated.finishReason (c.accumulated.toolCalls.map ToolCallAccum.id)
      c.accumulated.reasoning := by
  have hkept := (accumulated_finish c).1
  have hids : (StreamConverter.finish c).1.tools.values.map ToolSlot.id =
      (StreamConverter.finish c).1.accumulated.toolCalls.map ToolCallAccum.id := by
    unfold StreamConverter.accumulated
    rw [List.map_map]
    rfl
  show shadowUpdate (StreamConverter.finish c).1.accumulated.finishReason
    ((StreamConverter.finish c).1.tools.values.map ToolSlot.id)
    (StreamConverter.finish c).1.accumulated.reasoning = _
  rw [hids, hkept]

theorem finish_stores {c : StreamConverter} (error : Option String)
    (h : c.accumulated.finishReason = some "tool_calls") :
    (StreamPump.finish error c).2.2 =
      some (.store (c.accumulated.toolCalls.map ToolCallAccum.id) c.accumulated.reasoning) := by
  rw [finish_update, h]
  rfl

end Turn

/-- A turn that ends in tool calls, with reasoning that is small enough to be kept. -/
structure ToolTurn (maxEntryBytes : Nat) (a : Accumulated) : Prop where
  finish : a.finishReason = some "tool_calls"
  calls : a.toolCalls ≠ []
  named : ∀ call ∈ a.toolCalls, call.Named
  distinct : (a.toolCalls.map ToolCallAccum.id).Nodup
  thought : a.reasoning ≠ ""
  fits : a.reasoning.utf8ByteSize ≤ maxEntryBytes

/-- The last turn of the body has these calls and this reasoning; their results follow it. -/
def EndsWithTurn (ids : List String) (reasoning : String) (body : Fields) : Prop :=
  ∃ history message tools, body.get? "messages" = some (.arr (history ++ message :: tools)) ∧
    message.getStr? "role" = some "assistant" ∧ toolCallIds message = ids ∧
    message.get? "reasoning_content" = some (.str reasoning) ∧
    ∀ m ∈ tools, m.getStr? "role" = some "tool"

theorem retains_turn (hash : String → Fin (2 ^ 64)) {c : StreamConverter}
    {store : ReasoningShadowStore}
    {session : String} {operations : List Operation} (error : Option String) (now checked : Nat)
    (hturn : ToolTurn store.limits.maxEntryBytes c.accumulated)
    (hothers : ∀ operation ∈ operations, operation.session ≠ session)
    (hkept : ((Operation.performAll hash operations (applyUpdate hash now checked session
      (StreamPump.finish error c).2.2 store)).session? session).isSome = true) :
    Retains hash store.limits session (c.accumulated.toolCalls.map ToolCallAccum.id)
      ⟨c.accumulated.reasoning, now⟩ (Operation.performAll hash operations
        (applyUpdate hash now checked session (StreamPump.finish error c).2.2 store)) := by
  have hids : c.accumulated.toolCalls.map ToolCallAccum.id ≠ [] := by simpa using hturn.calls
  rw [finish_stores error hturn.finish] at hkept ⊢
  exact retains_store hash hturn.thought hids hturn.fits
    (Operation.spares_performAll hash hothers _) hkept

/-- A body converted from a history that ends with the turn goes out with its reasoning: it
is restored if it has to be, and not stripped. -/
theorem endsWithTurn_prepareBody {serde : Serde} {defaultModel : String}
    {hash : String → Fin (2 ^ 64)}
    {c : StreamConverter} {limits : ShadowLimits} {session : String} {now : Nat} {clock : Nat → Nat}
    {store : ReasoningShadowStore} {request : Json} {converted : Converted} {earlier : List Json}
    {turn results : Json}
    (hcalls : c.accumulated.toolCalls ≠ []) (hnamed : ∀ call ∈ c.accumulated.toolCalls, call.Named)
    (hthought : c.accumulated.reasoning ≠ "")
    (hretains : Retains hash limits session (c.accumulated.toolCalls.map ToolCallAccum.id)
      ⟨c.accumulated.reasoning, now⟩ store)
    (hfresh : ∀ index, clock index - now ≤ limits.ttl)
    (haccepted : convertRequest serde defaultModel request = .ok converted)
    (hhistory : request.get? "messages" = some (.arr (earlier ++ [turn, results])))
    (hhuman : ∃ m ∈ earlier, isHumanMessage m = true)
    (hreplay : ReplayOf (c.nonstreamResponse serde) turn)
      (hresults : isResultsMessage results = true) :
    EndsWithTurn (c.accumulated.toolCalls.map ToolCallAccum.id) c.accumulated.reasoning
      (prepareBody hash serde clock (some session) (converted.chatBody.asObject.getD [])
        store).1 := by
  obtain ⟨messages, conversation, hmessages, hconversation, hbody⟩ :=
    convertRequest_messages haccepted
  rw [hhistory] at hmessages
  cases hmessages
  obtain ⟨between, before, tools, hearlier, rfl, htools⟩ :=
    convertMessages_replay hconversation hreplay hnamed hresults
  obtain ⟨body, hobject⟩ := Json.obj_of_get? hbody
  rw [hobject, Json.get?_obj] at hbody
  have hids : c.accumulated.toolCalls.map ToolCallAccum.id ≠ [] := by simpa using hcalls
  rw [← callIds_entries serde] at hretains hids
  have hentries := toolCalls_intoMessage (c.accumulated.segment serde c.exposeThinking)
  rw [if_neg (by simpa [Accumulated.segment] using hcalls)] at hentries
  obtain ⟨history, -, hwire⟩ := prepareBody_turn serde hbody (user_of_history hearlier hhuman)
    (decide_eq_true (role_intoMessage _)) hentries hids htools hretains
    fun index => decide_eq_false (Nat.not_lt.mpr (hfresh index))
  refine ⟨history, recalled c.accumulated.reasoning
    (c.accumulated.segment serde c.exposeThinking).intoMessage,
    tools, ?_, (role_recalled _ _).trans (role_intoMessage _), ?_,
    reasoning_recalled hthought, htools⟩
  · rw [hobject]
    exact hwire
  · rw [toolCallIds_recalled, toolCallIds_segment]

namespace StreamConverter

/-- The reasoning of a turn with tool calls goes upstream again in the next request of its
session, whatever the other sessions have done with the store in between; and that request is
accepted if it was without the turn and answers each of the calls. -/
theorem turn_keeps_reasoning (serde : Serde) (defaultModel : String)
    (hash : String → Fin (2 ^ 64)) (hex : String) (expose : Bool) (chunks : List Json)
    (error : Option String) (store : ReasoningShadowStore) (session : String) (now checked : Nat)
    (operations : List Operation) (clock : Nat → Nat) (request : Fields) (earlier : List Json)
    (turn results : Json) :
    let c := (forEach feedChunk chunks (new hex expose)).1
    let finished := StreamPump.finish error c
    let ids := c.accumulated.toolCalls.map ToolCallAccum.id
    let later := Operation.performAll hash operations
      (applyUpdate hash now checked session finished.2.2 store)
    ToolTurn store.limits.maxEntryBytes c.accumulated →
    (∀ operation ∈ operations, operation.session ≠ session) →
    (later.session? session).isSome = true →
    (∀ index, clock index - now ≤ store.limits.ttl) →
    request.get? "messages" = some (.arr (earlier ++ [turn, results])) →
    (∃ m ∈ earlier, isHumanMessage m = true) →
    ReplayOf (finished.1.nonstreamResponse serde) turn →
    isResultsMessage results = true →
    (∀ converted, convertRequest serde defaultModel (.obj request) = .ok converted →
      EndsWithTurn ids c.accumulated.reasoning
        (prepareBody hash serde clock (some session) (converted.chatBody.asObject.getD [])
          later).1) ∧
    (∀ before,
      convertRequest serde defaultModel (.obj (request.insert "messages" (.arr earlier))) =
        .ok before →
      Answers serde (earlier.length + 1) ids results →
      ∃ converted, convertRequest serde defaultModel (.obj request) = .ok converted) := by
  intro c finished ids later hturn hothers hkept hfresh hhistory hhuman hreplay hresults
  have hretains := retains_turn hash error now checked hturn hothers hkept
  -- closing the stream has changed nothing of the answer
  have hsame : finished.1.accumulated = c.accumulated := (accumulated_finish c).1
  have hids : ids = finished.1.accumulated.toolCalls.map ToolCallAccum.id := by rw [hsame]
  rw [← hsame] at hturn hretains
  constructor
  · intro converted haccepted
    rw [hids, ← hsame]
    exact endsWithTurn_prepareBody hturn.calls hturn.named hturn.thought hretains hfresh haccepted
      hhistory hhuman hreplay hresults
  · intro before haccepted hanswers
    obtain ⟨messages, conversation, hmessages, hconversation, -⟩ :=
      convertRequest_messages haccepted
    rw [Json.get?_obj, Fields.get?_insert_self] at hmessages
    cases hmessages
    rw [hids] at hanswers
    obtain ⟨out, hout⟩ :=
      convertMessages_continues hconversation hreplay hturn.named hturn.distinct hanswers
    exact convertRequest_continues haccepted hhistory (by simp) hout

def thoughtfulCall : List Json :=
  [.obj
    [("choices", .arr [.obj [("delta", .obj [("reasoning_content", .str "hm"), ("tool_calls", .arr
    [.obj [("index", .ofNat 0), ("id", .str "t1"), ("function", .obj [("name", .str "ls"),
      ("arguments", .str "\x7b\x7d")])]])]), ("finish_reason", .str "tool_calls")]])]]

def thoughtfulRequest : Fields :=
  [("max_tokens", .ofNat 1), ("messages", .arr [waitMessage, listFilesTurn, filesResult])]

def thoughtfulBody : Fields :=
  [("model", .str "m"), ("max_tokens", .ofNat 1),
  ("messages", .arr [waitMessage, listFilesCall, filesTool])]

def idLength (id : String) : Fin (2 ^ 64) := Fin.ofNat (2 ^ 64) id.length

def laterStore : ReasoningShadowStore :=
  Operation.performAll idLength [.store 3 3 "b" ["t1"] "so"]
    (applyUpdate idLength 1 1 "a" (some (.store ["t1"] "hm")) (.new ⟨256, 1024, 1024, 600⟩))

theorem turn_keeps_reasoning_listFiles :
    (∃ converted, convertRequest .emptyObject "m" (.obj thoughtfulRequest) = .ok converted) ∧
      EndsWithTurn ["t1"] "hm"
        (prepareBody idLength .emptyObject (fun _ => 5)
          (some "a") thoughtfulBody laterStore).1 := by
  have hcalls : (forEach feedChunk thoughtfulCall (new "0" false)).1.accumulated.toolCalls =
      [⟨"t1", "ls", "\x7b\x7d"⟩] := by decide +kernel
  have hreasoning : (forEach feedChunk thoughtfulCall (new "0" false)).1.accumulated.reasoning =
      "hm" := by
    decide +kernel
  have hupdate : (StreamPump.finish none (forEach feedChunk thoughtfulCall (new "0" false)).1).2.2 =
      some (.store ["t1"] "hm") := by decide +kernel
  have hturn : ToolTurn 1024 (forEach feedChunk thoughtfulCall (new "0" false)).1.accumulated := by
    constructor
    · decide +kernel
    · rw [hcalls]
      exact List.cons_ne_nil _ _
    · rw [hcalls]
      intro call hcall
      rw [List.mem_singleton.mp hcall]
      exact ⟨by decide, by decide⟩
    · rw [hcalls]
      exact List.nodup_singleton _
    · rw [hreasoning]
      decide
    · rw [hreasoning]
      decide
  have hkeeps := turn_keeps_reasoning .emptyObject "m" idLength "0" false thoughtfulCall none
    (.new ⟨256, 1024, 1024, 600⟩) "a" 1 1 [.store 3 3 "b" ["t1"] "so"]
      (fun _ => 5) thoughtfulRequest
    [waitMessage] listFilesTurn filesResult
  dsimp only at hkeeps
  rw [hcalls, hreasoning, hupdate] at hkeeps
  obtain ⟨hends, haccepted⟩ := hkeeps hturn (by decide) (by decide +kernel) (fun _ => by decide) rfl
    ⟨waitMessage, List.mem_singleton_self _, by decide⟩ ⟨rfl, by decide +kernel⟩ (by decide)
  refine ⟨haccepted
    ⟨.obj [("model", .str "m"), ("max_tokens", .ofNat 1), ("messages", .arr [waitMessage])],
    false, none⟩ rfl ?_, hends ⟨.obj thoughtfulBody, false, none⟩ rfl⟩
  refine ⟨rfl, _, [filesTool], rfl, .cons ⟨rfl, rfl⟩ .nil, ?_⟩
  decide

end StreamConverter
end Lobster.Anthropic
