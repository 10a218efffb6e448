import LobsterProxy.Anthropic.Replay
import LobsterProxy.Anthropic.SystemText
import LobsterProxy.Deepseek.Epoch

/-! Histories that end with an answer sent back and the results of its tool calls: what an
accepted one becomes, and that it is accepted when the history before was. -/

namespace Lobster.Anthropic
open Conversion Deepseek

/-- A user message that says something besides tool results. -/
def isHumanMessage (message : Json) : Bool :=
  message.getStrD "role" = "user" &&
    match message.get? "content" with
    | some (.str _) => true
    | some (.arr blocks) => blocks.any isHumanContent
    | _ => false

def isResultsMessage (message : Json) : Bool :=
  message.getStrD "role" = "user" &&
    match message.get? "content" with
    | some (.arr blocks) => blocks.all fun block => (toolResultId? block).isSome
    | _ => false

/-- The assistant message that sends a response back. -/
structure ReplayOf (response message : Json) : Prop where
  role : message.getStrD "role" = "assistant"
  content : message.get? "content" = response.get? "content"

section History
variable {serde : Serde} {index : Nat} {pending pending' : PendingToolUses} {message : Json}
  {out : List Json}

theorem ordinaryMessage_user {ordinary : List Json} (h : ordinary ≠ []) :
    ∃ m ∈ ordinaryMessage ordinary, isUserMessage m = true := by
  unfold ordinaryMessage
  split
  · exact absurd rfl h
  · split_ifs
    · exact ⟨_, List.mem_singleton_self _, rfl⟩
    · exact ⟨_, List.mem_singleton_self _, rfl⟩
  · exact ⟨_, List.mem_singleton_self _, rfl⟩

theorem user_of_human (h : convertMessage serde index pending message = .ok (pending', out))
    (hhuman : isHumanMessage message = true) : ∃ m ∈ out, isUserMessage m = true := by
  unfold isHumanMessage at hhuman
  obtain ⟨hrole, hsays⟩ := Bool.and_eq_true_iff.mp hhuman
  obtain ⟨object, rfl, hconverted⟩ := convertMessage_user h (of_decide_eq_true hrole)
  rw [Json.get?_obj] at hsays
  rcases convertUserMessage_cases hconverted with ⟨text, -, rfl⟩ |
    ⟨blocks, parts, hcontent, hparts, rfl⟩
  · exact ⟨_, List.mem_singleton_self _, rfl⟩
  · rw [hcontent] at hsays
    have hordinary : parts.filterMap UserPart.ordinary? ≠ [] := by
      intro hnil
      have hnone := (userParts_steps hparts).2.mp hnil
      exact absurd hsays (by simp [hnone])
    obtain ⟨m, hm, huser⟩ := ordinaryMessage_user hordinary
    exact ⟨m, List.mem_append_right _ hm, huser⟩

theorem of_chatStep_answer {id : String} (h : chatStep message = .answer id) :
    message.getStr? "role" = some "tool" ∧ message.getStrD "tool_call_id" = id := by
  unfold chatStep at h
  split_ifs at h with htool
  cases h
  exact ⟨of_decide_eq_true htool, rfl⟩

theorem isHumanContent_of_toolResult {block : Json} (h : (toolResultId? block).isSome = true) :
    isHumanContent block = false := by
  unfold toolResultId? at h
  split_ifs at h with hkind
  · unfold isHumanContent
    rw [hkind]
    rfl
  · cases h

theorem tools_of_results (h : convertMessage serde index pending message = .ok (pending', out))
    (hresults : isResultsMessage message = true) : ∀ m ∈ out, m.getStr? "role" = some "tool" := by
  unfold isResultsMessage at hresults
  obtain ⟨hrole, hall⟩ := Bool.and_eq_true_iff.mp hresults
  have hsteps := (convertMessage_settles h).1
  intro m hm
  have hstep : chatStep m ∈ messageSteps message := by
    rw [← hsteps]
    exact List.mem_map_of_mem hm
  unfold messageSteps at hstep
  rw [of_decide_eq_true hrole] at hstep
  cases hcontent : message.get? "content" with
  | none =>
    rw [hcontent] at hall
    cases hall
  | some content =>
    rw [hcontent] at hall hstep
    cases content with
    | arr blocks =>
      have hnone : blocks.any isHumanContent = false := by
        rw [List.any_eq_false]
        intro block hblock
        rw [isHumanContent_of_toolResult (List.all_eq_true.mp hall block hblock)]
        exact Bool.false_ne_true
      have hstep : chatStep m ∈ (blocks.filterMap toolResultId?).map .answer ++
        if blocks.any isHumanContent then [.turn []] else [] := hstep
      rw [hnone, if_neg Bool.false_ne_true, List.append_nil] at hstep
      obtain ⟨id, -, hanswer⟩ := List.mem_map.mp hstep
      exact (of_chatStep_answer hanswer.symm).1
    | _ => cases hall

theorem convertMessagesFrom_append {messages more : List Json} :
    convertMessagesFrom serde index pending (messages ++ more) = .ok (pending', out) ↔
      ∃ between before after, convertMessagesFrom serde index pending messages =
        .ok (between, before) ∧
        convertMessagesFrom serde (index + messages.length) between more = .ok (pending', after) ∧
        out = before ++ after := by
  induction messages generalizing index pending out with
  | nil =>
    constructor
    · exact fun h => ⟨pending, [], out, rfl, h, rfl⟩
    · rintro ⟨between, before, after, hbefore, hafter, rfl⟩
      cases hbefore
      exact hafter
  | cons message messages ih =>
    have hindex : index + (message :: messages).length = index + 1 + messages.length := by
      rw [List.length_cons, Nat.add_comm messages.length, Nat.add_assoc]
    rw [List.cons_append, convertMessagesFrom, convertMessagesFrom, hindex]
    constructor
    · intro h
      obtain ⟨⟨next, converted⟩, hmessage, h⟩ := bind_eq_ok.mp h
      obtain ⟨⟨last, rest⟩, hrest, h⟩ := bind_eq_ok.mp h
      cases h
      obtain ⟨between, before, after, hbefore, hafter, rfl⟩ := ih.mp hrest
      refine ⟨between, converted ++ before, after, ?_, hafter, (List.append_assoc _ _ _).symm⟩
      exact bind_eq_ok.mpr ⟨_, hmessage, bind_eq_ok.mpr ⟨_, hbefore, rfl⟩⟩
    · rintro ⟨between, before, after, hbefore, hafter, rfl⟩
      obtain ⟨⟨next, converted⟩, hmessage, hbefore⟩ := bind_eq_ok.mp hbefore
      obtain ⟨⟨last, rest⟩, hrest, hbefore⟩ := bind_eq_ok.mp hbefore
      cases hbefore
      refine bind_eq_ok.mpr
        ⟨_, hmessage, bind_eq_ok.mpr ⟨_, ih.mpr ⟨_, _, _, hrest, hafter, rfl⟩, ?_⟩⟩
      rw [List.append_assoc]
      rfl

theorem user_of_history {messages : List Json}
    (h : convertMessagesFrom serde index pending messages = .ok (pending', out))
    (hhuman : ∃ m ∈ messages, isHumanMessage m = true) : ∃ m ∈ out, isUserMessage m = true := by
  obtain ⟨human, hmem, hhuman⟩ := hhuman
  obtain ⟨before, after, rfl⟩ := List.append_of_mem hmem
  obtain ⟨between, converted, rest, -, hrest, rfl⟩ := convertMessagesFrom_append.mp h
  rw [convertMessagesFrom] at hrest
  obtain ⟨⟨next, said⟩, hmessage, hrest⟩ := bind_eq_ok.mp hrest
  obtain ⟨⟨last, more⟩, -, hrest⟩ := bind_eq_ok.mp hrest
  cases hrest
  obtain ⟨m, hm, huser⟩ := user_of_human hmessage hhuman
  exact ⟨m, List.mem_append_right _ (List.mem_append_left _ hm), huser⟩

theorem convertMessages_eq_ok {messages : List Json} : convertMessages serde messages = .ok out ↔
    convertMessagesFrom serde 0 .empty messages = .ok (.empty, out) := by
  unfold convertMessages
  constructor
  · intro h
    obtain ⟨⟨settled, converted⟩, hfrom, h⟩ := bind_eq_ok.mp h
    dsimp only at h
    split at h
    · exact absurd h invalid_ne_ok
    · next hnone =>
      cases h
      rw [hfrom, SortedMap.ext (n := .empty) hnone]
  · intro h
    exact bind_eq_ok.mpr ⟨_, h, rfl⟩

/-- An accepted history that ends with an answer sent back and the results of its calls. -/
theorem convertMessages_replay {c : StreamConverter} {earlier : List Json} {turn results : Json}
    (h : convertMessages serde (earlier ++ [turn, results]) = .ok out)
    (hreplay : ReplayOf (c.nonstreamResponse serde) turn)
    (hnamed : ∀ call ∈ c.accumulated.toolCalls, call.Named)
      (hresults : isResultsMessage results = true) :
    ∃ between before tools, convertMessagesFrom serde 0 .empty earlier = .ok (between, before) ∧
      out = before ++ (c.accumulated.segment serde c.exposeThinking).intoMessage :: tools ∧
      ∀ m ∈ tools, m.getStr? "role" = some "tool" := by
  obtain ⟨between, before, after, hearlier, hlast, rfl⟩ :=
    convertMessagesFrom_append.mp (convertMessages_eq_ok.mp h)
  rw [convertMessagesFrom] at hlast
  obtain ⟨⟨opened, answer⟩, hturn, hlast⟩ := bind_eq_ok.mp hlast
  obtain ⟨⟨closed, rest⟩, hrest, hlast⟩ := bind_eq_ok.mp hlast
  cases hlast
  rw [convertMessagesFrom] at hrest
  obtain ⟨⟨answered, tools⟩, hmessage, hrest⟩ := bind_eq_ok.mp hrest
  cases hrest
  have hanswer : answer = [(c.accumulated.segment serde c.exposeThinking).intoMessage] := by
    obtain ⟨object, rfl, hsaid⟩ := convertMessage_assistant hturn hreplay.role
    have hcontent : object.get? "content" = (c.nonstreamResponse serde).get? "content" :=
      hreplay.content
    rw [convertAssistantMessage_answer hcontent hnamed] at hsaid
    exact (Except.ok.inj hsaid).symm
  refine ⟨between, before, tools, hearlier, ?_, tools_of_results hmessage hresults⟩
  rw [hanswer, List.append_nil]
  rfl

end History

/-- One well-formed tool result for each of the calls, and nothing else. -/
structure Answers (serde : Serde) (index : Nat) (ids : List String) (message : Json) : Prop where
  role : message.getStrD "role" = "user"
  results : ∃ blocks tools, message.get? "content" = some (.arr blocks) ∧
    List.Forall₂ (fun block tool => (cleanBlock block).getStrD "type" = "tool_result" ∧
      convertToolResult serde (cleanBlock block) index = .ok tool) blocks tools ∧
    (blocks.filterMap toolResultId?).Perm ids

section Acceptance
variable {serde : Serde} {index : Nat} {pending : PendingToolUses}

theorem registerIds_ok (index : Nat) {calls : List Json}
    (h : (pending.keys ++ calls.map fun call => call.getStrD "id").Nodup) :
    ∃ registered, registerIds index pending calls = .ok registered := by
  induction calls generalizing pending with
  | nil => exact ⟨pending, rfl⟩
  | cons call calls ih =>
    have hfresh : pending.contains (call.getStrD "id") = false := by
      rw [Bool.eq_false_iff]
      intro hknown
      exact (List.disjoint_of_nodup_append h) (SortedMap.mem_keys.mpr hknown) List.mem_cons_self
    have hinsert := pending.keys_insert_perm (call.getStrD "id") index hfresh
    rw [registerIds, hfresh, if_neg Bool.false_ne_true]
    refine ih ((List.Perm.nodup_iff ?_).mpr h)
    exact (hinsert.append_right _).trans List.perm_middle.symm

theorem settleToolResults_ok {tools : List Json}
    (htools : ∀ m ∈ tools, m.getStr? "role" = some "tool")
    (h : (tools.map fun tool => tool.getStrD "tool_call_id").Perm pending.keys) :
    settleToolResults index pending tools = .ok .empty := by
  induction tools generalizing pending with
  | nil =>
    have hnone : pending = .empty := SortedMap.ext (List.map_eq_nil_iff.mp (List.nil_perm.mp h))
    rw [hnone]
    rfl
  | cons tool tools ih =>
    obtain ⟨htool, hrest⟩ := List.forall_mem_cons.mp htools
    have hmem : tool.getStrD "tool_call_id" ∈ pending.keys := h.subset List.mem_cons_self
    rw [settleToolResults, if_pos htool, if_pos (SortedMap.mem_keys.mp hmem)]
    refine ih hrest ?_
    rw [SortedMap.keys_remove]
    exact (List.cons_perm_iff_perm_erase.mp h).2

theorem convertUserBlock_toolResult {block tool : Json}
    (hkind : (cleanBlock block).getStrD "type" = "tool_result")
    (htool : convertToolResult serde (cleanBlock block) index = .ok tool) :
    convertUserBlock serde index block = .ok (.toolMessage tool) := by
  unfold convertUserBlock
  simp only [hkind]
  exact bind_eq_ok.mpr ⟨tool, htool, rfl⟩

theorem convertUserMessage_answers {ids : List String} {message : Json}
    (h : Answers serde index ids message) : ∃ fields tools, message = .obj fields ∧
      convertUserMessage serde fields index = .ok tools ∧
      (∀ m ∈ tools, m.getStr? "role" = some "tool") ∧
      (tools.map fun tool => tool.getStrD "tool_call_id").Perm ids := by
  obtain ⟨blocks, tools, hcontent, hblocks, hids⟩ := h.results
  obtain ⟨fields, rfl⟩ := Json.obj_of_get? hcontent
  have hparts :
      List.Forall₂ (fun block part => convertUserBlock serde index block = .ok part) blocks
      (tools.map .toolMessage) := by
    rw [List.forall₂_map_right_iff]
    exact hblocks.imp fun block tool h => convertUserBlock_toolResult h.1 h.2
  have htools : (tools.map UserPart.toolMessage).filterMap UserPart.toolMessage? = tools := by
    rw [List.filterMap_map]
    exact List.filterMap_some
  have hordinary : (tools.map UserPart.toolMessage).filterMap UserPart.ordinary? = [] := by
    rw [List.filterMap_map]
    exact List.filterMap_eq_nil_iff.mpr fun _ _ => rfl
  have hsteps : tools.map chatStep = (blocks.filterMap toolResultId?).map .answer := by
    have hown := (userParts_steps hparts).1
    rw [htools] at hown
    exact hown
  have hanswers : ∀ m ∈ tools, m.getStr? "role" = some "tool" ∧
      chatStep m = .answer (m.getStrD "tool_call_id") := by
    intro m hm
    have hstep := List.mem_map_of_mem (f := chatStep) hm
    rw [hsteps] at hstep
    obtain ⟨id, -, hanswer⟩ := List.mem_map.mp hstep
    obtain ⟨hrole, rfl⟩ := of_chatStep_answer hanswer.symm
    exact ⟨hrole, hanswer.symm⟩
  refine ⟨fields, tools, rfl, ?_, fun m hm => (hanswers m hm).1, ?_⟩
  · unfold convertUserMessage
    rw [Json.get?_obj] at hcontent
    rw [hcontent]
    refine bind_eq_ok.mpr ⟨_, mapM_eq_ok.mpr hparts, ?_⟩
    rw [htools, hordinary]
    exact congrArg Except.ok (List.append_nil tools)
  · have hsame : tools.map (fun tool => tool.getStrD "tool_call_id") =
        blocks.filterMap toolResultId? := by
      have hinjective : Function.Injective (Step.answer : String → Step String) := fun a b h => by
        cases h
        rfl
      apply List.map_injective_iff.mpr hinjective
      rw [← hsteps, List.map_map]
      exact List.map_congr_left fun m hm => (hanswers m hm).2.symm
    rw [hsame]
    exact hids

/-- An accepted history goes on with an answer sent back and one result for each of its calls. -/
theorem convertMessages_continues {c : StreamConverter} {earlier out : List Json}
    {turn results : Json}
    (h : convertMessages serde earlier = .ok out)
    (hreplay : ReplayOf (c.nonstreamResponse serde) turn)
    (hnamed : ∀ call ∈ c.accumulated.toolCalls, call.Named)
    (hdistinct : (c.accumulated.toolCalls.map ToolCallAccum.id).Nodup)
    (hanswers : Answers serde (earlier.length + 1)
      (c.accumulated.toolCalls.map ToolCallAccum.id) results) :
    ∃ converted, convertMessages serde (earlier ++ [turn, results]) = .ok converted := by
  obtain ⟨fields, rfl⟩ := Json.obj_of_get? hreplay.content
  obtain ⟨fields', tools, rfl, hconverted, hroles, hids⟩ := convertUserMessage_answers hanswers
  let replay := (c.accumulated.segment serde c.exposeThinking).intoMessage
  have hcalls : toolCallIds replay = c.accumulated.toolCalls.map ToolCallAccum.id :=
    toolCallIds_segment serde c.exposeThinking c.accumulated
  have hfresh : ((SortedMap.empty : PendingToolUses).keys ++ toolCallIds replay).Nodup := by
    rw [hcalls]
    exact hdistinct
  obtain ⟨registered, hregistered⟩ := registerIds_ok earlier.length hfresh
  have hpending := registerIds_keys hregistered
  have hturn : convertMessage serde earlier.length .empty (.obj fields) =
      .ok (registered, [replay]) := by
    unfold convertMessage
    refine bind_eq_ok.mpr ⟨fields, rfl, ?_⟩
    rw [hreplay.role]
    refine bind_eq_ok.mpr ⟨[replay], convertAssistantMessage_answer hreplay.content hnamed, ?_⟩
    refine bind_eq_ok.mpr ⟨registered, bind_eq_ok.mpr ⟨registered, hregistered, ?_⟩, rfl⟩
    have hrole : replay.getStr? "role" = some "assistant" := role_intoMessage _
    rw [hrole]
    rfl
  have hresults : convertMessage serde (earlier.length + 1) registered (.obj fields') =
      .ok (.empty, tools) := by
    unfold convertMessage
    refine bind_eq_ok.mpr ⟨fields', rfl, ?_⟩
    rw [hanswers.role]
    refine bind_eq_ok.mpr
      ⟨tools, hconverted, bind_eq_ok.mpr ⟨.empty, settleToolResults_ok hroles ?_, rfl⟩⟩
    exact hids.trans (hcalls ▸ hpending)
  refine ⟨out ++ ([replay] ++ (tools ++ [])), convertMessages_eq_ok.mpr
    (convertMessagesFrom_append.mpr
    ⟨.empty, out, [replay] ++ (tools ++ []), convertMessages_eq_ok.mp h, ?_, rfl⟩)⟩
  rw [Nat.zero_add, convertMessagesFrom]
  exact bind_eq_ok.mpr ⟨_, hturn, bind_eq_ok.mpr
    ⟨_, bind_eq_ok.mpr ⟨_, hresults, bind_eq_ok.mpr ⟨_, rfl, rfl⟩⟩, rfl⟩⟩

theorem stripBilling_object (request : Fields) : ∃ stripped : Fields,
    stripBillingInAnthropicSystem (.obj request) = .obj stripped ∧
      ∀ key, key ≠ "system" → stripped.get? key = request.get? key := by
  have hobject : ∃ stripped : Fields, stripBillingInAnthropicSystem (.obj request) =
      .obj stripped := by
    unfold stripBillingInAnthropicSystem
    split <;> exact ⟨_, rfl⟩
  obtain ⟨stripped, hstripped⟩ := hobject
  refine ⟨stripped, hstripped, fun key hkey => ?_⟩
  have hread := get?_stripBillingInAnthropicSystem request hkey
  rw [hstripped] at hread
  exact hread

theorem convertObject_continues {defaultModel : String} {a b : Fields} {converted : Converted}
    {messages out : List Json} (h : convertObject serde defaultModel a = .ok converted)
    (hsame : ∀ key, key ≠ "system" → key ≠ "messages" → a.get? key = b.get? key)
    (hmessages : b.get? "messages" = some (.arr messages)) (hne : messages ≠ [])
    (hout : convertMessages serde messages = .ok out) :
    ∃ continued, convertObject serde defaultModel b = .ok continued := by
  obtain ⟨hstops, hdefined, hthinking, hchosen⟩ := checks_congr hsame
  have hnonempty : nonEmptyMessages messages = .ok messages := by
    unfold nonEmptyMessages
    rw [if_neg (by simpa using hne)]
  unfold convertObject at h ⊢
  rw [hstops, hdefined, hthinking, hchosen, hsame "max_tokens" (by decide) (by decide)] at h
  obtain ⟨maxTokens, hmaxTokens, h⟩ := bind_eq_ok.mp h
  obtain ⟨stop, hstop, h⟩ := bind_eq_ok.mp h
  obtain ⟨earlier, -, h⟩ := bind_eq_ok.mp h
  obtain ⟨checked, -, h⟩ := bind_eq_ok.mp h
  obtain ⟨conversation, -, h⟩ := bind_eq_ok.mp h
  obtain ⟨tools, htools, h⟩ := bind_eq_ok.mp h
  obtain ⟨choice, hchoice, -⟩ := bind_eq_ok.mp h
  refine ⟨⟨.obj (chatFields defaultModel b maxTokens stop out tools choice), thinkingRequested b,
    (b.get? "model").bind Json.asStr⟩, bind_eq_ok.mpr ⟨maxTokens, hmaxTokens, ?_⟩⟩
  refine bind_eq_ok.mpr ⟨stop, hstop, ?_⟩
  refine bind_eq_ok.mpr ⟨messages, by rw [hmessages]; rfl, bind_eq_ok.mpr ⟨messages, hnonempty, ?_⟩⟩
  exact bind_eq_ok.mpr
    ⟨out, hout, bind_eq_ok.mpr ⟨tools, htools, bind_eq_ok.mpr ⟨choice, hchoice, rfl⟩⟩⟩

theorem convertRequest_continues {defaultModel : String} {request : Fields} {converted : Converted}
    {earlier messages out : List Json}
    (h : convertRequest serde defaultModel (.obj (request.insert "messages" (.arr earlier))) =
      .ok converted)
    (hmessages : request.get? "messages" = some (.arr messages)) (hne : messages ≠ [])
    (hout : convertMessages serde messages = .ok out) :
    ∃ continued, convertRequest serde defaultModel (.obj request) = .ok continued := by
  obtain ⟨a, ha, hreadA⟩ := stripBilling_object (request.insert "messages" (.arr earlier))
  obtain ⟨b, hb, hreadB⟩ := stripBilling_object request
  unfold convertRequest at h ⊢
  rw [ha] at h
  rw [hb]
  have hsame : ∀ key, key ≠ "system" → key ≠ "messages" → a.get? key = b.get? key := by
    intro key hsystem hkey
    rw [hreadA key hsystem, hreadB key hsystem, Fields.get?_insert_ne _ _ hkey.symm]
  exact convertObject_continues h hsame ((hreadB _ (by decide)).trans hmessages) hne hout

end Acceptance

end Lobster.Anthropic
