import LobsterProxy.Anthropic.History
import LobsterProxy.Base.Balance

/-! A history is accepted exactly when its tool events are balanced, and then the tool messages
of the conversation answer its calls one by one. -/

namespace Lobster.Anthropic
open Conversion Transcript

def contentBlocks (message : Json) : List Json :=
  ((message.get? "content").bind Json.asArray).getD []

/-- The ids of the tools that a message uses, or of the results that it brings. -/
def messageEvents (message : Json) : List (CallEvent String) :=
  match message.getStrD "role" with
  | "user" => ((contentBlocks message).filterMap toolResultId?).map .result
  | "assistant" => ((contentBlocks message).filterMap toolUseId?).map .use
  | _ => []

/-- The message converts, whatever tool calls are pending. -/
def ConvertsAlone (serde : Serde) (index : Nat) (message : Json) : Prop :=
  ∃ object, message = .obj object ∧ match message.getStrD "role" with
    | "user" => ∃ out, convertUserMessage serde object index = .ok out
    | "assistant" => ∃ out, convertAssistantMessage serde object index = .ok out
    | "system" | "developer" => True
    | _ => False

/-- A tool call of the conversation: the one at a place of a message's list. -/
structure CallPlace (out : List Json) where
  message : Nat
  call : Nat
  id : String
  found : ∃ m, out[message]? = some m ∧ (toolCallIds m)[call]? = some id

structure ToolPlace (out : List Json) where
  message : Nat
  id : String
  found : ∃ m, out[message]? = some m ∧ isToolMessage m = true ∧ m.getStrD "tool_call_id" = id

/-- The tool messages answer the tool calls one by one, each after its call. -/
def AnsweredOneByOne (out : List Json) : Prop :=
  ∃ answer : CallPlace out → ToolPlace out, answer.Bijective ∧
    ∀ c, (answer c).id = c.id ∧ c.message < (answer c).message

section Events

theorem events_answers (ids : List String) :
    (ids.map Step.answer).flatMap Step.events = ids.map .result := by
  induction ids with
  | nil => rfl
  | cons id ids ih =>
    rw [List.map_cons, List.flatMap_cons, ih, List.map_cons, Step.events, List.singleton_append]

theorem contentBlocks_arr {message : Json} {blocks : List Json}
    (h : message.get? "content" = some (.arr blocks)) :
    contentBlocks message = blocks := by
  unfold contentBlocks
  rw [h]
  rfl

theorem contentBlocks_other {message : Json}
    (h : ∀ blocks, message.get? "content" = some (.arr blocks) → False) :
    contentBlocks message = [] := by
  unfold contentBlocks
  cases hcontent : (message.get? "content").bind Json.asArray with
  | none => rfl
  | some blocks =>
    obtain ⟨content, hget, harray⟩ := Option.bind_eq_some_iff.mp hcontent
    rw [Json.asArray_eq_some.mp harray] at hget
    exact (h blocks hget).elim

theorem events_messageSteps (message : Json) :
    (messageSteps message).flatMap Step.events = messageEvents message := by
  unfold messageSteps
  split
  case h_1 hrole hcontent =>
    unfold messageEvents
    rw [hrole, contentBlocks_arr hcontent, List.flatMap_append, events_answers]
    split_ifs <;> exact List.append_nil _
  case h_2 hrole hcontent =>
    unfold messageEvents
    rw [hrole, contentBlocks_arr hcontent]
    exact List.append_nil _
  case h_3 huser hassistant =>
    unfold messageEvents
    split
    case h_1 hrole =>
      rw [contentBlocks_other fun blocks => huser blocks hrole]
      rfl
    case h_2 hrole =>
      rw [contentBlocks_other fun blocks => hassistant blocks hrole]
      rfl
    case h_3 => rfl

theorem events_history (messages : List Json) :
    (messages.flatMap messageSteps).flatMap Step.events = messages.flatMap messageEvents := by
  rw [List.flatMap_assoc]
  exact List.flatMap_congr fun message _ => events_messageSteps message

end Events

section Acceptance
variable {serde : Serde} {index : Nat} {pending : PendingToolUses}

theorem exists_settleToolResults {out : List Json} {opened : List String}
    (h : settle pending.keys (out.map chatStep) = some opened)
    (hout : ∀ message ∈ out, isToolMessage message = false → chatStep message = .turn []) :
    ∃ settled, settleToolResults index pending out = .ok settled := by
  induction out generalizing pending with
  | nil => exact ⟨pending, rfl⟩
  | cons message out ih =>
    obtain ⟨hmessage, hrest⟩ := List.forall_mem_cons.mp hout
    rw [List.map_cons] at h
    rw [settleToolResults]
    cases htool : isToolMessage message with
    | true =>
      rw [chatStep_tool htool] at h
      obtain ⟨hmem, hsettle⟩ := settle_answer_eq_some h
      rw [if_pos (of_decide_eq_true htool), if_pos (SortedMap.mem_keys.mp hmem)]
      rw [← SortedMap.keys_remove] at hsettle
      exact ih hsettle hrest
    | false =>
      rw [hmessage htool] at h
      have hsettle := (settle_turn_eq_some h).2
      rw [List.append_nil] at hsettle
      rw [if_neg (of_decide_eq_false htool)]
      exact ih hsettle hrest

theorem exists_convertMessage {message : Json} {opened : List String}
    (halone : ConvertsAlone serde index message)
    (h : settle pending.keys (messageSteps message) = some opened) :
    ∃ pending' out, convertMessage serde index pending message = .ok (pending', out) := by
  obtain ⟨object, rfl, halone⟩ := halone
  split at halone
  case h_1 hrole =>
    obtain ⟨out, hout⟩ := halone
    have hsteps := convertUserMessage_steps hout hrole
    rw [← hsteps] at h
    have hsettles : ∃ settled, settleToolResults index pending out = .ok settled := by
      refine exists_settleToolResults h fun m hm htool => ?_
      have hmem := List.mem_map_of_mem (f := chatStep) hm
      rw [hsteps, chatStep_turn htool] at hmem
      rw [chatStep_turn htool, turn_userSteps hrole hmem]
    obtain ⟨settled, hsettled⟩ := hsettles
    refine ⟨settled, out, ?_⟩
    rw [convertMessage]
    refine bind_eq_ok.mpr ⟨object, rfl, ?_⟩
    rw [hrole]
    exact bind_eq_ok.mpr ⟨out, hout, bind_eq_ok.mpr ⟨settled, hsettled, rfl⟩⟩
  case h_2 hrole =>
    obtain ⟨out, hout⟩ := halone
    obtain ⟨converted, rfl, hassistant, hsteps⟩ := convertAssistantMessage_single hout hrole
    rw [hsteps] at h
    obtain ⟨registered, hregistered⟩ := registerIds_ok index (settle_turn_eq_some h).1
    have htool : ¬converted.getStr? "role" = some "tool" := by
      rw [hassistant]
      decide
    refine ⟨registered, [converted], ?_⟩
    rw [convertMessage]
    refine bind_eq_ok.mpr ⟨object, rfl, ?_⟩
    rw [hrole]
    refine bind_eq_ok.mpr ⟨_, hout, bind_eq_ok.mpr ⟨registered, ?_, rfl⟩⟩
    rw [registerToolCalls]
    refine bind_eq_ok.mpr ⟨registered, hregistered, ?_⟩
    rw [if_neg htool]
    rfl
  case h_3 hrole =>
    refine ⟨pending, [systemReminder object], ?_⟩
    rw [convertMessage]
    refine bind_eq_ok.mpr ⟨object, rfl, ?_⟩
    rw [hrole]
    rfl
  case h_4 hrole =>
    refine ⟨pending, [systemReminder object], ?_⟩
    rw [convertMessage]
    refine bind_eq_ok.mpr ⟨object, rfl, ?_⟩
    rw [hrole]
    rfl
  case h_5 => exact halone.elim

theorem exists_convertMessagesFrom {messages : List Json} {opened : List String}
    (halone : ∀ i message, messages[i]? = some message → ConvertsAlone serde (index + i) message)
    (h : settle pending.keys (messages.flatMap messageSteps) = some opened) :
    ∃ pending' out, convertMessagesFrom serde index pending messages = .ok (pending', out) := by
  induction messages generalizing index pending opened with
  | nil => exact ⟨pending, [], rfl⟩
  | cons message messages ih =>
    rw [List.flatMap_cons, settle_append] at h
    obtain ⟨between, hmessage, hrest⟩ := Option.bind_eq_some_iff.mp h
    obtain ⟨pending₁, converted, hconverted⟩ :=
      exists_convertMessage (halone 0 message rfl) hmessage
    obtain ⟨-, settled, hsettled, hperm⟩ := convertMessage_settles hconverted
    rw [hmessage] at hsettled
    cases hsettled
    obtain ⟨opened', hopened, -⟩ := settle_perm hperm hrest
    have hlater : ∀ i m, messages[i]? = some m → ConvertsAlone serde (index + 1 + i) m := by
      intro i m hm
      have hindex : index + 1 + i = index + (i + 1) := by omega
      rw [hindex]
      exact halone (i + 1) m hm
    obtain ⟨pending₂, out, hout⟩ := ih hlater hopened
    rw [convertMessagesFrom]
    exact ⟨pending₂, converted ++ out, bind_eq_ok.mpr
      ⟨_, hconverted, bind_eq_ok.mpr ⟨_, hout, rfl⟩⟩⟩

/-- Messages that convert one by one are a history that is accepted exactly when it is settled. -/
theorem convertMessages_settled_iff {messages : List Json}
    (halone : ∀ i message, messages[i]? = some message → ConvertsAlone serde i message) :
    (∃ out, convertMessages serde messages = .ok out) ↔
      settle [] (messages.flatMap messageSteps) = some [] := by
  constructor
  · rintro ⟨out, hout⟩
    exact (convertMessages_settled hout).2
  · intro h
    have hfrom : ∃ pending out, convertMessagesFrom serde 0 .empty messages =
        .ok (pending, out) := by
      refine exists_convertMessagesFrom (fun i message hmessage => ?_) h
      rw [Nat.zero_add]
      exact halone i message hmessage
    obtain ⟨pending, out, hout⟩ := hfrom
    obtain ⟨-, opened, hopened, hperm⟩ := convertMessagesFrom_settles hout
    have hsettled : some opened = some [] := hopened.symm.trans h
    rw [Option.some.inj hsettled] at hperm
    have hnone : pending = .empty := SortedMap.ext (List.map_eq_nil_iff.mp (List.nil_perm.mp hperm))
    rw [hnone] at hout
    exact ⟨out, convertMessages_eq_ok.mpr hout⟩

end Acceptance

section Calls
variable {serde : Serde} {index : Nat}

theorem toolCallIds_toolResult {block tool : Json}
    (h : convertToolResult serde block index = .ok tool) :
    toolCallIds tool = [] := by
  unfold convertToolResult at h
  obtain ⟨id, -, h⟩ := bind_eq_ok.mp h
  obtain ⟨content, -, h⟩ := bind_eq_ok.mp h
  cases h
  rfl

theorem toolResult_of_userBlock {block tool : Json}
    (h : convertUserBlock serde index block = .ok (.toolMessage tool)) :
    convertToolResult serde (cleanBlock block) index = .ok tool := by
  rcases convertUserBlock_kinds h with
    ⟨-, hpart⟩ | ⟨-, image, -, hpart⟩ | ⟨-, file, -, hpart⟩ | ⟨-, other, htool, hpart⟩
  · split_ifs at hpart
  · cases hpart
  · cases hpart
  · cases hpart
    exact htool

theorem toolCallIds_ordinaryMessage {ordinary : List Json} :
    ∀ m ∈ ordinaryMessage ordinary, toolCallIds m = [] := by
  unfold ordinaryMessage
  intro m hm
  split at hm
  · cases hm
  · split_ifs at hm
    all_goals
      rw [List.mem_singleton.mp hm]
      rfl
  · rw [List.mem_singleton.mp hm]
    rfl

theorem toolCallIds_userParts {blocks : List Json} {parts : List UserPart}
    (h : List.Forall₂ (fun block part => convertUserBlock serde index block = .ok part)
      blocks parts) :
    ∀ tool ∈ parts.filterMap UserPart.toolMessage?, toolCallIds tool = [] := by
  induction h with
  | nil => exact nofun
  | @cons block part blocks parts hblock _ ih =>
    cases part with
    | toolMessage tool =>
      rw [List.filterMap_cons_some (f := UserPart.toolMessage?) rfl, List.forall_mem_cons]
      exact ⟨toolCallIds_toolResult (toolResult_of_userBlock hblock), ih⟩
    | _ =>
      rw [List.filterMap_cons_none (f := UserPart.toolMessage?) rfl]
      exact ih

theorem toolCallIds_userMessage {message : Fields} {out : List Json}
    (h : convertUserMessage serde message index = .ok out) : ∀ m ∈ out, toolCallIds m = [] := by
  intro m hm
  rcases convertUserMessage_cases h with ⟨text, -, rfl⟩ | ⟨blocks, parts, -, hparts, rfl⟩
  · rw [List.mem_singleton.mp hm]
    rfl
  · rcases List.mem_append.mp hm with htool | hordinary
    · exact toolCallIds_userParts hparts m htool
    · exact toolCallIds_ordinaryMessage m hordinary

theorem assistant_of_convertMessage {pending pending' : PendingToolUses} {message : Json}
    {out : List Json} (h : convertMessage serde index pending message = .ok (pending', out)) :
    ∀ m ∈ out, toolCallIds m ≠ [] → m.getStr? "role" = some "assistant" := by
  intro m hm hcalls
  obtain ⟨object, rfl, ⟨-, hconverted, -⟩ | ⟨hrole, hconverted, -⟩ | ⟨-, -, rfl⟩⟩ :=
    convertMessage_cases h
  · exact absurd (toolCallIds_userMessage hconverted m hm) hcalls
  · obtain ⟨m', rfl, hassistant, -⟩ := convertAssistantMessage_single hconverted hrole
    rw [List.mem_singleton.mp hm]
    exact hassistant
  · rw [List.mem_singleton.mp hm] at hcalls
    exact absurd rfl hcalls

theorem assistant_of_calls {pending pending' : PendingToolUses} {messages out : List Json}
    (h : convertMessagesFrom serde index pending messages = .ok (pending', out)) :
    ∀ m ∈ out, toolCallIds m ≠ [] → m.getStr? "role" = some "assistant" := by
  induction messages generalizing index pending out with
  | nil =>
    cases h
    exact nofun
  | cons message messages ih =>
    rw [convertMessagesFrom] at h
    obtain ⟨⟨between, converted⟩, hmessage, h⟩ := bind_eq_ok.mp h
    obtain ⟨⟨last, rest⟩, hrest, h⟩ := bind_eq_ok.mp h
    cases h
    intro m hm
    rcases List.mem_append.mp hm with hm | hm
    · exact assistant_of_convertMessage hmessage m hm
    · exact ih hrest m hm

end Calls

section Places
variable {out : List Json}

theorem CallPlace.ext {c d : CallPlace out} (hmessage : c.message = d.message)
    (hcall : c.call = d.call) : c = d := by
  obtain ⟨i, j, id, hc⟩ := c
  obtain ⟨i', j', id', hd⟩ := d
  obtain rfl : i = i' := hmessage
  obtain rfl : j = j' := hcall
  obtain ⟨m, hm, hid⟩ := hc
  obtain ⟨m', hm', hid'⟩ := hd
  rw [hm] at hm'
  cases hm'
  rw [hid] at hid'
  cases hid'
  rfl

theorem ToolPlace.ext {p q : ToolPlace out} (hmessage : p.message = q.message) : p = q := by
  obtain ⟨k, id, hp⟩ := p
  obtain ⟨k', id', hq⟩ := q
  obtain rfl : k = k' := hmessage
  obtain ⟨m, hm, -, rfl⟩ := hp
  obtain ⟨m', hm', -, rfl⟩ := hq
  rw [hm] at hm'
  cases hm'
  rfl

theorem CallPlace.turn (c : CallPlace out)
    (hassistant : ∀ m ∈ out, toolCallIds m ≠ [] → m.getStr? "role" = some "assistant") :
    ∃ calls, (out.map chatStep)[c.message]? = some (.turn calls) ∧ calls[c.call]? = some c.id := by
  obtain ⟨m, hm, hid⟩ := c.found
  have hcalls : toolCallIds m ≠ [] := by
    intro hnil
    rw [hnil] at hid
    cases hid
  have hrole := hassistant m (List.mem_of_getElem? hm) hcalls
  refine ⟨toolCallIds m, ?_, hid⟩
  rw [List.getElem?_map, hm, Option.map_some, (chatStep_assistant hrole).2]

theorem ToolPlace.answer (p : ToolPlace out) :
    (out.map chatStep)[p.message]? = some (.answer p.id) := by
  obtain ⟨m, hm, htool, hid⟩ := p.found
  rw [List.getElem?_map, hm, Option.map_some, chatStep_tool htool, hid]

theorem exists_toolPlace {k : Nat} {id : String} (h : (out.map chatStep)[k]? = some (.answer id)) :
    ∃ p : ToolPlace out, p.message = k ∧ p.id = id := by
  rw [List.getElem?_map] at h
  obtain ⟨m, hm, hstep⟩ := Option.map_eq_some_iff.mp h
  obtain ⟨htool, hid⟩ := of_chatStep_answer hstep
  exact ⟨⟨k, id, m, hm, decide_eq_true htool, hid⟩, rfl, rfl⟩

theorem exists_callPlace {i : Nat} {calls : List String} {id : String}
    (h : (out.map chatStep)[i]? = some (.turn calls)) (hid : id ∈ calls) :
    ∃ c : CallPlace out, c.message = i ∧ c.id = id := by
  rw [List.getElem?_map] at h
  obtain ⟨m, hm, hstep⟩ := Option.map_eq_some_iff.mp h
  obtain ⟨j, hj⟩ := List.getElem?_of_mem hid
  unfold chatStep at hstep
  split_ifs at hstep
  · cases hstep
    exact ⟨⟨i, j, id, m, hm, hj⟩, rfl, rfl⟩
  · cases hstep
    cases hid

theorem answeredOneByOne_of_settled (hsettled : settle [] (out.map chatStep) = some [])
    (hassistant : ∀ m ∈ out, toolCallIds m ≠ [] → m.getStr? "role" = some "assistant") :
      AnsweredOneByOne out := by
  have hanswer :
      ∀ c : CallPlace out, ∃ p : ToolPlace out, Paired (out.map chatStep) c.message p.message c.id ∧
      p.id = c.id := by
    intro c
    obtain ⟨calls, hcalls, hid⟩ := c.turn hassistant
    obtain ⟨k, hk⟩ := exists_paired_of_call hsettled hcalls (List.mem_of_getElem? hid)
    obtain ⟨p, rfl, hp⟩ := exists_toolPlace hk.answer
    exact ⟨p, hk, hp⟩
  choose answer hpaired hid using hanswer
  refine ⟨answer, ⟨fun c d heq => ?_, fun p => ?_⟩, fun c => ⟨hid c, (hpaired c).later⟩⟩
  · have hids : c.id = d.id := by rw [← hid c, heq, hid d]
    have hd := hpaired d
    rw [← heq, ← hids] at hd
    have hmessage := (hpaired c).call_unique hd
    obtain ⟨calls, hcalls, hc⟩ := c.turn hassistant
    obtain ⟨calls', hcalls', hc'⟩ := d.turn hassistant
    rw [← hmessage, hcalls] at hcalls'
    cases hcalls'
    rw [← hids, ← hc] at hc'
    have hnodup := nodup_of_turn hsettled (List.mem_of_getElem? hcalls)
    have hlt := (List.getElem?_eq_some_iff.mp hc).1
    exact CallPlace.ext hmessage ((List.getElem?_inj hlt hnodup).mp hc'.symm)
  · obtain ⟨i, hi⟩ := exists_paired_of_answer hsettled p.answer
    obtain ⟨calls, hcalls, hmem⟩ := hi.call
    obtain ⟨c, rfl, hc⟩ := exists_callPlace hcalls hmem
    have hcp := hpaired c
    rw [hc] at hcp
    exact ⟨c, ToolPlace.ext (hcp.answer_unique hi)⟩

end Places

/-- Of messages that convert one by one, the history is accepted exactly when its tool events are
balanced, and then the tool messages answer the calls one by one. -/
theorem convertMessages_balanced_iff (serde : Serde) (messages : List Json)
    (halone : ∀ i message, messages[i]? = some message → ConvertsAlone serde i message) :
    ((∃ out, convertMessages serde messages = .ok out) ↔
      Balanced (messages.flatMap messageEvents)) ∧
      ∀ out, convertMessages serde messages = .ok out → AnsweredOneByOne out := by
  refine ⟨?_, fun out hout => ?_⟩
  · rw [convertMessages_settled_iff halone, settle_iff_balanced, events_history]
  · obtain ⟨hsteps, hsettled⟩ := convertMessages_settled hout
    rw [← hsteps] at hsettled
    exact answeredOneByOne_of_settled hsettled (assistant_of_calls (convertMessages_eq_ok.mp hout))

theorem convertMessages_balanced_iff_listFiles :
    ((∃ out, convertMessages .emptyObject [listFilesTurn, filesResult] = .ok out) ↔
      Balanced ([listFilesTurn, filesResult].flatMap messageEvents)) ∧
    ∀ out, convertMessages .emptyObject [listFilesTurn, filesResult] = .ok out →
      AnsweredOneByOne out := by
  refine convertMessages_balanced_iff .emptyObject [listFilesTurn, filesResult]
    fun i message h => ?_
  match i with
  | 0 =>
    cases h
    exact ⟨_, rfl, [listFilesCall], rfl⟩
  | 1 =>
    cases h
    exact ⟨_, rfl, [filesTool], rfl⟩
  | i + 2 => cases h

end Lobster.Anthropic
