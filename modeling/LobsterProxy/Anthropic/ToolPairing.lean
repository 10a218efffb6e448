import LobsterProxy.Anthropic.Request
import LobsterProxy.Base.Transcript

/-! Tool calls and tool messages in the converted conversation, read as a
transcript of turns and answers. -/

namespace Lobster.Anthropic
open Conversion Transcript

def isToolMessage (message : Json) : Bool := message.getStr? "role" = some "tool"

def toolCallIds (message : Json) : List String :=
  (((message.get? "tool_calls").bind Json.asArray).getD []).map (fun call => call.getStrD "id")

/-- Every assistant message with tool calls is followed at once by one tool
message for each of its ids, and by no others. -/
def ToolsAnsweredAtOnce (out : List Json) : Prop :=
  ∀ pre message post, out = pre ++ message :: post → message.getStr? "role" = some "assistant" →
    toolCallIds message ≠ [] →
      ((post.takeWhile isToolMessage).map (fun tool => tool.getStrD "tool_call_id")).Perm
        (toolCallIds message)

def chatStep (message : Json) : Step String :=
  if isToolMessage message then .answer (message.getStrD "tool_call_id")
  else .turn (if message.getStr? "role" = some "assistant" then toolCallIds message else [])

def toolUseId? (block : Json) : Option String :=
  if (cleanBlock block).getStrD "type" = "tool_use" then some ((cleanBlock block).getStrD "id")
  else none

def toolResultId? (block : Json) : Option String :=
  if (cleanBlock block).getStrD "type" = "tool_result" then
    some ((cleanBlock block).getStrD "tool_use_id")
  else none

/-- Non-empty text, an image or a document of a user message. -/
def isHumanContent (block : Json) : Bool :=
  match (cleanBlock block).getStrD "type" with
  | "text" => (cleanBlock block).getStrD "text" ≠ ""
  | "image" | "document" => true
  | _ => false

/-- What a message of the request says of tools: its results first, then the turn
of its own content. -/
def messageSteps (message : Json) : List (Step String) :=
  match message.getStrD "role", message.get? "content" with
  | "user", some (.arr blocks) =>
    (blocks.filterMap toolResultId?).map .answer ++
      if blocks.any isHumanContent then [.turn []] else []
  | "assistant", some (.arr blocks) => [.turn (blocks.filterMap toolUseId?)]
  | _, _ => [.turn []]

/-- No human content, reminder or assistant message comes while a `tool_use` of the
request awaits its result. -/
def NoTurnWhilePending (messages : List Json) : Prop := QuietTurns (messages.flatMap messageSteps)

theorem chatStep_tool {message : Json} (h : isToolMessage message = true) :
    chatStep message = .answer (message.getStrD "tool_call_id") := if_pos h

theorem chatStep_turn {message : Json} (h : isToolMessage message = false) :
    chatStep message =
      .turn (if message.getStr? "role" = some "assistant" then toolCallIds message else []) := by
  unfold chatStep
  rw [h, if_neg Bool.false_ne_true]

theorem chatStep_assistant {message : Json} (h : message.getStr? "role" = some "assistant") :
    isToolMessage message = false ∧ chatStep message = .turn (toolCallIds message) := by
  have htool : isToolMessage message = false := by
    unfold isToolMessage
    rw [h]
    decide
  exact ⟨htool, by rw [chatStep_turn htool, if_pos h]⟩

theorem leadingAnswers_chatStep (out : List Json) :
    leadingAnswers (out.map chatStep) =
      (out.takeWhile isToolMessage).map (fun tool => tool.getStrD "tool_call_id") := by
  induction out with
  | nil => rfl
  | cons message out ih =>
    cases htool : isToolMessage message with
    | true => rw [List.map_cons, chatStep_tool htool, leadingAnswers_answer, ih,
        List.takeWhile_cons_of_pos htool, List.map_cons]
    | false => rw [List.map_cons, chatStep_turn htool, leadingAnswers_turn,
        List.takeWhile_cons_of_neg (Bool.eq_false_iff.mp htool), List.map_nil]

theorem toolsAnsweredAtOnce_iff (out : List Json) :
    ToolsAnsweredAtOnce out ↔ AnsweredAtOnce (out.map chatStep) := by
  constructor
  · intro h pre calls post ht hcalls
    obtain ⟨pre', rest, rfl, rfl, hrest⟩ := List.map_eq_append_iff.mp ht
    obtain ⟨message, post', rfl, hstep, rfl⟩ := List.map_eq_cons_iff.mp hrest
    rw [leadingAnswers_chatStep]
    unfold chatStep at hstep
    split_ifs at hstep with htool hrole
    · cases hstep
      exact h pre' message post' rfl hrole hcalls
    · cases hstep
      exact absurd rfl hcalls
  · rintro h pre message post rfl hrole hcalls
    have hturn := h (pre.map chatStep) (toolCallIds message) (post.map chatStep)
      (by rw [List.map_append, List.map_cons, (chatStep_assistant hrole).2]) hcalls
    rw [leadingAnswers_chatStep] at hturn
    exact hturn

section Blocks
variable {serde : Serde} {index : Nat} {block : Json}

theorem convertToolResult_chatStep {tool : Json}
    (h : convertToolResult serde block index = .ok tool) :
    chatStep tool = .answer (block.getStrD "tool_use_id") := by
  unfold convertToolResult at h
  obtain ⟨id, hid, h⟩ := bind_eq_ok.mp h
  obtain ⟨content, -, h⟩ := bind_eq_ok.mp h
  cases h
  have hread := (Option.filter_eq_some_iff.mp (orInvalid_eq_ok.mp hid)).1
  unfold Json.getStrD
  rw [hread]
  rfl

theorem convertUserBlock_cases {part : UserPart}
    (h : convertUserBlock serde index block = .ok part) :
    (toolResultId? block = none ∧ isHumanContent block = false ∧ part = .nothing) ∨
    (toolResultId? block = none ∧ isHumanContent block = true ∧ ∃ json, part = .ordinary json) ∨
    (isHumanContent block = false ∧ ∃ id tool, toolResultId? block = some id ∧
      part = .toolMessage tool ∧ chatStep tool = .answer id) := by
  unfold toolResultId? isHumanContent
  rcases convertUserBlock_kinds h with
    ⟨hkind, rfl⟩ | ⟨hkind, image, -, rfl⟩ | ⟨hkind, file, -, rfl⟩ | ⟨hkind, tool, htool, rfl⟩
  · rw [hkind]
    by_cases htext : (cleanBlock block).getStrD "text" = ""
    · exact .inl ⟨if_neg (by decide), by simp [htext], by simp [htext]⟩
    · exact .inr (.inl ⟨if_neg (by decide), by simp [htext], _, by rw [if_neg htext]⟩)
  · rw [hkind]
    exact .inr (.inl ⟨if_neg (by decide), rfl, image, rfl⟩)
  · rw [hkind]
    exact .inr (.inl ⟨if_neg (by decide), rfl, file, rfl⟩)
  · rw [hkind]
    exact .inr (.inr ⟨rfl, _, tool, if_pos rfl, rfl, convertToolResult_chatStep htool⟩)

theorem convertAssistantBlock_cases {part : AssistantPart}
    (h : convertAssistantBlock serde index block = .ok part) :
    (toolUseId? block = none ∧ part.toolCall? = none) ∨
    ∃ id call, toolUseId? block = some id ∧ part = .toolCall call ∧ call.getStrD "id" = id := by
  unfold convertAssistantBlock at h
  unfold toolUseId?
  generalize cleanBlock block = cleaned at h ⊢
  dsimp only at h
  split at h
  case h_1 hkind =>
    cases h
    rw [hkind]
    exact .inl ⟨if_neg (by decide), rfl⟩
  case h_2 hkind =>
    cases h
    rw [hkind]
    refine .inl ⟨if_neg (by decide), ?_⟩
    cases cleaned.getStr? "thinking" <;> rfl
  case h_3 hkind =>
    cases h
    rw [hkind]
    exact .inl ⟨if_neg (by decide), rfl⟩
  case h_4 hkind =>
    obtain ⟨id, hid, h⟩ := bind_eq_ok.mp h
    obtain ⟨name, -, h⟩ := bind_eq_ok.mp h
    split at h
    · cases h
      have hread := (Option.filter_eq_some_iff.mp (orInvalid_eq_ok.mp hid)).1
      have hd : cleaned.getStrD "id" = id := by
        unfold Json.getStrD
        rw [hread, Option.getD_some]
      rw [hkind]
      exact .inr ⟨_, _, if_pos rfl, rfl, hd.symm⟩
    · exact absurd h invalid_ne_ok
  case h_5 => exact absurd h invalid_ne_ok

theorem userParts_steps {blocks : List Json} {parts : List UserPart}
    (h : List.Forall₂ (fun block part => convertUserBlock serde index block = .ok part)
      blocks parts) :
    (parts.filterMap UserPart.toolMessage?).map chatStep =
        (blocks.filterMap toolResultId?).map .answer ∧
      (parts.filterMap UserPart.ordinary? = [] ↔ blocks.any isHumanContent = false) := by
  induction h with
  | nil => exact ⟨rfl, Iff.intro (fun _ => rfl) fun _ => rfl⟩
  | cons hblock _ ih =>
    obtain ⟨htools, hordinary⟩ := ih
    rcases convertUserBlock_cases hblock with
      ⟨hid, hhuman, rfl⟩ | ⟨hid, hhuman, part, rfl⟩ | ⟨hhuman, id, tool, hid, rfl, hstep⟩
    · rw [List.filterMap_cons_none hid, List.any_cons, hhuman, Bool.false_or]
      exact ⟨htools, hordinary⟩
    · rw [List.filterMap_cons_none hid, List.any_cons, hhuman]
      refine ⟨htools, ?_⟩
      simp [UserPart.ordinary?]
    · rw [List.filterMap_cons_some hid, List.any_cons, hhuman, Bool.false_or, List.map_cons,
        ← hstep, ← htools]
      exact ⟨rfl, hordinary⟩

theorem assistantParts_ids {blocks : List Json} {parts : List AssistantPart}
    (h : List.Forall₂ (fun block part => convertAssistantBlock serde index block = .ok part)
      blocks parts) :
    (parts.filterMap AssistantPart.toolCall?).map (fun call => call.getStrD "id") =
      blocks.filterMap toolUseId? := by
  induction h with
  | nil => rfl
  | cons hblock _ ih =>
    rcases convertAssistantBlock_cases hblock with ⟨hid, hcall⟩ | ⟨id, call, hid, rfl, hread⟩
    · rw [List.filterMap_cons_none hid, List.filterMap_cons_none hcall, ih]
    · rw [List.filterMap_cons_some hid, ← ih, ← hread]
      rfl

end Blocks

theorem ordinaryMessage_steps (ordinary : List Json) :
    (ordinaryMessage ordinary).map chatStep = if ordinary = [] then [] else [.turn []] := by
  unfold ordinaryMessage
  split
  · rfl
  · rw [if_neg (List.cons_ne_nil _ _)]
    split_ifs <;> rfl
  · next hne _ =>
    rw [if_neg hne]
    rfl

theorem toolCallIds_intoMessage (segment : Segment) :
    toolCallIds segment.intoMessage = segment.toolCalls.map (fun call => call.getStrD "id") := by
  have hbare (reasoning : Option Json) (content : Json) :
      Fields.get? (Fields.insertSome "reasoning_content" reasoning
        [("role", .str "assistant"), ("content", content)]) "tool_calls" = none := by
    rw [Fields.get?_insertSome_ne _ _ (by decide)]
    rfl
  unfold toolCallIds Segment.intoMessage
  dsimp only
  rw [Json.get?_obj, Fields.get?_insertSome_self, hbare]
  cases segment.toolCalls <;> rfl

theorem role_intoMessage (segment : Segment) :
    segment.intoMessage.getStr? "role" = some "assistant" := by
  unfold Segment.intoMessage Json.getStr?
  rw [Json.get?_obj, Fields.get?_insertSome_ne _ _ (by decide),
    Fields.get?_insertSome_ne _ _ (by decide)]
  rfl

theorem convertUserMessage_steps {serde : Serde} {index : Nat} {message : Fields} {out : List Json}
    (h : convertUserMessage serde message index = .ok out)
    (hrole : (Json.obj message).getStrD "role" = "user") :
    out.map chatStep = messageSteps (.obj message) := by
  unfold messageSteps
  rw [hrole, Json.get?_obj]
  rcases convertUserMessage_cases h with ⟨text, hcontent, rfl⟩ |
    ⟨blocks, parts, hcontent, hparts, rfl⟩
  · rw [hcontent]
    rfl
  · obtain ⟨htools, hordinary⟩ := userParts_steps hparts
    rw [hcontent, List.map_append, htools, ordinaryMessage_steps]
    show _ = _ ++ if blocks.any isHumanContent then [Step.turn []] else []
    cases hhuman : blocks.any isHumanContent with
    | true =>
      have hne : parts.filterMap UserPart.ordinary? ≠ [] :=
        fun hnil => absurd (hordinary.mp hnil) (by simp [hhuman])
      rw [if_neg hne, if_pos rfl]
    | false => rw [if_pos (hordinary.mpr hhuman), if_neg Bool.false_ne_true]

theorem convertAssistantMessage_single {serde : Serde} {index : Nat} {message : Fields}
    {out : List Json} (h : convertAssistantMessage serde message index = .ok out)
    (hrole : (Json.obj message).getStrD "role" = "assistant") :
    ∃ converted, out = [converted] ∧ converted.getStr? "role" = some "assistant" ∧
      messageSteps (.obj message) = [.turn (toolCallIds converted)] := by
  unfold messageSteps
  rw [hrole, Json.get?_obj]
  rcases convertAssistantMessage_cases h with ⟨text, hcontent, rfl⟩ |
    ⟨blocks, parts, hcontent, hparts, rfl⟩
  · rw [hcontent]
    exact ⟨_, rfl, rfl, rfl⟩
  · rw [hcontent]
    show ∃ converted, _ ∧ _ ∧ [Step.turn (blocks.filterMap toolUseId?)] = _
    rw [← assistantParts_ids hparts]
    split_ifs with hempty
    · have hnil : parts.filterMap AssistantPart.toolCall? = [] := by
        simpa [Segment.ofParts, Segment.isEmpty] using (Bool.and_eq_true_iff.mp hempty).2
      rw [hnil]
      exact ⟨_, rfl, rfl, rfl⟩
    · exact ⟨_, rfl, role_intoMessage _, by rw [toolCallIds_intoMessage]; rfl⟩

theorem turn_userSteps {message : Json} (hrole : message.getStrD "role" = "user")
    {calls : List String}
    (h : .turn calls ∈ messageSteps message) : calls = [] := by
  unfold messageSteps at h
  rw [hrole] at h
  split at h
  · rcases List.mem_append.mp h with hanswer | hturn
    · obtain ⟨id, -, hid⟩ := List.mem_map.mp hanswer
      cases hid
    · split_ifs at hturn
      · cases List.mem_singleton.mp hturn
        rfl
      · cases hturn
  · next hassistant _ => exact absurd hassistant (by decide)
  · cases List.mem_singleton.mp h
    rfl

/-- The pending map settles the steps as the abstract open calls do. -/
def Settles (pending : PendingToolUses) (steps : List (Step String)) (pending' : PendingToolUses) :
    Prop := ∃ opened, settle pending.keys steps = some opened ∧ opened.Perm pending'.keys

theorem Settles.append {a b c : PendingToolUses} {s t : List (Step String)} (hs : Settles a s b)
    (ht : Settles b t c) : Settles a (s ++ t) c := by
  obtain ⟨o, ho, hp⟩ := hs
  obtain ⟨o', ho', hp'⟩ := ht
  obtain ⟨o'', ho'', hp''⟩ := settle_perm hp.symm ho'
  refine ⟨o'', ?_, hp''.symm.trans hp'⟩
  rw [settle_append, ho, Option.bind_some, ho'']

theorem settles_nil (pending : PendingToolUses) : Settles pending [] pending := ⟨_, rfl, .refl _⟩

theorem settles_emptyTurn (pending : PendingToolUses) : Settles pending [.turn []] pending := by
  refine ⟨pending.keys, ?_, .refl _⟩
  unfold settle
  rw [List.append_nil, if_pos pending.keys_nodup]
  rfl

theorem settles_answer {pending : PendingToolUses} {id : String} (h : pending.contains id = true) :
    Settles pending [.answer id] (pending.remove id) := by
  refine ⟨pending.keys.erase id, ?_, by rw [SortedMap.keys_remove]⟩
  unfold settle
  rw [if_pos (SortedMap.mem_keys.mpr h)]
  rfl

theorem settleToolResults_settles {index : Nat} {pending pending' : PendingToolUses}
    {out : List Json} (h : settleToolResults index pending out = .ok pending')
    (hout : ∀ message ∈ out, isToolMessage message = false → chatStep message = .turn []) :
    Settles pending (out.map chatStep) pending' := by
  induction out generalizing pending with
  | nil =>
    cases h
    exact settles_nil _
  | cons message out ih =>
    have hrest := fun m hm => hout m (List.mem_cons_of_mem _ hm)
    unfold settleToolResults at h
    dsimp only at h
    rw [List.map_cons, ← List.singleton_append]
    split_ifs at h with htool hknown
    · have hstep := chatStep_tool (decide_eq_true htool : isToolMessage message = true)
      rw [hstep]
      exact (settles_answer hknown).append (ih h hrest)
    · exact absurd h invalid_ne_ok
    · rw [hout message List.mem_cons_self (decide_eq_false htool)]
      exact (settles_emptyTurn pending).append (ih h hrest)

theorem registerIds_keys {index : Nat} {pending pending' : PendingToolUses} {calls : List Json}
    (h : registerIds index pending calls = .ok pending') :
    (pending.keys ++ calls.map (fun call => call.getStrD "id")).Perm pending'.keys := by
  induction calls generalizing pending with
  | nil =>
    cases h
    rw [List.map_nil, List.append_nil]
  | cons call calls ih =>
    unfold registerIds at h
    dsimp only at h
    split_ifs at h with hdup
    · exact absurd h invalid_ne_ok
    · have hinsert :=
        pending.keys_insert_perm (call.getStrD "id") index (Bool.eq_false_iff.mpr hdup)
      rw [List.map_cons]
      exact List.perm_middle.trans ((hinsert.symm.append_right _).trans (ih h))

theorem registerToolCalls_settles {index : Nat} {pending pending' : PendingToolUses}
    {message : Json} (h : registerToolCalls index pending [message] = .ok pending')
    (htool : isToolMessage message = false) :
    Settles pending [.turn (toolCallIds message)] pending' := by
  unfold registerToolCalls at h
  obtain ⟨registered, hregistered, h⟩ := bind_eq_ok.mp h
  have hrole : ¬ message.getStr? "role" = some "tool" := of_decide_eq_false htool
  rw [if_neg hrole] at h
  cases h
  have hkeys := registerIds_keys hregistered
  refine ⟨pending.keys ++ toolCallIds message, ?_, hkeys⟩
  unfold settle
  have hnodup : (pending.keys ++ toolCallIds message).Nodup :=
    hkeys.nodup_iff.mpr (SortedMap.keys_nodup _)
  rw [if_pos hnodup]
  rfl

theorem convertMessage_settles {serde : Serde} {index : Nat} {pending pending' : PendingToolUses}
    {message : Json} {out : List Json}
    (h : convertMessage serde index pending message = .ok (pending', out)) :
    out.map chatStep = messageSteps message ∧ Settles pending (messageSteps message) pending' := by
  obtain ⟨object, rfl,
      ⟨hrole, hconverted, hsettled⟩ | ⟨hrole, hconverted, hregistered⟩ | ⟨hrole, rfl, rfl⟩⟩ :=
    convertMessage_cases h
  · have hsteps := convertUserMessage_steps hconverted hrole
    refine ⟨hsteps, ?_⟩
    rw [← hsteps]
    refine settleToolResults_settles hsettled fun m hm htool => ?_
    have hmem := List.mem_map_of_mem (f := chatStep) hm
    rw [hsteps, chatStep_turn htool] at hmem
    rw [chatStep_turn htool, turn_userSteps hrole hmem]
  · obtain ⟨m, rfl, hassistant, hsteps⟩ := convertAssistantMessage_single hconverted hrole
    obtain ⟨htool, hstep⟩ := chatStep_assistant hassistant
    rw [hsteps, List.map_singleton, hstep]
    exact ⟨rfl, registerToolCalls_settles hregistered htool⟩
  · have hreminder : messageSteps (.obj object) = [.turn []] := by
      unfold messageSteps
      rcases hrole with hrole | hrole <;> rw [hrole] <;> rfl
    rw [hreminder]
    exact ⟨rfl, settles_emptyTurn _⟩

theorem convertMessagesFrom_settles {serde : Serde} {index : Nat}
    {pending pending' : PendingToolUses} {messages out : List Json}
    (h : convertMessagesFrom serde index pending messages = .ok (pending', out)) :
    out.map chatStep = messages.flatMap messageSteps ∧
      Settles pending (messages.flatMap messageSteps) pending' := by
  induction messages generalizing index pending out with
  | nil =>
    cases h
    exact ⟨rfl, settles_nil _⟩
  | cons message messages ih =>
    unfold convertMessagesFrom at h
    obtain ⟨⟨pending₁, converted⟩, hmessage, h⟩ := bind_eq_ok.mp h
    obtain ⟨⟨pending₂, rest⟩, hrest, h⟩ := bind_eq_ok.mp h
    cases h
    obtain ⟨hstep, hsettle⟩ := convertMessage_settles hmessage
    obtain ⟨hsteps, hsettles⟩ := ih hrest
    rw [List.map_append, hstep, hsteps, List.flatMap_cons]
    exact ⟨rfl, hsettle.append hsettles⟩

/-- An accepted history is a settled transcript, the same on both sides of the conversion. -/
theorem convertMessages_settled {serde : Serde} {messages out : List Json}
    (h : convertMessages serde messages = .ok out) :
    out.map chatStep = messages.flatMap messageSteps ∧
      settle [] (messages.flatMap messageSteps) = some [] := by
  unfold convertMessages at h
  obtain ⟨⟨pending, converted⟩, hfrom, h⟩ := bind_eq_ok.mp h
  dsimp only at h
  split at h
  · exact absurd h invalid_ne_ok
  · next hnone =>
    cases h
    obtain ⟨hsteps, opened, hsettle, hperm⟩ := convertMessagesFrom_settles hfrom
    refine ⟨hsteps, ?_⟩
    have hkeys : pending.keys = [] := by
      unfold SortedMap.keys
      rw [hnone, List.map_nil]
    rw [hkeys] at hperm
    rw [List.perm_nil.mp hperm] at hsettle
    exact hsettle

/-- Each tool call of an accepted history is answered in the message after it
exactly when nothing else is said while a result is awaited. -/
theorem convertMessages_answeredAtOnce_iff (serde : Serde) (messages out : List Json)
    (h : convertMessages serde messages = .ok out) :
    ToolsAnsweredAtOnce out ↔ NoTurnWhilePending messages := by
  obtain ⟨hsteps, hsettle⟩ := convertMessages_settled h
  rw [toolsAnsweredAtOnce_iff, hsteps, answeredAtOnce_iff_quietTurns hsettle]
  rfl

def listFilesTurn : Json :=
  .obj [("role", .str "assistant"), ("content", .arr
    [.obj [("type", .str "tool_use"), ("id", .str "t1"), ("name", .str "ls"), ("input", .obj [])]])]

def filesResult : Json :=
  .obj [("role", .str "user"), ("content", .arr
    [.obj [("type", .str "tool_result"), ("tool_use_id", .str "t1"), ("content", .str "a.txt")]])]

def listFilesCall : Json :=
  .obj [("role", .str "assistant"), ("content", .null), ("tool_calls", .arr
    [.obj [("id", .str "t1"), ("type", .str "function"),
      ("function", .obj [("name", .str "ls"), ("arguments", .str "\x7b\x7d")])]])]

def filesTool : Json :=
  .obj [("role", .str "tool"), ("tool_call_id", .str "t1"), ("content", .str "a.txt")]

def waitMessage : Json := .obj [("role", .str "user"), ("content", .str "wait")]

theorem convertMessages_answeredAtOnce_iff_listFiles :
    ToolsAnsweredAtOnce [listFilesCall, filesTool] ↔
      NoTurnWhilePending [listFilesTurn, filesResult] :=
  convertMessages_answeredAtOnce_iff Serde.emptyObject [listFilesTurn, filesResult]
    [listFilesCall, filesTool] rfl

theorem convertMessages_lets_a_turn_interrupt :
    convertMessages Serde.emptyObject [listFilesTurn, waitMessage, filesResult] =
      .ok [listFilesCall, waitMessage, filesTool] ∧
    ¬ ToolsAnsweredAtOnce [listFilesCall, waitMessage, filesTool] := by
  refine ⟨rfl, fun h => ?_⟩
  have hanswers := h [] listFilesCall [waitMessage, filesTool] rfl rfl (by decide)
  exact absurd hanswers (by decide)

end Lobster.Anthropic
