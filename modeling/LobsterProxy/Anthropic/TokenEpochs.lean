import LobsterProxy.Anthropic.History
import LobsterProxy.Base.Members
import LobsterProxy.Deepseek.Canonical

/-! The reasoning epochs of the token estimate, computed on the request, against those of the
wire, computed on the converted body. -/

namespace Lobster.Anthropic
open Conversion Deepseek Leading

def messagesOf (body : Json) : List Json := ((body.get? "messages").bind Json.asArray).getD []

def isThinking (block : Json) : Bool := block.getStr? "type" = some "thinking"

/-- An assistant message that carries a thinking block which meets the condition. -/
def hasThinking (p : Json → Bool) (message : Json) : Bool :=
  isAssistantMessage message &&
    match message.get? "content" with
    | some (.arr blocks) => blocks.any fun block => isThinking block && p block
    | _ => false

def carriesThinking (message : Json) : Bool := hasThinking (fun _ => true) message

def saysThinking (message : Json) : Bool :=
  hasThinking (fun block => (block.getStr? "thinking").isSome) message

/-- A message that is converted to a user message, among others perhaps. -/
def becomesUser (message : Json) : Bool :=
  isHumanMessage message || message.getStrD "role" = "system" ||
    message.getStrD "role" = "developer"

def turnBoundary (messages : List Json) : Nat :=
  (rposition becomesUser messages).getD messages.length

def chatPosition (serde : Serde) (messages : List Json) (i : Nat) : Nat :=
  match convertMessagesFrom serde 0 .empty (messages.take i) with
  | .ok (_, out) => out.length
  | .error _ => 0

def losesThinking (request : Json) (i : Nat) : Bool :=
  (messagesOf (stripAnthropicThinking request).1)[i]?.any fun message => !carriesThinking message

def hasReasoning (message : Json) : Bool := (message.get? "reasoning_content").isSome

def losesReasoning (serde : Serde) (chatBody : Json) (j : Nat) : Bool :=
  (messagesOf chatBody)[j]?.any hasReasoning &&
    (messagesOf (.obj (stripHistoricalReasoning serde (chatBody.asObject.getD [])).1))[j]?.any
      fun message => !hasReasoning message

/-- Each message of the request loses its thinking in the estimate if and only if what it is
converted to loses its reasoning on the wire. -/
def SameEpochs (serde : Serde) (request chatBody : Json) : Prop :=
  ∀ i message, (messagesOf request)[i]? = some message → carriesThinking message = true →
    (losesThinking request i = true ↔
      losesReasoning serde chatBody (chatPosition serde (messagesOf request) i) = true)

/-- No message with thinking stands between the two boundaries, unless it says none and stands
before the one of the wire only; and none that says none stands before that of the estimate. -/
def EpochsAgree (messages : List Json) : Prop :=
  ∀ i message, messages[i]? = some message → carriesThinking message = true →
    (turnBoundary messages ≤ i → humanBoundary messages ≤ i) ∧
      (saysThinking message = true → humanBoundary messages ≤ i → turnBoundary messages ≤ i) ∧
        (saysThinking message = false → humanBoundary messages ≤ i)

section Estimate
variable {request : Json} {messages : List Json} {message : Json} {i : Nat}

theorem messagesOf_eq (h : request.get? "messages" = some (.arr messages)) :
    messagesOf request = messages := by
  unfold messagesOf
  rw [h]
  rfl

theorem messagesOf_stripAnthropicThinking (h : request.get? "messages" = some (.arr messages)) :
    messagesOf (stripAnthropicThinking request).1 =
      mapFirst (fun m => (dropThinking m).1) (humanBoundary messages) messages := by
  obtain ⟨fields, rfl⟩ := Json.obj_of_get? h
  apply messagesOf_eq
  unfold stripAnthropicThinking mapFirst
  rw [h, Option.bind_some, Json.asArray_arr]
  dsimp only
  rw [List.map_map]
  exact Fields.get?_insert_self fields _ _

theorem carriesThinking_dropThinking (message : Json) :
    carriesThinking (dropThinking message).1 = false := by
  unfold dropThinking
  split_ifs with hrole
  · split
    · next blocks hcontent =>
      obtain ⟨fields, rfl⟩ := Json.obj_of_get? hcontent
      have hkept : Json.get? (Json.set (.obj fields) "content"
          (.arr (blocks.filter fun block => block.getStr? "type" ≠ some "thinking"))) "content" =
            some (.arr (blocks.filter fun block => block.getStr? "type" ≠ some "thinking")) :=
        Fields.get?_insert_self fields _ _
      unfold carriesThinking hasThinking
      rw [hkept]
      simp [isThinking]
    · next hcontent =>
      unfold carriesThinking hasThinking
      split
      · next blocks hblocks => exact absurd hblocks (hcontent blocks)
      · exact Bool.and_false _
  · unfold carriesThinking hasThinking
    rw [Bool.eq_false_iff.mpr hrole, Bool.false_and]

theorem losesThinking_iff (h : request.get? "messages" = some (.arr messages))
    (hmessage : messages[i]? = some message)
    (hthinks : carriesThinking message = true) : losesThinking request i = true ↔
      i < humanBoundary messages := by
  unfold losesThinking
  rw [messagesOf_stripAnthropicThinking h, getElem?_mapFirst, hmessage]
  split_ifs with hi
  · simp [carriesThinking_dropThinking, hi]
  · simp [hthinks, hi]

end Estimate

section Wire
variable {serde : Serde} {fields : Fields} {conversation : List Json} {message : Json} {j : Nat}

theorem hasReasoning_stripReasoning (serde : Serde) (hrole : isAssistantMessage message = true)
    (hdistinct : ∀ fields, message = .obj fields → Fields.Distinct fields) :
    hasReasoning (stripReasoning serde message).1 = false := by
  unfold hasReasoning
  rw [get?_stripReasoning serde hdistinct, if_pos ⟨hrole, rfl⟩]
  rfl

theorem losesReasoning_iff (serde : Serde)
    (h : Fields.get? fields "messages" = some (.arr conversation))
    (hmessage : conversation[j]? = some message) (hrole : isAssistantMessage message = true)
    (hdistinct : ∀ fields, message = .obj fields → Fields.Distinct fields) :
    losesReasoning serde (.obj fields) j = true ↔
      hasReasoning message = true ∧ j < reasoningEpochBoundary conversation := by
  have hbody : messagesOf (.obj fields) = conversation := messagesOf_eq h
  have hstripped : messagesOf (.obj (stripHistoricalReasoning serde fields).1) =
      strippedMessages serde conversation :=
    messagesOf_eq (get?_stripHistoricalReasoning serde h)
  unfold losesReasoning
  rw [hbody, Json.asObject_obj, Option.getD_some, hstripped, strippedMessages, getElem?_mapFirst,
    hmessage]
  split_ifs with hj
  · simp [hasReasoning_stripReasoning serde hrole hdistinct, hj]
  · simp [hj]

end Wire

section Converted
variable {serde : Serde} {index : Nat} {pending pending' : PendingToolUses} {message : Json}
    {messages out : List Json}

theorem getStr?_of_getStrD {v : Json} {key text : String} (h : v.getStrD key = text)
    (hne : text ≠ "") :
    v.getStr? key = some text := by
  unfold Json.getStrD at h
  cases hread : v.getStr? key with
  | none =>
    rw [hread] at h
    exact absurd h.symm hne
  | some read =>
    rw [hread] at h
    exact congrArg some h

theorem isHumanMessage_of_user {m : Json}
    (h : convertMessage serde index pending message = .ok (pending', out))
    (hrole : message.getStrD "role" = "user") (hm : m ∈ out) (huser : isUserMessage m = true) :
    isHumanMessage message = true := by
  have htool : isToolMessage m = false := by
    unfold isUserMessage at huser
    unfold isToolMessage
    rw [of_decide_eq_true huser]
    decide
  have hstep : chatStep m ∈ messageSteps message := by
    rw [← (convertMessage_settles h).1]
    exact List.mem_map_of_mem hm
  rw [chatStep_turn htool] at hstep
  unfold messageSteps at hstep
  unfold isHumanMessage
  obtain ⟨object, rfl, hconverted⟩ := convertMessage_user h hrole
  rcases convertUserMessage_cases hconverted with ⟨text, hcontent, -⟩ |
    ⟨blocks, parts, hcontent, -, -⟩
  · simp [hrole, hcontent]
  · rw [hrole, Json.get?_obj, hcontent] at hstep
    rcases List.mem_append.mp hstep with hanswer | hturn
    · obtain ⟨id, -, hid⟩ := List.mem_map.mp hanswer
      cases hid
    · by_cases hhuman : blocks.any isHumanContent = true
      · simp [hrole, hcontent, hhuman]
      · rw [if_neg hhuman] at hturn
        cases hturn

/-- A message is converted to a user message if a human has written it or it is a reminder. -/
theorem user_iff (h : convertMessage serde index pending message = .ok (pending', out)) :
    (∃ m ∈ out, isUserMessage m = true) ↔ becomesUser message = true := by
  unfold becomesUser
  obtain ⟨object, rfl, ⟨hrole, -, -⟩ | ⟨hrole, hconverted, -⟩ | ⟨hrole, -, rfl⟩⟩ :=
    convertMessage_cases h
  · constructor
    · rintro ⟨m, hm, huser⟩
      simp [isHumanMessage_of_user h hrole hm huser]
    · intro hbecomes
      have hhuman : isHumanMessage (.obj object) = true := by simpa [hrole] using hbecomes
      exact user_of_human h hhuman
  · obtain ⟨only, rfl, hassistant, -⟩ := convertAssistantMessage_single hconverted hrole
    simp [isUserMessage, hassistant, isHumanMessage, hrole]
  · have hreminds : isUserMessage (systemReminder object) = true := rfl
    rcases hrole with hrole | hrole <;> simp [hrole, hreminds]

theorem users_iff (h : convertMessagesFrom serde index pending messages = .ok (pending', out)) :
    (∃ m ∈ out, isUserMessage m = true) ↔ ∃ m ∈ messages, becomesUser m = true := by
  induction messages generalizing index pending out with
  | nil =>
    cases h
    simp
  | cons message messages ih =>
    rw [convertMessagesFrom] at h
    obtain ⟨⟨next, said⟩, hmessage, h⟩ := bind_eq_ok.mp h
    obtain ⟨⟨last, rest⟩, hrest, h⟩ := bind_eq_ok.mp h
    cases h
    have hfirst := user_iff hmessage
    have hothers := ih hrest
    simp only [List.mem_append, or_and_right, exists_or, List.mem_cons, exists_eq_left]
      at hfirst hothers ⊢
    rw [hfirst, hothers]

theorem hasReasoning_intoMessage (segment : Segment) :
    hasReasoning segment.intoMessage = !segment.reasoningParts.isEmpty := by
  have hbare (content : Json) :
      Fields.get? [("role", .str "assistant"), ("content", content)] "reasoning_content" = none :=
        rfl
  unfold hasReasoning Segment.intoMessage
  dsimp only
  rw [Json.get?_obj, Fields.get?_insertSome_ne _ _ (by decide), Fields.get?_insertSome_self, hbare]
  cases segment.reasoningParts <;> rfl

theorem distinct_intoMessage (segment : Segment) :
    ∃ fields, segment.intoMessage = .obj fields ∧ Fields.Distinct fields := by
  have hbare (content : Json) :
      Fields.Distinct [("role", .str "assistant"), ("content", content)] := by
    unfold Fields.Distinct
    simp
  refine ⟨_, rfl, ?_⟩
  exact ((hbare _).insertSome _ _).insertSome _ _

theorem get?_cleanBlock {block : Json} {key : String} (h : block.distinct = true)
    (hcache : "cache_control" ≠ key)
    (hcitations : "citations" ≠ key) : (cleanBlock block).get? key = block.get? key := by
  cases block with
  | obj fields =>
    have hfields := Json.distinct_obj h
    show Fields.get? (Fields.swapRemove "citations" (Fields.swapRemove "cache_control" fields))
      key = _
    rw [Fields.get?_swapRemove (hfields.swapRemove _), if_neg hcitations,
      Fields.get?_swapRemove hfields, if_neg hcache]
    rfl
  | _ => rfl

theorem reasoning?_of_block {block : Json} {part : AssistantPart}
    (hdistinct : block.distinct = true) (h : convertAssistantBlock serde index block = .ok part) :
    part.reasoning?.isSome = (isThinking block && (block.getStr? "thinking").isSome) := by
  have hkind : (cleanBlock block).getStr? "type" = block.getStr? "type" := by
    unfold Json.getStr?
    rw [get?_cleanBlock hdistinct (by decide) (by decide)]
  have hthinking : (cleanBlock block).getStr? "thinking" = block.getStr? "thinking" := by
    unfold Json.getStr?
    rw [get?_cleanBlock hdistinct (by decide) (by decide)]
  unfold convertAssistantBlock at h
  unfold isThinking
  rw [← hkind, ← hthinking]
  dsimp only at h
  generalize cleanBlock block = cleaned at h ⊢
  split at h
  case h_1 hread =>
    cases h
    simp [getStr?_of_getStrD hread (by decide), AssistantPart.reasoning?]
  case h_2 hread =>
    cases h
    rw [getStr?_of_getStrD hread (by decide)]
    cases cleaned.getStr? "thinking" with
    | none => rfl
    | some text => rfl
  case h_3 hread =>
    cases h
    simp [getStr?_of_getStrD hread (by decide), AssistantPart.reasoning?]
  case h_4 hread =>
    obtain ⟨id, -, h⟩ := bind_eq_ok.mp h
    obtain ⟨name, -, h⟩ := bind_eq_ok.mp h
    split at h
    · cases h
      simp [getStr?_of_getStrD hread (by decide), AssistantPart.reasoning?]
    · exact absurd h invalid_ne_ok
  case h_5 => exact absurd h invalid_ne_ok

theorem reasoning_of_blocks {blocks : List Json} {parts : List AssistantPart}
    (hdistinct : ∀ block ∈ blocks, block.distinct = true)
    (h : List.Forall₂ (fun block part => convertAssistantBlock serde index block = .ok part)
      blocks parts) :
    (!(parts.filterMap AssistantPart.reasoning?).isEmpty) =
      blocks.any fun block => isThinking block && (block.getStr? "thinking").isSome := by
  induction h with
  | nil => rfl
  | cons hblock _ ih =>
    obtain ⟨hfirst, hrest⟩ := List.forall_mem_cons.mp hdistinct
    rw [List.any_cons, ← reasoning?_of_block hfirst hblock, ← ih hrest, List.filterMap_cons]
    split
    · next hnone => simp [hnone]
    · next hsome => simp [hsome]

theorem convertAssistantMessage_thinking {object : Fields} {blocks : List Json}
    (h : convertAssistantMessage serde object index = .ok out)
      (hcontent : object.get? "content" = some (.arr blocks))
    (hdistinct : ∀ block ∈ blocks, block.distinct = true) :
    ∃ fields, out = [.obj fields] ∧ isAssistantMessage (.obj fields) = true ∧
      Fields.Distinct fields ∧
      hasReasoning (.obj fields) = blocks.any fun block =>
        isThinking block && (block.getStr? "thinking").isSome := by
  obtain ⟨text, htext, -⟩ | ⟨_, parts, hblocks, hparts, rfl⟩ := convertAssistantMessage_cases h
  · rw [hcontent] at htext
    cases htext
  rw [hcontent] at hblocks
  cases hblocks
  rw [← reasoning_of_blocks hdistinct hparts]
  split_ifs with hempty
  · have hnone : (Segment.ofParts parts).reasoningParts.isEmpty = true := by
      unfold Segment.isEmpty at hempty
      exact (Bool.and_eq_true_iff.mp (Bool.and_eq_true_iff.mp hempty).1).2
    refine ⟨_, rfl, rfl, ?_, ?_⟩
    · unfold Fields.Distinct
      simp
    · rw [show parts.filterMap AssistantPart.reasoning? =
        (Segment.ofParts parts).reasoningParts from rfl, hnone]
      rfl
  · obtain ⟨fields, hfields, hnodup⟩ := distinct_intoMessage (Segment.ofParts parts)
    have hrole := role_intoMessage (Segment.ofParts parts)
    have hhas := hasReasoning_intoMessage (Segment.ofParts parts)
    rw [hfields] at hrole hhas
    refine ⟨fields, by rw [hfields], ?_, hnodup, hhas⟩
    unfold isAssistantMessage
    rw [hrole]
    rfl

theorem convertMessage_thinking
    (h : convertMessage serde index pending message = .ok (pending', out))
    (hdistinct : message.distinct = true) (hthinks : carriesThinking message = true) :
    ∃ fields, out = [.obj fields] ∧ isAssistantMessage (.obj fields) = true ∧
      Fields.Distinct fields ∧
      hasReasoning (.obj fields) = saysThinking message := by
  unfold carriesThinking hasThinking at hthinks
  obtain ⟨hrole, hblocks⟩ := Bool.and_eq_true_iff.mp hthinks
  have hassistant : message.getStrD "role" = "assistant" := by
    unfold Json.getStrD
    rw [of_decide_eq_true hrole]
    rfl
  obtain ⟨object, rfl, hconverted⟩ := convertMessage_assistant h hassistant
  unfold saysThinking hasThinking
  rw [hrole, Bool.true_and]
  cases hcontent : (Json.obj object).get? "content" with
  | none =>
    rw [hcontent] at hblocks
    cases hblocks
  | some content =>
    rw [hcontent] at hblocks
    cases content with
    | arr blocks =>
      have harray := Json.distinct_of_get? hdistinct hcontent
      exact convertAssistantMessage_thinking hconverted hcontent
        fun block => Json.distinct_of_mem harray
    | _ => cases hblocks

end Converted

section Epochs
variable {serde : Serde} {messages conversation : List Json} {message : Json} {i : Nat}

theorem not_becomesUser_of_thinking (h : carriesThinking message = true) :
    becomesUser message = false := by
  unfold carriesThinking hasThinking at h
  have hrole := of_decide_eq_true (Bool.and_eq_true_iff.mp h).1
  have hassistant : message.getStrD "role" = "assistant" := by
    unfold Json.getStrD
    rw [hrole]
    rfl
  unfold becomesUser isHumanMessage
  simp [hassistant]

/-- A conversion splits at each message: what comes before it takes up the places up to its own. -/
theorem convertMessages_around (h : convertMessages serde messages = .ok conversation)
    (hmessage : messages[i]? = some message) :
    ∃ earlier later between before next said last after, messages = earlier ++ message :: later ∧
      convertMessage serde i between message = .ok (next, said) ∧
      convertMessagesFrom serde (i + 1) next later = .ok (last, after) ∧
      conversation = before ++ (said ++ after) ∧ chatPosition serde messages i = before.length ∧
      earlier.length = i := by
  obtain ⟨hi, hget⟩ := List.getElem?_eq_some_iff.mp hmessage
  have hsplit : messages = messages.take i ++ message :: messages.drop (i + 1) := by
    rw [← hget]
    simp
  have hlength : (messages.take i).length = i := by
    rw [List.length_take]
    omega
  have hall := convertMessages_eq_ok.mp h
  rw [hsplit] at hall
  obtain ⟨between, before, rest, hbefore, hrest, rfl⟩ := convertMessagesFrom_append.mp hall
  rw [convertMessagesFrom, hlength, Nat.zero_add] at hrest
  obtain ⟨⟨next, said⟩, hsaid, hrest⟩ := bind_eq_ok.mp hrest
  obtain ⟨⟨last, after⟩, hafter, hrest⟩ := bind_eq_ok.mp hrest
  cases hrest
  refine ⟨_, _, between, before, next, said, _, after, hsplit, hsaid, hafter, rfl, ?_, hlength⟩
  unfold chatPosition
  rw [hbefore]

theorem position_of_thinking (h : convertMessages serde messages = .ok conversation)
    (hmessage : messages[i]? = some message) (hdistinct : message.distinct = true)
    (hthinks : carriesThinking message = true) :
    ∃ fields, conversation[chatPosition serde messages i]? = some (.obj fields) ∧
      isAssistantMessage (.obj fields) = true ∧ Fields.Distinct fields ∧
      hasReasoning (.obj fields) = saysThinking message ∧
      (chatPosition serde messages i < reasoningEpochBoundary conversation ↔
        i < turnBoundary messages) := by
  have hall := convertMessages_eq_ok.mp h
  obtain ⟨earlier, later, between, before, next, said, last, after, rfl, hsaid, hafter, rfl,
      hposition, rfl⟩ :=
    convertMessages_around h hmessage
  obtain ⟨fields, rfl, hrole, hnodup, hreasoning⟩ := convertMessage_thinking hsaid hdistinct hthinks
  have huser : isUserMessage (.obj fields) = false := by
    unfold isAssistantMessage at hrole
    unfold isUserMessage
    rw [of_decide_eq_true hrole]
    decide
  have hnone : (∀ m ∈ before ++ .obj fields :: after, isUserMessage m = false) ↔
      ∀ m ∈ earlier ++ message :: later, becomesUser m = false := by
    have hsome := not_congr (users_iff hall)
    push Not at hsome
    simpa only [ne_eq, Bool.not_eq_true, List.singleton_append] using hsome
  refine ⟨fields, ?_, hrole, hnodup, hreasoning, ?_⟩
  · rw [hposition]
    simp
  · rw [hposition]
    unfold reasoningEpochBoundary turnBoundary
    rw [lt_rposition_iff (not_becomesUser_of_thinking hthinks), ← users_iff hafter, ← hnone]
    exact lt_rposition_iff huser

/-- The estimate sees the epochs of the wire exactly when the two boundaries agree on the
messages with thinking. -/
theorem sameEpochs_iff (serde : Serde) (defaultModel : String) {request : Json}
    {converted : Converted} (hdistinct : request.distinct = true)
    (h : convertRequest serde defaultModel request = .ok converted) :
    SameEpochs serde request converted.chatBody ↔ EpochsAgree (messagesOf request) := by
  obtain ⟨messages, conversation, hmessages, hconverted, hbody⟩ := convertRequest_messages h
  obtain ⟨fields, hfields⟩ := Json.obj_of_get? hbody
  have harray := Json.distinct_of_get? hdistinct hmessages
  rw [hfields] at hbody ⊢
  unfold SameEpochs EpochsAgree
  rw [messagesOf_eq hmessages]
  refine forall_congr' fun i => forall_congr' fun message => forall_congr' fun hmessage =>
    forall_congr' fun hthinks => ?_
  have hmem := List.mem_of_getElem? hmessage
  obtain ⟨chat, hchat, hrole, hnodup, hreasoning, hside⟩ :=
    position_of_thinking hconverted hmessage (Json.distinct_of_mem harray hmem) hthinks
  rw [losesThinking_iff hmessages hmessage hthinks, losesReasoning_iff serde hbody hchat hrole
    (fun other hother => by cases hother; exact hnodup), hreasoning, hside]
  cases saysThinking message with
  | true =>
    simp only [true_and, forall_const, Bool.true_eq_false, false_implies, and_true]
    omega
  | false =>
    simp only [Bool.false_eq_true, false_and, iff_false, Nat.not_lt, false_implies, true_and,
      forall_const]
    omega

end Epochs

section Cases

def userText (text : String) : Json := .obj [("role", .str "user"), ("content", .str text)]

def thought : Json := .obj [("role", .str "assistant"), ("content", .arr [
  .obj [("type", .str "thinking"), ("thinking", .str "why"), ("signature", .str "")],
  .obj [("type", .str "text"), ("text", .str "so")]])]

def thoughtRequest (next : String) : Json :=
  .obj
    [("max_tokens", .num (.posInt 8)), ("messages", .arr [userText "hi", thought, userText next])]

def thoughtConverted (next : String) : Converted where
  chatBody :=
    .obj [("model", .str "m"), ("max_tokens", .num (.posInt 8)), ("messages", .arr [userText "hi",
    .obj [("role", .str "assistant"), ("content", .str "so"), ("reasoning_content", .str "why")],
    userText next])]
  thinkingRequested := false
  clientModel := none

theorem sameEpochs_iff_thought : SameEpochs .emptyObject (thoughtRequest "on")
    (thoughtConverted "on").chatBody ↔
    EpochsAgree (messagesOf (thoughtRequest "on")) :=
  sameEpochs_iff .emptyObject "m" (by decide +kernel)
    (show convertRequest .emptyObject "m" (thoughtRequest "on") =
    .ok (thoughtConverted "on") from rfl)

/-- A user message without text is a turn of the conversation, and none for the estimate. -/
theorem not_sameEpochs_emptyTurn :
    ¬ ∀ (serde : Serde) (defaultModel : String) (request : Json) (converted : Converted),
      request.distinct = true → convertRequest serde defaultModel request = .ok converted →
        SameEpochs serde request converted.chatBody := by
  intro h
  have hsame :=
    h .emptyObject "m" (thoughtRequest "") (thoughtConverted "")
      (by decide +kernel) rfl 1 thought rfl
    (by decide +kernel)
  exact absurd hsame (by decide +kernel)

end Cases

end Lobster.Anthropic
