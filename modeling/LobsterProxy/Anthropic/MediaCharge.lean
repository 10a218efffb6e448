import LobsterProxy.Anthropic.Represented
import LobsterProxy.Deepseek.Estimate

/-! The token estimate against the media that the conversion forwards: the images and documents
of a user are charged one by one, those inside tool results are not. -/

namespace Lobster.Anthropic
open Conversion Deepseek Leading

def contentParts (message : Json) : List Json :=
  ((message.get? "content").bind Json.asArray).getD []

def isMediaPart (part : Json) : Bool :=
  part.getStr? "type" = some "image_url" || part.getStr? "type" = some "file"

/-- The images and files of a chat body, wherever they stand in it. -/
def mediaParts (chatBody : Json) : Nat :=
  ((messagesOf chatBody).flatMap contentParts).countP isMediaPart

def isMedia (block : Json) : Bool :=
  block.getStr? "type" = some "image" || block.getStr? "type" = some "document"

def userBlocks (message : Json) : List Json := (userBlocks? message).getD []

def resultElements (block : Json) : List Json :=
  if block.getStr? "type" = some "tool_result" then contentParts block else []

def ownMedia (messages : List Json) : Nat := (messages.flatMap userBlocks).countP isMedia

def resultMedia (messages : List Json) : Nat :=
  ((messages.flatMap userBlocks).flatMap resultElements).countP isMedia

/-- What a message is charged for, apart from what its user shows. -/
def otherTokensOf (serde : Serde) (message : Json) : Nat :=
  match userBlocks? message with
  | some blocks => ((blocks.filter fun block => !isMedia block).map (estimateBlockTokens serde)).sum
  | none => estimateMessageTokens serde message

/-- What a request is charged for, apart from what its users show. -/
def otherTokens (serde : Serde) (request : Json) : Nat :=
  16 + contentTokens (request.get? "system") +
    ((messagesOf request).map fun message => 8 + otherTokensOf serde message).sum +
    estimateToolsTokens serde request + budgetTokens request

/-- The request as `count_tokens` hands it to the estimate. -/
def countedRequest (request : Json) : Json :=
  (stripAnthropicThinking (stripBillingInAnthropicSystem request)).1

section Parts
variable {serde : Serde} {index : Nat} {block : Json}

theorem isMediaPart_image {part : Json} (h : convertImageBlock block index = .ok part) :
    isMediaPart part = true := by
  unfold convertImageBlock at h
  obtain ⟨source, -, h⟩ := bind_eq_ok.mp h
  obtain ⟨url, -, h⟩ := bind_eq_ok.mp h
  cases h
  rfl

theorem isMediaPart_document {part : Json} (h : convertDocumentBlock serde block index = .ok part) :
    isMediaPart part = true := by
  unfold convertDocumentBlock at h
  obtain ⟨source, -, h⟩ := bind_eq_ok.mp h
  obtain ⟨data, -, h⟩ := bind_eq_ok.mp h
  cases h
  rfl

theorem media_of_element {element : Json} {share : List String × List Json}
    (hdistinct : element.distinct = true)
    (h : convertToolResultPart serde index element = .ok share) :
    share.2.countP isMediaPart = [element].countP isMedia := by
  have hkinds := convertToolResultPart_kinds h
  rw [getStr?_cleanBlock hdistinct (by decide) (by decide)] at hkinds
  rcases hkinds with ⟨hkind, rfl⟩ | ⟨hkind, image, himage, rfl⟩ | ⟨hkind, file, hfile, rfl⟩ |
    ⟨hkind, rfl⟩ | ⟨hkind, rfl⟩ | ⟨hkind, rfl⟩
  · simp [isMedia, hkind]
  · simp [isMedia, hkind, isMediaPart_image himage]
  · simp [isMedia, hkind, isMediaPart_document hfile]
  · simp [isMedia, hkind]
  · simp [isMedia, hkind]
  · simp [isMedia, hkind]

theorem media_of_elements {elements : List Json} {shares : List (List String × List Json)}
    (hdistinct : ∀ element ∈ elements, element.distinct = true)
    (h : List.Forall₂ (fun element share => convertToolResultPart serde index element = .ok share)
      elements shares) :
    (shares.flatMap Prod.snd).countP isMediaPart = elements.countP isMedia := by
  induction h with
  | nil => rfl
  | cons helement _ ih =>
    obtain ⟨hfirst, hrest⟩ := List.forall_mem_cons.mp hdistinct
    rw [List.flatMap_cons, List.countP_append, media_of_element hfirst helement, ih hrest,
      ← List.countP_append]
    rfl

theorem media_toolResultContent (texts : List String) (images : List Json) :
    (((toolResultContent texts images).asArray).getD []).countP isMediaPart =
      images.countP isMediaPart := by
  unfold toolResultContent
  split_ifs with hnone htexts
  · rw [List.isEmpty_iff.mp hnone]
    rfl
  · rfl
  · simp [isMediaPart, Json.getStr?, Fields.get?_cons]

theorem media_of_toolResult {message : Json} (hdistinct : block.distinct = true)
    (h : convertToolResult serde (cleanBlock block) index = .ok message) :
    (contentParts message).countP isMediaPart = (contentParts block).countP isMedia := by
  unfold convertToolResult at h
  obtain ⟨id, -, h⟩ := bind_eq_ok.mp h
  obtain ⟨content, hcontent, h⟩ := bind_eq_ok.mp h
  cases h
  rw [get?_cleanBlock hdistinct (by decide) (by decide)] at hcontent
  show (content.asArray.getD []).countP isMediaPart = _
  unfold contentParts
  unfold convertToolResultContent at hcontent
  split at hcontent
  · next hread =>
    cases hcontent
    rw [hread]
    rfl
  · next hread =>
    cases hcontent
    rw [hread]
    rfl
  · next text hread =>
    cases hcontent
    rw [hread]
    rfl
  · next elements hread =>
    obtain ⟨shares, hshares, hcontent⟩ := bind_eq_ok.mp hcontent
    cases hcontent
    rw [hread, Option.bind_some, Json.asArray_arr, Option.getD_some, media_toolResultContent]
    exact media_of_elements
      (fun element => Json.distinct_of_mem (Json.distinct_of_get? hdistinct hread))
      (mapM_eq_ok.mp hshares)
  · exact absurd hcontent invalid_ne_ok

def UserPart.shown : UserPart → List Json
  | nothing => []
  | ordinary part => [part]
  | toolMessage message => contentParts message

theorem media_of_block {part : UserPart} (hdistinct : block.distinct = true)
    (h : convertUserBlock serde index block = .ok part) :
    part.shown.countP isMediaPart = [block].countP isMedia +
      (resultElements block).countP isMedia := by
  have hkinds := convertUserBlock_kinds h
  rw [getStrD_cleanBlock hdistinct (by decide) (by decide)] at hkinds
  unfold resultElements
  rcases hkinds with
    ⟨hread, rfl⟩ | ⟨hread, image, himage, rfl⟩ | ⟨hread, file, hfile, rfl⟩ | ⟨hread, message,
      hmessage, rfl⟩
  all_goals have hkind := getStr?_of_getStrD hread (by decide)
  · have htext (text : String) : isMediaPart (.obj [("type", .str "text"), ("text", .str text)]) =
        false := rfl
    have hnone : [block].countP isMedia = 0 := by simp [isMedia, hkind]
    have hother : block.getStr? "type" ≠ some "tool_result" := by
      rw [hkind]
      decide
    rw [hnone, if_neg hother]
    split_ifs
    · rfl
    · simp [UserPart.shown, htext]
  · simp [UserPart.shown, isMedia, hkind, isMediaPart_image himage]
  · simp [UserPart.shown, isMedia, hkind, isMediaPart_document hfile]
  · rw [if_pos hkind]
    show (contentParts message).countP isMediaPart = _
    simp [media_of_toolResult hdistinct hmessage, isMedia, hkind]

theorem media_of_blocks {blocks : List Json} {parts : List UserPart}
    (hdistinct : ∀ block ∈ blocks, block.distinct = true)
    (h : List.Forall₂ (fun block part => convertUserBlock serde index block = .ok part)
      blocks parts) :
    (parts.flatMap UserPart.shown).countP isMediaPart =
      blocks.countP isMedia + (blocks.flatMap resultElements).countP isMedia := by
  induction h with
  | nil => rfl
  | @cons block part blocks parts hblock _ ih =>
    obtain ⟨hfirst, hrest⟩ := List.forall_mem_cons.mp hdistinct
    have hsplit : (block :: blocks).countP isMedia =
        [block].countP isMedia + blocks.countP isMedia := by
      rw [← List.countP_append]
      rfl
    rw [List.flatMap_cons, List.flatMap_cons, List.countP_append, List.countP_append,
      media_of_block hfirst hblock, ih hrest, hsplit]
    omega

theorem media_ordinaryMessage (parts : List Json) :
    ((ordinaryMessage parts).flatMap contentParts).countP isMediaPart =
      parts.countP isMediaPart := by
  unfold ordinaryMessage
  split
  · rfl
  · next part =>
    split_ifs with htext
    · have hnone : isMediaPart part = false := by
        unfold isMediaPart
        rw [htext]
        decide
      rw [List.countP_cons, hnone]
      rfl
    · rfl
  · simp [contentParts, Fields.get?_cons]

theorem media_of_parts (parts : List UserPart) :
    ((parts.filterMap UserPart.toolMessage?).flatMap contentParts).countP isMediaPart +
      (parts.filterMap UserPart.ordinary?).countP isMediaPart =
        (parts.flatMap UserPart.shown).countP isMediaPart := by
  induction parts with
  | nil => rfl
  | cons part parts ih =>
    rw [List.flatMap_cons, List.countP_append, ← ih]
    cases part with
    | nothing =>
      simp only [UserPart.shown, UserPart.toolMessage?, UserPart.ordinary?, List.filterMap_cons,
        List.countP_nil]
      omega
    | ordinary shown =>
      simp only [UserPart.shown, UserPart.toolMessage?, UserPart.ordinary?, List.filterMap_cons,
        List.countP_cons, List.countP_nil]
      omega
    | toolMessage message =>
      simp only [UserPart.shown, UserPart.toolMessage?, UserPart.ordinary?, List.filterMap_cons,
        List.flatMap_cons, List.countP_append]
      omega

end Parts

section Messages
variable {serde : Serde} {index : Nat} {pending pending' : PendingToolUses} {message : Json}
    {messages out : List Json}

theorem media_of_user {object : Fields} (hdistinct : (Json.obj object).distinct = true)
    (hrole : (Json.obj object).getStrD "role" = "user")
      (h : convertUserMessage serde object index = .ok out) :
    (out.flatMap contentParts).countP isMediaPart =
      (userBlocks (.obj object)).countP isMedia +
        ((userBlocks (.obj object)).flatMap resultElements).countP isMedia := by
  unfold userBlocks userBlocks?
  rw [if_pos hrole, Json.get?_obj]
  rcases convertUserMessage_cases h with ⟨text, hcontent, rfl⟩ |
    ⟨blocks, parts, hcontent, hparts, rfl⟩
  · rw [hcontent]
    rfl
  · rw [hcontent, List.flatMap_append, List.countP_append, media_ordinaryMessage, media_of_parts]
    have hblocks := Json.distinct_of_get? hdistinct hcontent
    exact media_of_blocks (fun block => Json.distinct_of_mem hblocks) hparts

theorem contentParts_of_assistant {object : Fields}
    (h : convertAssistantMessage serde object index = .ok out) :
    out.flatMap contentParts = [] := by
  rcases convertAssistantMessage_cases h with ⟨text, -, rfl⟩ | ⟨blocks, parts, -, -, rfl⟩
  · rfl
  · split_ifs
    · rfl
    · rw [List.flatMap_cons, contentParts, content_intoMessage]
      split_ifs <;> rfl

theorem userBlocks_of_role (h : message.getStrD "role" ≠ "user") : userBlocks message = [] := by
  unfold userBlocks userBlocks?
  rw [if_neg h]
  rfl

theorem media_of_message (hdistinct : message.distinct = true)
    (h : convertMessage serde index pending message = .ok (pending', out)) :
    (out.flatMap contentParts).countP isMediaPart =
      (userBlocks message).countP isMedia + ((userBlocks message).flatMap resultElements).countP
        isMedia := by
  obtain ⟨object, rfl, ⟨hrole, hconverted, -⟩ | ⟨hrole, hconverted, -⟩ | ⟨hrole, -, rfl⟩⟩ :=
    convertMessage_cases h
  · exact media_of_user hdistinct hrole hconverted
  · rw [contentParts_of_assistant hconverted, userBlocks_of_role (by rw [hrole]; decide)]
    rfl
  · have hother : (Json.obj object).getStrD "role" ≠ "user" := by
      rcases hrole with hrole | hrole <;> rw [hrole] <;> decide
    rw [userBlocks_of_role hother]
    rfl

/-- The conversion forwards the media of the users and of the tool results, and no others. -/
theorem media_of_messages (hdistinct : ∀ message ∈ messages, message.distinct = true)
    (h : convertMessagesFrom serde index pending messages = .ok (pending', out)) :
    (out.flatMap contentParts).countP isMediaPart = ownMedia messages + resultMedia messages := by
  induction messages generalizing index pending out with
  | nil =>
    cases h
    rfl
  | cons message messages ih =>
    obtain ⟨hfirst, hrest⟩ := List.forall_mem_cons.mp hdistinct
    rw [convertMessagesFrom] at h
    obtain ⟨⟨next, said⟩, hmessage, h⟩ := bind_eq_ok.mp h
    obtain ⟨⟨last, rest⟩, hlater, h⟩ := bind_eq_ok.mp h
    cases h
    rw [List.flatMap_append, List.countP_append, media_of_message hfirst hmessage, ih hrest hlater]
    simp only [ownMedia, resultMedia, List.flatMap_cons, List.flatMap_append, List.countP_append]
    omega

end Messages

section Charge
variable {serde : Serde} {request : Json} {message : Json} {messages : List Json}

theorem estimateBlockTokens_media {block : Json} (h : isMedia block = true) :
    estimateBlockTokens serde block = 1024 := by
  unfold isMedia at h
  unfold estimateBlockTokens Json.getStrD
  rcases Bool.or_eq_true_iff.mp h with hkind | hkind
  all_goals
    rw [of_decide_eq_true hkind]
    rfl

theorem charge_of_blocks (blocks : List Json) : (blocks.map (estimateBlockTokens serde)).sum =
    1024 * blocks.countP isMedia +
      ((blocks.filter fun block => !isMedia block).map (estimateBlockTokens serde)).sum := by
  induction blocks with
  | nil => rfl
  | cons block blocks ih =>
    rw [List.map_cons, List.sum_cons, List.countP_cons, List.filter_cons, ih]
    cases hmedia : isMedia block with
    | true =>
      rw [estimateBlockTokens_media hmedia]
      simp only [Bool.not_true, Bool.false_eq_true, if_false, if_true]
      omega
    | false =>
      simp only [Bool.not_false, Bool.false_eq_true, if_false, if_true, List.map_cons,
        List.sum_cons]
      omega

theorem charge_of_message (serde : Serde) (message : Json) : estimateMessageTokens serde message =
    1024 * (userBlocks message).countP isMedia + otherTokensOf serde message := by
  unfold userBlocks otherTokensOf
  cases hblocks : userBlocks? message with
  | none => simp
  | some blocks =>
    rw [Option.getD_some, ← charge_of_blocks]
    unfold userBlocks? at hblocks
    split_ifs at hblocks
    obtain ⟨content, hcontent, harray⟩ := Option.bind_eq_some_iff.mp hblocks
    obtain rfl := Json.asArray_eq_some.mp harray
    unfold estimateMessageTokens
    rw [hcontent]

theorem charge_of_messages (serde : Serde) (messages : List Json) :
    (messages.map fun message => 8 + estimateMessageTokens serde message).sum =
      1024 * ownMedia messages +
        (messages.map fun message => 8 + otherTokensOf serde message).sum := by
  unfold ownMedia
  induction messages with
  | nil => rfl
  | cons message messages ih =>
    rw [List.map_cons, List.sum_cons, List.map_cons, List.sum_cons, ih, List.flatMap_cons,
      List.countP_append, charge_of_message]
    omega

theorem estimate_eq (serde : Serde) (request : Json) : estimateAnthropicTokens serde request =
    1024 * ownMedia (messagesOf request) + otherTokens serde request := by
  have hmessages := charge_of_messages serde (messagesOf request)
  unfold messagesOf at hmessages
  unfold estimateAnthropicTokens otherTokens messagesOf
  rw [hmessages]
  omega

theorem userBlocks_dropThinking (message : Json) :
    userBlocks (dropThinking message).1 = userBlocks message := by
  unfold dropThinking
  split_ifs with hrole
  · split
    · next blocks hcontent =>
      obtain ⟨fields, rfl⟩ := Json.obj_of_get? hcontent
      have hassistant : (Json.obj fields).getStrD "role" = "assistant" := by
        unfold Json.getStrD
        rw [of_decide_eq_true hrole]
        rfl
      have hsame (content : Json) : (Json.set (.obj fields) "content" content).getStrD "role" =
          "assistant" := by
        rw [← hassistant]
        unfold Json.getStrD Json.getStr?
        show ((Fields.get? (Fields.insert "content" content fields) "role").bind _).getD _ = _
        rw [Fields.get?_insert_ne _ _ (by decide)]
        rfl
      rw [userBlocks_of_role (by rw [hsame]; decide), userBlocks_of_role
        (by rw [hassistant]; decide)]
    · rfl
  · rfl

theorem ownMedia_countedRequest (h : request.get? "messages" = some (.arr messages)) :
    ownMedia (messagesOf (countedRequest request)) = ownMedia messages := by
  obtain ⟨fields, rfl⟩ := Json.obj_of_get? h
  have hmessages : (stripBillingInAnthropicSystem (.obj fields)).get? "messages" =
      some (.arr messages) :=
    (get?_stripBillingInAnthropicSystem fields (by decide)).trans h
  unfold countedRequest ownMedia
  rw [messagesOf_stripAnthropicThinking hmessages, mapFirst, List.flatMap_append, List.flatMap_map]
  simp only [userBlocks_dropThinking]
  rw [← List.flatMap_append, List.take_append_drop]

end Charge

section Request

/-- The estimate of a body charges 1024 tokens at least for each medium that is forwarded. -/
def MediaCharged (serde : Serde) (body chatBody : Json) : Prop :=
  1024 * mediaParts chatBody ≤ estimateAnthropicTokens serde body

instance (serde : Serde) (body chatBody : Json) : Decidable (MediaCharged serde body chatBody) :=
  inferInstanceAs (Decidable (_ ≤ _))

/-- All the media are charged if and only if what is charged for the rest happens to make up for
those that tools return; the same holds of the request as it is counted. -/
theorem mediaCharged_iff (serde : Serde) (defaultModel : String) {request : Json}
    {converted : Converted} (hdistinct : request.distinct = true)
    (h : convertRequest serde defaultModel request = .ok converted) {body : Json}
    (hbody : body = request ∨ body = countedRequest request) :
    MediaCharged serde body converted.chatBody ↔
      1024 * resultMedia (messagesOf request) ≤ otherTokens serde body := by
  obtain ⟨messages, conversation, hmessages, hconverted, hchat⟩ := convertRequest_messages h
  have hforwarded : mediaParts converted.chatBody = ownMedia messages + resultMedia messages := by
    unfold mediaParts
    rw [messagesOf_eq hchat]
    exact media_of_messages
      (fun message => Json.distinct_of_mem (Json.distinct_of_get? hdistinct hmessages))
      (convertMessages_eq_ok.mp hconverted)
  have hown : ownMedia (messagesOf body) = ownMedia messages := by
    rcases hbody with rfl | rfl
    · rw [messagesOf_eq hmessages]
    · exact ownMedia_countedRequest hmessages
  unfold MediaCharged
  rw [messagesOf_eq hmessages, estimate_eq, hforwarded, hown, Nat.mul_add]
  exact Nat.add_le_add_iff_left

def screenshot : Json := .obj [("type", .str "image"), ("source", .obj [("type", .str "base64"),
  ("media_type", .str "image/png"), ("data", .str "iVBORw0KGgo=")])]

def calledRequest (elements : List Json) : Json :=
  .obj [("max_tokens", .num (.posInt 8)), ("messages", .arr (calledMessages elements))]

def calledConverted (content : Json) : Converted where
  chatBody := .obj [("model", .str "m"), ("max_tokens", .num (.posInt 8)), ("messages", .arr [
    .obj [("role", .str "assistant"), ("content", .null), ("tool_calls", .arr [
      .obj [("id", .str "t1"), ("type", .str "function"),
        ("function", .obj [("name", .str "read"), ("arguments", .str "{}")])]])],
    .obj [("role", .str "tool"), ("tool_call_id", .str "t1"), ("content", content)]])]
  thinkingRequested := false
  clientModel := none

theorem mediaCharged_iff_called :
    MediaCharged .emptyObject
      (countedRequest (calledRequest [.obj [("type", .str "text"), ("text", .str "done")]]))
        (calledConverted (.str "done")).chatBody ↔
      1024 * resultMedia
        (messagesOf (calledRequest [.obj [("type", .str "text"), ("text", .str "done")]])) ≤
        otherTokens .emptyObject
          (countedRequest (calledRequest [.obj [("type", .str "text"), ("text", .str "done")]])) :=
  mediaCharged_iff .emptyObject "m" (by decide +kernel)
    (show convertRequest .emptyObject "m"
      (calledRequest [.obj [("type", .str "text"), ("text", .str "done")]]) =
      .ok (calledConverted (.str "done")) from rfl) (.inr rfl)

/-- An image that a tool returns is forwarded and not charged. -/
theorem not_mediaCharged_screenshot :
    ¬ ∀ (serde : Serde) (defaultModel : String) (request : Json) (converted : Converted),
      request.distinct = true → convertRequest serde defaultModel request = .ok converted →
        MediaCharged serde request converted.chatBody := by
  intro h
  have hcharged := h .emptyObject "m" (calledRequest [screenshot])
    (calledConverted (.arr [.obj [("type", .str "image_url"),
      ("image_url", .obj [("url", .str "data:image/png;base64,iVBORw0KGgo=")])]]))
        (by decide +kernel) rfl
  exact absurd hcharged (by decide +kernel)

end Request

end Lobster.Anthropic
