import LobsterProxy.Base.Holding
import LobsterProxy.Responses.Request

/-! The order of the input items against the order of what the chat messages say,
read left to right. -/

namespace Lobster.Responses
open Conversion Holding

inductive Reading where
  | message (role text : String) (images : List String)
  | call (id name arguments : String)
  | output (id text : String) (images : List String)
  deriving DecidableEq, Repr

def Reading.isCall : Reading → Bool
  | call .. => true
  | _ => false

section Items

def partText? (part : Json) : Option String :=
  match part.getStr? "type" with
  | some "input_text" | some "output_text" => some (part.getStrD "text")
  | some "refusal" => some (part.getStrD "refusal")
  | _ => none

def partImage? (part : Json) : Option String :=
  if part.getStr? "type" = some "input_image" then
    match part.get? "image_url" with
    | some (.str url) => some url
    | some (.obj fields) => some ((Json.obj fields).getStrD "url")
    | _ => some (part.getStrD "url")
  else none

def itemText : Option Json → String
  | some (.str text) => text
  | some (.arr parts) => "\n".intercalate (parts.filterMap partText?)
  | _ => ""

def itemImages : Option Json → List String
  | some (.arr parts) => parts.filterMap partImage?
  | _ => []

def wireRole (role : String) : String := if role = "developer" then "system" else role

def readMessageItem (item : Json) : Reading :=
  .message (wireRole (item.getStrD "role")) (itemText (item.get? "content"))
    (itemImages (item.get? "content"))

def readCallItem (item : Json) : Reading :=
  .call (item.getStrD "call_id") (item.getStrD "name") ((item.getStr? "arguments").getD "\x7b\x7d")

def readOutputItem (item : Json) : Reading :=
  .output (item.getStrD "call_id") (itemText (item.get? "output")) (itemImages (item.get? "output"))

/-- What an input item says: a reasoning item, nothing. -/
def readItem (item : Json) : List Reading :=
  match itemKind item with
  | "message" => [readMessageItem item]
  | "function_call" => [readCallItem item]
  | "function_call_output" => [readOutputItem item]
  | _ => []

/-- How the converter takes an item in: calls are held until an output or a
reasoning item. -/
def itemArrival (item : Json) : Arrival Reading :=
  match itemKind item with
  | "message" => .pass (readMessageItem item)
  | "function_call" => .hold (readCallItem item)
  | "function_call_output" => .release [readOutputItem item]
  | _ => .release []

end Items

section Messages

def contentText : Json → String
  | .str text => text
  | .arr parts => "\n".intercalate (parts.filterMap fun part => part.getStr? "text")
  | _ => ""

def contentImages : Json → List String
  | .arr parts =>
    parts.filterMap fun part => (part.get? "image_url").bind (fun image => image.getStr? "url")
  | _ => []

def readCall (call : Json) : Reading :=
  .call (call.getStrD "id") (((call.pointer ["function", "name"]).bind Json.asStr).getD "")
    (((call.pointer ["function", "arguments"]).bind Json.asStr).getD "")

/-- What a chat message says, its tool calls expanded in order. -/
def readMessage (message : Json) : List Reading :=
  let content := (message.get? "content").getD .null
  match (message.get? "tool_calls").bind Json.asArray with
  | some calls => calls.map readCall
  | none =>
    if message.getStrD "role" = "tool" then
      [.output (message.getStrD "tool_call_id") (contentText content) (contentImages content)]
    else [.message (message.getStrD "role") (contentText content) (contentImages content)]

end Messages

def ReadsInOrder (items out : List Json) : Prop := out.flatMap readMessage = items.flatMap readItem

def callMessages (out : List Json) : List Nat := groupsOf Reading.isCall 0 (out.map readMessage)

/-- How many items other than calls stand before each `function_call` item. -/
def callBoundaries (items : List Json) : List Nat := epochs 0 (items.map itemArrival)

/-- Two calls share a message only when no other item stands between them. -/
def CallsApart (items out : List Json) : Prop :=
  ∀ j k m : Nat, (callMessages out)[j]? = some m → (callMessages out)[k]? = some m →
    (callBoundaries items)[j]? = (callBoundaries items)[k]?

/-- No message item stands where a `function_call` has had neither an output nor a
reasoning item after it. -/
def NoMessageWhileCallsPending (items : List Json) : Prop := NoPassWhileHeld (items.map itemArrival)

theorem contents_itemArrival (item : Json) : (itemArrival item).contents = readItem item := by
  unfold itemArrival readItem
  split <;> rfl

theorem separates_itemArrival (item : Json) : Separates Reading.isCall (itemArrival item) := by
  intro e he
  unfold itemArrival at he ⊢
  split at he
  all_goals first
    | cases List.mem_singleton.mp he
      rfl
    | cases he

section Parts
variable {index : Nat}

def imagePart (url : String) : Json :=
  .obj [("type", .str "image_url"), ("image_url", .obj [("url", .str url)])]

theorem orImageError_ok {url? : Option String} {partIndex : Nat} {problem url : String}
    (h : (match url? with
      | some url => .ok url
      | none => imageError index partIndex problem) = (.ok url : Conversion String)) :
    url? = some url := by
  cases url? with
  | none => exact absurd h invalid_ne_ok
  | some u =>
    cases h
    rfl

theorem inputImageUrl_ok {part : Json} {partIndex : Nat} {url : String}
    (h : inputImageUrl part index partIndex = .ok url)
    (hkind : part.getStr? "type" = some "input_image") : partImage? part = some url := by
  unfold inputImageUrl at h
  unfold partImage? Json.getStrD
  rw [if_pos hkind]
  cases hget : part.get? "image_url" with
  | none =>
    rw [hget] at h
    show some ((part.getStr? "url").getD "") = _
    rw [orImageError_ok h, Option.getD_some]
  | some image =>
    rw [hget] at h
    cases image with
    | null =>
      show some ((part.getStr? "url").getD "") = _
      rw [orImageError_ok h, Option.getD_some]
    | str s =>
      cases h
      rfl
    | obj fields =>
      show some (((Json.obj fields).getStr? "url").getD "") = _
      rw [orImageError_ok h, Option.getD_some]
    | _ => exact absurd h invalid_ne_ok

theorem convertContentPart_ok {place : String} {refusals : Bool} {partIndex : Nat} {part : Json}
    {texts : List String} {images : List Json}
    (h : convertContentPart place refusals index partIndex part = .ok (texts, images)) :
    texts = (partText? part).toList ∧ images = (partImage? part).toList.map imagePart := by
  unfold convertContentPart at h
  obtain ⟨_, -, h⟩ := bind_eq_ok.mp h
  have hnone {kind : Option String} (hkind : part.getStr? "type" = kind)
      (hne : kind ≠ some "input_image") : partImage? part = none := by
    unfold partImage?
    rw [if_neg (hkind ▸ hne)]
  split at h
  case h_1 hkind =>
    cases h
    rw [hnone hkind (by decide)]
    unfold partText?
    rw [hkind]
    exact ⟨rfl, rfl⟩
  case h_2 hkind =>
    cases h
    rw [hnone hkind (by decide)]
    unfold partText?
    rw [hkind]
    exact ⟨rfl, rfl⟩
  case h_3 hkind =>
    obtain ⟨image, himage, h⟩ := bind_eq_ok.mp h
    cases h
    unfold convertInputImage at himage
    obtain ⟨url, hurl, himage⟩ := bind_eq_ok.mp himage
    split_ifs at himage with hempty
    · exact absurd himage invalid_ne_ok
    · cases himage
      rw [inputImageUrl_ok hurl hkind]
      unfold partText?
      rw [hkind]
      exact ⟨rfl, rfl⟩
  case h_4 other _ _ _ hkind =>
    split_ifs at h with hrefusal
    · obtain ⟨-, rfl⟩ := hrefusal
      cases h
      rw [hnone hkind (by decide)]
      unfold partText?
      rw [hkind]
      exact ⟨rfl, rfl⟩
    · exact absurd h invalid_ne_ok
  case h_5 => exact absurd h invalid_ne_ok

theorem convertPartsFrom_ok {α : Type} {convert : Nat → Json → Conversion α} {partIndex : Nat}
    {parts : List Json} {converted : List α}
    (h : convertPartsFrom convert partIndex parts = .ok converted) :
    List.Forall₂ (fun part a => ∃ i, convert i part = .ok a) parts converted := by
  induction parts generalizing partIndex converted with
  | nil =>
    cases h
    exact .nil
  | cons part parts ih =>
    unfold convertPartsFrom at h
    obtain ⟨a, ha, h⟩ := bind_eq_ok.mp h
    obtain ⟨rest, hrest, h⟩ := bind_eq_ok.mp h
    cases h
    exact .cons ⟨partIndex, ha⟩ (ih hrest)

theorem filterMap_cons_toList {α β : Type} (f : α → Option β) (a : α) (as : List α) :
    (a :: as).filterMap f = (f a).toList ++ as.filterMap f := by
  rw [List.filterMap_cons]
  cases f a <;> rfl

theorem contentParts_read {place : String} {refusals : Bool} {parts : List Json}
    {converted : List (List String × List Json)}
    (h : List.Forall₂ (fun part a => ∃ i, convertContentPart place refusals index i part = .ok a)
      parts converted) :
    converted.flatMap Prod.fst = parts.filterMap partText? ∧
      converted.flatMap Prod.snd = (parts.filterMap partImage?).map imagePart := by
  induction h with
  | nil => exact ⟨rfl, rfl⟩
  | cons hpart _ ih =>
    obtain ⟨i, hpart⟩ := hpart
    obtain ⟨htexts, himages⟩ := convertContentPart_ok hpart
    rw [List.flatMap_cons, List.flatMap_cons, filterMap_cons_toList, filterMap_cons_toList,
      List.map_append, ih.1, ih.2, htexts, himages]
    exact ⟨rfl, rfl⟩

theorem convertContentParts_ok {place : String} {refusals : Bool} {parts : List Json}
    {texts : List String} {images : List Json}
    (h : convertContentParts place refusals index parts = .ok (texts, images)) :
    texts = parts.filterMap partText? ∧ images = (parts.filterMap partImage?).map imagePart := by
  unfold convertContentParts at h
  obtain ⟨converted, hconverted, h⟩ := bind_eq_ok.mp h
  cases h
  exact contentParts_read (convertPartsFrom_ok hconverted)

end Parts

section Reading

@[simp] theorem contentText_imageParts (urls : List String) :
    (urls.map imagePart).filterMap (fun part => part.getStr? "text") = [] := by
  induction urls with
  | nil => rfl
  | cons url urls ih => exact ih

@[simp] theorem contentImages_imageParts (urls : List String) :
    (urls.map imagePart).filterMap
      (fun part => (part.get? "image_url").bind (fun image => image.getStr? "url")) = urls := by
  induction urls with
  | nil => rfl
  | cons url urls ih => exact congrArg (url :: ·) ih

theorem contentText_parts (texts urls : List String) :
    contentText (.arr (texts.map textPart ++ urls.map imagePart)) = "\n".intercalate texts := by
  have htexts : (texts.map textPart).filterMap (fun part => part.getStr? "text") = texts := by
    induction texts with
    | nil => rfl
    | cons text texts ih => exact congrArg (text :: ·) ih
  unfold contentText
  dsimp only
  rw [List.filterMap_append, htexts, contentText_imageParts, List.append_nil]

theorem contentImages_parts (texts urls : List String) :
    contentImages (.arr (texts.map textPart ++ urls.map imagePart)) = urls := by
  have htexts : (texts.map textPart).filterMap
      (fun part => (part.get? "image_url").bind (fun image => image.getStr? "url")) = [] := by
    induction texts with
    | nil => rfl
    | cons text texts ih => exact ih
  unfold contentImages
  dsimp only
  rw [List.filterMap_append, htexts, contentImages_imageParts, List.nil_append]

theorem readMessage_chatMessage (role : String) (content : Json) (h : role ≠ "tool") :
    readMessage (chatMessage role content) =
      [.message role (contentText content) (contentImages content)] := by
  exact if_neg h

theorem roleMessage_read {index : Nat} {role text : String} {urls : List String} {message : Json}
    (h : roleMessage index role text (urls.map imagePart) = .ok message) :
    readMessage message = [.message (wireRole role) text urls] := by
  unfold roleMessage at h
  have hnil (he : (urls.map imagePart).isEmpty = true) : urls = [] := by simpa using he
  split at h
  case h_1 =>
    split_ifs at h with he
    · cases h
      rw [hnil he, readMessage_chatMessage _ _ (by decide)]
      rfl
    · exact absurd h invalid_ne_ok
  case h_2 =>
    split_ifs at h with he
    · cases h
      rw [hnil he, readMessage_chatMessage _ _ (by decide)]
      rfl
    · exact absurd h invalid_ne_ok
  case h_3 =>
    cases h
    rw [readMessage_chatMessage _ _ (by decide)]
    split_ifs with he htext
    · rw [hnil he]
      rfl
    · rw [htext, List.nil_append]
      exact congrArg₂ (fun t i => [Reading.message "user" t i]) (contentText_parts [] urls)
        (contentImages_parts [] urls)
    · have htexts := contentText_parts [text] urls
      have himages := contentImages_parts [text] urls
      rw [List.map_singleton] at htexts himages
      rw [htexts, himages]
      rfl
  case h_4 =>
    split_ifs at h with he htext
    · cases h
      rw [hnil he, htext, readMessage_chatMessage _ _ (by decide)]
      rfl
    · cases h
      rw [hnil he, readMessage_chatMessage _ _ (by decide)]
      rfl
    · exact absurd h invalid_ne_ok
  case h_5 => exact absurd h invalid_ne_ok

variable {object : Fields} {index : Nat}

theorem messageContent_ok {text : String} {images : List Json}
    (h : messageContent object index = .ok (text, images)) :
    text = itemText (object.get? "content") ∧
      images = (itemImages (object.get? "content")).map imagePart := by
  unfold messageContent at h
  cases hget : object.get? "content" with
  | none =>
    rw [hget] at h
    cases h
    exact ⟨rfl, rfl⟩
  | some content =>
    rw [hget, Option.getD_some] at h
    cases content with
    | null =>
      cases h
      exact ⟨rfl, rfl⟩
    | str s =>
      cases h
      exact ⟨rfl, rfl⟩
    | arr parts =>
      obtain ⟨⟨texts, images'⟩, hparts, h⟩ := bind_eq_ok.mp h
      obtain ⟨rfl, himages⟩ := convertContentParts_ok hparts
      cases h
      exact ⟨rfl, himages⟩
    | _ => exact absurd h invalid_ne_ok

theorem convertMessageItem_read {message : Json}
    (h : convertMessageItem object index = .ok message) :
    readMessage message = [readMessageItem (.obj object)] := by
  unfold convertMessageItem at h
  obtain ⟨role, hrole, h⟩ := bind_eq_ok.mp h
  obtain ⟨⟨text, images⟩, hcontent, h⟩ := bind_eq_ok.mp h
  obtain ⟨rfl, rfl⟩ := messageContent_ok hcontent
  rw [roleMessage_read h]
  unfold readMessageItem Json.getStrD Json.getStr?
  rw [Json.get?_obj, orInvalid_eq_ok.mp hrole, Json.get?_obj, Option.getD_some]

theorem requiredStr_ok {key s : String} {message : List Piece}
    (h : requiredStr object key message = .ok s) : (Json.obj object).getStr? key = some s :=
  (Option.filter_eq_some_iff.mp (orInvalid_eq_ok.mp h)).1

theorem convertFunctionCall_read {call : Json} (h : convertFunctionCall object index = .ok call) :
    readCall call = readCallItem (.obj object) := by
  unfold convertFunctionCall at h
  obtain ⟨callId, hid, h⟩ := bind_eq_ok.mp h
  obtain ⟨name, hname, h⟩ := bind_eq_ok.mp h
  cases h
  unfold readCallItem Json.getStrD
  rw [requiredStr_ok hid, requiredStr_ok hname]
  rfl

theorem outputContent_read {content : Json} (h : outputContent object index = .ok content) :
    contentText content = itemText (object.get? "output") ∧
      contentImages content = itemImages (object.get? "output") := by
  unfold outputContent at h
  cases hget : object.get? "output" with
  | none =>
    rw [hget] at h
    cases h
    exact ⟨rfl, rfl⟩
  | some output =>
    rw [hget] at h
    cases output with
    | null =>
      cases h
      exact ⟨rfl, rfl⟩
    | str s =>
      cases h
      exact ⟨rfl, rfl⟩
    | arr parts =>
      obtain ⟨⟨texts, images⟩, hparts, h⟩ := bind_eq_ok.mp h
      obtain ⟨rfl, rfl⟩ := convertContentParts_ok hparts
      cases h
      show _ = "\n".intercalate (parts.filterMap partText?) ∧ _ = parts.filterMap partImage?
      generalize parts.filterMap partText? = texts
      generalize parts.filterMap partImage? = urls
      split_ifs with himages htexts
      · have hnil : urls = [] := by simpa using himages
        rw [hnil]
        exact ⟨rfl, rfl⟩
      · have hnil : texts = [] := by simpa using htexts
        rw [hnil]
        exact ⟨contentText_parts [] urls, contentImages_parts [] urls⟩
      · have hone := contentText_parts ["\n".intercalate texts] urls
        exact ⟨hone, contentImages_parts ["\n".intercalate texts] urls⟩
    | _ => exact absurd h invalid_ne_ok

theorem convertFunctionCallOutput_read {message : Json}
    (h : convertFunctionCallOutput object index = .ok message) :
    readMessage message = [readOutputItem (.obj object)] := by
  unfold convertFunctionCallOutput at h
  obtain ⟨callId, hid, h⟩ := bind_eq_ok.mp h
  obtain ⟨content, hcontent, h⟩ := bind_eq_ok.mp h
  cases h
  obtain ⟨htext, himages⟩ := outputContent_read hcontent
  unfold readOutputItem
  rw [Json.get?_obj, ← htext, ← himages]
  unfold Json.getStrD
  rw [requiredStr_ok hid]
  rfl

theorem flushCalls_read (pending : List Json) :
    (flushCalls pending).map readMessage = flush (pending.map readCall) := by
  cases pending <;> rfl

end Reading

/-- One iteration takes its item in as the queue does. -/
theorem convertInputItem_cases {index : Nat} {pending pending' pushed : List Json} {item : Json}
    (h : convertInputItem index pending item = .ok (pending', pushed)) :
    (∃ e, itemArrival item = .pass e ∧ pending' = pending ∧ pushed.map readMessage = [[e]]) ∨
    (∃ e, itemArrival item = .hold e ∧
      pending'.map readCall = pending.map readCall ++ [e] ∧ pushed = []) ∨
    ∃ follow, itemArrival item = .release follow ∧ pending' = [] ∧
      pushed.map readMessage = flush (pending.map readCall) ++ follow.map (fun e => [e]) := by
  unfold convertInputItem at h
  obtain ⟨object, hobject, h⟩ := bind_eq_ok.mp h
  have hitem := Json.asObject_eq_some.mp (orInvalid_eq_ok.mp hobject)
  subst hitem
  unfold itemArrival
  split at h
  case h_1 hkind =>
    obtain ⟨message, hmessage, h⟩ := bind_eq_ok.mp h
    cases h
    rw [hkind]
    exact .inl ⟨_, rfl, rfl, by rw [List.map_singleton, convertMessageItem_read hmessage]⟩
  case h_2 hkind =>
    obtain ⟨call, hcall, h⟩ := bind_eq_ok.mp h
    cases h
    rw [hkind]
    refine .inr (.inl ⟨_, rfl, ?_, rfl⟩)
    rw [List.map_append, List.map_singleton, convertFunctionCall_read hcall]
  case h_3 hkind =>
    obtain ⟨output, houtput, h⟩ := bind_eq_ok.mp h
    cases h
    rw [hkind]
    refine .inr (.inr ⟨_, rfl, rfl, ?_⟩)
    rw [List.map_append, List.map_singleton, flushCalls_read,
      convertFunctionCallOutput_read houtput]
    rfl
  case h_4 hkind =>
    cases h
    rw [hkind]
    exact .inr (.inr ⟨[], rfl, rfl, by rw [flushCalls_read, List.map_nil, List.append_nil]⟩)
  all_goals exact absurd h invalid_ne_ok

/-- The chat messages are the groups that the queue delivers. -/
theorem convertItemsFrom_deliver {index : Nat} {pending items out : List Json}
    (h : convertItemsFrom index pending items = .ok out) :
    out.map readMessage = deliver (pending.map readCall) (items.map itemArrival) := by
  induction items generalizing index pending out with
  | nil =>
    cases h
    exact flushCalls_read pending
  | cons item items ih =>
    unfold convertItemsFrom at h
    obtain ⟨⟨pending', pushed⟩, hitem, h⟩ := bind_eq_ok.mp h
    obtain ⟨rest, hrest, h⟩ := bind_eq_ok.mp h
    cases h
    rw [List.map_append, ih hrest, List.map_cons]
    rcases convertInputItem_cases hitem with
      ⟨e, harrival, rfl, hpushed⟩ | ⟨e, harrival, hpending, rfl⟩ | ⟨follow, harrival, rfl, hpushed⟩
    · rw [harrival, hpushed]
      rfl
    · rw [harrival, hpending]
      rfl
    · rw [harrival, hpushed]
      rfl

theorem convertInputItems_deliver {items out : List Json} (h : convertInputItems items = .ok out) :
    out.map readMessage = deliver [] (items.map itemArrival) := by
  unfold convertInputItems at h
  obtain ⟨messages, hmessages, h⟩ := bind_eq_ok.mp h
  split_ifs at h with hempty
  · exact absurd h invalid_ne_ok
  · cases h
    exact convertItemsFrom_deliver hmessages

/-- The messages say the items in order, calls apart as the items keep them, exactly
when no message item comes while calls are pending. -/
theorem convertInputItems_inOrder_iff (items out : List Json)
    (h : convertInputItems items = .ok out) :
    (ReadsInOrder items out ∧ CallsApart items out) ↔ NoMessageWhileCallsPending items := by
  have hdeliver := convertInputItems_deliver h
  have hsep : ∀ arrival ∈ items.map itemArrival, Separates Reading.isCall arrival := by
    intro arrival harrival
    obtain ⟨item, -, rfl⟩ := List.mem_map.mp harrival
    exact separates_itemArrival item
  have hread : out.flatMap readMessage = (deliver [] (items.map itemArrival)).flatten := by
    rw [← hdeliver, List.flatMap_def]
  have hcontents : items.flatMap readItem = (items.map itemArrival).flatMap Arrival.contents := by
    rw [List.flatMap_map]
    simp only [contents_itemArrival]
  constructor
  · rintro ⟨horder, -⟩
    unfold ReadsInOrder at horder
    rw [hread, hcontents] at horder
    exact quietFrom_of_flatten_deliver hsep (fun _ hmem => absurd hmem List.not_mem_nil) horder
  · intro hquiet
    refine ⟨?_, ?_⟩
    · unfold ReadsInOrder
      rw [hread, hcontents, @flatten_deliver _ _ [] hquiet]
      rfl
    · obtain ⟨f, hf⟩ := @epochs_eq_map_groupsOf _ _ _ [] 0 0 hsep
        (fun _ hmem => absurd hmem List.not_mem_nil) hquiet
      have hboundaries : callBoundaries items = (callMessages out).map f := by
        unfold callBoundaries callMessages
        rw [hdeliver]
        exact hf
      intro j k m hj hk
      rw [hboundaries, List.getElem?_map, List.getElem?_map, hj, hk]

def callItem (callId : String) : Json :=
  .obj [("type", .str "function_call"), ("call_id", .str callId), ("name", .str "ls")]

def callOf (callId : String) : Json :=
  .obj [("id", .str callId), ("type", .str "function"),
    ("function", .obj [("name", .str "ls"), ("arguments", .str "\x7b\x7d")])]

def callsMessage (calls : List Json) : Json :=
  .obj [("role", .str "assistant"), ("content", .null), ("tool_calls", .arr calls)]

def messageItem : Json := .obj [("role", .str "user"), ("content", .str "hi")]

theorem convertInputItems_inOrder_iff_calls :
    (ReadsInOrder [messageItem, callItem "c1", callItem "c2"]
        [messageItem, callsMessage [callOf "c1", callOf "c2"]] ∧
      CallsApart [messageItem, callItem "c1", callItem "c2"]
        [messageItem, callsMessage [callOf "c1", callOf "c2"]]) ↔
      NoMessageWhileCallsPending [messageItem, callItem "c1", callItem "c2"] :=
  convertInputItems_inOrder_iff _ _ rfl

theorem convertInputItems_reorders_messages :
    convertInputItems [callItem "c1", messageItem, callItem "c2"] =
      .ok [messageItem, callsMessage [callOf "c1", callOf "c2"]] ∧
    ¬ ReadsInOrder [callItem "c1", messageItem, callItem "c2"]
      [messageItem, callsMessage [callOf "c1", callOf "c2"]] ∧
    ¬ CallsApart [callItem "c1", messageItem, callItem "c2"]
      [messageItem, callsMessage [callOf "c1", callOf "c2"]] := by
  refine ⟨rfl, ?_, ?_⟩
  · unfold ReadsInOrder
    decide
  · intro h
    exact absurd (h 0 1 1 rfl rfl) (by decide)

end Lobster.Responses
