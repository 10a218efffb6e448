import LobsterProxy.Responses.Identity
import LobsterProxy.Responses.ItemOrder

/-! An answer that the client sends back: the output items of a response, with a user message
after them, become chat messages that say what the upstream said. -/

namespace Lobster.Responses
open Chat Conversion Emitter Trace

/-- A tool call with its identity and all of its arguments. -/
structure SentCall where
  id : String
  name : String
  arguments : String
  deriving DecidableEq

def SentCall.entry (call : SentCall) : Json :=
  .obj [("id", .str call.id), ("type", .str "function"),
    ("function", .obj [("name", .str call.name), ("arguments", .str call.arguments)])]

def ToolSlot.sent (slot : ToolSlot) : SentCall := ⟨slot.callId, slot.name, slot.arguments⟩

/-- What the fragments of a call add up to: the last id and the last name, all arguments. -/
def sentCall (fragments : List ToolCallDelta) : SentCall where
  id := (lastNonEmpty (fragments.map ToolCallDelta.id)).getD ""
  name := (lastNonEmpty (fragments.map ToolCallDelta.name)).getD ""
  arguments := written ToolCallDelta.arguments fragments

def Identified (fragments : List ToolCallDelta) : Prop :=
  ∀ first ∈ fragments.head?, first.id.getD "" ≠ "" ∧ first.name.getD "" ≠ ""

theorem ne_empty_of_mem_lastNonEmpty {strings : List (Option String)} {s : String}
    (h : s ∈ lastNonEmpty strings) :
    s ≠ "" := by
  obtain ⟨s', -, hs'⟩ := List.mem_filterMap.mp (List.mem_of_getLast? h)
  have hne := (Option.filter_eq_some_iff.mp hs').2
  simpa using hne

theorem lastNonEmpty_head {strings : List (Option String)} {first : Option String}
    (h : strings.head? = some first) (hne : first.getD "" ≠ "") :
    ∃ s ≠ "", lastNonEmpty strings = some s ∧ (lastNonEmpty strings).getD (first.getD "") = s := by
  cases hlast : lastNonEmpty strings with
  | some s => exact ⟨s, ne_empty_of_mem_lastNonEmpty hlast, rfl, rfl⟩
  | none =>
    obtain ⟨rest, rfl⟩ := List.head?_eq_some_iff.mp h
    obtain ⟨s, rfl⟩ : ∃ s, first = some s := by
      cases first with
      | none => exact absurd rfl hne
      | some s => exact ⟨s, rfl⟩
    -- an identity that is there would be the last one
    have hnil := List.getLast?_eq_none_iff.mp hlast
    have hfirst := List.filterMap_eq_nil_iff.mp hnil (some s) List.mem_cons_self
    exact absurd hfirst (by simpa [Option.filter] using hne)

namespace Item

def spoken? : Item → Option String
  | message _ text => text
  | _ => none

def call? : Item → Option SentCall
  | functionCall _ callId name arguments => some ⟨callId, name, arguments.getD ""⟩
  | _ => none

end Item

def UserMessage (item : Json) : Prop :=
  ∃ object : Fields, item = .obj object ∧ itemKind item = "message" ∧
    (object.get? "role").bind Json.asStr = some "user" ∧
    ∀ index, ∃ content, messageContent object index = .ok content

section Messages

def isAssistant (message : Json) : Bool := message.getStr? "role" = some "assistant"

def assistantText (messages : List Json) : String :=
  written (fun message => (message.get? "content").map contentText) (messages.filter isAssistant)

def assistantCalls (messages : List Json) : List Json :=
  (messages.filter isAssistant).flatMap fun message =>
    ((message.get? "tool_calls").bind Json.asArray).getD []

variable (messages more : List Json)

theorem assistantText_append :
    assistantText (messages ++ more) = assistantText messages ++ assistantText more := by
  unfold assistantText
  rw [List.filter_append, written_append]

theorem assistantCalls_append :
    assistantCalls (messages ++ more) = assistantCalls messages ++ assistantCalls more := by
  unfold assistantCalls
  rw [List.filter_append, List.flatMap_append]

theorem assistant_flushCalls (pending : List Json) :
    assistantText (flushCalls pending) = "" ∧ assistantCalls (flushCalls pending) = pending := by
  cases pending with
  | nil => exact ⟨rfl, rfl⟩
  | cons call calls => exact ⟨rfl, List.append_nil _⟩

theorem assistant_user (content : Json) :
    assistantText [chatMessage "user" content] = "" ∧ assistantCalls [chatMessage "user" content] =
      [] := ⟨rfl, rfl⟩

theorem assistant_text (text : String) :
    let message := chatMessage "assistant" (if text = "" then .null else .str text)
    assistantText [message] = text ∧ assistantCalls [message] = [] := by
  by_cases h : text = ""
  · rw [if_pos h, h]
    exact ⟨rfl, rfl⟩
  · rw [if_neg h]
    exact ⟨String.append_empty, rfl⟩

end Messages

section Convert
variable {index : Nat} {pending : List Json}

theorem convertInputItem_user {user : Json} (h : UserMessage user) :
    ∃ content, convertInputItem index pending user =
      .ok (pending, [chatMessage "user" content]) := by
  obtain ⟨object, rfl, hkind, hrole, hcontent⟩ := h
  obtain ⟨⟨text, images⟩, hread⟩ := hcontent index
  refine ⟨if images.isEmpty then
    .str text else .arr ((if text = "" then [] else [textPart text]) ++ images), ?_⟩
  have hmessage : convertMessageItem object index =
      .ok (chatMessage "user" (if images.isEmpty then .str text
      else .arr ((if text = "" then [] else [textPart text]) ++ images))) := by
    unfold convertMessageItem
    rw [hrole, hread]
    rfl
  unfold convertInputItem
  refine bind_eq_ok.mpr ⟨object, rfl, ?_⟩
  rw [hkind]
  exact bind_eq_ok.mpr ⟨_, hmessage, rfl⟩

theorem convertInputItem_reasoning (id : String) (summary : Option String) :
    convertInputItem index pending (Item.reasoning id summary).json =
      .ok ([], flushCalls pending) := rfl

theorem convertInputItem_message (id : String) (text : Option String) :
    convertInputItem index pending (Item.message id text).json =
      .ok (pending,
        [chatMessage "assistant" (if text.getD "" = "" then .null else .str (text.getD ""))]) := by
  cases text <;> rfl

theorem convertInputItem_functionCall (id : String) {callId name : String}
    (arguments : Option String)
    (hid : callId ≠ "") (hname : name ≠ "") :
    convertInputItem index pending (Item.functionCall id callId name arguments).json =
      .ok (pending ++ [SentCall.entry ⟨callId, name, arguments.getD ""⟩], []) := by
  have hrequired {key s : String} (message : List Piece) {object : Fields} (hne : s ≠ "")
      (hs : (object.get? key).bind Json.asStr = some s) : requiredStr object key message = .ok s :=
    orInvalid_eq_ok.mpr (Option.filter_eq_some_iff.mpr ⟨hs, decide_eq_true hne⟩)
  unfold convertInputItem
  refine bind_eq_ok.mpr
    ⟨_, rfl, bind_eq_ok.mpr ⟨SentCall.entry ⟨callId, name, arguments.getD ""⟩, ?_, rfl⟩⟩
  unfold convertFunctionCall
  exact bind_eq_ok.mpr
    ⟨callId, hrequired _ hid rfl, bind_eq_ok.mpr ⟨name, hrequired _ hname rfl, rfl⟩⟩

/-- Complete items convert, in whatever order they come; calls stay pending over a message. -/
theorem convertItemsFrom_replay {user : Json} (huser : UserMessage user) {items : List Item}
    (hnamed : ∀ item ∈ items, ∀ call, item.call? = some call → call.id ≠ "" ∧ call.name ≠ "") :
    ∃ messages, convertItemsFrom index pending (items.map Item.json ++ [user]) = .ok messages ∧
      messages ≠ [] ∧
      assistantText messages = written Item.spoken? items ∧
      assistantCalls messages = pending ++ (items.filterMap Item.call?).map SentCall.entry := by
  have hcons {item : Json} {rest messages : List Json} {index : Nat}
      {pending pending' pushed : List Json}
      (hitem : convertInputItem index pending item = .ok (pending', pushed))
      (hrest : convertItemsFrom (index + 1) pending' rest = .ok messages) :
      convertItemsFrom index pending (item :: rest) = .ok (pushed ++ messages) :=
    bind_eq_ok.mpr ⟨_, hitem, bind_eq_ok.mpr ⟨messages, hrest, rfl⟩⟩
  induction items generalizing index pending with
  | nil =>
    obtain ⟨content, hitem⟩ := convertInputItem_user huser
    obtain ⟨htext, hcalls⟩ := assistant_user content
    obtain ⟨hflushed, hpending⟩ := assistant_flushCalls pending
    refine ⟨_, hcons hitem rfl, List.cons_ne_nil _ _, ?_, ?_⟩
    · rw [assistantText_append, htext, hflushed]
      rfl
    · rw [assistantCalls_append, hcalls, hpending]
      exact (List.append_nil pending).symm
  | cons item items ih =>
    obtain ⟨hfirst, hrest⟩ := List.forall_mem_cons.mp hnamed
    cases item with
    | reasoning id summary =>
      -- the pending calls go out before the reasoning
      obtain ⟨messages, hmessages, hne, htext, hcalls⟩ := @ih (index + 1) [] hrest
      obtain ⟨hflushed, hpending⟩ := assistant_flushCalls pending
      refine ⟨_, hcons (convertInputItem_reasoning id summary) hmessages,
        List.append_ne_nil_of_right_ne_nil _ hne, ?_, ?_⟩
      · rw [assistantText_append, hflushed, htext]
        rfl
      · rw [assistantCalls_append, hpending, hcalls]
        rfl
    | message id text =>
      -- the message goes out before the pending calls
      obtain ⟨messages, hmessages, hne, htext, hcalls⟩ := @ih (index + 1) pending hrest
      obtain ⟨hsaid, hnone⟩ := assistant_text (text.getD "")
      refine ⟨_, hcons (convertInputItem_message id text) hmessages,
        List.append_ne_nil_of_right_ne_nil _ hne, ?_, ?_⟩
      · rw [assistantText_append, hsaid, htext]
        rfl
      · rw [assistantCalls_append, hnone, hcalls]
        rfl
    | functionCall id callId name arguments =>
      obtain ⟨hid, hname⟩ := hfirst _ rfl
      obtain ⟨messages, hmessages, hne, htext, hcalls⟩ :=
        @ih (index + 1) (pending ++ [SentCall.entry ⟨callId, name, arguments.getD ""⟩]) hrest
      refine ⟨_, hcons (convertInputItem_functionCall id arguments hid hname) hmessages, hne,
        ?_, ?_⟩
      · rw [List.nil_append, htext]
        exact String.empty_append.symm
      · rw [List.nil_append, hcalls, List.append_assoc]
        rfl

end Convert

namespace OutputItem

def message? : OutputItem → Option String
  | message itemId => some itemId
  | _ => none

def call? : OutputItem → Option String
  | functionCall itemId => some itemId
  | _ => none

end OutputItem

namespace ResponsesConverter

/-- The pieces whose calls have slots are `known`; those whose texts and arguments have been
taken in are `heard`. -/
structure Accrued (known heard : List Chat.Piece) (c : ResponsesConverter) : Prop where
  text : (c.message.map ItemState.accum).getD "" = contents heard
  messages : c.outputItems.filterMap OutputItem.message? = (c.message.map ItemState.itemId).toList
  slots : ∀ index, (c.tools.find? index).map ToolSlot.arguments =
    if index ∈ callOrder known then some (argumentsAt index heard) else none
  calls : (c.outputItems.filterMap OutputItem.call?).map some = (callOrder known).map c.slotId

section Steps
variable {hex : Nat → String} {known heard : List Chat.Piece} {c c' : ResponsesConverter}
    {past : List Event}

theorem Accrued.congr (h : Accrued known heard c)
    (htext : c'.message.map ItemState.accum = c.message.map ItemState.accum)
    (hid : c'.message.map ItemState.itemId = c.message.map ItemState.itemId)
      (htools : c'.tools = c.tools)
    (hmessages : c'.outputItems.filterMap OutputItem.message? =
      c.outputItems.filterMap OutputItem.message?)
    (hcalls : c'.outputItems.filterMap OutputItem.call? =
      c.outputItems.filterMap OutputItem.call?) :
    Accrued known heard c' where
  text := htext ▸ h.text
  messages := by rw [hmessages, hid, h.messages]
  slots := htools ▸ h.slots
  calls := by
    unfold slotId
    rw [hcalls, htools]
    exact h.calls

theorem Accrued.mem_callOrder (h : Accrued known heard c) {index : Int} :
    index ∈ callOrder known ↔ (c.tools.find? index).isSome = true := by
  have hslot := congrArg Option.isSome (h.slots index)
  rw [Option.isSome_map] at hslot
  rw [hslot]
  split_ifs with hmem
  · exact iff_of_true hmem rfl
  · exact iff_of_false hmem Bool.false_ne_true

theorem contents_snoc (pieces : List Chat.Piece) (piece : Chat.Piece) :
    contents (pieces ++ [piece]) = contents pieces ++ piece.content?.getD "" := by
  unfold contents
  rw [written_append, written_singleton]

theorem argumentsAt_talk (pieces : List Chat.Piece) {piece : Chat.Piece}
    (h : ∀ index, piece.arguments? index = none) {index : Int} :
    argumentsAt index (pieces ++ [piece]) = argumentsAt index pieces := by
  rw [argumentsAt_snoc, h]
  exact String.append_empty

theorem Accrued.reasoning (h : Accrued known heard c) (text : String) :
    Accrued (known ++ [.reasoning text]) (heard ++ [.reasoning text]) c where
  text := by
    rw [contents_snoc, h.text]
    exact String.append_empty.symm
  messages := h.messages
  slots index := by
    rw [callOrder_snoc known rfl, argumentsAt_talk heard fun _ => rfl, h.slots index]
  calls := by rw [callOrder_snoc known rfl, h.calls]

theorem Accrued.content (h : Accrued known heard c) (text : String)
    (htext : (c'.message.map ItemState.accum).getD "" = contents heard ++ text)
    (hmessages : c'.outputItems.filterMap OutputItem.message? =
      (c'.message.map ItemState.itemId).toList)
    (htools : c'.tools = c.tools)
    (hcalls : c'.outputItems.filterMap OutputItem.call? =
      c.outputItems.filterMap OutputItem.call?) :
    Accrued (known ++ [.content text]) (heard ++ [.content text]) c' where
  text := by
    rw [contents_snoc, htext]
    rfl
  messages := hmessages
  slots index := by
    rw [callOrder_snoc known rfl, argumentsAt_talk heard fun _ => rfl, htools, h.slots index]
  calls := by
    unfold slotId
    rw [callOrder_snoc known rfl, hcalls, htools]
    exact h.calls

theorem accrued_feedReasoning (h : Accrued known heard c) (text : String) :
    Accrued known heard (feedReasoning hex text c).1 := by
  obtain ⟨state, next, items, draws, -, -, hstep, hitems, -⟩ := feedReasoning_step hex c text
  have hnone {β : Type} {f : OutputItem → Option β} (hf : ∀ itemId, f (.reasoning itemId) = none) :
      (c.outputItems ++ items).filterMap f = c.outputItems.filterMap f := by
    have hnil : items.filterMap f = [] := by
      refine List.filterMap_eq_nil_iff.mpr fun item hitem => ?_
      obtain ⟨itemId, rfl⟩ := hitems item hitem
      exact hf itemId
    rw [List.filterMap_append, hnil, List.append_nil]
  rw [hstep]
  exact h.congr rfl rfl rfl (hnone fun _ => rfl) (hnone fun _ => rfl)

theorem accrued_feedText (hsound : Sound c) (h : Accrued known heard c) (text : String) :
    Accrued (known ++ [.content text]) (heard ++ [.content text]) (feedText hex text c).1 := by
  have htext := h.text
  have hmessages := h.messages
  cases hstate : c.message with
  | none =>
    rw [hstate] at htext hmessages
    rw [feedText_new hex hstate]
    refine h.content text ?_ ?_ rfl ?_
    · exact (congrArg (· ++ text) htext.symm).trans String.empty_append |>.symm
    · exact List.filterMap_append.trans (congrArg (· ++ _) hmessages)
    · exact List.filterMap_append.trans (List.append_nil _)
  | some state =>
    have hshown := hsound.message state hstate
    obtain ⟨k, hk⟩ := hshown.placed
    rw [hstate] at htext hmessages
    rw [feedText_shown hex hstate hshown hk]
    exact h.content text (congrArg (· ++ text) htext) hmessages rfl rfl

theorem accrued_closeMessageItem (h : Accrued known heard c) :
    Accrued known heard (closeMessageItem c).1 := by
  unfold closeMessageItem
  cases hstate : c.message with
  | none => exact h
  | some state =>
    dsimp only
    by_cases hdone : state.itemDone = true
    · rw [if_pos hdone]
      exact h
    · rw [if_neg hdone]
      exact h.congr (by rw [hstate]; rfl) (by rw [hstate]; rfl) rfl rfl rfl

theorem argumentsAt_call (call : ToolCallDelta) (index : Int) (pieces : List Chat.Piece) :
    argumentsAt index (pieces ++ [.call call]) =
      argumentsAt index pieces ++ if call.index = index then call.arguments.getD "" else "" := by
  rw [argumentsAt_snoc]
  show _ ++
    (((if call.index = index then some call else none).bind ToolCallDelta.arguments).getD "") = _
  split_ifs <;> rfl

theorem Accrued.again (h : Accrued known heard c) {call : ToolCallDelta}
    (hslot : (c.tools.find? call.index).isSome = true) :
    Accrued (known ++ [.call call]) heard c := by
  have horder : callOrder (known ++ [.call call]) = callOrder known := by
    rw [callOrder_call, if_pos (h.mem_callOrder.mpr hslot)]
  exact ⟨h.text, h.messages, horder ▸ h.slots, horder ▸ h.calls⟩

theorem Accrued.first (h : Accrued known heard c) (hclient : c.serverToolNames = [])
    {call : ToolCallDelta} (hnew : c.tools.find? call.index = none)
    (hheard : callsAt call.index heard = []) :
    Accrued (known ++ [.call call]) heard (addToolItem hex call c).1 := by
  have hunknown : call.index ∉ callOrder known := by
    rw [h.mem_callOrder, hnew]
    exact Bool.false_ne_true
  have horder : callOrder (known ++ [.call call]) = callOrder known ++ [call.index] := by
    rw [callOrder_call, if_neg hunknown]
  rw [addToolItem_client hex hclient]
  refine ⟨h.text, ?_, fun index => ?_, ?_⟩
  · exact List.filterMap_append.trans ((List.append_nil _).trans h.messages)
  · rw [horder, SortedMap.find?_insert]
    by_cases hindex : call.index = index
    · subst hindex
      rw [if_pos rfl, if_pos (List.mem_append_right _ (List.mem_singleton_self _)), argumentsAt_eq,
        hheard]
      rfl
    · have hmem : index ∈ callOrder known ++ [call.index] ↔ index ∈ callOrder known := by
        rw [List.mem_append, List.mem_singleton]
        exact or_iff_left (Ne.symm hindex)
      rw [if_neg hindex, h.slots index]
      simp only [hmem]
  · -- the calls that are known keep their slots
    have hlater : (callOrder known).map (addToolItem hex call c).1.slotId =
        (callOrder known).map c.slotId := by
      refine List.map_congr_left fun index hindex => ?_
      rw [addToolItem_client hex hclient]
      unfold slotId
      rw [SortedMap.find?_insert_ne]
      rintro rfl
      exact hunknown hindex
    rw [addToolItem_client hex hclient] at hlater
    rw [horder, List.map_append, hlater, ← h.calls]
    refine (congrArg (List.map some) List.filterMap_append).trans (List.map_append.trans ?_)
    unfold slotId
    rw [List.map_singleton, SortedMap.find?_insert_self]
    rfl

theorem Accrued.call (h : Accrued known heard c) (call : ToolCallDelta) :
    Accrued known (heard ++ [.call call]) (feedToolCallArguments call c).1 := by
  have htext : contents (heard ++ [.call call]) = contents heard := by
    rw [contents_snoc]
    exact String.append_empty
  obtain ⟨tools, hstep, hcase, -⟩ := feedToolCallArguments_step c call
  have hsame (arguments : Option String) : arguments = arguments.map (· ++ "") := by
    cases arguments with
    | none => rfl
    | some s => exact congrArg some String.append_empty.symm
  have hslots (index : Int) : (tools.find? index).map ToolSlot.arguments =
      ((c.tools.find? index).map ToolSlot.arguments).map
        (· ++ if call.index = index then call.arguments.getD "" else "") := by
    by_cases hindex : call.index = index
    · subst hindex
      rcases hcase with ⟨hnone, rfl⟩ | ⟨slot, server, hslot, rfl⟩
      · rw [hnone]
        rfl
      · rw [SortedMap.find?_insert_self, if_pos rfl, hslot]
        rfl
    · -- no other slot is written to
      have hkept : tools.find? index = c.tools.find? index := by
        rcases hcase with ⟨-, rfl⟩ | ⟨slot, server, -, rfl⟩
        · rfl
        · rw [SortedMap.find?_insert_ne _ _ hindex]
      rw [if_neg hindex, hkept, ← hsame]
  have hids (index : Int) : (tools.find? index).map ToolSlot.itemId = c.slotId index := by
    rcases hcase with ⟨-, rfl⟩ | ⟨slot, server, hslot, rfl⟩
    · rfl
    · rw [SortedMap.find?_insert]
      split_ifs with hindex
      · unfold slotId
        rw [← hindex, hslot]
        rfl
      · rfl
  rw [hstep]
  refine ⟨htext ▸ h.text, h.messages, fun index => ?_, ?_⟩
  · show (tools.find? index).map ToolSlot.arguments = _
    rw [hslots, h.slots, argumentsAt_call]
    split_ifs <;> rfl
  · rw [h.calls]
    exact List.map_congr_left fun index _ => (hids index).symm

/-- The converter between two chunks, or within one. -/
def Told (known heard : List Chat.Piece) (c : ResponsesConverter) (past : List Event) : Prop :=
  Inv c past ∧ Named known heard c past ∧ Accrued known heard c

theorem Told.update {started : Bool} {sequence : Nat} {finishReason error modelSeen : Option String}
    {usage : Option Usage} (h : Told known heard c past) :
    Told known heard { c with started, sequence, finishReason, usage, error, modelSeen } past := by
  obtain ⟨hinv, hnamed, haccrued⟩ := h
  exact ⟨hinv.update, hnamed.update, haccrued.congr rfl rfl rfl rfl rfl⟩

theorem leads_told_ensureToolItemAdded (seen passed : List Chat.Piece) (call : ToolCallDelta) :
    Leads (Told (seen ++ passed) seen) (Told (seen ++ (passed ++ [.call call])) seen)
      (ensureToolItemAdded hex call) := by
  rintro c past ⟨hinv, hnamed, haccrued⟩
  refine ⟨keeps_ensureToolItemAdded hex call c past hinv,
    leads_ensureToolItemAdded seen passed call c past hnamed, ?_⟩
  rw [← List.append_assoc]
  unfold ensureToolItemAdded
  by_cases hknown : c.tools.contains call.index = true
  · rw [if_pos hknown]
    exact haccrued.again hknown
  · have hnew : c.tools.find? call.index = none := Option.not_isSome_iff_eq_none.mp hknown
    -- no fragment of the call has been heard
    have hheard := hnamed.fresh call.index hnew
    unfold callsAt at hheard
    rw [List.filterMap_append] at hheard
    replace hheard := (List.append_eq_nil_iff.mp hheard).1
    rw [if_neg hknown]
    split_ifs
    · -- the first call ends the message
      have hclient := (quiet_closeMessageItem.keeps c past hnamed).client
      have hnew' : (closeMessageItem c).1.tools.find? call.index = none := by
        rw [tools_closeMessageItem, hnew]
      exact (accrued_closeMessageItem haccrued).first hclient hnew' hheard
    · exact haccrued.first hnamed.client hnew hheard

theorem leads_told_feedToolCallArguments (heard : List Chat.Piece) (call : ToolCallDelta) :
    Leads (Told known heard) (Told known (heard ++ [.call call])) (feedToolCallArguments call) := by
  rintro c past ⟨hinv, hnamed, haccrued⟩
  exact ⟨keeps_feedToolCallArguments call c past hinv,
    leads_feedToolCallArguments heard call c past hnamed,
    haccrued.call call⟩

theorem leads_told_feedDelta (seen : List Chat.Piece) (delta : Delta) :
    Leads (Told seen seen) (Told (seen ++ delta.pieces) (seen ++ delta.pieces))
      (feedDelta hex delta) := by
  cases delta with
  | finish reason =>
    rw [show seen ++ (Delta.finish reason).pieces = seen from List.append_nil seen]
    exact leads_silent fun _ _ h => h.update
  | reasoning text =>
    rintro c past ⟨hinv, hnamed, haccrued⟩
    exact ⟨keeps_feedReasoning hex text c past hinv, leads_namedDelta seen
      (.reasoning text) c past hnamed,
      (accrued_feedReasoning haccrued text).reasoning text⟩
  | content text =>
    rintro c past ⟨hinv, hnamed, haccrued⟩
    exact ⟨keeps_feedText hex text c past hinv, leads_namedDelta seen (.content text) c past hnamed,
      accrued_feedText hinv.1 haccrued text⟩
  | toolCalls calls =>
    exact leads_twoPasses (@leads_told_ensureToolItemAdded hex) (@leads_told_feedToolCallArguments)
      seen calls

theorem leads_told_feedChunkEvents (seen : List Chat.Piece) (chunk : Json) :
    Leads (Told seen seen) (Told (seen ++ chunkPieces chunk) (seen ++ chunkPieces chunk))
      (feedChunkEvents hex chunk) := by
  have hstart : Keeps (Told seen seen) ensureStarted := by
    rintro c past ⟨hinv, hnamed, haccrued⟩
    refine ⟨keeps_ensureStarted c past hinv, quiet_ensureStarted.keeps c past hnamed, ?_⟩
    unfold ensureStarted
    split_ifs
    · exact haccrued
    · exact haccrued.congr rfl rfl rfl rfl rfl
  have hnote : Keeps (Told seen seen) (silent (noteChunk chunk)) :=
    leads_silent fun _ _ h => h.update
  exact hstart.andThen
    (hnote.andThen (leads_forEach (@leads_told_feedDelta hex) (chunkDeltas chunk) seen))

theorem told_chunks (hex : Nat → String) (createdAt : UInt64) (model : String) (expose : Bool)
    (chunks : List Json) :
    let fed := forEach (feedChunk hex) chunks (new hex createdAt model expose)
    Told (chunks.flatMap chunkPieces) (chunks.flatMap chunkPieces) fed.1 (events fed.2) := by
  have hchunk (seen : List Chat.Piece) (chunk : Json) :=
    leads_numbered (@leads_told_feedChunkEvents hex seen chunk) fun _ _ _ h => h.update
  have hnew : Told [] [] (new hex createdAt model expose) [] :=
    ⟨inv_new hex createdAt model expose, ⟨rfl, fun _ _ => rfl, nofun, nofun⟩,
    ⟨rfl, rfl, fun _ => rfl, rfl⟩⟩
  exact (leads_forEach hchunk chunks [] _ [] ⟨hnew, rfl, rfl⟩).1

end Steps

section Output
variable {known heard pieces : List Chat.Piece} {c : ResponsesConverter} {past : List Event}

theorem stateText_some (state : ItemState) (itemId : String) :
    stateText (some state) itemId = if state.itemId = itemId then state.accum else "" := by
  unfold stateText
  by_cases h : state.itemId = itemId <;> simp [Option.filter, h]

theorem stateText_close (state : ItemState) :
    stateText (some { state with itemDone := true, partDone := true }) =
      stateText (some state) := by
  funext itemId
  rw [stateText_some, stateText_some]

theorem outputItem_congr {c' : ResponsesConverter}
    (hreasoning : stateText c'.reasoning = stateText c.reasoning)
    (hmessage : stateText c'.message = stateText c.message) (htools : c'.tools = c.tools) :
    c'.outputItem = c.outputItem := by
  funext descriptor
  unfold outputItem
  rw [hreasoning, hmessage, htools]

theorem outputItem_closeReasoningItem (c : ResponsesConverter) :
    (closeReasoningItem c).1.outputItems = c.outputItems ∧ (closeReasoningItem c).1.outputItem =
      c.outputItem := by
  unfold closeReasoningItem
  cases hstate : c.reasoning with
  | none => exact ⟨rfl, rfl⟩
  | some state =>
    dsimp only
    by_cases hclosed : (!state.itemAdded || state.itemDone) = true
    · rw [if_pos hclosed]
      exact ⟨rfl, rfl⟩
    · rw [if_neg hclosed]
      exact ⟨rfl, outputItem_congr ((stateText_close state).trans (congrArg stateText hstate.symm))
        rfl rfl⟩

theorem outputItem_closeMessageItem (c : ResponsesConverter) :
    (closeMessageItem c).1.outputItems = c.outputItems ∧
      (closeMessageItem c).1.outputItem = c.outputItem := by
  unfold closeMessageItem
  cases hstate : c.message with
  | none => exact ⟨rfl, rfl⟩
  | some state =>
    dsimp only
    by_cases hdone : state.itemDone = true
    · rw [if_pos hdone]
      exact ⟨rfl, rfl⟩
    · rw [if_neg hdone]
      exact ⟨rfl,
      outputItem_congr rfl ((stateText_close state).trans (congrArg stateText hstate.symm)) rfl⟩

theorem outputItem_closeTools (c : ResponsesConverter) :
    (closeTools c).1.outputItem = c.outputItem := by
  funext descriptor
  cases descriptor with
  | reasoning itemId => rfl
  | message itemId => rfl
  | functionCall itemId =>
    unfold outputItem closeTools
    dsimp only
    rw [SortedMap.values_mapValues, List.find?_map, Option.map_map]
    rfl

theorem output_closeItems (c : ResponsesConverter) (status status' : String) :
    ((closeItems c).1.terminalResponse status).output = (c.terminalResponse status').output := by
  obtain ⟨hitems, hitem⟩ := outputItem_closeReasoningItem c
  obtain ⟨hitems', hitem'⟩ := outputItem_closeMessageItem (closeReasoningItem c).1
  have houtputItem : (closeItems c).1.outputItem = c.outputItem :=
    (outputItem_closeTools _).trans (hitem'.trans hitem)
  have houtputItems : (closeItems c).1.outputItems = c.outputItems := hitems'.trans hitems
  show (closeItems c).1.outputItems.filterMap (closeItems c).1.outputItem =
    c.outputItems.filterMap c.outputItem
  rw [houtputItem, houtputItems]

theorem Accrued.written_output (h : Accrued known heard c) (status : String) :
    written Item.spoken? (c.terminalResponse status).output = contents heard := by
  have hread (descriptor : OutputItem) : (c.outputItem descriptor).bind Item.spoken? =
      descriptor.message?.map (stateText c.message) := by
    cases descriptor with
    | reasoning itemId => rfl
    | message itemId => rfl
    | functionCall itemId =>
      unfold outputItem
      dsimp only
      cases c.tools.values.find? fun slot => slot.itemId = itemId <;> rfl
  have htext := h.text
  have hmessages := h.messages
  show written Item.spoken? (c.outputItems.filterMap c.outputItem) = _
  rw [← written_filterMap_some, List.filterMap_filterMap, funext hread, ← List.map_filterMap,
    hmessages, ← htext]
  cases c.message with
  | none => rfl
  | some state =>
    rw [Option.map_some, Option.toList_some, List.map_singleton, written_singleton, stateText_some,
      if_pos rfl]
    rfl

theorem Accrued.calls_output (h : Accrued known heard c) (hdistinct : DistinctSlots c.tools)
    (status : String) :
    (c.terminalResponse status).output.filterMap Item.call? =
      (callOrder known).filterMap fun index => (c.tools.find? index).map ToolSlot.sent := by
  have hread (descriptor : OutputItem) : (c.outputItem descriptor).bind Item.call? =
      descriptor.call?.bind fun itemId =>
        (c.tools.values.find? fun slot => slot.itemId = itemId).map ToolSlot.sent := by
    cases descriptor with
    | reasoning itemId => rfl
    | message itemId => rfl
    | functionCall itemId =>
      unfold outputItem OutputItem.call?
      dsimp only [Option.bind_some]
      cases c.tools.values.find? fun slot => slot.itemId = itemId <;> rfl
  have hids : c.outputItems.filterMap OutputItem.call? = (callOrder known).filterMap c.slotId := by
    have hcalls := congrArg (List.filterMap id) h.calls
    rw [List.filterMap_map, List.filterMap_map] at hcalls
    exact (List.filterMap_some).symm.trans hcalls
  show (c.outputItems.filterMap c.outputItem).filterMap Item.call? = _
  rw [List.filterMap_filterMap, funext hread, ← List.filterMap_filterMap, hids,
    List.filterMap_filterMap]
  refine List.filterMap_congr fun index _ => ?_
  unfold slotId
  cases hslot : c.tools.find? index with
  | none => rfl
  | some slot => exact congrArg (Option.map ToolSlot.sent) (find?_slot hslot hdistinct)

/-- A slot ends as what its fragments add up to. -/
theorem Accrued.sent_slot (h : Accrued pieces pieces c) (hnamed : Named pieces pieces c past)
    {index : Int} {slot : ToolSlot} (hslot : c.tools.find? index = some slot)
    (hidentified : Identified (callsAt index pieces)) :
    slot.sent = sentCall (callsAt index pieces) ∧ slot.callId ≠ "" ∧ slot.name ≠ "" := by
  obtain ⟨-, first, hfirst, hid, hname, -⟩ := hnamed.slotAt index slot hslot
  obtain ⟨hid', hname'⟩ := hidentified first hfirst
  obtain ⟨id, hidne, hidlast, hidd⟩ := lastNonEmpty_head (by rw [List.head?_map, hfirst]; rfl) hid'
  obtain ⟨name, hnamene, hnamelast, hnamed'⟩ :=
    lastNonEmpty_head (by rw [List.head?_map, hfirst]; rfl) hname'
  have harguments := h.slots index
  rw [hslot, if_pos (h.mem_callOrder.mpr (by rw [hslot]; rfl)), argumentsAt_eq] at harguments
  rw [hidd] at hid
  rw [hnamed'] at hname
  refine ⟨?_, hid ▸ hidne, hname ▸ hnamene⟩
  unfold ToolSlot.sent sentCall
  rw [hid, hname, Option.some.inj harguments, hidlast, hnamelast]
  rfl

theorem Accrued.calls_sent (h : Accrued pieces pieces c) (hnamed : Named pieces pieces c past)
    (hdistinct : DistinctSlots c.tools) (hidentified : ∀ index, Identified (callsAt index pieces))
      (status : String) :
    (c.terminalResponse status).output.filterMap Item.call? =
        (callOrder pieces).map (fun index => sentCall (callsAt index pieces)) ∧
      ∀ call ∈ (c.terminalResponse status).output.filterMap Item.call?, call.id ≠ "" ∧
        call.name ≠ "" := by
  have hcalls : (c.terminalResponse status).output.filterMap Item.call? =
      (callOrder pieces).map fun index => sentCall (callsAt index pieces) := by
    rw [h.calls_output hdistinct, ← List.filterMap_eq_map]
    refine List.filterMap_congr fun index hindex => ?_
    obtain ⟨slot, hslot⟩ := Option.isSome_iff_exists.mp (h.mem_callOrder.mp hindex)
    rw [hslot]
    exact congrArg some (h.sent_slot hnamed hslot (hidentified index)).1
  refine ⟨hcalls, fun call hcall => ?_⟩
  rw [hcalls] at hcall
  obtain ⟨index, hindex, rfl⟩ := List.mem_map.mp hcall
  obtain ⟨slot, hslot⟩ := Option.isSome_iff_exists.mp (h.mem_callOrder.mp hindex)
  obtain ⟨hsent, hid, hname⟩ := h.sent_slot hnamed hslot (hidentified index)
  rw [← hsent]
  exact ⟨hid, hname⟩

end Output

/-- The output of a finished stream, sent back with a message of the user after it, converts.
The assistant messages say the text and make the calls that the chunks carry. -/
theorem run_output_replays {hex : Nat → String} (hinj : Function.Injective hex)
    (createdAt : UInt64) (model : String) (expose : Bool) (chunks : List Json)
    (hidentified : ∀ index, Identified (fragmentsAt index chunks)) (user : Json)
    (huser : UserMessage user) :
    ∃ response messages,
      (events (run hex createdAt model expose chunks none).2).getLast?.bind Event.response? =
        some response ∧
      convertInputItems (response.output.map Item.json ++ [user]) = .ok messages ∧
      assistantText messages = written some (chunks.flatMap chunkContents) ∧
      assistantCalls messages = (callOrder (chunks.flatMap chunkPieces)).map fun index =>
        (sentCall (fragmentsAt index chunks)).entry := by
  obtain ⟨-, hnamed, haccrued⟩ := told_chunks hex createdAt model expose chunks
  obtain ⟨-, hdrawn, -⟩ := ResponsesPump.feeding_chunks hinj createdAt model expose chunks
  have hfragments : (fun index => callsAt index (chunks.flatMap chunkPieces)) =
      fun index => fragmentsAt index chunks :=
    funext fun index => callsAt_chunks chunks index
  rw [events_run]
  generalize forEach (feedChunk hex) chunks (new hex createdAt model expose) =
    fed at hnamed haccrued hdrawn
  obtain ⟨c, frames⟩ := fed
  dsimp only at hnamed haccrued hdrawn ⊢
  -- to close the items changes nothing that they say
  have houtput : (closeItems { c with error := none }).1.nonstreamResponse.output =
    (c.terminalResponse "").output :=
    output_closeItems { c with error := none }
      (closeItems { c with error := none }).1.nonstreamStatus ""
  obtain ⟨hcalls, hnamedCalls⟩ := haccrued.calls_sent hnamed hdrawn.distinctSlots
    (fun index => (congrFun hfragments index).symm ▸ hidentified index) ""
  have hreplayable : ∀ item ∈ (c.terminalResponse "").output, ∀ call, item.call? = some call →
      call.id ≠ "" ∧ call.name ≠ "" :=
    fun item hitem call hcall => hnamedCalls call (List.mem_filterMap.mpr ⟨item, hitem, hcall⟩)
  obtain ⟨messages, hmessages, hne, htext, hentries⟩ :=
    @convertItemsFrom_replay 0 [] user huser _ hreplayable
  refine ⟨(closeItems { c with error := none }).1.nonstreamResponse, messages, ?_, ?_, ?_, ?_⟩
  · rw [← List.append_assoc, List.getLast?_concat]
    exact response?_terminalEvent (error_closeItems _)
  · unfold convertInputItems
    rw [houtput]
    refine bind_eq_ok.mpr ⟨messages, hmessages, if_neg ?_⟩
    rw [List.isEmpty_iff]
    exact hne
  · rw [htext, haccrued.written_output, contents_chunks]
  · rw [hentries, hcalls, List.map_map, List.nil_append]
    exact congrArg (fun fragments : Int → List ToolCallDelta =>
    (callOrder (chunks.flatMap chunkPieces)).map
      fun index => (sentCall (fragments index)).entry) hfragments

def textBetweenCalls : List Json :=
  let chunk (delta : Fields) : Json := .obj [("choices", .arr [.obj [("delta", .obj delta)]])]
  let call (index : Nat) (id : String) : Fields :=
    [("tool_calls", .arr [.obj [("index", .ofNat index), ("id", .str id),
    ("function", .obj [("name", .str "read"), ("arguments", .str "\x7b\x7d")])]])]
  [chunk (call 1 "call_1"), chunk [("content", .str "ok")], chunk (call 0 "call_2")]

theorem run_output_replays_textBetweenCalls :
    let hex (n : Nat) : String := String.ofList (List.replicate n '0')
    ∃ response messages,
      (events (run hex 0 "m" false textBetweenCalls none).2).getLast?.bind Event.response? =
      some response ∧
      convertInputItems (response.output.map Item.json ++ [messageItem]) = .ok messages ∧
      assistantText messages = written some (textBetweenCalls.flatMap chunkContents) ∧
      assistantCalls messages = (callOrder (textBetweenCalls.flatMap chunkPieces)).map fun index =>
        (sentCall (fragmentsAt index textBetweenCalls)).entry := by
  have hcalls : ∀ call ∈ textBetweenCalls.flatMap chunkToolCalls, call.id.getD "" ≠ "" ∧
      call.name.getD "" ≠ "" := by
    decide +kernel
  exact run_output_replays zeros_injective 0 "m" false textBetweenCalls
    (fun index first hfirst => hcalls first (List.mem_of_mem_filter (List.mem_of_mem_head? hfirst)))
    messageItem ⟨_, rfl, rfl, rfl, fun _ => ⟨("hi", []), rfl⟩⟩

end ResponsesConverter
end Lobster.Responses
