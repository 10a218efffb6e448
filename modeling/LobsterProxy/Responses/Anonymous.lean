import LobsterProxy.Responses.StreamWellFormed

/-! The Responses converter under different random ids: what differs is the ids. -/

namespace Lobster.Responses
open Chat Emitter

def Item.anonymous : Item → Item
  | reasoning _ summary => .reasoning "" summary
  | message _ text => .message "" text
  | functionCall _ callId name arguments => .functionCall "" callId name arguments

/-- The response object without random ids and creation time. -/
def ResponseObject.anonymous (response : ResponseObject) : ResponseObject :=
  { response with id := "", createdAt := 0, output := response.output.map Item.anonymous }

def ItemState.anonymous (state : ItemState) : ItemState := { state with itemId := "" }

def ToolSlot.anonymous (slot : ToolSlot) : ToolSlot := { slot with itemId := "" }

theorem zeros_injective :
    Function.Injective fun n : Nat => String.ofList (List.replicate n '0') := by
  intro a b h
  have hlength := congrArg String.length h
  simpa only [String.length_ofList, List.length_replicate] using hlength

namespace ResponsesConverter

/-- The converter without ids, descriptors, times and counters of random ids and frames. -/
def anonymous (c : ResponsesConverter) : ResponsesConverter :=
  { c with
    responseId := ""
    createdAt := 0
    sequence := 0
    draws := 0
    outputItems := []
    reasoning := c.reasoning.map ItemState.anonymous
    message := c.message.map ItemState.anonymous
    tools := c.tools.mapValues ToolSlot.anonymous }

@[simp] theorem state_anonymous_comp :
    ItemState.anonymous ∘ ItemState.anonymous = ItemState.anonymous :=
  rfl

@[simp] theorem slot_anonymous_comp :
    ToolSlot.anonymous ∘ ToolSlot.anonymous = ToolSlot.anonymous :=
  rfl

section Steps
variable (hex hex' : Nat → String)

theorem anonymous_feedReasoning (text : String) (c : ResponsesConverter) :
    (feedReasoning hex text c).1.anonymous = (feedReasoning hex' text c.anonymous).1.anonymous := by
  rcases hr : c.reasoning with _ | ⟨_, _ | _, _, _, _, _, _⟩ <;> cases he : c.exposeThinking <;>
    simp [feedReasoning, stateOr, allocate, anonymous, ItemState.anonymous, ItemState.fresh, hr, he]

theorem anonymous_feedText (text : String) (c : ResponsesConverter) :
    (feedText hex text c).1.anonymous = (feedText hex' text c.anonymous).1.anonymous := by
  rcases hm : c.message with _ | ⟨_, _ | _, _, _, _, _, _⟩ <;>
    simp [feedText, stateOr, allocate, anonymous, ItemState.anonymous, ItemState.fresh, hm]

theorem anonymous_closeMessageItem (c : ResponsesConverter) :
    (closeMessageItem c).1.anonymous = (closeMessageItem c.anonymous).1.anonymous := by
  rcases hm : c.message with _ | ⟨_, _, _, _, _, _, _ | _⟩ <;>
    simp [closeMessageItem, anonymous, ItemState.anonymous, hm]

theorem anonymous_closeReasoningItem (c : ResponsesConverter) :
    (closeReasoningItem c).1.anonymous = (closeReasoningItem c.anonymous).1.anonymous := by
  rcases hr : c.reasoning with _ | ⟨_, _, _, _ | _, _, _, _ | _⟩ <;>
    simp [closeReasoningItem, anonymous, ItemState.anonymous, hr]

theorem anonymous_ensureStarted (c : ResponsesConverter) :
    (ensureStarted c).1.anonymous = (ensureStarted c.anonymous).1.anonymous := by
  cases hs : c.started <;> simp [ensureStarted, anonymous, hs]

theorem anonymous_addToolItem (call : ToolCallDelta) (c : ResponsesConverter) :
    (addToolItem hex call c).1.anonymous = (addToolItem hex' call c.anonymous).1.anonymous := by
  unfold addToolItem
  dsimp only
  split_ifs <;> simp [anonymous, ToolSlot.anonymous, SortedMap.mapValues_insert]

theorem anonymous_feedToolCallArguments (call : ToolCallDelta) (c : ResponsesConverter) :
    (feedToolCallArguments call c).1.anonymous =
      (feedToolCallArguments call c.anonymous).1.anonymous := by
  unfold feedToolCallArguments
  cases hfind : c.tools.find? call.index with
  | none => simp [anonymous, SortedMap.find?_mapValues, hfind]
  | some slot =>
    simp [anonymous, SortedMap.find?_mapValues, hfind, SortedMap.mapValues_insert,
      ToolSlot.anonymous]

theorem anonymous_closeTools (c : ResponsesConverter) :
    (closeTools c).1.anonymous = (closeTools c.anonymous).1.anonymous := by
  simp [closeTools, anonymous]
  rfl

theorem same_calls_of_anonymous {tools tools' : SortedMap Int ToolSlot}
    (h : tools.mapValues ToolSlot.anonymous = tools'.mapValues ToolSlot.anonymous) (index : Int) :
    tools.contains index = tools'.contains index ∧ tools.isEmpty = tools'.isEmpty := by
  constructor
  · rw [← SortedMap.contains_mapValues ToolSlot.anonymous, h, SortedMap.contains_mapValues]
  · rw [← SortedMap.isEmpty_mapValues ToolSlot.anonymous, h, SortedMap.isEmpty_mapValues]

theorem alike_ensureToolItemAdded (call : ToolCallDelta) :
    Alike anonymous (ensureToolItemAdded hex call) (ensureToolItemAdded hex' call) := by
  have hadd : Alike anonymous (addToolItem hex call) (addToolItem hex' call) :=
    alike_of_view (anonymous_addToolItem hex hex' call) (anonymous_addToolItem hex' hex' call)
  have hclose : Alike anonymous closeMessageItem closeMessageItem :=
    alike_of_view anonymous_closeMessageItem anonymous_closeMessageItem
  intro c c' h
  have htools : c.tools.mapValues ToolSlot.anonymous = c'.tools.mapValues ToolSlot.anonymous :=
    congrArg ResponsesConverter.tools h
  obtain ⟨hcontains, hempty⟩ := same_calls_of_anonymous htools call.index
  unfold ensureToolItemAdded
  rw [hcontains, hempty]
  split_ifs
  · exact h
  · exact (hclose.andThen hadd) c c' h
  · exact hadd c c' h

theorem alike_feedDelta (delta : Delta) :
    Alike anonymous (feedDelta hex delta) (feedDelta hex' delta) := by
  cases delta with
  | finish reason =>
    exact fun c c' h => congrArg (fun c => { c with finishReason := some reason }) h
  | reasoning text =>
    exact alike_of_view (anonymous_feedReasoning hex hex' text)
      (anonymous_feedReasoning hex' hex' text)
  | content text =>
    exact alike_of_view (anonymous_feedText hex hex' text) (anonymous_feedText hex' hex' text)
  | toolCalls calls =>
    refine (alike_forEach (fun call => alike_ensureToolItemAdded hex hex' call) calls).andThen ?_
    exact alike_forEach (fun call => alike_of_view (anonymous_feedToolCallArguments call)
      (anonymous_feedToolCallArguments call)) calls

theorem alike_feedChunk (chunk : Json) :
    Alike anonymous (feedChunk hex chunk) (feedChunk hex' chunk) := by
  have hstart : Alike anonymous ensureStarted ensureStarted :=
    alike_of_view anonymous_ensureStarted anonymous_ensureStarted
  have hnote : Alike anonymous (silent (noteChunk chunk) : Emitter ResponsesConverter Event)
      (silent (noteChunk chunk)) :=
    fun c c' h => congrArg (fun c => noteChunk chunk c) h
  exact fun c c' h => (hstart.andThen (hnote.andThen
    (alike_forEach (fun delta => alike_feedDelta hex hex' delta) (chunkDeltas chunk)))) c c' h

theorem alike_finish : Alike anonymous (finish none) (finish none) := by
  have hreasoning : Alike anonymous closeReasoningItem closeReasoningItem :=
    alike_of_view anonymous_closeReasoningItem anonymous_closeReasoningItem
  have hmessage : Alike anonymous closeMessageItem closeMessageItem :=
    alike_of_view anonymous_closeMessageItem anonymous_closeMessageItem
  have htools : Alike anonymous closeTools closeTools :=
    alike_of_view anonymous_closeTools anonymous_closeTools
  intro c c' h
  have hstate (c : ResponsesConverter) : (finish none c).1.anonymous =
      (closeItems { c with error := none }).1.anonymous := by
    show (finishEvents none c).1.anonymous = _
    rw [finishEvents_none]
  rw [hstate, hstate]
  exact (hreasoning.andThen (hmessage.andThen htools)) _ _
    (congrArg (fun c => { c with error := none }) h)

end Steps

section Drawn
variable {hex : Nat → String} {c c' : ResponsesConverter} {past past' : List Event}

def slotId (c : ResponsesConverter) (index : Int) : Option String :=
  (c.tools.find? index).map ToolSlot.itemId

/-- Every slot has an id of its own, made from a random half that has been drawn. -/
structure Drawn (hex : Nat → String) (c : ResponsesConverter) (_past : List Event) : Prop where
  drawn : ∀ index id, c.slotId index = some id → ∃ n < c.draws, id = "fc_" ++ hex n
  distinct : ∀ a b id, c.slotId a = some id → c.slotId b = some id → a = b

theorem Drawn.of_slotIds (h : Drawn hex c past) (hids : ∀ index, c'.slotId index = c.slotId index)
    (hdraws : c.draws ≤ c'.draws) : Drawn hex c' past' where
  drawn := by
    intro index id hid
    rw [hids] at hid
    obtain ⟨n, hn, hid⟩ := h.drawn index id hid
    exact ⟨n, Nat.lt_of_lt_of_le hn hdraws, hid⟩
  distinct := by
    intro a b id ha hb
    rw [hids] at ha hb
    exact h.distinct a b id ha hb

theorem Drawn.of_tools (h : Drawn hex c past) (htools : c'.tools = c.tools)
    (hdraws : c.draws ≤ c'.draws) : Drawn hex c' past' := by
  refine h.of_slotIds (fun index => ?_) hdraws
  unfold slotId
  rw [htools]

theorem Drawn.distinctSlots (h : Drawn hex c past) : DistinctSlots c.tools := by
  intro a b s t ha hb hst
  refine h.distinct a b s.itemId ?_ ?_
  · unfold slotId
    rw [ha]
    rfl
  · unfold slotId
    rw [hb, hst]
    rfl

theorem draws_feedReasoning (text : String) : Keeps (Drawn hex) (feedReasoning hex text) := by
  intro c _ h
  obtain ⟨state, next, items, draws, hdraws, -, hstep, -⟩ := feedReasoning_step hex c text
  rw [hstep]
  exact h.of_tools rfl hdraws

theorem draws_feedText (text : String) : Keeps (Drawn hex) (feedText hex text) := by
  intro c _ h
  obtain ⟨state, next, items, draws, hdraws, -, hstep, -⟩ := feedText_step hex c text
  rw [hstep]
  exact h.of_tools rfl hdraws

theorem draws_closeMessageItem : Keeps (Drawn hex) closeMessageItem := by
  intro c _ h
  obtain ⟨message, hstep, -⟩ := closeMessageItem_step c
  rw [hstep]
  exact h.of_tools rfl le_rfl

theorem draws_closeReasoningItem : Keeps (Drawn hex) closeReasoningItem := by
  intro c _ h
  obtain ⟨reasoning, hstep, -⟩ := closeReasoningItem_step c
  rw [hstep]
  exact h.of_tools rfl le_rfl

theorem draws_closeTools : Keeps (Drawn hex) closeTools := by
  intro c _ h
  refine h.of_slotIds (fun index => ?_) le_rfl
  unfold slotId closeTools
  rw [SortedMap.find?_mapValues, Option.map_map]
  rfl

theorem draws_addToolItem (hinj : Function.Injective hex) (call : ToolCallDelta) :
    Keeps (Drawn hex) (addToolItem hex call) := by
  intro c past h
  obtain ⟨slot, items, hid, -, hstep, -⟩ := addToolItem_step hex c call
  have hids (index : Int) : (addToolItem hex call c).1.slotId index =
      if call.index = index then some ("fc_" ++ hex c.draws) else c.slotId index := by
    rw [hstep]
    unfold slotId
    rw [SortedMap.find?_insert, apply_ite (Option.map ToolSlot.itemId), ← hid]
    rfl
  have hdraws : (addToolItem hex call c).1.draws = c.draws + 1 := by rw [hstep]
  -- an id drawn before is made from an earlier random half
  have hfresh {index : Int} : ¬ c.slotId index = some ("fc_" ++ hex c.draws) := by
    intro hid
    obtain ⟨n, hn, hid⟩ := h.drawn index _ hid
    have hsame : hex c.draws = hex n := by
      rw [← String.toList_inj] at hid ⊢
      simpa using hid
    exact absurd (hinj hsame) hn.ne'
  constructor
  · intro index id hid
    rw [hids] at hid
    rw [hdraws]
    split_ifs at hid with hindex
    · exact ⟨c.draws, Nat.lt_succ_self _, (Option.some.inj hid).symm⟩
    · obtain ⟨n, hn, hid⟩ := h.drawn index id hid
      exact ⟨n, Nat.lt_succ_of_lt hn, hid⟩
  · intro a b id ha hb
    rw [hids] at ha hb
    split_ifs at ha hb with haindex hbindex hbindex
    · exact haindex.symm.trans hbindex
    · exact absurd (hb.trans ha.symm) hfresh
    · exact absurd (ha.trans hb.symm) hfresh
    · exact h.distinct a b id ha hb

theorem draws_ensureToolItemAdded (hinj : Function.Injective hex) (call : ToolCallDelta) :
    Keeps (Drawn hex) (ensureToolItemAdded hex call) := by
  intro c past h
  unfold ensureToolItemAdded
  split_ifs
  · exact h.of_tools rfl le_rfl
  · exact (draws_closeMessageItem.andThen (draws_addToolItem hinj call)) c past h
  · exact draws_addToolItem hinj call c past h

theorem draws_feedToolCallArguments (call : ToolCallDelta) :
    Keeps (Drawn hex) (feedToolCallArguments call) := by
  intro c _ h
  obtain ⟨tools, hstep, ⟨-, htools⟩ | ⟨slot, server, hfind, htools⟩, -⟩ :=
    feedToolCallArguments_step c call
  · rw [hstep]
    exact h.of_tools htools le_rfl
  · rw [hstep]
    refine h.of_slotIds (fun index => ?_) le_rfl
    unfold slotId
    dsimp only
    rw [htools, SortedMap.find?_insert]
    split_ifs with hindex
    · rw [← hindex, hfind]
      rfl
    · rfl

theorem draws_feedDelta (hinj : Function.Injective hex) (delta : Delta) :
    Keeps (Drawn hex) (feedDelta hex delta) := by
  cases delta with
  | finish reason => exact leads_silent fun _ _ h => h.of_tools rfl le_rfl
  | reasoning text => exact draws_feedReasoning text
  | content text => exact draws_feedText text
  | toolCalls calls =>
    exact (keeps_forEach fun call _ => draws_ensureToolItemAdded hinj call).andThen
      (keeps_forEach fun call _ => draws_feedToolCallArguments call)

theorem draws_feedChunkEvents (hinj : Function.Injective hex) (chunk : Json) :
    Keeps (Drawn hex) (feedChunkEvents hex chunk) := by
  have hstart : Keeps (Drawn hex) ensureStarted := by
    intro c _ h
    unfold ensureStarted
    split_ifs
    · exact h.of_tools rfl le_rfl
    · exact h.of_tools rfl le_rfl
  have hnote : Keeps (Drawn hex) (silent (noteChunk chunk)) :=
    leads_silent fun _ _ h => h.of_tools rfl le_rfl
  exact hstart.andThen (hnote.andThen (keeps_forEach fun delta _ => draws_feedDelta hinj delta))

theorem draws_closeItems : Keeps (Drawn hex) closeItems :=
  draws_closeReasoningItem.andThen (draws_closeMessageItem.andThen draws_closeTools)

theorem drawn_new (createdAt : UInt64) (model : String) (exposeThinking : Bool) :
    Drawn hex (new hex createdAt model exposeThinking) [] := ⟨nofun, nofun⟩

end Drawn

section Response
variable {c c' : ResponsesConverter}

theorem itemAt_anonymous (c : ResponsesConverter) (k : Nat) :
    (c.itemAt k).map Item.anonymous = c.anonymous.itemAt k := by
  have hstate (state : Option ItemState) :
      (state.map ItemState.anonymous).filter (fun s => s.outputIndex = some k) =
        (state.filter fun s => s.outputIndex = some k).map ItemState.anonymous := by
    cases state with
    | none => rfl
    | some s =>
      by_cases hs : s.outputIndex = some k <;> simp [ItemState.anonymous, Option.filter, hs]
  unfold itemAt
  simp only [anonymous, hstate, Option.map_or, Option.map_map, SortedMap.values_mapValues,
    List.find?_map]
  rfl

/-- The response lists, at each output index, the item there. -/
def Listed (c : ResponsesConverter) : Prop :=
  ∀ status, (c.terminalResponse status).output = (List.range c.nextOutputIndex).filterMap c.itemAt

theorem output_anonymous (h : Listed c) (status : String) :
    (c.terminalResponse status).output.map Item.anonymous =
      (List.range c.anonymous.nextOutputIndex).filterMap c.anonymous.itemAt := by
  rw [h status, List.map_filterMap]
  exact congrArg (List.filterMap · _) (funext fun k => itemAt_anonymous c k)

/-- Converters that look alike without their ids make responses that do. -/
theorem nonstreamResponse_alike (h : c.anonymous = c'.anonymous) (hlisted : Listed c)
    (hlisted' : Listed c') : c.nonstreamResponse.anonymous = c'.nonstreamResponse.anonymous := by
  have hview {α : Type} (f : ResponsesConverter → α) : f c.anonymous = f c'.anonymous :=
    congrArg f h
  have herror : c.error = c'.error := hview error
  have hmodel : c.currentModel = c'.currentModel := hview currentModel
  have hstatus : c.nonstreamStatus = c'.nonstreamStatus := hview nonstreamStatus
  have husage : c.usage = c'.usage := hview usage
  have houtput : (c.terminalResponse c.nonstreamStatus).output.map Item.anonymous =
      (c'.terminalResponse c'.nonstreamStatus).output.map Item.anonymous := by
    rw [output_anonymous hlisted, output_anonymous hlisted', h]
  unfold nonstreamResponse ResponseObject.anonymous
  dsimp only
  rw [houtput, ← hstatus, ← herror]
  unfold terminalResponse baseResponse
  rw [hmodel, husage]

end Response

end ResponsesConverter
end Lobster.Responses
