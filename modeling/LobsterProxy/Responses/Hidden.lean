import LobsterProxy.Base.Twins
import LobsterProxy.Chat.Hidden
import LobsterProxy.Responses.Pump

/-! With exposure off, the frames and the response do not depend on the reasoning, up
to the random ids. -/

namespace Lobster.Responses
open Chat Emitter

def ResponseObject.nameless (response : ResponseObject) : ResponseObject :=
  { response with id := "", output := response.output.map Item.anonymous }

namespace Event

def nameless : Event → Event
  | created response => created response.nameless
  | inProgress response => inProgress response.nameless
  | outputItemAdded i item => outputItemAdded i item.anonymous
  | outputItemDone i item => outputItemDone i item.anonymous
  | reasoningPartAdded _ i => reasoningPartAdded "" i
  | reasoningDelta _ i delta => reasoningDelta "" i delta
  | reasoningTextDone _ i text => reasoningTextDone "" i text
  | reasoningPartDone _ i text => reasoningPartDone "" i text
  | contentPartAdded _ i => contentPartAdded "" i
  | outputTextDelta _ i delta => outputTextDelta "" i delta
  | outputTextDone _ i text => outputTextDone "" i text
  | contentPartDone _ i text => contentPartDone "" i text
  | argumentsDelta _ i delta => argumentsDelta "" i delta
  | argumentsDone _ i arguments => argumentsDone "" i arguments
  | completed response => completed response.nameless
  | incomplete response => incomplete response.nameless
  | failed response => failed response.nameless

end Event

def Frame.nameless (frame : Frame) : Frame := ⟨frame.event.nameless, frame.sequence⟩

namespace ResponsesConverter

def veil (c : ResponsesConverter) : ResponsesConverter :=
  { c with
    responseId := ""
    draws := 0
    outputItems := []
    reasoning := none
    message := c.message.map ItemState.anonymous
    tools := c.tools.mapValues ToolSlot.anonymous }

/-- Reasoning stays inside: no item has been made of it. -/
def Secret (c : ResponsesConverter) : Prop := c.exposeThinking = false ∧
  ∀ state, c.reasoning = some state → state.itemAdded = false ∧ state.outputIndex = none

/-- Converters that hide their reasoning and differ in it and in random ids at most. -/
def Veiled (c c' : ResponsesConverter) : Prop := Secret c ∧ Secret c' ∧ c.veil = c'.veil

/-- The state and the events of a step, as far as ids and reasoning do not matter. -/
def look (f : Emitter ResponsesConverter Event) (c : ResponsesConverter) :
    ResponsesConverter × List Event := ((f c).1.veil, (f c).2.map Event.nameless)

/-- A step that neither looks at the reasoning nor touches it. -/
def Blind (f : Emitter ResponsesConverter Event) : Prop :=
  ∀ c, (f c).1.exposeThinking = c.exposeThinking ∧ (f c).1.reasoning = c.reasoning

section Steps
variable {f g : Emitter ResponsesConverter Event} (hex hex' : Nat → String)

theorem Blind.secret (hblind : Blind f) {c : ResponsesConverter} (h : Secret c) :
    Secret (f c).1 := by
  obtain ⟨hexpose, hreasoning⟩ := hblind c
  refine ⟨hexpose.trans h.1, fun state hstate => ?_⟩
  rw [hreasoning] at hstate
  exact h.2 state hstate

theorem twins_of_look (hf : ∀ c, look f c = look g c.veil) (hg : ∀ c, look g c = look g c.veil)
    (hblind : Blind f) (hblind' : Blind g) : Twins Veiled Event.nameless f g := by
  rintro c c' ⟨hsecret, hsecret', hsame⟩
  have hlook : look f c = look g c' := by rw [hf, hsame, ← hg]
  obtain ⟨hstate, hout⟩ := Prod.mk.inj hlook
  exact ⟨⟨hblind.secret hsecret, hblind'.secret hsecret', hstate⟩, hout⟩

theorem twins_update {u : ResponsesConverter → ResponsesConverter} (hu : ∀ c, (u c).veil = u c.veil)
    (hblind : Blind (silent u)) : Twins Veiled Event.nameless (silent u) (silent u) := by
  refine twins_silent ?_
  rintro c c' ⟨hsecret, hsecret', hsame⟩
  have hstate : (u c).veil = (u c').veil := by rw [hu, hsame, ← hu]
  exact ⟨hblind.secret hsecret, hblind.secret hsecret', hstate⟩

theorem look_ensureStarted (c : ResponsesConverter) :
    look ensureStarted c = look ensureStarted c.veil := by
  cases hs : c.started <;>
    simp [look, ensureStarted, veil, hs, Event.nameless, ResponseObject.nameless, baseResponse,
      currentModel]

theorem blind_ensureStarted : Blind ensureStarted := by
  intro c
  cases hs : c.started <;> simp [ensureStarted, hs]

theorem look_feedText (text : String) (c : ResponsesConverter) :
    look (feedText hex text) c = look (feedText hex' text) c.veil := by
  rcases hm : c.message with _ | ⟨_, _ | _, _, _ | _, _, _, _⟩ <;>
    simp [look, feedText, stateOr, allocate, veil, ItemState.anonymous, ItemState.fresh, hm,
      Event.nameless, Item.anonymous]

theorem blind_feedText (text : String) : Blind (feedText hex text) := by
  intro c
  obtain ⟨state, next, items, draws, -, -, hstep, -⟩ := feedText_step hex c text
  rw [hstep]
  exact ⟨rfl, rfl⟩

theorem look_closeMessageItem (c : ResponsesConverter) :
    look closeMessageItem c = look closeMessageItem c.veil := by
  rcases hm : c.message with _ | ⟨_, _, _, _, _ | _, _ | _, _ | _⟩ <;>
    simp [look, closeMessageItem, veil, ItemState.anonymous, ItemState.wireIndex, hm,
      Event.nameless, Item.anonymous]

theorem blind_closeMessageItem : Blind closeMessageItem := by
  intro c
  obtain ⟨message, hstep, -⟩ := closeMessageItem_step c
  rw [hstep]
  exact ⟨rfl, rfl⟩

theorem look_addToolItem (call : ToolCallDelta) (c : ResponsesConverter) :
    look (addToolItem hex call) c = look (addToolItem hex' call) c.veil := by
  unfold look addToolItem
  dsimp only
  split_ifs <;>
    simp_all [veil, ToolSlot.anonymous, SortedMap.mapValues_insert, Event.nameless, Item.anonymous]

theorem blind_addToolItem (call : ToolCallDelta) : Blind (addToolItem hex call) := by
  intro c
  obtain ⟨slot, items, -, -, hstep, -⟩ := addToolItem_step hex c call
  rw [hstep]
  exact ⟨rfl, rfl⟩

theorem look_feedToolCallArguments (call : ToolCallDelta) (c : ResponsesConverter) :
    look (feedToolCallArguments call) c = look (feedToolCallArguments call) c.veil := by
  unfold look feedToolCallArguments
  cases hfind : c.tools.find? call.index with
  | none => simp [veil, SortedMap.find?_mapValues, hfind]
  | some slot =>
    simp [veil, SortedMap.find?_mapValues, hfind, SortedMap.mapValues_insert, ToolSlot.anonymous]
    split_ifs <;> rfl

theorem blind_feedToolCallArguments (call : ToolCallDelta) :
    Blind (feedToolCallArguments call) := by
  intro c
  obtain ⟨tools, hstep, -⟩ := feedToolCallArguments_step c call
  rw [hstep]
  exact ⟨rfl, rfl⟩

theorem look_closeTools (c : ResponsesConverter) : look closeTools c = look closeTools c.veil := by
  have hevents (slot : ToolSlot) :
      (closeTool slot.anonymous).map Event.nameless = (closeTool slot).map Event.nameless := rfl
  have hopen : (c.tools.mapValues ToolSlot.anonymous).values.filter
      (fun slot => !slot.done && !slot.server) =
      (c.tools.values.filter fun slot => !slot.done && !slot.server).map ToolSlot.anonymous := by
    rw [SortedMap.values_mapValues, List.filter_map]
    rfl
  unfold look closeTools
  dsimp only [veil]
  rw [hopen, List.flatMap_map, List.map_flatMap, List.map_flatMap]
  simp only [hevents, SortedMap.mapValues_mapValues, Option.map_map, state_anonymous_comp]
  rfl

theorem blind_closeTools : Blind closeTools := fun _ => ⟨rfl, rfl⟩

theorem twins_feedReasoning (text : String) :
    Twins Veiled Event.nameless (feedReasoning hex text) skip := by
  rintro c c' ⟨⟨hhidden, hsecret⟩, hsecret', hsame⟩
  have hfresh : (c.reasoning.getD (.fresh ("rs_" ++ hex c.draws))).itemAdded = false ∧
      (c.reasoning.getD (.fresh ("rs_" ++ hex c.draws))).outputIndex = none := by
    cases hr : c.reasoning with
    | none => exact ⟨rfl, rfl⟩
    | some state => exact hsecret state hr
  rw [feedReasoning_hidden hex hhidden]
  refine ⟨⟨⟨hhidden, ?_⟩, hsecret', hsame⟩, rfl⟩
  intro state hstate
  cases hstate
  exact hfresh

theorem twins_closeReasoningItem :
    Twins Veiled Event.nameless closeReasoningItem closeReasoningItem := by
  intro c c' h
  rw [closeReasoningItem_hidden fun state hstate => (h.1.2 state hstate).1,
    closeReasoningItem_hidden fun state hstate => (h.2.1.2 state hstate).1]
  exact ⟨h, rfl⟩

theorem Veiled.field {α : Type} {c c' : ResponsesConverter} (h : Veiled c c')
    (f : ResponsesConverter → α) :
    f c.veil = f c'.veil := congrArg f h.2.2

theorem twins_ensureToolItemAdded (call : ToolCallDelta) :
    Twins Veiled Event.nameless (ensureToolItemAdded hex call) (ensureToolItemAdded hex' call) := by
  have hadd : Twins Veiled Event.nameless (addToolItem hex call) (addToolItem hex' call) :=
    twins_of_look (look_addToolItem hex hex' call) (look_addToolItem hex' hex' call)
      (blind_addToolItem hex call) (blind_addToolItem hex' call)
  have hclose : Twins Veiled Event.nameless closeMessageItem closeMessageItem :=
    twins_of_look look_closeMessageItem look_closeMessageItem blind_closeMessageItem
      blind_closeMessageItem
  intro c c' h
  have htools : c.tools.mapValues ToolSlot.anonymous = c'.tools.mapValues ToolSlot.anonymous :=
    h.field tools
  obtain ⟨hcontains, hempty⟩ := same_calls_of_anonymous htools call.index
  unfold ensureToolItemAdded
  rw [hcontains, hempty]
  split_ifs
  · exact ⟨h, rfl⟩
  · exact (hclose.andThen hadd) c c' h
  · exact hadd c c' h

theorem twins_feedDelta (delta : Delta) (h : delta.isReasoning = false) :
    Twins Veiled Event.nameless (feedDelta hex delta) (feedDelta hex' delta) := by
  cases delta with
  | finish reason => exact twins_update (fun _ => rfl) fun _ => ⟨rfl, rfl⟩
  | reasoning text => cases h
  | content text =>
    exact twins_of_look (look_feedText hex hex' text) (look_feedText hex' hex' text)
      (blind_feedText hex text) (blind_feedText hex' text)
  | toolCalls calls =>
    have harguments (call : ToolCallDelta) :
        Twins Veiled Event.nameless (feedToolCallArguments call) (feedToolCallArguments call) :=
      twins_of_look (look_feedToolCallArguments call) (look_feedToolCallArguments call)
        (blind_feedToolCallArguments call) (blind_feedToolCallArguments call)
    exact (twins_forEach (twins_ensureToolItemAdded hex hex') calls).andThen
      (twins_forEach harguments calls)

theorem twins_feedChunkEvents (chunk : Json) : Twins Veiled Event.nameless
    (feedChunkEvents hex chunk) (feedChunkEvents hex' (hideReasoning chunk)) := by
  have hstart : Twins Veiled Event.nameless ensureStarted ensureStarted :=
    twins_of_look look_ensureStarted look_ensureStarted blind_ensureStarted blind_ensureStarted
  have hnote : Twins Veiled Event.nameless (silent (noteChunk chunk))
      (silent (noteChunk (hideReasoning chunk))) := by
    have hsame : noteChunk (hideReasoning chunk) = noteChunk chunk := by
      unfold noteChunk
      rw [chunkModel_hideReasoning, chunkUsage_hideReasoning]
    rw [hsame]
    exact twins_update (fun _ => rfl) fun _ => ⟨rfl, rfl⟩
  have hdeltas : Twins Veiled Event.nameless (forEach (feedDelta hex) (chunkDeltas chunk))
      (forEach (feedDelta hex') (chunkDeltas (hideReasoning chunk))) := by
    rw [chunkDeltas_hideReasoning]
    refine twins_forEach_filter (fun delta hp => ?_) (fun delta hp => ?_) _
    · exact twins_feedDelta hex hex' delta (by simpa using hp)
    · cases delta with
      | reasoning text => exact twins_feedReasoning hex text
      | _ => cases hp
  exact hstart.andThen (hnote.andThen hdeltas)

theorem twins_closeItems : Twins Veiled Event.nameless closeItems closeItems :=
  twins_closeReasoningItem.andThen <|
    (twins_of_look look_closeMessageItem look_closeMessageItem blind_closeMessageItem
      blind_closeMessageItem).andThen <|
    twins_of_look look_closeTools look_closeTools blind_closeTools blind_closeTools

theorem numbered_veiled {f g : Emitter ResponsesConverter Event} {c c' : ResponsesConverter}
    (hc : Veiled c c')
    (h : Veiled (f c).1 (g c').1 ∧ (f c).2.map Event.nameless = (g c').2.map Event.nameless) :
    Veiled (numbered f c).1 (numbered g c').1 ∧
      (numbered f c).2.map Frame.nameless = (numbered g c').2.map Frame.nameless := by
  obtain ⟨⟨hsecret, hsecret', hsame⟩, hout⟩ := h
  have hsequence : c.sequence = c'.sequence := hc.field sequence
  have hlength : (f c).2.length = (g c').2.length := by simpa using congrArg List.length hout
  have hframes (start : Nat) (events : List Event) :
      (events.mapIdx fun i event => (⟨event, start + (i + 1)⟩ : Frame)).map Frame.nameless =
        (events.map Event.nameless).mapIdx fun i event => (⟨event, start + (i + 1)⟩ : Frame) := by
    simp only [List.mapIdx_eq_zipIdx_map, List.map_map, List.zipIdx_map]
    rfl
  unfold numbered
  dsimp only
  refine ⟨⟨hsecret, hsecret', ?_⟩, ?_⟩
  · have hset := congrArg (fun c : ResponsesConverter =>
      { c with sequence := c'.sequence + (g c').2.length }) hsame
    rw [hsequence, hlength]
    exact hset
  · rw [hframes, hframes, hout, hsequence]

theorem twins_feedChunk (chunk : Json) : Twins Veiled Frame.nameless
    (feedChunk hex chunk) (feedChunk hex' (hideReasoning chunk)) :=
  fun c c' h => numbered_veiled h (twins_feedChunkEvents hex hex' chunk c c' h)

end Steps

section Response
variable {c c' : ResponsesConverter}

theorem itemAt_veil (h : Secret c) (k : Nat) :
    (c.itemAt k).map Item.anonymous = c.veil.itemAt k := by
  have hreasoning : c.reasoning.filter (fun s => s.outputIndex = some k) = none := by
    refine Option.filter_eq_none_iff.mpr fun s hs => ?_
    rw [decide_eq_true_iff, (h.2 s hs).2]
    exact nofun
  have hmessage : (c.message.map ItemState.anonymous).filter (fun s => s.outputIndex = some k) =
      (c.message.filter fun s => s.outputIndex = some k).map ItemState.anonymous := by
    cases c.message with
    | none => rfl
    | some s =>
      by_cases hs : s.outputIndex = some k <;> simp [ItemState.anonymous, Option.filter, hs]
  unfold itemAt
  simp only [veil, hreasoning, hmessage, Option.map_or, Option.map_map, SortedMap.values_mapValues,
    List.find?_map]
  rfl

theorem output_veiled (h : Veiled c c') (hlisted : Listed c) (hlisted' : Listed c')
    (status : String) :
    (c.terminalResponse status).output.map Item.anonymous =
      (c'.terminalResponse status).output.map Item.anonymous := by
  have hoff {c : ResponsesConverter} (hsecret : Secret c) (hlisted : Listed c) :
      (c.terminalResponse status).output.map Item.anonymous =
        (List.range c.veil.nextOutputIndex).filterMap c.veil.itemAt := by
    rw [hlisted status, List.map_filterMap]
    exact congrArg (List.filterMap · _) (funext fun k => itemAt_veil hsecret k)
  rw [hoff h.1 hlisted, hoff h.2.1 hlisted', h.2.2]

theorem terminalResponse_veiled (h : Veiled c c') (hlisted : Listed c) (hlisted' : Listed c')
    (status : String) :
    (c.terminalResponse status).nameless = (c'.terminalResponse status).nameless := by
  have hmodel : c.currentModel = c'.currentModel := h.field currentModel
  have husage : c.usage = c'.usage := h.field usage
  have hcreated : c.createdAt = c'.createdAt := h.field createdAt
  unfold ResponseObject.nameless
  rw [output_veiled h hlisted hlisted']
  unfold terminalResponse baseResponse
  rw [hmodel, husage, hcreated]

theorem nonstreamResponse_veiled (h : Veiled c c') (hlisted : Listed c) (hlisted' : Listed c') :
    c.nonstreamResponse.nameless = c'.nonstreamResponse.nameless := by
  have herror : c.error = c'.error := h.field error
  have hstatus : c.nonstreamStatus = c'.nonstreamStatus := h.field nonstreamStatus
  have hresponse := terminalResponse_veiled h hlisted hlisted' c.nonstreamStatus
  unfold nonstreamResponse
  dsimp only
  rw [← hstatus, ← herror]
  exact congrArg (fun response : ResponseObject => { response with
    error := if c.nonstreamStatus = "failed" then some (c.error.getD "upstream error") else none
    incompleteReason :=
      if c.nonstreamStatus = "incomplete" then some "max_output_tokens" else none })
    hresponse

theorem terminalEvent_veiled (h : Veiled c c') (hlisted : Listed c) (hlisted' : Listed c') :
    c.terminalEvent.nameless = c'.terminalEvent.nameless := by
  have hfinish : c.finishReason = c'.finishReason := h.field finishReason
  have hresponse (status : String) := terminalResponse_veiled h hlisted hlisted' status
  unfold terminalEvent
  rw [hfinish]
  split_ifs
  · exact congrArg (fun response : ResponseObject =>
      Event.incomplete { response with incompleteReason := some "max_output_tokens" }) (hresponse _)
  · exact congrArg Event.completed (hresponse _)

theorem finish_veiled (h : Veiled c c') (hlisted : Listed (closeItems { c with error := none }).1)
    (hlisted' : Listed (closeItems { c' with error := none }).1) :
    Veiled (finish none c).1 (finish none c').1 ∧
      (finish none c).2.map Frame.nameless = (finish none c').2.map Frame.nameless := by
  have hrunning : Veiled { c with error := none } { c' with error := none } :=
    ⟨h.1, h.2.1, congrArg (fun c : ResponsesConverter => { c with error := none }) h.2.2⟩
  obtain ⟨hclosed, hout⟩ := twins_closeItems _ _ hrunning
  refine numbered_veiled h ?_
  rw [finishEvents_none, finishEvents_none]
  refine ⟨hclosed, ?_⟩
  dsimp only
  rw [List.map_append, List.map_append, hout, List.map_singleton, List.map_singleton,
    terminalEvent_veiled hclosed hlisted hlisted']

end Response

section Run
variable {hex hex' : Nat → String}

theorem run_veiled (hinj : Function.Injective hex) (hinj' : Function.Injective hex')
    (createdAt : UInt64) (model : String) (chunks : List Json) :
    let shown := run hex createdAt model false chunks none
    let hidden := run hex' createdAt model false (chunks.map hideReasoning) none
    shown.2.map Frame.nameless = hidden.2.map Frame.nameless ∧
      shown.1.nonstreamResponse.nameless = hidden.1.nonstreamResponse.nameless := by
  have hnew : Veiled (new hex createdAt model false) (new hex' createdAt model false) :=
    ⟨⟨rfl, nofun⟩, ⟨rfl, nofun⟩, rfl⟩
  obtain ⟨hfed, hout⟩ := twins_forEach_map (twins_feedChunk hex hex') chunks _ _ hnew
  obtain ⟨hinv, hdrawn, -⟩ := ResponsesPump.feeding_chunks hinj createdAt model false chunks
  obtain ⟨hinv', hdrawn', -⟩ :=
    ResponsesPump.feeding_chunks hinj' createdAt model false (chunks.map hideReasoning)
  obtain ⟨hfinished, hout'⟩ := finish_veiled hfed (ResponsesPump.listed_closeItems hinv hdrawn)
    (ResponsesPump.listed_closeItems hinv' hdrawn')
  refine ⟨?_, nonstreamResponse_veiled hfinished (ResponsesPump.listed_finish hinv hdrawn)
    (ResponsesPump.listed_finish hinv' hdrawn')⟩
  unfold run feedAll andThen
  dsimp only
  rw [List.map_append, List.map_append, hout, hout']

/-- Chunks that differ in their reasoning alone give the same frames and the same response. -/
theorem run_hides_reasoning (hinj : Function.Injective hex) (hinj' : Function.Injective hex')
    (createdAt : UInt64) (model : String) {chunks chunks' : List Json}
    (h : chunks.map hideReasoning = chunks'.map hideReasoning) :
    let first := run hex createdAt model false chunks none
    let second := run hex' createdAt model false chunks' none
    first.2.map Frame.nameless = second.2.map Frame.nameless ∧
      first.1.nonstreamResponse.nameless = second.1.nonstreamResponse.nameless := by
  obtain ⟨hframes, hresponse⟩ := run_veiled hinj hinj' createdAt model chunks
  obtain ⟨hframes', hresponse'⟩ := run_veiled hinj' hinj' createdAt model chunks'
  rw [← h] at hframes' hresponse'
  exact ⟨hframes.trans hframes'.symm, hresponse.trans hresponse'.symm⟩

end Run

end ResponsesConverter
end Lobster.Responses
