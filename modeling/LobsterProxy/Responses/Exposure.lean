import LobsterProxy.Responses.Request
import LobsterProxy.Responses.StreamWellFormed

/-! Requested-only thinking: what a request says about reasoning decides whether
its stream may show any. -/

namespace Lobster.Responses
open Chat Emitter Conversion

/-- No reasoning summary is asked for: there is no `reasoning`, or its `summary` is
absent, null or "none". -/
def noSummaryAsked (request : Json) : Bool :=
  match request.get? "reasoning" with
  | none => true
  | some reasoning => match reasoning.get? "summary" with
    | none | some .null => true
    | some (.str summary) => summary = "none"
    | some _ => false

def effortNamed (request : Json) : Bool :=
  match request.get? "reasoning" with
  | none => true
  | some reasoning => (reasoning.getStr? "effort").isSome

theorem convertReasoning_exposes {request : Json} {effort : Option Json} {exposes : Bool}
    (h : convertReasoning (request.get? "reasoning") = .ok (effort, exposes))
    (hsummary : noSummaryAsked request = true) : exposes = !effortNamed request := by
  unfold noSummaryAsked at hsummary
  unfold effortNamed
  cases hreasoning : request.get? "reasoning" with
  | none =>
    rw [hreasoning] at h
    cases h
    rfl
  | some reasoning =>
    rw [hreasoning] at h hsummary
    obtain ⟨fields, -, h⟩ := bind_eq_ok.mp h
    obtain ⟨effort', -, h⟩ := bind_eq_ok.mp h
    have hnone : (reasoning.getStr? "summary").any (fun summary => summary ≠ "none") = false := by
      unfold Json.getStr?
      dsimp only at hsummary
      split at hsummary
      · next hget => rw [hget]; rfl
      · next hget => rw [hget]; rfl
      · next summary hget =>
        rw [hget]
        simpa [Json.asStr] using hsummary
      · cases hsummary
    cases h
    rw [hnone, Bool.false_or]
    exact (Option.not_isSome _).symm

theorem thinkingRequested_eq {defaultModel : String} {request : Json} {converted : Converted}
    (h : convertRequest defaultModel request = .ok converted)
      (hsummary : noSummaryAsked request = true) :
    converted.thinkingRequested = !effortNamed request := by
  unfold convertRequest at h
  obtain ⟨object, hobject, h⟩ := bind_eq_ok.mp h
  obtain ⟨maxTokens, -, h⟩ := bind_eq_ok.mp h
  obtain ⟨⟨effort, exposes⟩, hreasoning, h⟩ := bind_eq_ok.mp h
  obtain ⟨messages, -, h⟩ := bind_eq_ok.mp h
  obtain ⟨tools, -, h⟩ := bind_eq_ok.mp h
  obtain ⟨toolChoice, -, h⟩ := bind_eq_ok.mp h
  cases h
  cases request with
  | obj fields =>
    cases hobject
    exact convertReasoning_exposes hreasoning hsummary
  | _ => cases hobject

namespace Event

/-- The event shows reasoning: an item, a part, a delta or a response object with such an item. -/
def showsReasoning : Event → Bool
  | outputItemAdded _ item | outputItemDone _ item => item.kind = .reasoning
  | reasoningPartAdded .. | reasoningDelta .. | reasoningTextDone .. | reasoningPartDone .. => true
  | created response | inProgress response | completed response | incomplete response
  | failed response => response.output.any fun item => item.kind = .reasoning
  | _ => false

end Event

namespace ResponsesConverter

/-- No frame shows reasoning, and neither does the response object afterwards. -/
def ReasoningHidden (result : ResponsesConverter × List Frame) : Prop :=
  (∀ e ∈ events result.2, e.showsReasoning = false) ∧
    ∀ item ∈ result.1.nonstreamResponse.output, item.kind ≠ .reasoning

/-- A converter that exposes nothing has announced no reasoning item. -/
structure Discreet (c : ResponsesConverter) (past : List Event) : Prop where
  hidden : c.exposeThinking = false
  unadded : ∀ state, c.reasoning = some state → state.itemAdded = false
  items : ∀ item ∈ c.outputItems, ∀ itemId, item ≠ .reasoning itemId
  silent : ∀ e ∈ past, e.showsReasoning = false

variable {c : ResponsesConverter} {past : List Event}

theorem Discreet.step (h : Discreet c past) {c' : ResponsesConverter} {more : List Event}
    {items : List OutputItem} (hexpose : c'.exposeThinking = c.exposeThinking)
    (hreasoning : c'.reasoning = c.reasoning) (hitems : c'.outputItems = c.outputItems ++ items)
    (hnew : ∀ item ∈ items, ∀ itemId, item ≠ .reasoning itemId)
    (hmore : ∀ e ∈ more, e.showsReasoning = false) : Discreet c' (past ++ more) where
  hidden := hexpose.trans h.hidden
  unadded := hreasoning ▸ h.unadded
  items := by
    rw [hitems]
    exact fun item hitem => (List.mem_append.mp hitem).elim (h.items item) (hnew item)
  silent := fun e he => (List.mem_append.mp he).elim (h.silent e) (hmore e)

theorem Discreet.settle (h : Discreet c past) {c' : ResponsesConverter} {more : List Event}
    (hexpose : c'.exposeThinking = c.exposeThinking) (hreasoning : c'.reasoning = c.reasoning)
    (hitems : c'.outputItems = c.outputItems) (hmore : ∀ e ∈ more, e.showsReasoning = false) :
    Discreet c' (past ++ more) :=
  h.step hexpose hreasoning (hitems.trans (List.append_nil _).symm) (List.forall_mem_nil _) hmore

theorem output_discreet (h : Discreet c past) (status : String) :
    ∀ item ∈ (c.terminalResponse status).output, item.kind ≠ .reasoning := by
  intro item hitem
  obtain ⟨descriptor, hmem, hread⟩ := List.mem_filterMap.mp hitem
  cases descriptor with
  | reasoning itemId => exact absurd rfl (h.items _ hmem itemId)
  | message itemId =>
    cases hread
    exact nofun
  | functionCall itemId =>
    obtain ⟨slot, -, rfl⟩ := Option.map_eq_some_iff.mp hread
    exact nofun

theorem response_discreet {response : ResponseObject}
    (h : ∀ item ∈ response.output, item.kind ≠ .reasoning) :
    (response.output.any fun item => item.kind = .reasoning) = false :=
  List.any_eq_false.mpr fun item hitem => by simpa using h item hitem

section Steps
variable (hex : Nat → String)

theorem discreet_ensureStarted : Keeps Discreet ensureStarted := by
  intro c past h
  unfold ensureStarted
  split_ifs
  · exact h.settle rfl rfl rfl (List.forall_mem_nil _)
  · refine h.settle rfl rfl rfl fun e he => ?_
    rcases List.mem_pair.mp he with rfl | rfl <;> rfl

theorem discreet_feedReasoning (text : String) : Keeps Discreet (feedReasoning hex text) := by
  rintro c past ⟨hhidden, hunadded, hitems, hsilent⟩
  rw [feedReasoning_hidden hex hhidden, List.append_nil]
  refine ⟨hhidden, fun state hstate => ?_, hitems, hsilent⟩
  cases hstate
  cases hreasoning : c.reasoning with
  | none => rfl
  | some s => exact hunadded s hreasoning

theorem showsReasoning_eq_false {e : Event} {kind : ItemKind} (h : e.kind? = some kind)
    (hkind : kind ≠ .reasoning) : e.showsReasoning = false := by
  cases e with
  | outputItemAdded _ item | outputItemDone _ item =>
    exact decide_eq_false fun hitem => hkind ((Option.some.inj h).symm.trans hitem)
  | reasoningPartAdded | reasoningDelta | reasoningTextDone | reasoningPartDone =>
    exact absurd (Option.some.inj h).symm hkind
  | created | inProgress | completed | incomplete | failed => cases h
  | _ => rfl

theorem discreet_feedText (text : String) : Keeps Discreet (feedText hex text) := by
  intro c past h
  obtain ⟨state, next, items, draws, -, -, hstep, hitems, hkind⟩ := feedText_step hex c text
  rw [hstep]
  refine h.step rfl rfl rfl (fun item hitem => ?_) fun e he =>
    showsReasoning_eq_false (hkind e he) nofun
  obtain ⟨messageId, rfl⟩ := hitems item hitem
  exact fun _ => nofun

theorem discreet_closeMessageItem : Keeps Discreet closeMessageItem := by
  intro c past h
  obtain ⟨message, hstep, -, hkind⟩ := closeMessageItem_step c
  rw [hstep]
  exact h.settle rfl rfl rfl fun e he => showsReasoning_eq_false (hkind e he) nofun

theorem discreet_addToolItem (call : ToolCallDelta) : Keeps Discreet (addToolItem hex call) := by
  intro c past h
  obtain ⟨slot, items, -, -, hstep, hitems, hkind⟩ := addToolItem_step hex c call
  rw [hstep]
  refine h.step rfl rfl rfl (fun item hitem => ?_) fun e he =>
    showsReasoning_eq_false (hkind e he) nofun
  rw [hitems item hitem]
  exact fun _ => nofun

theorem discreet_ensureToolItemAdded (call : ToolCallDelta) :
    Keeps Discreet (ensureToolItemAdded hex call) :=
  keeps_ensureToolItemAdded_of hex discreet_closeMessageItem
    fun c past h => discreet_addToolItem hex call c past h.1

theorem discreet_feedToolCallArguments (call : ToolCallDelta) :
    Keeps Discreet (feedToolCallArguments call) := by
  intro c past h
  obtain ⟨tools, hstep, -, hsaid⟩ := feedToolCallArguments_step c call
  rw [hstep]
  refine h.settle rfl rfl rfl fun e he => ?_
  obtain ⟨itemId, outputIndex, delta, rfl⟩ := hsaid e he
  rfl

theorem discreet_feedDelta (delta : Delta) : Keeps Discreet (feedDelta hex delta) := by
  cases delta with
  | finish reason => exact fun c past h => h.settle rfl rfl rfl (List.forall_mem_nil _)
  | reasoning text => exact discreet_feedReasoning hex text
  | content text => exact discreet_feedText hex text
  | toolCalls calls =>
    exact (keeps_forEach fun call _ => discreet_ensureToolItemAdded hex call).andThen
      (keeps_forEach fun call _ => discreet_feedToolCallArguments call)

theorem discreet_feedChunkEvents (chunk : Json) : Keeps Discreet (feedChunkEvents hex chunk) := by
  have hnote : Keeps Discreet (silent (noteChunk chunk)) :=
    fun c past h => h.settle rfl rfl rfl (List.forall_mem_nil _)
  exact discreet_ensureStarted.andThen
    (hnote.andThen (keeps_forEach fun delta _ => discreet_feedDelta hex delta))

theorem discreet_closeItems : Keeps Discreet closeItems := by
  have hreasoning : Keeps Discreet closeReasoningItem := by
    intro c past h
    rw [closeReasoningItem_hidden h.unadded, List.append_nil]
    exact h
  have htools : Keeps Discreet closeTools := fun c past h => h.settle rfl rfl rfl fun e he => by
    obtain ⟨slot, -, he⟩ := List.mem_flatMap.mp he
    rcases List.mem_pair.mp he with rfl | rfl <;> rfl
  exact hreasoning.andThen (discreet_closeMessageItem.andThen htools)

theorem discreet_finishEvents (error : Option String) : Keeps Discreet (finishEvents error) := by
  intro c past h
  have hstart : Discreet { c with error := error } past := ⟨h.hidden, h.unadded, h.items, h.silent⟩
  cases error with
  | some message =>
    refine hstart.settle rfl rfl rfl fun e he => ?_
    rw [List.mem_singleton.mp he]
    exact response_discreet (output_discreet hstart "failed")
  | none =>
    have hclosed := discreet_closeItems _ _ hstart
    rw [finishEvents_none, ← List.append_assoc]
    refine hclosed.settle rfl rfl rfl fun e he => ?_
    rw [List.mem_singleton.mp he]
    unfold terminalEvent
    split_ifs
    · exact response_discreet (output_discreet hclosed "incomplete")
    · exact response_discreet (output_discreet hclosed "completed")

theorem discreet_numbered {f : Emitter ResponsesConverter Event} (h : Keeps Discreet f) :
    Keeps (fun c frames => Discreet c (events frames) ∧ Counted c frames) (numbered f) :=
  leads_numbered h fun _ _ _ h => ⟨h.hidden, h.unadded, h.items, h.silent⟩

theorem reasoningHidden_of_discreet {result : ResponsesConverter × List Frame}
    (h : Discreet result.1 (events result.2)) : ReasoningHidden result :=
  ⟨h.silent, output_discreet h result.1.nonstreamStatus⟩

/-- A converter without thinking shows none, whatever it is fed. -/
theorem reasoningHidden_of_unexposed (createdAt : UInt64) (model : String)
    (serverTools : List String) (chunks : List Json) :
    let c := withServerTools hex createdAt model false serverTools
    ReasoningHidden (forEach (feedChunk hex) chunks c) ∧
      ∀ error, ReasoningHidden (feedAll hex chunks error c) := by
  intro c
  have hnew : Discreet c [] := ⟨rfl, nofun, List.forall_mem_nil _, List.forall_mem_nil _⟩
  have hfed : Keeps (fun c frames => Discreet c (events frames) ∧ Counted c frames)
      (forEach (feedChunk hex) chunks) :=
    keeps_forEach fun chunk _ => discreet_numbered (discreet_feedChunkEvents hex chunk)
  refine ⟨reasoningHidden_of_discreet (hfed c [] ⟨hnew, rfl, rfl⟩).1, fun error => ?_⟩
  have hfinish := hfed.andThen (discreet_numbered (discreet_finishEvents error))
  exact reasoningHidden_of_discreet (hfinish c [] ⟨hnew, rfl, rfl⟩).1

def reasoningChunk : Json :=
  .obj [("choices", .arr [.obj [("delta", .obj [("reasoning_content", .str "hm")])]])]

theorem reasoning_exposed (createdAt : UInt64) (model : String) (serverTools : List String) :
    ¬ ReasoningHidden (forEach (feedChunk hex) [reasoningChunk]
      (withServerTools hex createdAt model true serverTools)) := by
  rintro ⟨hsilent, -⟩
  have hmem : Event.reasoningDelta ("rs_" ++ hex 1) 0 "hm" ∈ events (forEach (feedChunk hex)
      [reasoningChunk] (withServerTools hex createdAt model true serverTools)).2 := by
    refine List.mem_of_getElem? (i := 4) rfl
  exact Bool.noConfusion (hsilent _ hmem)

/-- With no summary asked for, thinking stays hidden exactly when an effort is named. -/
theorem convertRequest_hidesReasoning_iff {defaultModel : String} {request : Json}
    {converted : Converted} (h : convertRequest defaultModel request = .ok converted)
    (hsummary : noSummaryAsked request = true) (createdAt : UInt64) (model : String)
    (serverTools : List String) :
    (∀ chunks,
      let c := withServerTools hex createdAt model converted.thinkingRequested serverTools
      ReasoningHidden (forEach (feedChunk hex) chunks c) ∧
        ∀ error, ReasoningHidden (feedAll hex chunks error c)) ↔ effortNamed request = true := by
  rw [thinkingRequested_eq h hsummary]
  cases effortNamed request with
  | true => exact iff_of_true (reasoningHidden_of_unexposed hex createdAt model serverTools) rfl
  | false =>
    refine iff_of_false (fun hall => ?_) Bool.false_ne_true
    exact reasoning_exposed hex createdAt model serverTools (hall [reasoningChunk]).1

def reasoningRequest (reasoning : Fields) : Json :=
  .obj [("input", .str "hi"), ("reasoning", .obj reasoning)]

theorem convertRequest_hidesReasoning_iff_low :
    let hex (n : Nat) : String := String.ofList (List.replicate n '0')
    let request := reasoningRequest [("effort", .str "low")]
    (∀ chunks,
      ReasoningHidden (forEach (feedChunk hex) chunks (withServerTools hex 0 "m" false [])) ∧
      ∀ error, ReasoningHidden (feedAll hex chunks error (withServerTools hex 0 "m" false []))) ↔
        effortNamed request = true := by
  intro hex request
  exact @convertRequest_hidesReasoning_iff hex "m" request ⟨_, false, none, none⟩ rfl rfl 0 "m" []

/-- An empty `reasoning` object asks for no summary, yet reasoning is shown. -/
theorem convertRequest_exposes_reasoning :
    let hex (n : Nat) : String := String.ofList (List.replicate n '0')
    ∃ converted, convertRequest "m" (reasoningRequest []) = .ok converted ∧
      noSummaryAsked (reasoningRequest []) = true ∧
      ¬ ReasoningHidden (feedAll hex [reasoningChunk] none
        (withServerTools hex 0 "m" converted.thinkingRequested [])) := by
  intro hex
  refine ⟨_, rfl, rfl, fun h => ?_⟩
  exact absurd (h.1 (.reasoningDelta ("rs_" ++ hex 1) 0 "hm") (List.mem_of_getElem? (i := 4) rfl))
    nofun

end Steps

end ResponsesConverter
end Lobster.Responses
