import LobsterProxy.Anthropic.Rebuild
import LobsterProxy.Anthropic.ToolPairing
import LobsterProxy.Base.Serializer

/-! An answer that the client sends back: the content of the non-stream response becomes
one assistant message of the chat body again, whose arguments are the values that they were where
their doubles are read back from their shortest decimals. -/

namespace Lobster.Anthropic
open Chat Conversion Emitter JsonText

def toolInput (serde : Serde) (arguments : String) : Json :=
  ((serde.fromStr arguments).filter Json.isObject).getD (.obj [])

namespace ToolCallAccum

def block (serde : Serde) (call : ToolCallAccum) : Json :=
  .obj [("type", .str "tool_use"), ("id", .str call.id), ("name", .str call.name),
    ("input", toolInput serde call.arguments)]

def entry (serde : Serde) (call : ToolCallAccum) : Json :=
  .obj [("id", .str call.id), ("type", .str "function"),
  ("function", .obj [("name", .str call.name),
    ("arguments", .str (serde.toString (toolInput serde call.arguments)))])]

/-- An upstream call that a client can send back. -/
def Named (call : ToolCallAccum) : Prop := call.id ≠ "" ∧ call.name ≠ ""

end ToolCallAccum

def Accumulated.segment (serde : Serde) (expose : Bool) (a : Accumulated) : Segment where
  textParts := if a.text ≠ "" then [a.text] else []
  reasoningParts := if expose ∧ a.reasoning ≠ "" then [a.reasoning] else []
  toolCalls := a.toolCalls.map (ToolCallAccum.entry serde)

def callName? (call : Json) : Option String := (call.pointer ["function", "name"]).bind Json.asStr

def callArguments? (call : Json) : Option String :=
  (call.pointer ["function", "arguments"]).bind Json.asStr

/-- The call of the message has the identity of the accumulated one and arguments that parse
to the same value. -/
structure Repeats (serde : Serde) (call : ToolCallAccum) (json : Json) : Prop where
  id : json.getStr? "id" = some call.id
  name : callName? json = some call.name
  arguments : ∃ text v, callArguments? json = some text ∧ serde.fromStr call.arguments = some v ∧
    serde.fromStr text = some v

structure Replays (serde : Serde) (expose : Bool) (a : Accumulated) (message : Json) : Prop where
  role : message.getStr? "role" = some "assistant"
  content : message.get? "content" = some (if a.text = "" then .null else .str a.text)
  reasoning : message.get? "reasoning_content" =
    if expose ∧ a.reasoning ≠ "" then some (.str a.reasoning) else none
  calls :
    ∃ calls, message.get? "tool_calls" = (if a.toolCalls = [] then none else some (.arr calls)) ∧
    List.Forall₂ (Repeats serde) a.toolCalls calls

section Segment
variable (segment : Segment)

theorem content_intoMessage : segment.intoMessage.get? "content" =
    some (if "\n\n".intercalate segment.textParts = "" then .null
      else .str ("\n\n".intercalate segment.textParts)) := by
  unfold Segment.intoMessage
  rw [Json.get?_obj, Fields.get?_insertSome_ne _ _ (by decide),
    Fields.get?_insertSome_ne _ _ (by decide)]
  rfl

theorem reasoning_intoMessage : segment.intoMessage.get? "reasoning_content" =
    if segment.reasoningParts = [] then none
    else some (.str ("\n\n".intercalate segment.reasoningParts)) := by
  unfold Segment.intoMessage
  rw [Json.get?_obj, Fields.get?_insertSome_ne _ _ (by decide), Fields.get?_insertSome_self]
  cases segment.reasoningParts <;> rfl

theorem toolCalls_intoMessage : segment.intoMessage.get? "tool_calls" =
    if segment.toolCalls = [] then none else some (.arr segment.toolCalls) := by
  unfold Segment.intoMessage
  rw [Json.get?_obj, Fields.get?_insertSome_self, Fields.get?_insertSome_ne _ _ (by decide)]
  cases segment.toolCalls <;> rfl

theorem intoMessage_of_isEmpty {segment : Segment} (h : segment.isEmpty = true) :
    segment.intoMessage = .obj [("role", .str "assistant"), ("content", .null)] := by
  obtain ⟨texts, reasonings, calls⟩ := segment
  unfold Segment.isEmpty at h
  simp only [Bool.and_eq_true, List.isEmpty_iff] at h
  obtain ⟨⟨rfl, rfl⟩, rfl⟩ := h
  rfl

end Segment

section Blocks
variable (serde : Serde) (index : Nat)

theorem toolInput_isObject (arguments : String) : (toolInput serde arguments).isObject = true := by
  unfold toolInput
  cases h : (serde.fromStr arguments).filter Json.isObject with
  | none => rfl
  | some v => exact (Option.filter_eq_some_iff.mp h).2

theorem convertAssistantBlock_thinking (text : String) :
    convertAssistantBlock serde index
      (.obj [("type", .str "thinking"), ("thinking", .str text), ("signature", .str "")]) =
        .ok (.reasoning text) := rfl

theorem convertAssistantBlock_text (text : String) :
    convertAssistantBlock serde index (.obj [("type", .str "text"), ("text", .str text)]) =
      .ok (.text text) := rfl

theorem convertAssistantBlock_block {call : ToolCallAccum} (h : call.Named) :
    convertAssistantBlock serde index (call.block serde) = .ok (.toolCall (call.entry serde)) := by
  obtain ⟨hid, hname⟩ := h
  have hclean : cleanBlock (call.block serde) = call.block serde := rfl
  have hkind : (call.block serde).getStrD "type" = "tool_use" := rfl
  have hid' : ((call.block serde).getStr? "id").filter (fun id => id ≠ "") = some call.id :=
    Option.filter_eq_some_iff.mpr ⟨rfl, decide_eq_true hid⟩
  have hname' : ((call.block serde).getStr? "name").filter (fun name => name ≠ "") =
      some call.name :=
    Option.filter_eq_some_iff.mpr ⟨rfl, decide_eq_true hname⟩
  have hinput : (call.block serde).get? "input" = some (toolInput serde call.arguments) := rfl
  unfold convertAssistantBlock
  rw [hclean]
  simp only [hkind]
  rw [hid', hname', hinput, Option.getD_some]
  refine bind_eq_ok.mpr ⟨call.id, rfl, bind_eq_ok.mpr ⟨call.name, rfl, ?_⟩⟩
  exact if_pos (toolInput_isObject serde call.arguments)

def Accumulated.parts (expose : Bool) (a : Accumulated) : List AssistantPart :=
  (if expose ∧ a.reasoning ≠ "" then [.reasoning a.reasoning] else []) ++
  (if a.text ≠ "" then [.text a.text] else []) ++
  a.toolCalls.map fun call => .toolCall (call.entry serde)

theorem ofParts_parts (expose : Bool) (a : Accumulated) :
    Segment.ofParts (a.parts serde expose) = a.segment serde expose := by
  have htexts :
      a.toolCalls.filterMap (AssistantPart.text? ∘ fun call => .toolCall (call.entry serde)) = [] :=
    List.filterMap_eq_nil_iff.mpr fun _ _ => rfl
  have hreasonings : a.toolCalls.filterMap
      (AssistantPart.reasoning? ∘ fun call => .toolCall (call.entry serde)) = [] :=
    List.filterMap_eq_nil_iff.mpr fun _ _ => rfl
  have hcalls : a.toolCalls.filterMap
      (AssistantPart.toolCall? ∘ fun call => .toolCall (call.entry serde)) =
        a.toolCalls.map (ToolCallAccum.entry serde) :=
    congrFun (List.filterMap_eq_map (f := ToolCallAccum.entry serde)) a.toolCalls
  unfold Segment.ofParts Accumulated.parts Accumulated.segment
  simp only [List.filterMap_append, List.filterMap_map, htexts, hreasonings, hcalls]
  congr 1
  · split_ifs <;> rfl
  · split_ifs <;> rfl
  · split_ifs <;> rfl

end Blocks

theorem accumulated_finish (c : StreamConverter) :
    (StreamConverter.finish c).1.accumulated = c.accumulated ∧
      (StreamConverter.finish c).1.exposeThinking = c.exposeThinking := by
  have hthinking (c : StreamConverter) : (StreamConverter.closeThinking c).1.accumulated =
      c.accumulated ∧
      (StreamConverter.closeThinking c).1.exposeThinking = c.exposeThinking := by
    unfold StreamConverter.closeThinking
    split_ifs <;> exact ⟨rfl, rfl⟩
  have htext (c : StreamConverter) : (StreamConverter.closeText c).1.accumulated = c.accumulated ∧
      (StreamConverter.closeText c).1.exposeThinking = c.exposeThinking := by
    unfold StreamConverter.closeText
    split_ifs <;> exact ⟨rfl, rfl⟩
  have htools (c : StreamConverter) : (StreamConverter.closeTools c).1.accumulated =
      c.accumulated := by
    unfold StreamConverter.closeTools StreamConverter.accumulated
    dsimp only
    rw [SortedMap.values_mapValues, List.map_map]
    rfl
  unfold StreamConverter.finish StreamConverter.finishWithStop
  split_ifs
  · exact ⟨rfl, rfl⟩
  · exact ⟨(htools _).trans ((htext _).1.trans (hthinking _).1), (htext _).2.trans (hthinking _).2⟩

section Content
variable {serde : Serde} {c : StreamConverter}

theorem mapM_nonstreamContent {index : Nat} (h : ∀ call ∈ c.accumulated.toolCalls, call.Named) :
    (c.nonstreamContent serde).mapM (convertAssistantBlock serde index) =
      .ok (c.accumulated.parts serde c.exposeThinking) := by
  refine mapM_eq_ok.mpr (List.rel_append (List.rel_append ?_ ?_) ?_)
  · show List.Forall₂ _ _ (if c.exposeThinking ∧ c.thinkingAccum ≠ "" then _ else _)
    split_ifs
    · exact .cons (convertAssistantBlock_thinking serde index _) .nil
    · exact .nil
  · show List.Forall₂ _ _ (if c.textAccum ≠ "" then _ else _)
    split_ifs
    · exact .cons (convertAssistantBlock_text serde index _) .nil
    · exact .nil
  · show List.Forall₂ _ _ ((c.tools.values.map ToolSlot.accum).map _)
    rw [List.map_map, List.forall₂_map_left_iff, List.forall₂_map_right_iff, List.forall₂_same]
    intro slot hslot
    exact convertAssistantBlock_block serde index (h slot.accum (List.mem_map_of_mem hslot))

theorem convertAssistantMessage_answer {index : Nat} {message : Fields}
    (hcontent : message.get? "content" = (c.nonstreamResponse serde).get? "content")
    (h : ∀ call ∈ c.accumulated.toolCalls, call.Named) :
    convertAssistantMessage serde message index =
      .ok [(c.accumulated.segment serde c.exposeThinking).intoMessage] := by
  have hblocks : message.get? "content" = some (.arr (c.nonstreamContent serde)) := hcontent
  unfold convertAssistantMessage
  rw [hblocks]
  refine bind_eq_ok.mpr ⟨_, mapM_nonstreamContent h, ?_⟩
  rw [ofParts_parts]
  dsimp only
  split_ifs with hempty
  · rw [intoMessage_of_isEmpty hempty]
    rfl
  · rfl

theorem toolCallIds_segment (serde : Serde) (expose : Bool) (a : Accumulated) :
    toolCallIds (a.segment serde expose).intoMessage = a.toolCalls.map ToolCallAccum.id := by
  rw [toolCallIds_intoMessage]
  unfold Accumulated.segment
  rw [List.map_map]
  rfl

end Content

/-- The accumulated call can be sent back as it is: it has an identity, and its arguments are
an object. -/
structure Sendable (serde : Serde) (call : ToolCallAccum) : Prop where
  named : call.Named
  object : ∃ fields, serde.fromStr call.arguments = some (.obj fields)

/-- Each double of the arguments is read back from the literal that it is written as. -/
def ToolCallAccum.Rereads (rendered : F64 → Literal) (serde : Serde) (call : ToolCallAccum) :
    Prop :=
  ∀ v, serde.fromStr call.arguments = some v → v.Rereads rendered

section Arguments
variable {tokens : List Char → Option (String × List Char)} {rendered : F64 → Literal}
    {serde : Serde}

theorem repeats_entry_iff (hserde : serde.Plain tokens rendered) {call : ToolCallAccum}
    (h : Sendable serde call) :
    Repeats serde call (call.entry serde) ↔ call.Rereads rendered serde := by
  obtain ⟨fields, hfields⟩ := h.object
  have hinput : toolInput serde call.arguments = .obj fields := by
    unfold toolInput
    rw [hfields]
    rfl
  have hentry : callArguments? (call.entry serde) = some (serde.toString (.obj fields)) := by
    rw [← hinput]
    rfl
  have hrereads : call.Rereads rendered serde ↔ (Json.obj fields).Rereads rendered := by
    unfold ToolCallAccum.Rereads
    simp [hfields]
  rw [hrereads, ← hserde.reads_back_iff hfields]
  constructor
  · rintro ⟨-, -, text, v, htext, hv, hback⟩
    rw [hfields] at hv
    rw [hentry] at htext
    obtain rfl := Option.some.inj hv
    obtain rfl := Option.some.inj htext
    exact hback
  · exact fun hback => ⟨rfl, rfl, serde.toString (.obj fields), .obj fields, hentry, hfields, hback⟩

theorem segment_replays_iff (hserde : serde.Plain tokens rendered) {expose : Bool} {a : Accumulated}
    (h : ∀ call ∈ a.toolCalls, Sendable serde call) :
    Replays serde expose a (a.segment serde expose).intoMessage ↔
      ∀ call ∈ a.toolCalls, call.Rereads rendered serde := by
  have hcalls : (a.segment serde expose).intoMessage.get? "tool_calls" =
      if a.toolCalls = [] then
      none else some (.arr (a.toolCalls.map (ToolCallAccum.entry serde))) := by
    rw [toolCalls_intoMessage]
    unfold Accumulated.segment
    simp only [List.map_eq_nil_iff]
  have hrepeats : List.Forall₂ (Repeats serde) a.toolCalls
      (a.toolCalls.map (ToolCallAccum.entry serde)) ↔
      ∀ call ∈ a.toolCalls, call.Rereads rendered serde := by
    rw [List.forall₂_map_right_iff, List.forall₂_same]
    exact forall₂_congr fun call hcall => repeats_entry_iff hserde (h call hcall)
  rw [← hrepeats]
  constructor
  · intro hreplays
    obtain ⟨calls, hget, hall⟩ := hreplays.calls
    by_cases hnone : a.toolCalls = []
    · rw [hnone]
      exact .nil
    · rw [hcalls, if_neg hnone, if_neg hnone] at hget
      cases hget
      exact hall
  · intro hall
    refine ⟨role_intoMessage _, ?_, ?_, _, hcalls, hall⟩
    · rw [content_intoMessage]
      unfold Accumulated.segment
      by_cases htext : a.text = "" <;> simp [htext]
    · rw [reasoning_intoMessage]
      unfold Accumulated.segment
      by_cases hshown : expose ∧ a.reasoning ≠ "" <;> simp [hshown]

end Arguments

namespace StreamConverter

theorem exposeThinking_run (hex : String) (expose : Bool) (chunks : List Json) :
    (run chunks (new hex expose)).1.exposeThinking = expose :=
  (accumulated_finish _).2.trans (steady_spoken.feedChunks (spoken_new hex expose) chunks).2.exposed

/-- An answer sent back as the content of an assistant message converts to one message. It says
what was accumulated exactly when each double of the arguments is read back. -/
theorem run_replays {tokens : List Char → Option (String × List Char)} {rendered : F64 → Literal}
    {serde : Serde}
    (hserde : serde.Plain tokens rendered) (hex : String) (expose : Bool)
    (chunks : List Json) (message : Fields) (index : Nat)
    (hcalls : ∀ call ∈ (run chunks (new hex expose)).1.accumulated.toolCalls, Sendable serde call)
    (hcontent : message.get? "content" =
      ((run chunks (new hex expose)).1.nonstreamResponse serde).get? "content") :
    ∃ replay, convertAssistantMessage serde message index = .ok [replay] ∧
      (Replays serde expose (run chunks (new hex expose)).1.accumulated replay ↔
        ∀ call ∈ (run chunks (new hex expose)).1.accumulated.toolCalls,
          call.Rereads rendered serde) := by
  refine ⟨_,
    convertAssistantMessage_answer hcontent fun call hcall => (hcalls call hcall).named, ?_⟩
  rw [exposeThinking_run]
  exact segment_replays_iff hserde hcalls

def numberTurn (opening rest : String) : List Json :=
  [deltaChunk (.obj [("reasoning_content", .str "hm"), ("content", .str "ok")]),
    deltaChunk (.obj [("tool_calls", .arr [.obj [("index", .ofNat 0), ("id", .str "call_1"),
      ("function", .obj [("name", .str "read"), ("arguments", .str opening)])]])]),
    deltaChunk (.obj [("tool_calls", .arr [.obj [("index", .ofNat 0),
      ("function", .obj [("arguments", .str rest)])]])])]

theorem run_replays_inTurn : ∃ replay,
    convertAssistantMessage .plain [("content", .arr
      ((run (numberTurn "\x7b\"x\":2" ".50\x7d") (new "0" true)).1.nonstreamContent .plain))] 1 =
        .ok [replay] ∧
    Replays .plain true
      (run (numberTurn "\x7b\"x\":2" ".50\x7d") (new "0" true)).1.accumulated replay := by
  have hcalls : (run (numberTurn "\x7b\"x\":2" ".50\x7d") (new "0" true)).1.accumulated.toolCalls =
      [⟨"call_1", "read", "\x7b\"x\":2.50\x7d"⟩] := by decide +kernel
  have hparsed : Serde.plain.fromStr "\x7b\"x\":2.50\x7d" =
      some (.obj [("x", .num (.float ⟨false, 1024, 2 ^ 50⟩))]) := by decide +kernel
  obtain ⟨replay, hok, hiff⟩ :=
    run_replays Serde.plain_plain "0" true (numberTurn "\x7b\"x\":2" ".50\x7d")
      [("content", .arr
        ((run (numberTurn "\x7b\"x\":2" ".50\x7d") (new "0" true)).1.nonstreamContent .plain))] 1
      (by
        rw [hcalls]
        intro call hcall
        rw [List.mem_singleton.mp hcall]
        exact ⟨⟨by decide, by decide⟩, _, hparsed⟩) rfl
  refine ⟨replay, hok, hiff.mpr ?_⟩
  rw [hcalls]
  intro call hcall v hv f hf
  rw [List.mem_singleton.mp hcall, hparsed] at hv
  obtain rfl := Option.some.inj hv
  obtain rfl : f = ⟨false, 1024, 2 ^ 50⟩ := by
    simpa [Json.doc, Json.docFields, Doc.leaves, leavesFields] using hf
  decide +kernel

/-- The number `30e22` is sent back as `3e+23`, which is another double. -/
theorem not_run_replays_power : Serde.Plain unquote F64.literal .plain ∧
    (∀ call ∈ (run (numberTurn "\x7b\"x\":3" "0e22\x7d") (new "0" true)).1.accumulated.toolCalls,
      Sendable .plain call) ∧
    ∃ replay, convertAssistantMessage .plain [("content", .arr
      ((run (numberTurn "\x7b\"x\":3" "0e22\x7d") (new "0" true)).1.nonstreamContent .plain))] 1 =
        .ok [replay] ∧
    ¬ Replays .plain true
      (run (numberTurn "\x7b\"x\":3" "0e22\x7d") (new "0" true)).1.accumulated replay := by
  have hcalls : (run (numberTurn "\x7b\"x\":3" "0e22\x7d") (new "0" true)).1.accumulated.toolCalls =
      [⟨"call_1", "read", "\x7b\"x\":30e22\x7d"⟩] := by decide +kernel
  have hparsed : Serde.plain.fromStr "\x7b\"x\":30e22\x7d" =
      some (.obj [("x", .num (.float ⟨false, 1100, 4437097088938098⟩))]) := by decide +kernel
  have hsendable :
      ∀ call ∈ (run (numberTurn "\x7b\"x\":3" "0e22\x7d") (new "0" true)).1.accumulated.toolCalls,
        Sendable .plain call := by
    rw [hcalls]
    intro call hcall
    rw [List.mem_singleton.mp hcall]
    exact ⟨⟨by decide, by decide⟩, _, hparsed⟩
  refine ⟨Serde.plain_plain, hsendable, _, convertAssistantMessage_answer rfl
    fun call hcall => (hsendable call hcall).named,
    fun hreplays => ?_⟩
  rw [exposeThinking_run] at hreplays
  have hreads := (segment_replays_iff Serde.plain_plain hsendable).mp hreplays
  rw [hcalls] at hreads
  have hdouble := hreads _ (List.mem_singleton_self _) _ hparsed ⟨false, 1100, 4437097088938098⟩
    (by simp [Json.doc, Json.docFields, Doc.leaves, leavesFields])
  exact absurd hdouble (by decide +kernel)

end StreamConverter

end Lobster.Anthropic
