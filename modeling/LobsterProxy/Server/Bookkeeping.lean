import LobsterProxy.Anthropic.Continuity
import LobsterProxy.Anthropic.Outline
import LobsterProxy.Chat.Turn
import LobsterProxy.Responses.Identity

/-! What the end of a run does to its session's reasoning. Both converters come to the same
turn, so the four paths keep and drop alike wherever they look at it at all. -/

namespace Lobster.Server
open Chat

def turnUpdate (turn : Turn) : Option ShadowUpdate :=
  shadowUpdate turn.finishReason turn.ids.values turn.reasoning

end Lobster.Server

namespace Lobster.Anthropic.StreamPump
open Chat Emitter Server StreamConverter

theorem ids_chunks (hex : String) (expose : Bool) (chunks : List Json) :
    (forEach feedChunk chunks (.new hex expose)).1.tools.mapValues ToolSlot.id =
      turnIds (chunks.flatMap chunkPieces) := by
  obtain ⟨-, -, htraces⟩ := (steady_outlined expose).feedChunks (outlined_new hex expose) chunks
  generalize (forEach feedChunk chunks (.new hex expose)).1 = c at htraces ⊢
  apply mapValues_eq_turnIds
  intro index
  cases hfind : c.tools.find? index with
  | none =>
    rw [htraces.indexed.fresh index hfind]
    rfl
  | some slot =>
    obtain ⟨first, later, hcalls, -, hid, -⟩ := htraces.indexed.slotAt index slot hfind
    rw [hcalls, finalId, ← hid]
    rfl

theorem finish_turn (error : Option String) (hex : String) (expose : Bool) (chunks : List Json) :
    (finish error (forEach feedChunk chunks (.new hex expose)).1).2.2 =
      turnUpdate (.of chunks) := by
  have hreason := (feeding_chunks hex expose chunks).2
  have hreasoning := (steady_spoken.feedChunks (spoken_new hex expose) chunks).2.reasonings
  have hids := congrArg SortedMap.values (ids_chunks hex expose chunks)
  generalize (forEach feedChunk chunks (.new hex expose)).1 = c at hreason hreasoning hids ⊢
  rw [SortedMap.values_mapValues] at hids
  have hcalls : c.accumulated.toolCalls.map ToolCallAccum.id = c.tools.values.map ToolSlot.id := by
    unfold StreamConverter.accumulated
    rw [List.map_map]
    rfl
  rw [finish_update, hcalls, hids]
  unfold turnUpdate Turn.of StreamConverter.accumulated
  rw [hreason, hreasoning]

section
variable (serde : Serde) (hex : String) (expose : Bool) (timeouts : StreamTimeouts) (started : Nat)
  (inputs : List Input)

theorem run_turn (error : Option String) :
    (finish error (run serde hex expose timeouts started inputs).pump.converter).2.2 =
    turnUpdate (.of (Pump.said (record serde timeouts started inputs))) := by
  obtain ⟨hfed, -⟩ := run_record serde hex expose timeouts started inputs
  have hturn := finish_turn error hex expose (Pump.said (record serde timeouts started inputs))
  rw [hfed] at hturn
  exact hturn

theorem streamResponse_shadow : (streamResponse serde hex expose timeouts started inputs).shadow =
    (record serde timeouts started inputs).ending.bind fun _ =>
      turnUpdate (.of (Pump.said (record serde timeouts started inputs))) := by
  obtain ⟨-, hending, -⟩ := run_record serde hex expose timeouts started inputs
  rw [← hending]
  unfold streamResponse
  dsimp only
  cases (run serde hex expose timeouts started inputs).ending with
  | none => rfl
  | some ending => exact run_turn serde hex expose timeouts started inputs none

theorem aggregateResponse_shadow :
    (aggregateResponse serde hex expose timeouts started inputs).shadow =
    (record serde timeouts started inputs).ending.bind fun _ =>
      turnUpdate (.of (Pump.said (record serde timeouts started inputs))) := by
  obtain ⟨-, hending, -⟩ := run_record serde hex expose timeouts started inputs
  have hturn := run_turn serde hex expose timeouts started inputs
  rw [← hending]
  unfold aggregateResponse
  dsimp only
  cases (run serde hex expose timeouts started inputs).ending with
  | none => rfl
  | some ending =>
    dsimp only
    cases exitError (run serde hex expose timeouts started inputs).pump.converter.finishReason
      ending with
    | none => exact hturn none
    | some message => exact hturn (some message)

end
end Lobster.Anthropic.StreamPump

namespace Lobster.Responses.ResponsesConverter
open Chat Emitter Trace

def reasoningText (c : ResponsesConverter) : String := (c.reasoning.map ItemState.accum).getD ""

section
variable {hex : Nat → String} {c : ResponsesConverter}

theorem reasoningText_feedReasoning (text : String) (c : ResponsesConverter) :
    (feedReasoning hex text c).1.reasoningText = c.reasoningText ++ text := by
  have hstate : (stateOr hex "rs_" c.reasoning c).1.accum = c.reasoningText := by
    unfold stateOr reasoningText
    cases c.reasoning <;> rfl
  unfold feedReasoning
  by_cases hexpose : (stateOr hex "rs_" c.reasoning c).2.exposeThinking = true
  · dsimp only
    rw [if_pos hexpose]
    exact congrArg (· ++ text) hstate
  · dsimp only
    rw [if_neg hexpose]
    exact congrArg (· ++ text) hstate

theorem reasoning_feedText (text : String) (c : ResponsesConverter) :
    (feedText hex text c).1.reasoning = c.reasoning := by
  obtain ⟨state, next, items, draws, -, -, hstep, -⟩ := feedText_step hex c text
  rw [hstep]

theorem reasoning_ensureToolItemAdded (call : ToolCallDelta) (c : ResponsesConverter) :
    (ensureToolItemAdded hex call c).1.reasoning = c.reasoning := by
  have hadd (c : ResponsesConverter) : (addToolItem hex call c).1.reasoning = c.reasoning := by
    obtain ⟨slot, items, -, -, hstep, -⟩ := addToolItem_step hex c call
    rw [hstep]
  unfold ensureToolItemAdded
  split_ifs
  · rfl
  · exact (hadd _).trans (reasoning_closeMessageItem c)
  · exact hadd c

theorem reasoning_feedToolCallArguments (call : ToolCallDelta) (c : ResponsesConverter) :
    (feedToolCallArguments call c).1.reasoning = c.reasoning := by
  obtain ⟨tools, hstep, -⟩ := feedToolCallArguments_step c call
  rw [hstep]

theorem reasoningText_feedDelta (delta : Delta) (c : ResponsesConverter) :
    (feedDelta hex delta c).1.reasoningText = c.reasoningText ++ reasonings delta.pieces := by
  cases delta with
  | finish reason => exact String.append_empty.symm
  | reasoning text =>
    have hone : reasonings (Delta.reasoning text).pieces = text :=
      written_singleton (Chat.Piece.reasoning text)
    rw [hone]
    exact reasoningText_feedReasoning text c
  | content text =>
    have hnone : reasonings (Delta.content text).pieces = "" :=
      written_singleton (Chat.Piece.content text)
    rw [hnone, String.append_empty]
    exact congrArg (fun reasoning => (reasoning.map ItemState.accum).getD "")
      (reasoning_feedText text c)
  | toolCalls calls =>
    have hnone : reasonings (Delta.toolCalls calls).pieces = "" :=
      written_map_eq_empty (fun _ => rfl) calls
    have hkept : (feedDelta hex (.toolCalls calls) c).1.reasoning = c.reasoning :=
      (forEach_frame reasoning_feedToolCallArguments calls _).trans
        (forEach_frame reasoning_ensureToolItemAdded calls c)
    unfold reasoningText
    rw [hnone, String.append_empty, hkept]

def Thought (pieces : List Chat.Piece) (c : ResponsesConverter) (_ : List Event) : Prop :=
  c.reasoningText = reasonings pieces

theorem leads_thought (pieces : List Chat.Piece) (chunk : Json) :
    Leads (Thought pieces) (Thought (pieces ++ chunkPieces chunk)) (feedChunkEvents hex chunk) := by
  have hdelta (pieces : List Chat.Piece) (delta : Delta) :
      Leads (Thought pieces) (Thought (pieces ++ delta.pieces)) (feedDelta hex delta) := by
    intro c past h
    unfold Thought at h ⊢
    rw [reasoningText_feedDelta, h]
    exact (written_append _ _).symm
  have hdeltas := leads_forEach hdelta (chunkDeltas chunk) pieces
  have hstart : Keeps (Thought pieces) ensureStarted := by
    intro c past h
    unfold ensureStarted
    split_ifs <;> exact h
  have hnote : Keeps (Thought pieces) (silent (noteChunk chunk)) := leads_silent fun _ _ h => h
  exact hstart.andThen (hnote.andThen hdeltas)

theorem reasoningText_chunks (hex : Nat → String) (createdAt : UInt64) (model : String)
    (expose : Bool) (chunks : List Json) :
    (forEach (feedChunk hex) chunks (new hex createdAt model expose)).1.reasoningText =
      reasonings (chunks.flatMap chunkPieces) := by
  have hchunk (pieces : List Chat.Piece) (chunk : Json) :=
    leads_numbered (@leads_thought hex pieces chunk) fun _ _ _ h => h
  exact (leads_forEach hchunk chunks [] (new hex createdAt model expose) [] ⟨rfl, rfl, rfl⟩).1

theorem ids_chunks (hex : Nat → String) (createdAt : UInt64) (model : String) (expose : Bool)
    (chunks : List Json) :
    (forEach (feedChunk hex) chunks (new hex createdAt model expose)).1.tools.mapValues
      ToolSlot.callId =
      turnIds (chunks.flatMap chunkPieces) := by
  have hnamed := named_chunks hex createdAt model expose chunks
  dsimp only at hnamed
  generalize (forEach (feedChunk hex) chunks (new hex createdAt model expose)).1 = c at hnamed ⊢
  apply mapValues_eq_turnIds
  intro index
  cases hfind : c.tools.find? index with
  | none =>
    rw [hnamed.fresh index hfind]
    rfl
  | some slot =>
    obtain ⟨-, first, hfirst, hid, -⟩ := hnamed.slotAt index slot hfind
    obtain ⟨later, hcalls⟩ := List.head?_eq_some_iff.mp hfirst
    rw [hcalls, List.map_cons, lastNonEmpty_first] at hid
    rw [hcalls, finalId, ← hid]
    rfl

theorem reasoningText_closeReasoningItem (c : ResponsesConverter) :
    (closeReasoningItem c).1.reasoningText = c.reasoningText := by
  unfold closeReasoningItem reasoningText
  cases hstate : c.reasoning with
  | none => simp [hstate]
  | some state =>
    by_cases hclosed : (!state.itemAdded || state.itemDone) = true
    · dsimp only
      rw [if_pos hclosed, hstate]
    · dsimp only
      rw [if_neg hclosed]
      rfl

theorem closeItems_keeps (c : ResponsesConverter) : (closeItems c).1.finishReason = c.finishReason ∧
    (closeItems c).1.tools.mapValues ToolSlot.callId = c.tools.mapValues ToolSlot.callId ∧
    (closeItems c).1.reasoningText = c.reasoningText := by
  refine ⟨?_, ?_, ?_⟩
  · obtain ⟨reasoning, hreasoning, -⟩ := closeReasoningItem_step c
    have hmessage := ResponsesPump.finishReason_closeMessageItem (closeReasoningItem c).1
    rw [hreasoning] at hmessage
    exact (congrArg (fun c => (closeMessageItem c).1.finishReason) hreasoning).trans hmessage
  · rw [tools_closeItems, SortedMap.mapValues_mapValues]
    rfl
  · have hmessage := reasoning_closeMessageItem (closeReasoningItem c).1
    have hclosed : (closeItems c).1.reasoning = (closeReasoningItem c).1.reasoning := hmessage
    have hkept := reasoningText_closeReasoningItem c
    unfold reasoningText at hkept ⊢
    rw [hclosed, hkept]

end
end Lobster.Responses.ResponsesConverter

namespace Lobster.Responses.ResponsesPump
open Chat Emitter Server ResponsesConverter

theorem finish_update (error : Option String) (c : ResponsesConverter) : (finish error c).2.2 =
    shadowUpdate c.finishReason (c.tools.mapValues ToolSlot.callId).values c.reasoningText := by
  have hids (c : ResponsesConverter) : c.tools.values.map ToolSlot.callId =
      (c.tools.mapValues ToolSlot.callId).values := (SortedMap.values_mapValues _ _).symm
  show shadowUpdate (finishEvents error c).1.finishReason
    ((finishEvents error c).1.tools.values.map ToolSlot.callId)
    (finishEvents error c).1.reasoningText = _
  rw [hids]
  cases error with
  | some message => rfl
  | none =>
    obtain ⟨hreason, htools, htext⟩ := closeItems_keeps { c with error := none }
    rw [finishEvents_none]
    dsimp only at hreason htools htext ⊢
    rw [hreason, htools, htext]
    rfl

theorem finish_turn (error : Option String) (hex : Nat → String) (createdAt : UInt64)
    (model : String) (expose : Bool) (chunks : List Json) :
    (finish error (forEach (feedChunk hex) chunks (.new hex createdAt model expose)).1).2.2 =
      turnUpdate (.of chunks) := by
  rw [finish_update, finishReason_chunks, reasoningText_chunks, ids_chunks]
  rfl

section
variable (serde : Serde) (hex : Nat → String) (createdAt : UInt64) (model : String) (expose : Bool)
  (timeouts : StreamTimeouts) (started : Nat) (inputs : List Input)

theorem run_turn (error : Option String) :
    (finish error
      (run serde hex createdAt model expose timeouts started inputs).pump.converter).2.2 =
      turnUpdate (.of (Pump.said (record serde timeouts started inputs))) := by
  obtain ⟨hfed, -⟩ := @run_record serde hex createdAt model expose timeouts started inputs
  have hturn :=
    finish_turn error hex createdAt model expose (Pump.said (record serde timeouts started inputs))
  rw [hfed] at hturn
  exact hturn

theorem responsesStreamResponse_shadow :
    (responsesStreamResponse serde hex createdAt model expose timeouts started inputs).shadow =
      (record serde timeouts started inputs).ending.bind fun _ =>
        turnUpdate (.of (Pump.said (record serde timeouts started inputs))) := by
  obtain ⟨-, hending, -⟩ := @run_record serde hex createdAt model expose timeouts started inputs
  have hturn := run_turn serde hex createdAt model expose timeouts started inputs
  rw [← hending]
  unfold responsesStreamResponse
  dsimp only
  cases (run serde hex createdAt model expose timeouts started inputs).ending with
  | none => rfl
  | some ending => exact hturn _

/-- The aggregation accounts for it only where it answers. -/
theorem aggregateResponses_shadow :
    (aggregateResponses serde hex createdAt model expose timeouts started inputs).shadow =
      (record serde timeouts started inputs).ending.bind fun ending =>
        if (aggregateError (Pump.finishSaid (record serde timeouts started inputs))
          ending).isSome then none
        else turnUpdate (.of (Pump.said (record serde timeouts started inputs))) := by
  obtain ⟨-, hending, hreason⟩ :=
    @run_record serde hex createdAt model expose timeouts started inputs
  have hturn := run_turn serde hex createdAt model expose timeouts started inputs
  rw [← hending, ← hreason]
  unfold aggregateResponses
  dsimp only
  cases (run serde hex createdAt model expose timeouts started inputs).ending with
  | none => rfl
  | some ending =>
    dsimp only [Option.bind_some]
    cases aggregateError
      (run serde hex createdAt model expose timeouts started inputs).pump.converter.finishReason
      ending with
    | none => exact hturn none
    | some message => rfl

end
end Lobster.Responses.ResponsesPump

namespace Lobster.Server
open Chat

/-- What one path has of an upstream run: its own request, clock and reads. -/
structure Listening where
  expose : Bool
  timeouts : StreamTimeouts
  started : Nat
  inputs : List Input

def Ran (chunks : List Json) (ending : Option Ending) (record : Pump.Driven Unit Json) : Prop :=
  Pump.said record = chunks ∧ record.ending = ending

theorem turnUpdate_eq_none_iff (turn : Turn) :
    turnUpdate turn = none ↔ turn.finishReason = none := by
  unfold turnUpdate shadowUpdate
  split
  · next h => simp [h]
  · next h => simp [h]
  · next h => simp [h]

def accountsAlike (chunks : List Json) : Option Ending → Bool
  | some (.stall _) | some (.transportError _) => (lastFinish (chunks.flatMap chunkDeltas)).isNone
  | _ => true

section
variable (serde : Serde) (hex hex' : String) (hexes hexes' : Nat → String)
    (createdAt createdAt' : UInt64)
  (model : String) (a b c d : Listening)

/-- The four paths have listened to one upstream run. -/
structure SameUpstream (chunks : List Json) (ending : Option Ending) : Prop where
  stream : Ran chunks ending (Anthropic.StreamPump.record serde a.timeouts a.started a.inputs)
  aggregate : Ran chunks ending (Anthropic.StreamPump.record serde b.timeouts b.started b.inputs)
  responses : Ran chunks ending (Responses.ResponsesPump.record serde c.timeouts c.started c.inputs)
  aggregated :
    Ran chunks ending (Responses.ResponsesPump.record serde d.timeouts d.started d.inputs)

/-- The four paths do the same to their session's entry. -/
def SameBookkeeping : Prop :=
  let update :=
    (Anthropic.StreamPump.streamResponse serde hex a.expose a.timeouts a.started a.inputs).shadow
  (Anthropic.StreamPump.aggregateResponse serde hex' b.expose b.timeouts b.started
    b.inputs).shadow = update ∧
    (Responses.ResponsesPump.responsesStreamResponse serde hexes createdAt model c.expose
      c.timeouts c.started c.inputs).shadow = update ∧
    (Responses.ResponsesPump.aggregateResponses serde hexes' createdAt' model d.expose
      d.timeouts d.started d.inputs).shadow = update

variable {serde a b c d} {chunks : List Json} {ending : Option Ending}

/-- The four paths account for a run alike exactly unless it breaks off after a finish reason:
there the Responses aggregation alone keeps and drops nothing. -/
theorem sameBookkeeping_iff (h : SameUpstream serde a b c d chunks ending) :
    SameBookkeeping serde hex hex' hexes hexes' createdAt createdAt' model a b c d ↔
      accountsAlike chunks ending = true := by
  have hnone := turnUpdate_eq_none_iff (.of chunks)
  have hreason : (Turn.of chunks).finishReason = lastFinish (chunks.flatMap chunkDeltas) := rfl
  rw [hreason] at hnone
  unfold SameBookkeeping accountsAlike
  rw [Anthropic.StreamPump.streamResponse_shadow, Anthropic.StreamPump.aggregateResponse_shadow,
    Responses.ResponsesPump.responsesStreamResponse_shadow,
    Responses.ResponsesPump.aggregateResponses_shadow]
  unfold Pump.finishSaid
  rw [h.stream.1, h.stream.2, h.aggregate.1, h.aggregate.2, h.responses.1, h.responses.2,
    h.aggregated.1, h.aggregated.2]
  cases ending with
  | none => simp
  | some ending =>
    cases ending with
    | done => simp [Responses.ResponsesPump.aggregateError]
    | eof =>
      cases hlast : lastFinish (chunks.flatMap chunkDeltas) with
      | none => simp [hnone.mpr hlast]
      | some reason =>
        simp [Responses.ResponsesPump.aggregateError, Responses.ResponsesPump.unexpectedEnd]
    | transportError err => simpa [Responses.ResponsesPump.aggregateError] using eq_comm.trans hnone
    | stall kind => simpa [Responses.ResponsesPump.aggregateError] using eq_comm.trans hnone

def stopped : Json := .obj [("choices", .arr [.obj [("finish_reason", .str "stop")]])]

def stoppedLine : List UInt8 :=
  ascii "data: \x7b\"choices\":[\x7b\"finish_reason\":\"stop\"\x7d]\x7d" ++ [10]

def stoppedSerde : Serde where
  toString _ := "\x7b\"choices\":[\x7b\"finish_reason\":\"stop\"\x7d]\x7d"
  fromSlice _ := some stopped
  fromStr _ := some stopped

theorem sameBookkeeping_iff_stopped :
    let hex (n : Nat) : String := String.ofList (List.replicate n '0')
    let heard : Listening := ⟨false, ⟨0, 0, 0, 0⟩, 0, [.bytes 0 stoppedLine, .eof]⟩
    SameBookkeeping stoppedSerde "0" "1" hex hex 0 1 "m" heard heard heard heard ↔
      accountsAlike [stopped] (some .eof) = true := by
  intro hex heard
  refine sameBookkeeping_iff "0" "1" hex hex 0 1 "m" ⟨?_, ?_, ?_, ?_⟩
  all_goals exact ⟨rfl, rfl⟩

/-- The turn is over when the connection breaks: three paths clear the session. -/
theorem not_sameBookkeeping : ¬ ∀ (serde : Serde) (hex hex' : String) (hexes hexes' : Nat → String)
    (createdAt createdAt' : UInt64) (model : String) (a b c d : Listening) (chunks : List Json)
    (ending : Option Ending), SameUpstream serde a b c d chunks ending →
      SameBookkeeping serde hex hex' hexes hexes' createdAt createdAt' model a b c d := by
  intro h
  let heard : Listening := ⟨false, ⟨0, 0, 0, 0⟩, 0, [.bytes 0 stoppedLine, .transportError "reset"]⟩
  let hex (n : Nat) : String := String.ofList (List.replicate n '0')
  have hsame := h stoppedSerde "0" "1" hex hex 0 1 "m" heard heard heard heard [stopped]
    (some (.transportError "reset")) ⟨⟨rfl, rfl⟩, ⟨rfl, rfl⟩, ⟨rfl, rfl⟩, ⟨rfl, rfl⟩⟩
  exact absurd hsame.2.2 (by decide)

end
end Lobster.Server
