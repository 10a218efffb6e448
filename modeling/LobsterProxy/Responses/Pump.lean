import LobsterProxy.Responses.Anonymous
import LobsterProxy.Server.Pump

/-! The Responses pump and its aggregation: two hand-written loops that do the same up
to `[DONE]`. -/

namespace Lobster.Responses
open Chat Emitter Server

namespace ResponsesPump

def frontend (hex : Nat → String) : Frontend ResponsesConverter Frame where
  feedChunk := ResponsesConverter.feedChunk hex
  semantic chunk := fun _ => ResponsesConverter.semantic chunk

def finish (error : Option String) (c : ResponsesConverter) :
    ResponsesConverter × List Frame × Option ShadowUpdate :=
  let (c, frames) := ResponsesConverter.finish error c
  (c, frames, shadowUpdate c.finishReason (c.tools.values.map ToolSlot.callId)
    ((c.reasoning.map ItemState.accum).getD ""))

def unexpectedEnd (finishReason : Option String) : Option String :=
  if finishReason.isNone then some endedUnexpectedly else none

def streamError (finishReason : Option String) : Ending → Option String
  | .stall kind => some (stallError kind)
  | .eof => unexpectedEnd finishReason
  | .transportError err => some (transportMessage err)
  | .done => unexpectedEnd finishReason

def aggregateError (finishReason : Option String) : Ending → Option String
  | .stall kind => some (stallError kind)
  | .eof => unexpectedEnd finishReason
  | .transportError err => some (transportMessage err)
  -- `[DONE]` is taken as a success, whatever came before it
  | .done => none

section Paths
variable (serde : Serde) (hex : Nat → String) (createdAt : UInt64) (model : String)
  (exposeThinking : Bool) (timeouts : StreamTimeouts) (started : Nat) (inputs : List Input)

def run : Pump.Driven ResponsesConverter Frame :=
  Pump.drive (frontend hex) serde inputs
    (.new (.new hex createdAt model exposeThinking) timeouts started)

def responsesStreamResponse : StreamRun Frame :=
  let driven := run serde hex createdAt model exposeThinking timeouts started inputs
  match driven.ending with
  | none => ⟨driven.sent, none, none⟩
  | some ending =>
    let error := streamError driven.pump.converter.finishReason ending
    let (_, frames, shadow) := finish error driven.pump.converter
    ⟨driven.sent ++ frames.map Sent.event, some error, shadow⟩

/-- The failing exits return without `finish`. -/
def aggregateResponses : AggregateRun ResponseObject :=
  let driven := run serde hex createdAt model exposeThinking timeouts started inputs
  match driven.ending with
  | none => ⟨none, none⟩
  | some ending =>
    match aggregateError driven.pump.converter.finishReason ending with
    | some message => ⟨some (.error (.upstream (exitStatus ending) message)), none⟩
    | none =>
      let (c, _, shadow) := finish none driven.pump.converter
      ⟨some (.ok c.nonstreamResponse), shadow⟩

end Paths

def lastEvent? (stream : StreamRun Frame) : Option Event :=
  (stream.sent.getLast?.bind Sent.event?).map Frame.event

def isFailed : Event → Bool
  | .failed _ => true
  | _ => false

def endsFailed (stream : StreamRun Frame) : Bool := (lastEvent? stream).any isFailed

/-- Both paths of a run fail alike and, when neither does, come to one response. -/
structure Agree (stream : StreamRun Frame) (aggregate : AggregateRun ResponseObject) : Prop where
  failures : endsFailed stream = aggregate.fails
  responses : endsFailed stream = false → aggregate.fails = false →
    ((lastEvent? stream).bind Event.response?).map ResponseObject.anonymous =
      aggregate.answered?.map ResponseObject.anonymous

section Agreement
open ResponsesConverter

section Feeding
variable {hex : Nat → String}

theorem finishReason_feedReasoning (text : String) (c : ResponsesConverter) :
    (feedReasoning hex text c).1.finishReason = c.finishReason := by
  obtain ⟨state, next, items, draws, -, -, hstep, -⟩ := feedReasoning_step hex c text
  rw [hstep]

theorem finishReason_feedText (text : String) (c : ResponsesConverter) :
    (feedText hex text c).1.finishReason = c.finishReason := by
  obtain ⟨state, next, items, draws, -, -, hstep, -⟩ := feedText_step hex c text
  rw [hstep]

theorem finishReason_closeMessageItem (c : ResponsesConverter) :
    (closeMessageItem c).1.finishReason = c.finishReason := by
  obtain ⟨message, hstep, -⟩ := closeMessageItem_step c
  rw [hstep]

theorem finishReason_ensureToolItemAdded (call : ToolCallDelta) (c : ResponsesConverter) :
    (ensureToolItemAdded hex call c).1.finishReason = c.finishReason := by
  have hadd (c : ResponsesConverter) : (addToolItem hex call c).1.finishReason =
      c.finishReason := by
    obtain ⟨slot, items, -, -, hstep, -⟩ := addToolItem_step hex c call
    rw [hstep]
  unfold ensureToolItemAdded
  split_ifs
  · rfl
  · exact (hadd _).trans (finishReason_closeMessageItem c)
  · exact hadd c

theorem finishReason_feedToolCallArguments (call : ToolCallDelta) (c : ResponsesConverter) :
    (feedToolCallArguments call c).1.finishReason = c.finishReason := by
  obtain ⟨tools, hstep, -⟩ := feedToolCallArguments_step c call
  rw [hstep]

theorem finishReason_feedDelta (delta : Delta) (c : ResponsesConverter) :
    (feedDelta hex delta c).1.finishReason = delta.finish?.or c.finishReason := by
  cases delta with
  | finish reason => rfl
  | reasoning text => exact finishReason_feedReasoning text c
  | content text => exact finishReason_feedText text c
  | toolCalls calls =>
    exact (forEach_frame finishReason_feedToolCallArguments calls _).trans
      (forEach_frame finishReason_ensureToolItemAdded calls c)

def Reasoned (seen : List Delta) (c : ResponsesConverter) (_ : List Event) : Prop :=
  c.finishReason = lastFinish seen

def Feeding (hex : Nat → String) (seen : List Delta) (c : ResponsesConverter) (past : List Event) :
    Prop := Inv c past ∧ Drawn hex c past ∧ Reasoned seen c past

theorem leads_reasoned (seen : List Delta) (chunk : Json) :
    Leads (Reasoned seen) (Reasoned (seen ++ chunkDeltas chunk)) (feedChunkEvents hex chunk) := by
  have hdelta (seen : List Delta) (delta : Delta) :
      Leads (Reasoned seen) (Reasoned (seen ++ [delta])) (feedDelta hex delta) := by
    intro c past h
    unfold Reasoned at h ⊢
    rw [finishReason_feedDelta, lastFinish_snoc, h]
  have hdeltas := leads_forEach hdelta (chunkDeltas chunk) seen
  rw [List.flatMap_singleton'] at hdeltas
  have hstart : Keeps (Reasoned seen) ensureStarted := by
    intro c past h
    unfold ensureStarted
    split_ifs <;> exact h
  have hnote : Keeps (Reasoned seen) (silent (noteChunk chunk)) := leads_silent fun _ _ h => h
  exact hstart.andThen (hnote.andThen hdeltas)

theorem finishReason_chunks (hex : Nat → String) (createdAt : UInt64) (model : String)
    (expose : Bool) (chunks : List Json) :
    (forEach (feedChunk hex) chunks (.new hex createdAt model expose)).1.finishReason =
      lastFinish (chunks.flatMap chunkDeltas) := by
  have hchunk (seen : List Delta) (chunk : Json) :=
    leads_numbered (@leads_reasoned hex seen chunk) fun _ _ _ h => h
  exact (leads_forEach hchunk chunks [] (.new hex createdAt model expose) [] ⟨rfl, rfl, rfl⟩).1

theorem leads_feedChunkEvents (hinj : Function.Injective hex) (seen : List Delta) (chunk : Json) :
    Leads (Feeding hex seen) (Feeding hex (seen ++ chunkDeltas chunk))
      (feedChunkEvents hex chunk) :=
  (keeps_feedChunkEvents hex chunk).and
    ((draws_feedChunkEvents hinj chunk).and (leads_reasoned seen chunk))

theorem feeding_chunks (hinj : Function.Injective hex) (createdAt : UInt64) (model : String)
    (expose : Bool) (chunks : List Json) :
    let fed := forEach (feedChunk hex) chunks (.new hex createdAt model expose)
    Feeding hex (chunks.flatMap chunkDeltas) fed.1 (events fed.2) := by
  have hchunk (seen : List Delta) (chunk : Json) :=
    leads_numbered (leads_feedChunkEvents hinj seen chunk)
      fun _ _ _ h => ⟨h.1.update, h.2.1.of_tools rfl le_rfl, h.2.2⟩
  have hnew : Feeding hex [] (.new hex createdAt model expose) [] :=
    ⟨inv_new hex createdAt model expose, drawn_new createdAt model expose, rfl⟩
  exact (leads_forEach hchunk chunks [] (.new hex createdAt model expose) [] ⟨hnew, rfl, rfl⟩).1

theorem listed_closeItems {c : ResponsesConverter} {past : List Event} (hinv : Inv c past)
    (hdrawn : Drawn hex c past) : Listed (closeItems { c with error := none }).1 := by
  have hdrawn' : Drawn hex { c with error := none } past := hdrawn.of_tools rfl le_rfl
  obtain ⟨hsound, board, htracks, -⟩ := leads_closeItems _ past hinv.update
  exact output_eq_itemAt hsound htracks (draws_closeItems _ past hdrawn').distinctSlots

theorem listed_finish {c : ResponsesConverter} {past : List Event} (hinv : Inv c past)
    (hdrawn : Drawn hex c past) : Listed (ResponsesConverter.finish none c).1 := by
  obtain ⟨n, hn⟩ : ∃ n, (ResponsesConverter.finish none c).1 =
      { (closeItems { c with error := none }).1 with sequence := n } := by
    unfold ResponsesConverter.finish numbered
    rw [finishEvents_none]
    exact ⟨_, rfl⟩
  rw [hn]
  exact listed_closeItems hinv hdrawn

end Feeding

/-- The terminal frame: it carries the response object, and it is `response.failed`
exactly under an error. -/
theorem finish_last (error : Option String) (c : ResponsesConverter) : ∃ frames frame,
    (ResponsesConverter.finish error c).2 = frames ++ [frame] ∧
      frame.event.response? = some (ResponsesConverter.finish error c).1.nonstreamResponse ∧
      isFailed frame.event = error.isSome := by
  obtain ⟨body, t, ht, hresponse, hfailed⟩ : ∃ body t, (finishEvents error c).2 = body ++ [t] ∧
      t.response? = some (finishEvents error c).1.nonstreamResponse ∧
      isFailed t = error.isSome := by
    cases error with
    | some message => exact ⟨[], _, rfl, rfl, rfl⟩
    | none =>
      rw [finishEvents_none]
      refine ⟨_, _, rfl, response?_terminalEvent (error_closeItems _), ?_⟩
      unfold terminalEvent
      split_ifs <;> rfl
  have hframes := (events_numbered (finishEvents error) c).trans ht
  obtain ⟨frames, last, hsplit, -, hlast⟩ := List.map_eq_append_iff.mp hframes
  obtain ⟨frame, rfl, rfl⟩ := List.map_eq_singleton_iff.mp hlast
  exact ⟨frames, frame, hsplit, hresponse, hfailed⟩

def record (serde : Serde) (timeouts : StreamTimeouts) (started : Nat) (inputs : List Input) :
    Pump.Driven Unit Json :=
  Pump.drive (Pump.recorder ResponsesConverter.semantic) serde inputs (.new () timeouts started)

/-- The run has not reached `[DONE]`, or a finish reason came before it. -/
def endsAlike (record : Pump.Driven Unit Json) : Bool :=
  match record.ending with
  | some .done => (Pump.finishSaid record).isSome
  | _ => true

section Paths
variable (serde : Serde) {hex : Nat → String} (createdAt : UInt64) (model : String) (expose : Bool)
  (timeouts : StreamTimeouts) (started : Nat) (inputs : List Input)

theorem run_record :
    let driven := run serde hex createdAt model expose timeouts started inputs
    let said := record serde timeouts started inputs
    forEach (feedChunk hex) (Pump.said said) (.new hex createdAt model expose) =
        (driven.pump.converter, driven.sent.filterMap Sent.event?) ∧
      driven.ending = said.ending ∧
      driven.pump.converter.finishReason = Pump.finishSaid said := by
  have hprogress : Pump.Progresses (frontend hex) ResponsesConverter.semantic
      (.new hex createdAt model expose) := fun _ _ => rfl
  obtain ⟨hfed, hending⟩ := Pump.drive_record serde hprogress timeouts started inputs
  have hreason := finishReason_chunks hex createdAt model expose
    (Pump.said (record serde timeouts started inputs))
  have hkept := congrArg (fun fed => fed.1.finishReason) hfed.symm
  exact ⟨hfed, hending, hkept.trans hreason⟩

theorem run_feeding (hinj : Function.Injective hex) :
    let driven := run serde hex createdAt model expose timeouts started inputs
    Feeding hex ((Pump.said (record serde timeouts started inputs)).flatMap chunkDeltas)
      driven.pump.converter (events (driven.sent.filterMap Sent.event?)) := by
  obtain ⟨hfed, -⟩ := run_record serde createdAt model expose timeouts started inputs
  have hfeeding := feeding_chunks hinj createdAt model expose
    (Pump.said (record serde timeouts started inputs))
  rw [hfed] at hfeeding
  exact hfeeding

theorem lastEvent?_mem {stream : StreamRun Frame} {e : Event} (h : lastEvent? stream = some e) :
    e ∈ events (stream.sent.filterMap Sent.event?) := by
  obtain ⟨frame, hframe, rfl⟩ := Option.map_eq_some_iff.mp h
  obtain ⟨sent, hsent, hevent⟩ := Option.bind_eq_some_iff.mp hframe
  exact List.mem_map_of_mem (List.mem_filterMap.mpr ⟨sent, List.mem_of_getLast? hsent, hevent⟩)

theorem stream_running (hinj : Function.Injective hex)
    (hending : (run serde hex createdAt model expose timeouts started inputs).ending = none) :
    (lastEvent? (responsesStreamResponse serde hex createdAt model expose timeouts started
      inputs)).bind Event.response? = none := by
  obtain ⟨⟨-, board, -, hrecords⟩, -⟩ :=
    run_feeding serde createdAt model expose timeouts started inputs hinj
  unfold responsesStreamResponse
  dsimp only
  rw [hending]
  refine Option.bind_eq_none_iff.mpr fun e he => ?_
  have hrunning := hrecords.running e (lastEvent?_mem he)
  exact Option.not_isSome_iff_eq_none.mp (Bool.eq_false_iff.mp hrunning)

/-- An ended run has a terminal frame: `response.failed` exactly if the exit has an error. -/
theorem stream_ended {ending : Ending}
    (hending : (run serde hex createdAt model expose timeouts started inputs).ending =
      some ending) :
    let c := (run serde hex createdAt model expose timeouts started inputs).pump.converter
    let error := streamError c.finishReason ending
    ∃ e, lastEvent? (responsesStreamResponse serde hex createdAt model expose timeouts started
        inputs) = some e ∧
      e.response? = some (ResponsesConverter.finish error c).1.nonstreamResponse ∧
      isFailed e = error.isSome := by
  intro c error
  obtain ⟨frames, frame, hframes, hresponse, hfailed⟩ := finish_last error c
  refine ⟨frame.event, ?_, hresponse, hfailed⟩
  unfold responsesStreamResponse lastEvent?
  dsimp only
  rw [hending]
  have hsent : (finish error c).2.1.map Sent.event =
      frames.map Sent.event ++ [Sent.event frame] := by
    show ((ResponsesConverter.finish error c).2).map Sent.event = _
    rw [hframes, List.map_append, List.map_singleton]
  show (((_ ++ (finish error c).2.1.map Sent.event).getLast?).bind Sent.event?).map Frame.event = _
  rw [hsent, ← List.append_assoc, List.getLast?_concat]
  rfl

theorem stream_fails (hinj : Function.Injective hex) :
    let said := record serde timeouts started inputs
    endsFailed (responsesStreamResponse serde hex createdAt model expose timeouts started inputs) =
      said.ending.any fun ending => (streamError (Pump.finishSaid said) ending).isSome := by
  obtain ⟨-, hending, hreason⟩ := run_record serde createdAt model expose timeouts started inputs
  intro said
  rw [← hending, ← hreason]
  unfold endsFailed
  cases hrun : (run serde hex createdAt model expose timeouts started inputs).ending with
  | none =>
    have hrunning := stream_running serde createdAt model expose timeouts started inputs hinj hrun
    cases hlast : lastEvent? _ with
    | none => rfl
    | some e =>
      rw [hlast, Option.bind_some] at hrunning
      cases e with
      | failed response => cases hrunning
      | _ => rfl
  | some ending =>
    obtain ⟨e, he, -, hfailed⟩ :=
      stream_ended serde createdAt model expose timeouts started inputs hrun
    rw [he]
    exact hfailed

/-- An ended run has an answer unless the exit has an error. -/
theorem aggregate_ended {ending : Ending}
    (hending : (run serde hex createdAt model expose timeouts started inputs).ending =
      some ending) :
    let c := (run serde hex createdAt model expose timeouts started inputs).pump.converter
    let aggregate := aggregateResponses serde hex createdAt model expose timeouts started inputs
    aggregate.fails = (aggregateError c.finishReason ending).isSome ∧
      (aggregate.fails = false →
        aggregate.answered? = some (ResponsesConverter.finish none c).1.nonstreamResponse) := by
  unfold aggregateResponses
  dsimp only
  rw [hending]
  dsimp only
  cases aggregateError _ ending with
  | none => exact ⟨rfl, fun _ => rfl⟩
  | some message => exact ⟨rfl, nofun⟩

theorem aggregate_fails :
    let said := record serde timeouts started inputs
    (aggregateResponses serde hex createdAt model expose timeouts started inputs).fails =
      said.ending.any fun ending => (aggregateError (Pump.finishSaid said) ending).isSome := by
  obtain ⟨-, hending, hreason⟩ := run_record serde createdAt model expose timeouts started inputs
  intro said
  rw [← hending, ← hreason]
  cases hrun : (run serde hex createdAt model expose timeouts started inputs).ending with
  | none =>
    unfold aggregateResponses
    dsimp only
    rw [hrun]
    rfl
  | some ending =>
    exact (aggregate_ended serde createdAt model expose timeouts started inputs hrun).1

end Paths

section Both
variable (serde : Serde) {hex hex' : Nat → String} (createdAt createdAt' : UInt64) (model : String)
  (expose : Bool) (timeouts : StreamTimeouts) (started : Nat) (inputs : List Input)

theorem finished_alike (hinj : Function.Injective hex) (hinj' : Function.Injective hex') :
    let c := (run serde hex createdAt model expose timeouts started inputs).pump.converter
    let c' := (run serde hex' createdAt' model expose timeouts started inputs).pump.converter
    (ResponsesConverter.finish none c).1.nonstreamResponse.anonymous =
      (ResponsesConverter.finish none c').1.nonstreamResponse.anonymous := by
  obtain ⟨hfed, -⟩ := run_record serde createdAt model expose timeouts started inputs
  obtain ⟨hfed', -⟩ := run_record serde createdAt' model expose timeouts started inputs
  have halike := alike_forEach (alike_feedChunk hex hex')
    (Pump.said (record serde timeouts started inputs)) (.new hex createdAt model expose)
    (.new hex' createdAt' model expose) rfl
  rw [hfed, hfed'] at halike
  obtain ⟨hinv, hdrawn, -⟩ := run_feeding serde createdAt model expose timeouts started inputs hinj
  obtain ⟨hinv', hdrawn', -⟩ :=
    run_feeding serde createdAt' model expose timeouts started inputs hinj'
  exact nonstreamResponse_alike (alike_finish _ _ halike) (listed_finish hinv hdrawn)
    (listed_finish hinv' hdrawn')

/-- Where neither path fails they come to one response. -/
theorem responses_alike (hinj : Function.Injective hex) (hinj' : Function.Injective hex') :
    let stream := responsesStreamResponse serde hex createdAt model expose timeouts started inputs
    let aggregate := aggregateResponses serde hex' createdAt' model expose timeouts started inputs
    endsFailed stream = false → aggregate.fails = false →
      ((lastEvent? stream).bind Event.response?).map ResponseObject.anonymous =
        aggregate.answered?.map ResponseObject.anonymous := by
  intro stream aggregate hstream haggregate
  obtain ⟨-, hending, -⟩ := run_record serde createdAt model expose timeouts started inputs
  obtain ⟨-, hending', -⟩ := run_record serde createdAt' model expose timeouts started inputs
  cases hrun : (run serde hex createdAt model expose timeouts started inputs).ending with
  | none =>
    have hrun' := hending'.trans (hending.symm.trans hrun)
    rw [stream_running serde createdAt model expose timeouts started inputs hinj hrun]
    unfold aggregate aggregateResponses
    dsimp only
    rw [hrun']
    rfl
  | some ending =>
    have hrun' := hending'.trans (hending.symm.trans hrun)
    obtain ⟨e, he, hresponse, hfailed⟩ :=
      stream_ended serde createdAt model expose timeouts started inputs hrun
    have herror : streamError (run serde hex createdAt model expose timeouts started
        inputs).pump.converter.finishReason ending = none := by
      unfold endsFailed at hstream
      rw [he, Option.any_some, hfailed] at hstream
      exact Option.not_isSome_iff_eq_none.mp (Bool.eq_false_iff.mp hstream)
    have hanswer :=
      (aggregate_ended serde createdAt' model expose timeouts started inputs hrun').2 haggregate
    rw [he, Option.bind_some, hresponse, herror, hanswer]
    exact congrArg some
      (finished_alike serde createdAt createdAt' model expose timeouts started inputs hinj hinj')

end Both

/-- The two paths of a run agree exactly unless `[DONE]` comes without a finish reason. -/
theorem responses_agree_iff (serde : Serde) {hex hex' : Nat → String}
    (hinj : Function.Injective hex) (hinj' : Function.Injective hex')
    (createdAt createdAt' : UInt64) (model : String) (expose : Bool) (timeouts : StreamTimeouts)
    (started : Nat) (inputs : List Input) :
    Agree (responsesStreamResponse serde hex createdAt model expose timeouts started inputs)
        (aggregateResponses serde hex' createdAt' model expose timeouts started inputs) ↔
      endsAlike (record serde timeouts started inputs) = true := by
  have hresponses := responses_alike serde createdAt createdAt' model expose timeouts started inputs
    hinj hinj'
  have hagree :
      Agree (responsesStreamResponse serde hex createdAt model expose timeouts started inputs)
      (aggregateResponses serde hex' createdAt' model expose timeouts started inputs) ↔
        endsFailed
          (responsesStreamResponse serde hex createdAt model expose timeouts started inputs) =
          (aggregateResponses serde hex' createdAt' model expose timeouts started inputs).fails :=
    ⟨fun h => h.failures, fun h => ⟨h, hresponses⟩⟩
  rw [hagree, stream_fails serde createdAt model expose timeouts started inputs hinj,
    aggregate_fails serde createdAt' model expose timeouts started inputs]
  unfold endsAlike
  cases (record serde timeouts started inputs).ending with
  | none => simp
  | some ending =>
    cases ending with
    | done => cases Pump.finishSaid _ <;> simp [streamError, aggregateError, unexpectedEnd]
    | eof => simp [streamError, aggregateError]
    | transportError err => simp [streamError, aggregateError]
    | stall kind => simp [streamError, aggregateError]

theorem responses_agree_iff_stop :
    let hex (n : Nat) : String := String.ofList (List.replicate n '0')
    let serde : Serde := .emptyObject
    let inputs : List Input := [.bytes 0 (ascii "data: \x7b\x7d" ++ [10]), .eof]
    Agree (responsesStreamResponse serde hex 0 "m" false ⟨0, 0, 0, 0⟩ 0 inputs)
        (aggregateResponses serde hex 1 "m" false ⟨0, 0, 0, 0⟩ 0 inputs) ↔
      endsAlike (record serde ⟨0, 0, 0, 0⟩ 0 inputs) = true :=
  responses_agree_iff .emptyObject zeros_injective zeros_injective 0 1 "m" false ⟨0, 0, 0, 0⟩ 0 _

/-- `[DONE]` without a finish reason: `response.failed` for a streaming client, a
completed response for the other. -/
theorem responses_disagree :
    let hex (n : Nat) : String := String.ofList (List.replicate n '0')
    let inputs : List Input := [.bytes 0 (ascii "data: [DONE]" ++ [10]), .eof]
    ¬ Agree (responsesStreamResponse .emptyObject hex 0 "m" false ⟨0, 0, 0, 0⟩ 0 inputs)
      (aggregateResponses .emptyObject hex 0 "m" false ⟨0, 0, 0, 0⟩ 0 inputs) := by
  intro hex inputs h
  exact absurd h.failures (by decide)

end Agreement

end ResponsesPump
end Lobster.Responses
