import LobsterProxy.Anthropic.StreamWellFormed
import LobsterProxy.Server.Pump

/-! The Anthropic pump: the streaming path and the aggregation run the same loop and
end it each in its own way. -/

namespace Lobster.Anthropic
open Chat Emitter Server

namespace StreamPump

def frontend : Frontend StreamConverter Event where
  feedChunk := StreamConverter.feedChunk
  semantic := StreamConverter.semantic

/-- `StreamPump::finish`, without the response it returns: an `error` event goes out
only when no finish reason was seen. -/
def finish (error : Option String) (c : StreamConverter) :
    StreamConverter × List (Sent Event) × Option ShadowUpdate :=
  let errors := if c.finishReason.isNone then [.error (error.getD endedUnexpectedly)] else []
  let (c, events) := StreamConverter.finish c
  (c, errors ++ events.map Sent.event,
    shadowUpdate c.finishReason (c.tools.values.map ToolSlot.id) c.thinkingAccum)

def exitError (finishReason : Option String) : Ending → Option String
  | .stall kind => some (stallError kind)
  | .eof => if finishReason.isNone then some endedUnexpectedly else none
  | .transportError err => some (transportMessage err)
  | .done => none

section Paths
variable (serde : Serde) (hex : String) (exposeThinking : Bool) (timeouts : StreamTimeouts)
  (started : Nat) (inputs : List Input)

def run : Pump.Driven StreamConverter Event :=
  Pump.drive frontend serde inputs (.new (.new hex exposeThinking) timeouts started)

def streamResponse : StreamRun Event :=
  let driven := run serde hex exposeThinking timeouts started inputs
  match driven.ending with
  | none => ⟨driven.sent, none, none⟩
  | some ending =>
    let error := exitError driven.pump.converter.finishReason ending
    let (_, sent, shadow) := finish error driven.pump.converter
    ⟨driven.sent ++ sent, some error, shadow⟩

def aggregateResponse : AggregateRun Json :=
  let driven := run serde hex exposeThinking timeouts started inputs
  match driven.ending with
  | none => ⟨none, none⟩
  | some ending =>
    let error := exitError driven.pump.converter.finishReason ending
    let (c, _, shadow) := finish error driven.pump.converter
    match error with
    | some message => ⟨some (.error (.upstream (exitStatus ending) message)), shadow⟩
    | none => ⟨some (.ok (c.nonstreamResponse serde)), shadow⟩

end Paths

section Agreement
open StreamConverter

theorem finishReason_closeThinking (c : StreamConverter) :
    (closeThinking c).1.finishReason = c.finishReason := by
  unfold closeThinking
  split_ifs <;> rfl

theorem finishReason_feedReasoning (text : String) (c : StreamConverter) :
    (feedReasoning text c).1.finishReason = c.finishReason := by
  unfold feedReasoning openThinking andThen
  dsimp only
  split_ifs <;> rfl

theorem finishReason_feedContent (text : String) (c : StreamConverter) :
    (feedContent text c).1.finishReason = c.finishReason := by
  have hopen (c : StreamConverter) : (openText c).1.finishReason = c.finishReason := by
    unfold openText
    split_ifs <;> rfl
  exact (hopen _).trans (finishReason_closeThinking c)

theorem finishReason_feedToolCall (call : ToolCallDelta) (c : StreamConverter) :
    (feedToolCall call c).1.finishReason = c.finishReason := by
  have hslot (c : StreamConverter) : (feedSlot call c).1.finishReason = c.finishReason := by
    unfold feedSlot slotFor
    cases c.tools.find? call.index <;> rfl
  exact (hslot _).trans (finishReason_closeThinking c)

theorem finishReason_feedDelta (delta : Delta) (c : StreamConverter) :
    (feedDelta delta c).1.finishReason = delta.finish?.or c.finishReason := by
  cases delta with
  | finish reason => rfl
  | reasoning text => exact finishReason_feedReasoning text c
  | content text => exact finishReason_feedContent text c
  | toolCalls calls => exact forEach_frame finishReason_feedToolCall calls c

/-- The converter is not finished and holds the last finish reason among the deltas. -/
def Feeding (seen : List Delta) (c : StreamConverter) (_ : List Event) : Prop :=
  c.finished = false ∧ c.finishReason = lastFinish seen

theorem leads_feeding (seen : List Delta) (chunk : Json) :
    Leads (Feeding seen) (Feeding (seen ++ chunkDeltas chunk)) (feedChunk chunk) := by
  rintro c past ⟨hfinished, hreason⟩
  have hdelta (seen : List Delta) (delta : Delta) :
      Leads (Feeding seen) (Feeding (seen ++ [delta])) (feedDelta delta) := by
    rintro c past ⟨hfinished, hreason⟩
    refine ⟨(flags_feedDelta c.started false delta c past ⟨rfl, hfinished⟩).2, ?_⟩
    rw [finishReason_feedDelta, lastFinish_snoc, hreason]
  have hdeltas := leads_forEach hdelta (chunkDeltas chunk) seen
  rw [List.flatMap_singleton'] at hdeltas
  have hstart : Keeps (Feeding seen) ensureStarted := by
    intro c past h
    unfold ensureStarted
    split_ifs <;> exact h
  have hnote : Keeps (Feeding seen) (silent (noteChunk chunk)) := leads_silent fun _ _ h => h
  unfold feedChunk
  rw [if_neg (by rw [hfinished]; exact Bool.false_ne_true)]
  exact (hnote.andThen (hstart.andThen hdeltas)) c past ⟨hfinished, hreason⟩

theorem feeding_chunks (hex : String) (expose : Bool) (chunks : List Json) :
    Feeding (chunks.flatMap chunkDeltas) (forEach feedChunk chunks (.new hex expose)).1 [] :=
  leads_forEach leads_feeding chunks [] (.new hex expose) [] ⟨rfl, rfl⟩

def progress (chunk : Json) : Bool := (chunkDeltas chunk).any fun delta => delta ≠ .toolCalls []

theorem progresses (hex : String) (expose : Bool) :
    Pump.Progresses frontend progress (StreamConverter.new hex expose) := by
  intro chunks chunk
  have hfinished : (forEach frontend.feedChunk chunks (.new hex expose)).1.finished = false :=
    (feeding_chunks hex expose chunks).1
  show (!_ && _) = _
  rw [hfinished]
  rfl

/-- What a run says, and how it ends, whatever converter listens. -/
def record (serde : Serde) (timeouts : StreamTimeouts) (started : Nat) (inputs : List Input) :
    Pump.Driven Unit Json :=
  Pump.drive (Pump.recorder progress) serde inputs (.new () timeouts started)

theorem run_record (serde : Serde) (hex : String) (expose : Bool) (timeouts : StreamTimeouts)
    (started : Nat) (inputs : List Input) :
    let driven := run serde hex expose timeouts started inputs
    let said := record serde timeouts started inputs
    forEach feedChunk (Pump.said said) (.new hex expose) =
        (driven.pump.converter, driven.sent.filterMap Sent.event?) ∧
      driven.ending = said.ending ∧
      driven.pump.converter.finishReason = Pump.finishSaid said := by
  obtain ⟨hfed, hending⟩ := Pump.drive_record serde (progresses hex expose) timeouts started inputs
  have hreason := (feeding_chunks hex expose (Pump.said (record serde timeouts started inputs))).2
  have hkept := congrArg (fun fed => fed.1.finishReason) hfed.symm
  exact ⟨hfed, hending, hkept.trans hreason⟩

def Agree (stream : StreamRun Event) (aggregate : AggregateRun Json) : Prop :=
  stream.sendsError = aggregate.fails ∧ stream.recordsError = aggregate.fails

/-- The run has not ended, or it ended by end of file, or by `[DONE]` after a finish
reason, or by a stall or a transport error before any. -/
def endsAlike (record : Pump.Driven Unit Json) : Bool :=
  match record.ending with
  | none | some .eof => true
  | some .done => (Pump.finishSaid record).isSome
  | some (.stall _) | some (.transportError _) => (Pump.finishSaid record).isNone

theorem sendsError_finish (error : Option String) (c : StreamConverter) :
    (finish error c).2.1.any Sent.isError = c.finishReason.isNone := by
  have hevents (out : List Event) : (out.map Sent.event).any Sent.isError = false := by
    rw [List.any_map]
    exact List.any_eq_false.mpr fun e _ => Bool.false_ne_true
  show ((if c.finishReason.isNone then [Sent.error _] else []) ++ List.map Sent.event _).any _ = _
  rw [List.any_append, hevents, Bool.or_false]
  cases c.finishReason <;> rfl

section Paths
variable (serde : Serde) (hex : String) (expose : Bool) (timeouts : StreamTimeouts) (started : Nat)
  (inputs : List Input)

/-- Once a run has ended, the client has seen an error exactly if no finish reason was
said, and the summary has one exactly if the exit has one. -/
theorem streamResponse_errors :
    let said := record serde timeouts started inputs
    let stream := streamResponse serde hex expose timeouts started inputs
    stream.sendsError = (said.ending.isSome && (Pump.finishSaid said).isNone) ∧
      stream.recordsError = said.ending.any fun ending =>
      (exitError (Pump.finishSaid said) ending).isSome := by
  obtain ⟨-, hending, hreason⟩ := run_record serde hex expose timeouts started inputs
  have hquiet :=
    Pump.drive_sends_no_error frontend serde inputs (.new (.new hex expose) timeouts started)
  simp only [← hending, ← hreason]
  unfold streamResponse StreamRun.sendsError
  dsimp only
  cases (run serde hex expose timeouts started inputs).ending with
  | none => exact ⟨hquiet, rfl⟩
  | some ending =>
    refine ⟨?_, rfl⟩
    show List.any (_ ++ (finish _ _).2.1) _ = _
    rw [List.any_append, sendsError_finish]
    exact (congrArg (· || _) hquiet).trans (Bool.false_or _)

theorem aggregateResponse_fails :
    let said := record serde timeouts started inputs
    (aggregateResponse serde hex expose timeouts started inputs).fails =
      said.ending.any fun ending => (exitError (Pump.finishSaid said) ending).isSome := by
  obtain ⟨-, hending, hreason⟩ := run_record serde hex expose timeouts started inputs
  simp only [← hending, ← hreason]
  unfold aggregateResponse AggregateRun.fails
  dsimp only
  cases (run serde hex expose timeouts started inputs).ending with
  | none => rfl
  | some ending =>
    dsimp only [Option.any_some]
    cases exitError _ ending <;> rfl

end Paths

/-- The two paths report failure alike exactly in the runs that end alike. -/
theorem paths_agree_iff (serde : Serde) (hex hex' : String) (expose : Bool)
    (timeouts : StreamTimeouts) (started : Nat) (inputs : List Input) :
    Agree (streamResponse serde hex expose timeouts started inputs)
        (aggregateResponse serde hex' expose timeouts started inputs) ↔
      endsAlike (record serde timeouts started inputs) = true := by
  obtain ⟨hsends, hrecords⟩ := streamResponse_errors serde hex expose timeouts started inputs
  unfold Agree endsAlike
  rw [hsends, hrecords, aggregateResponse_fails]
  cases (record serde timeouts started inputs).ending with
  | none => simp
  | some ending =>
    cases ending with
    | done => cases Pump.finishSaid _ <;> simp [exitError]
    | eof => cases Pump.finishSaid _ <;> simp [exitError]
    | transportError err => cases Pump.finishSaid _ <;> simp [exitError]
    | stall kind => cases Pump.finishSaid _ <;> simp [exitError]

/-- `[DONE]` without a finish reason: an error event for the client, no error on record
and an answer from the aggregation. -/
theorem paths_disagree :
    let inputs : List Input := [.bytes 0 (ascii "data: [DONE]" ++ [10]), .eof]
    let timeouts : StreamTimeouts := ⟨0, 0, 0, 0⟩
    ¬ Agree (streamResponse .emptyObject "0" false timeouts 0 inputs)
      (aggregateResponse .emptyObject "1" false timeouts 0 inputs) := by
  intro inputs timeouts h
  exact absurd h.1 (by decide)

end Agreement

end StreamPump
end Lobster.Anthropic
