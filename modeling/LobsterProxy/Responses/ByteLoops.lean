import LobsterProxy.Anthropic.Pump
import LobsterProxy.Responses.Pump
import LobsterProxy.Server.Decode

/-! The byte loops of the two Responses paths, each as it is written, and the three
decoders side by side. -/

namespace Lobster.Responses
open Server

namespace ResponsesPump

/-- The locals of a byte loop; `handed` lists what `feed_chunk` has been given. -/
structure Locals where
  converter : ResponsesConverter
  watch : StreamWatch
  handed : List Json

def Locals.onUpstreamBytes (now : Nat) (locals : Locals) : Locals :=
  { locals with watch := locals.watch.onUpstreamBytes now }

section Loops
variable (serde : Serde) (hex : Nat → String)

/-- A line of `responses_stream_response`; `[DONE]` finishes the stream. -/
def streamLine (now : Nat) : LineStep UInt8 Locals Frame := fun line locals =>
  let line := trimAscii line
  if line.isEmpty then ((locals, []), false)
  else if line.length > maxSseLineBytes then ((locals, []), false)
  else
    let locals := { locals with watch := locals.watch.onSseEvent }
    match stripPrefix (ascii "data:") line with
    | none => ((locals, []), false)
    | some payload =>
      let payload := trimAscii payload
      if payload = ascii "[DONE]" then
        let (c, frames, _) := finish (unexpectedEnd locals.converter.finishReason) locals.converter
        (({ locals with converter := c }, frames), true)
      else
        match serde.fromSlice payload with
        | none => ((locals, []), false)
        | some chunkValue =>
          let (c, frames) := ResponsesConverter.feedChunk hex chunkValue locals.converter
          let watch := if ResponsesConverter.semantic chunkValue then locals.watch.onSemantic now
            else locals.watch
          ((⟨c, watch, locals.handed ++ [chunkValue]⟩, frames), false)

def responsesStreamBytes (chunks : List (Nat × List UInt8)) (locals : Locals) :
    Drained UInt8 Locals Frame :=
  Lines.feed 10 Locals.onUpstreamBytes (streamLine serde hex) [] chunks locals

/-- A line of `aggregate_responses`; at `[DONE]` the frames of `finish` go to a sink. -/
def aggregateLine (now : Nat) : LineStep UInt8 Locals Frame := fun line locals =>
  let line := trimAscii line
  if line.isEmpty then ((locals, []), false)
  else if line.length > maxSseLineBytes then ((locals, []), false)
  else
    let locals := { locals with watch := locals.watch.onSseEvent }
    match stripPrefix (ascii "data:") line with
    | none => ((locals, []), false)
    | some payload =>
      let payload := trimAscii payload
      if payload = ascii "[DONE]" then
        let (c, _, _) := finish none locals.converter
        (({ locals with converter := c }, []), true)
      else
        match serde.fromSlice payload with
        | none => ((locals, []), false)
        | some chunkValue =>
          let (c, frames) := ResponsesConverter.feedChunk hex chunkValue locals.converter
          let watch := if ResponsesConverter.semantic chunkValue then locals.watch.onSemantic now
            else locals.watch
          ((⟨c, watch, locals.handed ++ [chunkValue]⟩, frames), false)

def aggregateBytes (chunks : List (Nat × List UInt8)) (locals : Locals) :
    Drained UInt8 Locals Frame :=
  Lines.feed 10 Locals.onUpstreamBytes (aggregateLine serde hex) [] chunks locals

variable {serde hex}

theorem notes_lines (now : Nat) : Notes serde Locals.handed (streamLine serde hex now) ∧
    Notes serde Locals.handed (aggregateLine serde hex now) := by
  refine forall_and.mp fun line => forall_and.mp fun locals => ?_
  have hkept : locals.handed = locals.handed ++ [] := (List.append_nil _).symm
  unfold streamLine aggregateLine noteLine readLine
  dsimp only
  split_ifs
  · exact ⟨⟨hkept, rfl⟩, hkept, rfl⟩
  · exact ⟨⟨hkept, rfl⟩, hkept, rfl⟩
  cases stripPrefix (ascii "data:") (trimAscii line) with
  | none => exact ⟨⟨hkept, rfl⟩, hkept, rfl⟩
  | some payload =>
    dsimp only
    split_ifs
    · exact ⟨⟨hkept, rfl⟩, hkept, rfl⟩
    · cases serde.fromSlice (trimAscii payload) with
      | none => exact ⟨⟨hkept, rfl⟩, hkept, rfl⟩
      | some chunkValue => exact ⟨⟨rfl, rfl⟩, rfl, rfl⟩

end Loops

/-- For every cut of the input the three loops hand on the same values: those of the lines
that a line feed has ended. -/
theorem sseLoops_decode (serde : Serde) (hex : Nat → String) (chunks : List (Nat × List UInt8))
    (c : Anthropic.StreamConverter) (c' : ResponsesConverter) (watch : StreamWatch) :
    let values := decodeLines serde (endedLines (chunks.flatMap Prod.snd))
    (Pump.onChunks Anthropic.StreamPump.frontend.logged serde chunks
        ⟨(c, []), watch, []⟩).1.converter.2 = values ∧
      (responsesStreamBytes serde hex chunks ⟨c', watch, []⟩).state.handed = values ∧
      (aggregateBytes serde hex chunks ⟨c', watch, []⟩).state.handed = values := by
  have hstart : Locals.handed ⟨c', watch, []⟩ = [] := rfl
  have htouch (now : Nat) (locals : Locals) : (Locals.onUpstreamBytes now locals).handed =
      locals.handed := rfl
  refine ⟨?_, ?_, ?_⟩
  · rw [handed_onChunks]
    exact feed_noteLine serde chunks
  · exact handed_feed htouch (fun now => (notes_lines now).1) chunks hstart
  · exact handed_feed htouch (fun now => (notes_lines now).2) chunks hstart

/-- A last line without its line feed is not handed on. -/
theorem sseLoops_leave_unended :
    let hex (n : Nat) : String := String.ofList (List.replicate n '0')
    let chunks : List (Nat × List UInt8) := [(0, ascii "data: \x7b\x7d")]
    decodeLines .emptyObject ((chunks.flatMap Prod.snd).splitOn 10) = [.obj []] ∧
      (responsesStreamBytes .emptyObject hex chunks
        ⟨.new hex 0 "m" false, .new ⟨0, 0, 0, 0⟩ 0, []⟩).state.handed = [] := by
  decide +kernel

end ResponsesPump
end Lobster.Responses
