import LobsterProxy.Anthropic.Pump
import LobsterProxy.Responses.Pump

/-! How the two streams open: the first chunk brings the opening event, and the end of a run
does without it. -/

namespace Lobster.Server
open Emitter Trace

def StreamRun.events {ε : Type} (run : StreamRun ε) : List ε := run.sent.filterMap Sent.event?

def opensInTime (record : Pump.Driven Unit Json) : Bool :=
  record.ending.isNone || !(Pump.said record).isEmpty

section
variable {ε : Type} {opens needs : ε → Bool} {record : Pump.Driven Unit Json}
    {fed finished events : List ε}

theorem opened_iff_inTime (hevents : events = fed ++ if record.ending.isSome then finished else [])
    (hnone : Pump.said record = [] → fed = [])
    (hsome : Pump.said record ≠ [] → ∃ e later, fed = e :: later ∧ opens e = true ∧ needs e = false)
    (hfinished : Pump.said record = [] → record.ending.isSome = true →
      ∃ e later, finished = e :: later ∧ needs e = true) :
    Opened opens needs events ↔ opensInTime record = true := by
  unfold opensInTime
  rw [hevents]
  by_cases hsaid : Pump.said record = []
  · rw [hnone hsaid, hsaid, List.nil_append]
    cases hending : record.ending with
    | none => exact iff_of_true legal_nil rfl
    | some ending =>
      obtain ⟨e, later, hfirst, hneeds⟩ := hfinished hsaid (by rw [hending]; rfl)
      have hlate : ¬ Opened opens needs finished := hfirst ▸ not_opened_cons hneeds later
      simpa using hlate
  · obtain ⟨e, later, hfirst, hopens, hneeds⟩ := hsome hsaid
    rw [hfirst, List.cons_append]
    have hopened :=
      opened_cons hopens hneeds (later ++ if record.ending.isSome then finished else [])
    simp [hopened, hsaid]

end
end Lobster.Server

namespace Lobster.Anthropic.StreamPump
open Emitter Trace Server

def opensMessage : Event → Bool
  | .messageStart .. => true
  | _ => false

section
variable (serde : Serde) (hex : String) (expose : Bool) (timeouts : StreamTimeouts) (started : Nat)
  (inputs : List Input)

theorem events_finish (error : Option String) (c : StreamConverter) :
    (finish error c).2.1.filterMap Sent.event? = (StreamConverter.finish c).2 := by
  have herrors (message : String) :
      (if c.finishReason.isNone then [(.error message : Sent Event)] else []).filterMap
        Sent.event? = [] := by
    split_ifs <;> rfl
  show ((if c.finishReason.isNone then [Sent.error _] else []) ++
    (StreamConverter.finish c).2.map Sent.event).filterMap _ = _
  rw [List.filterMap_append, Pump.filterMap_event, herrors, List.nil_append]

theorem events_streamResponse :
    let driven := run serde hex expose timeouts started inputs
    (streamResponse serde hex expose timeouts started inputs).events =
      driven.sent.filterMap Sent.event? ++
      if driven.ending.isSome then (StreamConverter.finish driven.pump.converter).2 else [] := by
  unfold streamResponse StreamRun.events
  generalize run serde hex expose timeouts started inputs = driven
  obtain ⟨pump, sent, ending⟩ := driven
  cases ending with
  | none => simp
  | some ending =>
    dsimp only
    rw [List.filterMap_append, events_finish]
    rfl

/-- The Anthropic stream opens with `message_start` exactly in these runs. -/
theorem opened_iff : Opened opensMessage (fun e => !opensMessage e)
      (streamResponse serde hex expose timeouts started inputs).events ↔
    opensInTime (record serde timeouts started inputs) = true := by
  obtain ⟨hfed, hending, -⟩ := run_record serde hex expose timeouts started inputs
  have hevents := events_streamResponse serde hex expose timeouts started inputs
  dsimp only at hevents
  rw [hending] at hevents
  refine opened_iff_inTime hevents ?_ ?_ ?_
  · intro hsaid
    rw [hsaid] at hfed
    have hnothing := congrArg Prod.snd hfed
    exact hnothing.symm
  · intro hsaid
    obtain ⟨chunk, chunks, hchunks⟩ := List.exists_cons_of_ne_nil hsaid
    rw [hchunks] at hfed
    have hfirst := congrArg Prod.snd hfed
    exact ⟨_, _, hfirst.symm, rfl, rfl⟩
  · intro hsaid _
    rw [hsaid] at hfed
    have hconverter : _ = (run serde hex expose timeouts started inputs).pump.converter :=
      congrArg Prod.fst hfed
    rw [← hconverter]
    exact ⟨_, _, rfl, rfl⟩

end
end Lobster.Anthropic.StreamPump

namespace Lobster.Responses.ResponsesPump
open Emitter Trace Server ResponsesConverter

def opensResponse : Event → Bool
  | .created _ => true
  | _ => false

section
variable (serde : Serde) (hex : Nat → String) (createdAt : UInt64) (model : String) (expose : Bool)
  (timeouts : StreamTimeouts) (started : Nat) (inputs : List Input)

theorem events_feedChunks_cons (chunk : Json) (chunks : List Json) : ∃ response later,
    events (forEach (feedChunk hex) (chunk :: chunks) (.new hex createdAt model expose)).2 =
      .created response :: later := by
  have hfirst := events_numbered (feedChunkEvents hex chunk) (.new hex createdAt model expose)
  unfold events at hfirst ⊢
  rw [forEach]
  show ∃ response later, List.map Frame.event (_ ++ _) = _
  rw [List.map_append]
  exact ⟨_, _, congrArg (· ++ _) hfirst⟩

theorem events_responsesStreamResponse :
    let driven := run serde hex createdAt model expose timeouts started inputs
    events
      (responsesStreamResponse serde hex createdAt model expose timeouts started inputs).events =
      events (driven.sent.filterMap Sent.event?) ++ if driven.ending.isSome then
        (finishEvents (driven.ending.bind (streamError driven.pump.converter.finishReason))
          driven.pump.converter).2
      else [] := by
  unfold responsesStreamResponse StreamRun.events events
  generalize run serde hex createdAt model expose timeouts started inputs = driven
  obtain ⟨pump, sent, ending⟩ := driven
  cases ending with
  | none => simp
  | some ending =>
    have hframes :=
      events_numbered (finishEvents (streamError pump.converter.finishReason ending)) pump.converter
    dsimp only
    rw [List.filterMap_append, Pump.filterMap_event, List.map_append]
    exact congrArg (_ ++ ·) hframes

/-- The Responses stream has `response.created` before its terminal frame exactly in these runs. -/
theorem opened_iff : Opened opensResponse Event.isTerminal
      (events
        (responsesStreamResponse serde hex createdAt model expose timeouts started inputs).events) ↔
    opensInTime (record serde timeouts started inputs) = true := by
  obtain ⟨hfed, hending, -⟩ := @run_record serde hex createdAt model expose timeouts started inputs
  have hevents :=
    events_responsesStreamResponse serde hex createdAt model expose timeouts started inputs
  dsimp only at hevents
  rw [hending] at hevents
  refine opened_iff_inTime hevents ?_ ?_ ?_
  · intro hsaid
    rw [hsaid] at hfed
    have hnothing := congrArg Prod.snd hfed
    exact congrArg events hnothing.symm
  · intro hsaid
    obtain ⟨chunk, chunks, hchunks⟩ := List.exists_cons_of_ne_nil hsaid
    rw [hchunks] at hfed
    have hsent := congrArg Prod.snd hfed
    obtain ⟨response, later, hfirst⟩ :=
      events_feedChunks_cons hex createdAt model expose chunk chunks
    exact ⟨_, later, (congrArg events hsent.symm).trans hfirst, rfl, rfl⟩
  · intro hsaid hended
    rw [hsaid] at hfed
    have hconverter :
        _ = (run serde hex createdAt model expose timeouts started inputs).pump.converter :=
      congrArg Prod.fst hfed
    obtain ⟨ending, hlast⟩ := Option.isSome_iff_exists.mp hended
    rw [← hconverter, hlast]
    cases ending <;> exact ⟨_, _, rfl, rfl⟩

end
end Lobster.Responses.ResponsesPump

namespace Lobster.Server
open Trace

section
variable (serde : Serde) (hex : String) (hexes : Nat → String) (createdAt : UInt64) (model : String)
    (expose : Bool)
  (timeouts : StreamTimeouts) (started : Nat) (inputs : List Input)

/-- Both streams of a run open properly exactly if the run goes on or a chunk has come. -/
theorem streams_open_iff :
    (Opened Anthropic.StreamPump.opensMessage (fun e => !Anthropic.StreamPump.opensMessage e)
        (Anthropic.StreamPump.streamResponse serde hex expose timeouts started inputs).events ↔
      opensInTime (Anthropic.StreamPump.record serde timeouts started inputs) = true) ∧
    (Opened Responses.ResponsesPump.opensResponse Responses.Event.isTerminal
      (Responses.ResponsesConverter.events
        (Responses.ResponsesPump.responsesStreamResponse serde hexes createdAt model expose timeouts
          started inputs).events) ↔
      opensInTime (Responses.ResponsesPump.record serde timeouts started inputs) = true) :=
  ⟨Anthropic.StreamPump.opened_iff serde hex expose timeouts started inputs,
    Responses.ResponsesPump.opened_iff serde hexes createdAt model expose timeouts started inputs⟩

/-- A run that ends at once closes a message that it has not opened. -/
theorem streams_not_open :
    ¬ ∀ (serde : Serde) (hex : String) (expose : Bool) (timeouts : StreamTimeouts) (started : Nat)
    (inputs : List Input), Opened Anthropic.StreamPump.opensMessage
      (fun e => !Anthropic.StreamPump.opensMessage e)
      (Anthropic.StreamPump.streamResponse serde hex expose timeouts started inputs).events := by
  intro h
  exact not_opened_cons (by rfl) _ (h .emptyObject "0" false ⟨0, 0, 0, 0⟩ 0 [.eof])

end
end Lobster.Server
