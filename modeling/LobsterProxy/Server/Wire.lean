import LobsterProxy.Anthropic.Pump
import LobsterProxy.Base.Sse
import LobsterProxy.Responses.Pump

/-! What the frontends write to their clients, and what a client reads of it. -/

namespace Lobster

/-- The compact rendering of a value has no line break. -/
def Serde.OneLine (serde : Serde) : Prop := ∀ v, Sse.OneLine (serde.toString v).toList

def written (texts : List String) : List UInt8 := texts.flatMap fun text => Text.toUtf8 text.toList

def carried (serde : Serde) (event : String) (data : Json) : Sse.Message :=
  ⟨event.toList, (serde.toString data).toList, []⟩

theorem read_written {α : Type} {blocks : α → List Sse.Block} {text : α → String}
    (htext : ∀ a, (text a).toList = (blocks a).flatMap Sse.Block.text)
    (hsound : ∀ a, ∀ b ∈ blocks a, b.Sound) (as : List α) :
    Sse.read (written (as.map text)) = as.flatMap fun a =>
      (blocks a).filterMap Sse.Block.message? := by
  have hbytes :
      written (as.map text) = Text.toUtf8 ((as.flatMap blocks).flatMap Sse.Block.text) := by
    unfold written Text.toUtf8
    rw [List.flatMap_map, List.flatMap_assoc, List.flatMap_assoc]
    refine congrArg (fun f => as.flatMap f) (funext fun a => ?_)
    rw [htext, List.flatMap_assoc]
  rw [hbytes, Sse.read_blocks, List.filterMap_flatMap]
  intro b hb
  obtain ⟨a, -, hb⟩ := List.mem_flatMap.mp hb
  exact hsound a b hb

end Lobster

namespace Lobster.Anthropic
open Server

section
variable (serde : Serde)

def pingData : Json := .obj [("type", .str "ping")]

def ssePing : String := sseEvent serde "ping" pingData

def errorData (kind message : String) : Json :=
  .obj [("type", .str "error"), ("error", .obj [("type", .str kind), ("message", .str message)])]

def sseError (kind message : String) : String := sseEvent serde "error" (errorData kind message)

def sentText : Sent Event → String
  | .ping => ssePing serde
  | .event e => sseEvent serde e.name e.data
  | .error message => sseError serde "api_error" message

def sentMessage : Sent Event → Sse.Message
  | .ping => carried serde "ping" pingData
  | .event e => carried serde e.name e.data
  | .error message => carried serde "error" (errorData "api_error" message)

def sentBlock (sent : Sent Event) : Sse.Block :=
  .event (some (sentMessage serde sent).event) (sentMessage serde sent).data

variable {serde}

theorem toList_sseEvent (event : String) (data : Json) : (sseEvent serde event data).toList =
    (Sse.Block.event (some event.toList) (serde.toString data).toList).text := by
  unfold sseEvent
  simp [Sse.Block.text, Sse.Block.lines, toString]

theorem sound_event {event : String} (hevent : event ≠ "") (hline : Sse.OneLine event.toList)
    (h : serde.OneLine)
    (data : Json) : (Sse.Block.event (some event.toList) (serde.toString data).toList).Sound := by
  refine ⟨fun name hname => ?_, h data⟩
  obtain rfl : event.toList = name := Option.some.inj hname
  exact ⟨fun hnil => hevent (String.toList_eq_nil_iff.mp hnil), hline⟩

/-- An Anthropic client reads just what it was sent, pings and errors included. -/
theorem read_sent (h : serde.OneLine) (sent : List (Sent Event)) :
    Sse.read (written (sent.map (sentText serde))) = sent.map (sentMessage serde) := by
  have htext (s : Sent Event) : (sentText serde s).toList =
      [sentBlock serde s].flatMap Sse.Block.text := by
    rw [List.flatMap_singleton]
    cases s with
    | ping => exact toList_sseEvent _ _
    | event e => exact toList_sseEvent _ _
    | error message => exact toList_sseEvent _ _
  have hsound (s : Sent Event) : (sentBlock serde s).Sound := by
    cases s with
    | ping => exact sound_event (by decide) (by decide) h _
    | error message => exact sound_event (by decide) (by decide) h _
    | event e =>
      have hname : e.name ≠ "" ∧ Sse.OneLine e.name.toList := by
        cases e <;> simp only [Event.name] <;> decide
      exact sound_event hname.1 hname.2 h _
  have hmessage (s : Sent Event) : [sentBlock serde s].filterMap Sse.Block.message? =
      [sentMessage serde s] := by
    cases s <;> rfl
  rw [read_written htext fun s => List.forall_mem_singleton.mpr (hsound s), List.map_eq_flatMap]
  simp only [hmessage]

end
end Lobster.Anthropic

namespace Lobster.Responses
open Server

section
variable (serde : Serde)

def ssePing : String := ": ping\n\n"

def sentText : Sent Frame → String
  | .ping => ssePing
  | .event frame => sseEvent serde frame.json
  -- this frontend sends its failures as frames
  | .error _ => ""

def sentBlocks : Sent Frame → List Sse.Block
  | .ping => [.comment " ping".toList]
  | .event frame => [.event none (serde.toString frame.json).toList]
  | .error _ => []

variable {serde}

theorem toList_sseEvent (data : Json) :
    (sseEvent serde data).toList = (Sse.Block.event none (serde.toString data).toList).text := by
  unfold sseEvent
  simp [Sse.Block.text, Sse.Block.lines, toString]

theorem sound_frame (h : serde.OneLine) (data : Json) :
    (Sse.Block.event none (serde.toString data).toList).Sound := by
  refine ⟨?_, h data⟩
  intro name hname
  cases hname

/-- A Responses client reads just the frames it was sent; the pings are passed over. -/
theorem read_sent (h : serde.OneLine) (sent : List (Sent Frame)) :
    Sse.read (written (sent.map (sentText serde))) =
      (sent.filterMap Sent.event?).map fun frame => carried serde "message" frame.json := by
  have htext (s : Sent Frame) : (sentText serde s).toList =
      (sentBlocks serde s).flatMap Sse.Block.text := by
    cases s with
    | ping => simp [sentText, ssePing, sentBlocks, Sse.Block.text, Sse.Block.lines]
    | event frame =>
      rw [sentBlocks, List.flatMap_singleton]
      exact toList_sseEvent _
    | error message => rfl
  have hsound (s : Sent Frame) : ∀ b ∈ sentBlocks serde s, b.Sound := by
    cases s with
    | ping => exact List.forall_mem_singleton.mpr (by show Sse.OneLine " ping".toList; decide)
    | event frame => exact List.forall_mem_singleton.mpr (sound_frame h frame.json)
    | error message => exact List.forall_mem_nil _
  rw [read_written htext hsound]
  induction sent with
  | nil => rfl
  | cons s sent ih =>
    rw [List.flatMap_cons, ih]
    cases s <;> rfl

end
end Lobster.Responses

namespace Lobster.Server

/-- Whatever text the payloads hold, both streams are read as they were sent. -/
theorem streams_read_back {serde : Serde} (h : serde.OneLine) :
    (∀ stream : StreamRun Anthropic.Event,
      Sse.read (written (stream.sent.map (Anthropic.sentText serde))) =
        stream.sent.map (Anthropic.sentMessage serde)) ∧
    (∀ stream : StreamRun Responses.Frame,
      Sse.read (written (stream.sent.map (Responses.sentText serde))) =
        (stream.sent.filterMap Sent.event?).map fun frame => carried serde "message" frame.json) :=
  ⟨fun stream => Anthropic.read_sent h stream.sent, fun stream => Responses.read_sent h stream.sent⟩

def forgedDelta : Anthropic.Event := .contentBlockDelta 0 (.text "a\n\ndata: b")

def forgedText : String :=
  "\x7b\"type\":\"content_block_delta\",\"index\":0,\"delta\":" ++
    "\x7b\"type\":\"text_delta\",\"text\":\"a\\n\\ndata: b\"\x7d\x7d"

def forgedFrame : Responses.Frame := ⟨.argumentsDelta "fc_1" 0 "a\n\nevent: b", 7⟩

def forgedFrameText : String :=
  "\x7b\"type\":\"response.function_call_arguments.delta\",\"item_id\":\"fc_1\"," ++
    "\"output_index\":0,\"delta\":\"a\\n\\nevent: b\",\"sequence_number\":7\x7d"

/-- Answers as the real serializer does on the payloads of both. -/
def forgedSerde : Serde where
  toString v := if v = forgedDelta.data then forgedText else forgedFrameText
  fromSlice _ := some forgedDelta.data
  fromStr _ := some forgedDelta.data

theorem streams_read_back_forged :
    Sse.read (written ([.event forgedDelta].map (Anthropic.sentText forgedSerde))) =
        [carried forgedSerde "content_block_delta" forgedDelta.data] ∧
      Sse.read (written ([.ping, .event forgedFrame].map (Responses.sentText forgedSerde))) =
        [carried forgedSerde "message" forgedFrame.json] := by
  have hline : forgedSerde.OneLine := by
    intro v
    show Sse.OneLine (if v = forgedDelta.data then forgedText else forgedFrameText).toList
    split_ifs <;> decide +kernel
  obtain ⟨hanthropic, hresponses⟩ := streams_read_back hline
  exact ⟨hanthropic ⟨[.event forgedDelta], none, none⟩,
    hresponses ⟨[.ping, .event forgedFrame], none, none⟩⟩

end Lobster.Server
