import LobsterProxy.Base.Emitter
import LobsterProxy.Base.Json
import LobsterProxy.Base.Lines
import LobsterProxy.Chat.Chunk
import LobsterProxy.Server.Error
import LobsterProxy.Server.Watch
import Mathlib.Data.List.DropRight

/-! The pump loop that both frontends run over the upstream bytes, for any stream
converter: lines, the watchdog and what ends a run. -/

namespace Lobster.Server
open Chat Emitter

/-- What the loop needs of a stream converter. -/
structure Frontend (σ ε : Type) where
  feedChunk : Json → Emitter σ ε
  /-- Whether the chunk is semantic progress for the converter before it. -/
  semantic : Json → σ → Bool

/-- What one turn of the loop receives. The clock is read once a turn. -/
inductive Input where
  | ping
  | wake (now : Nat)
  | bytes (now : Nat) (bytes : List UInt8)
  | eof
  | transportError (err : String)

inductive Ending where
  | done
  | eof
  | transportError (err : String)
  | stall (kind : StallKind)
  deriving DecidableEq, Repr

inductive Sent (ε : Type) where
  | ping
  | event (e : ε)
  | error (message : String)
  deriving DecidableEq, Repr

def Sent.event? {ε : Type} : Sent ε → Option ε
  | event e => some e
  | _ => none

structure Pump (σ : Type) where
  converter : σ
  watch : StreamWatch
  buffer : List UInt8

def ascii (s : String) : List UInt8 := s.toList.map fun c => UInt8.ofNat c.toNat

def isBlank (b : UInt8) : Bool := b = 32 || b = 9 || b = 13

def trimAscii (bytes : List UInt8) : List UInt8 := (bytes.dropWhile isBlank).rdropWhile isBlank

def stripPrefix (lead bytes : List UInt8) : Option (List UInt8) :=
  if lead.isPrefixOf bytes then some (bytes.drop lead.length) else none

def maxSseLineBytes : Nat := 8 * 1024 * 1024

inductive SseLine where
  | skipped
  | noChunk
  | done
  | chunk (chunk : Json)

/-- Blank and oversized lines are skipped; what is no `data:` line or does not parse
still counts as an event. -/
def readLine (serde : Serde) (line : List UInt8) : SseLine :=
  let line := trimAscii line
  if line.isEmpty then .skipped
  else if line.length > maxSseLineBytes then .skipped
  else
    match stripPrefix (ascii "data:") line with
    | none => .noChunk
    | some payload =>
      let payload := trimAscii payload
      if payload = ascii "[DONE]" then .done
      else
        match serde.fromSlice payload with
        | none => .noChunk
        | some chunk => .chunk chunk

/-- What the end of a run does to the session's reasoning in the shadow store. -/
inductive ShadowUpdate where
  | store (toolIds : List String) (reasoning : String)
  | clear
  deriving DecidableEq, Repr

/-- The turn's reasoning is kept while the tool loop continues and dropped when the
turn ended with a final answer. -/
def shadowUpdate (finishReason : Option String) (toolIds : List String) (reasoning : String) :
    Option ShadowUpdate :=
  match finishReason with
  | some "tool_calls" => some (.store toolIds reasoning)
  | some _ => some .clear
  | none => none

/-- A stall answers 504, every other failure 502. -/
def exitStatus : Ending → Nat
  | .stall _ => 504
  | _ => 502

def endedUnexpectedly : String := "upstream stream ended unexpectedly"

def transportMessage (err : String) : String := s!"upstream stream error: {err}"

/-- What the streaming path has sent, the error it hands to the request summary once it
has ended (`record_error` counts exactly these) and its shadow update. -/
structure StreamRun (ε : Type) where
  sent : List (Sent ε)
  terminal : Option (Option String)
  shadow : Option ShadowUpdate

def Sent.isError {ε : Type} : Sent ε → Bool
  | error _ => true
  | _ => false

def StreamRun.sendsError {ε : Type} (run : StreamRun ε) : Bool := run.sent.any Sent.isError

def StreamRun.recordsError {ε : Type} (run : StreamRun ε) : Bool := run.terminal.any Option.isSome

/-- The answer of the non-streaming path, if it has come to one, and its shadow update. -/
structure AggregateRun (α : Type) where
  answer : Option (Except ApiError α)
  shadow : Option ShadowUpdate

def AggregateRun.answered? {α : Type} (run : AggregateRun α) : Option α :=
  match run.answer with
  | some (.ok answer) => some answer
  | _ => none

def AggregateRun.fails {α : Type} (run : AggregateRun α) : Bool :=
  match run.answer with
  | some (.error _) => true
  | _ => false

namespace Pump
variable {σ ε : Type}

def new (converter : σ) (timeouts : StreamTimeouts) (now : Nat) : Pump σ :=
  ⟨converter, .new timeouts now, []⟩

section Loop
variable (frontend : Frontend σ ε) (serde : Serde)

def onLine (now : Nat) : LineStep UInt8 (Pump σ) ε := fun line pump =>
  let heard := { pump with watch := pump.watch.onSseEvent }
  match readLine serde line with
  | .skipped => ((pump, []), false)
  | .noChunk => ((heard, []), false)
  | .done => ((heard, []), true)
  | .chunk chunk =>
    let fed := frontend.feedChunk chunk pump.converter
    let watch :=
      if frontend.semantic chunk pump.converter then heard.watch.onSemantic now else heard.watch
    (({ heard with converter := fed.1, watch := watch }, fed.2), false)

def onBytes (now : Nat) (bytes : List UInt8) (pump : Pump σ) : (Pump σ × List ε) × Bool :=
  let drained := Lines.drain 10 (onLine frontend serde now) [] (pump.buffer ++ bytes) pump
  (({ drained.state with buffer := drained.buffer }, drained.out), drained.stopped)

/-- How far a run has come: no ending means that the loop still waits. -/
structure Driven (σ ε : Type) where
  pump : Pump σ
  sent : List (Sent ε)
  ending : Option Ending

def Driven.after (sent : List (Sent ε)) (driven : Driven σ ε) : Driven σ ε :=
  { driven with sent := sent ++ driven.sent }

def drive : List Input → Pump σ → Driven σ ε
  | [], pump => ⟨pump, [], none⟩
  | .ping :: rest, pump => (drive rest pump).after [.ping]
  | .wake now :: rest, pump =>
    -- the sleep does not end before the deadline
    if now < pump.watch.nextDeadline then drive rest pump
    else
      match pump.watch.check now with
      | some stall => ⟨pump, [], some (.stall stall)⟩
      | none => drive rest pump
  | .bytes now bytes :: rest, pump =>
    let fed :=
      onBytes frontend serde now bytes { pump with watch := pump.watch.onUpstreamBytes now }
    let sent := fed.1.2.map Sent.event
    if fed.2 then ⟨fed.1.1, sent, some .done⟩ else (drive rest fed.1.1).after sent
  | .eof :: _, pump => ⟨pump, [], some .eof⟩
  | .transportError err :: _, pump => ⟨pump, [], some (.transportError err)⟩

def recorder (semantic : Json → Bool) : Frontend Unit Json where
  feedChunk chunk := fun s => (s, [chunk])
  semantic chunk := fun _ => semantic chunk

/-- What a run of inputs says: the chunks up to its ending. -/
def said (driven : Driven Unit Json) : List Json := driven.sent.filterMap Sent.event?

def finishSaid (record : Driven Unit Json) : Option String :=
  lastFinish ((said record).flatMap chunkDeltas)

end Loop

theorem drive_sends_no_error (frontend : Frontend σ ε) (serde : Serde) (inputs : List Input)
    (pump : Pump σ) : (drive frontend serde inputs pump).sent.any Sent.isError = false := by
  have hevents (out : List ε) : (out.map Sent.event).any Sent.isError = false := by
    rw [List.any_map]
    exact List.any_eq_false.mpr fun e _ => Bool.false_ne_true
  induction inputs generalizing pump with
  | nil => rfl
  | cons input rest ih =>
    cases input with
    | ping => exact ih pump
    | wake now =>
      simp only [drive]
      split_ifs
      · exact ih pump
      · cases pump.watch.check now with
        | none => exact ih pump
        | some stall => rfl
    | bytes now bytes =>
      simp only [drive]
      split_ifs
      · exact hevents _
      · simp only [Driven.after, List.any_append, hevents, Bool.false_or]
        exact ih _
    | eof => rfl
    | transportError err => rfl

section Follows
variable {frontend : Frontend σ ε} (serde : Serde) {semantic : Json → Bool} {c₀ : σ}

/-- The converter has been fed, from `c₀` on, what the recorder noted. -/
structure Follows (frontend : Frontend σ ε) (c₀ : σ) (pump : Pump σ) (out : List ε)
    (noted : Pump Unit) (chunks : List Json) : Prop where
  watch : pump.watch = noted.watch
  fed : forEach frontend.feedChunk chunks c₀ = (pump.converter, out)

/-- Along the chunks fed from `c₀`, progress depends on the chunk alone. -/
def Progresses (frontend : Frontend σ ε) (semantic : Json → Bool) (c₀ : σ) : Prop :=
  ∀ chunks chunk, frontend.semantic chunk (forEach frontend.feedChunk chunks c₀).1 = semantic chunk

theorem follows_onLine (h : Progresses frontend semantic c₀) (now : Nat) :
    Lines.InStep (Follows frontend c₀) (onLine frontend serde now)
      (onLine (recorder semantic) serde now) := by
  rintro line pump out noted chunks ⟨hwatch, hfed⟩
  unfold onLine
  cases readLine serde line with
  | skipped =>
    rw [List.append_nil, List.append_nil]
    exact ⟨⟨hwatch, hfed⟩, rfl⟩
  | noChunk =>
    rw [List.append_nil, List.append_nil]
    exact ⟨⟨congrArg StreamWatch.onSseEvent hwatch, hfed⟩, rfl⟩
  | done =>
    rw [List.append_nil, List.append_nil]
    exact ⟨⟨congrArg StreamWatch.onSseEvent hwatch, hfed⟩, rfl⟩
  | chunk chunk =>
    have hprogress : frontend.semantic chunk pump.converter = semantic chunk := by
      rw [← h chunks chunk, hfed]
    refine ⟨⟨?_, ?_⟩, rfl⟩
    · dsimp only [recorder]
      rw [hprogress, hwatch]
      rfl
    · show forEach frontend.feedChunk (chunks ++ [chunk]) c₀ = _
      rw [forEach_snoc]
      unfold andThen
      rw [hfed]

theorem follows_onBytes (h : Progresses frontend semantic c₀) (now : Nat) (bytes : List UInt8)
    {pump : Pump σ} {out : List ε} {noted : Pump Unit} {chunks : List Json}
    (hfollows : Follows frontend c₀ pump out noted chunks) (hbuffer : pump.buffer = noted.buffer) :
    let fed := onBytes frontend serde now bytes pump
    let record := onBytes (recorder semantic) serde now bytes noted
    Follows frontend c₀ fed.1.1 (out ++ fed.1.2) record.1.1 (chunks ++ record.1.2) ∧
      fed.2 = record.2 ∧ fed.1.1.buffer = record.1.1.buffer := by
  unfold onBytes
  rw [hbuffer]
  obtain ⟨hdrain, hstop, hleft⟩ := Lines.drain_inStep (follows_onLine serde h now) 10
    (noted.buffer ++ bytes) [] hfollows
  exact ⟨⟨hdrain.watch, hdrain.fed⟩, hstop, hleft⟩

theorem filterMap_event (out : List ε) : (out.map Sent.event).filterMap Sent.event? = out := by
  rw [List.filterMap_map]
  exact List.filterMap_some

/-- The loop does what the recorder notes: the converter is fed the chunks that the run
says, and both end alike. -/
theorem drive_follows (h : Progresses frontend semantic c₀) (inputs : List Input) {pump : Pump σ}
    {out : List ε} {noted : Pump Unit} {chunks : List Json}
    (hfollows : Follows frontend c₀ pump out noted chunks) (hbuffer : pump.buffer = noted.buffer) :
    let driven := drive frontend serde inputs pump
    let record := drive (recorder semantic) serde inputs noted
    Follows frontend c₀ driven.pump (out ++ driven.sent.filterMap Sent.event?) record.pump
      (chunks ++ said record) ∧ driven.ending = record.ending := by
  induction inputs generalizing pump out noted chunks with
  | nil =>
    simp only [drive, said, List.filterMap_nil, List.append_nil]
    exact ⟨hfollows, trivial⟩
  | cons input rest ih =>
    have hwatch := hfollows.watch
    cases input with
    | ping => exact ih hfollows hbuffer
    | wake now =>
      simp only [drive, ← hwatch]
      split_ifs
      · exact ih hfollows hbuffer
      · cases pump.watch.check now with
        | none => exact ih hfollows hbuffer
        | some stall =>
          simp only [said, List.filterMap_nil, List.append_nil]
          exact ⟨hfollows, trivial⟩
    | bytes now bytes =>
      have hheard : Follows frontend c₀ { pump with watch := pump.watch.onUpstreamBytes now } out
          { noted with watch := noted.watch.onUpstreamBytes now } chunks :=
        ⟨congrArg (StreamWatch.onUpstreamBytes now) hwatch, hfollows.fed⟩
      obtain ⟨hfed, hstop, hleft⟩ := follows_onBytes serde h now bytes hheard hbuffer
      simp only [drive, ← hstop]
      split_ifs
      · simp only [said, filterMap_event]
        exact ⟨hfed, trivial⟩
      · simp only [Driven.after, said, List.filterMap_append, filterMap_event, ← List.append_assoc]
        exact ih hfed hleft
    | eof =>
      simp only [drive, said, List.filterMap_nil, List.append_nil]
      exact ⟨hfollows, trivial⟩
    | transportError err =>
      simp only [drive, said, List.filterMap_nil, List.append_nil]
      exact ⟨hfollows, trivial⟩

theorem drive_record (h : Progresses frontend semantic c₀) (timeouts : StreamTimeouts)
    (started : Nat) (inputs : List Input) :
    let driven := drive frontend serde inputs (.new c₀ timeouts started)
    let record := drive (recorder semantic) serde inputs (.new () timeouts started)
    forEach frontend.feedChunk (said record) c₀ =
        (driven.pump.converter, driven.sent.filterMap Sent.event?) ∧
      driven.ending = record.ending := by
  have hstart : Follows frontend c₀ (.new c₀ timeouts started) [] (.new () timeouts started) [] :=
    ⟨rfl, rfl⟩
  obtain ⟨hfollows, hending⟩ := drive_follows serde h inputs hstart rfl
  exact ⟨hfollows.fed, hending⟩

end Follows

end Pump
end Lobster.Server
