import LobsterProxy.Anthropic.Pump

/-! Lines beyond the limit: they are passed over, and whether the run then fails depends
on what the rest of the stream says. -/

namespace Lobster.Lines
variable {α σ ε : Type} [DecidableEq α] {newline : α} {step : LineStep α σ ε}
    {line rest : List α} {s : σ}

/-- The step that puts out the lines that it takes. -/
def taking (step : LineStep α σ ε) : LineStep α σ (List α) := fun line s =>
  let taken := step line s
  ((taken.1.1, [line]), taken.2)

theorem drain_line (hline : newline ∉ line) : drain newline step [] (line ++ newline :: rest) s =
    if (step line s).2 then ⟨(step line s).1.1, (step line s).1.2, true, rest⟩
    else
      let drained := drain newline step [] rest (step line s).1.1
      { drained with out := (step line s).1.2 ++ drained.out } := by
  rw [drain_reread hline, List.nil_append, drain, if_pos rfl]

end Lobster.Lines

namespace Lobster.Server
open Chat

def Oversized (line : List UInt8) : Prop :=
  ascii "data:" <+: trimAscii line ∧ maxSseLineBytes < (trimAscii line).length

namespace Pump
variable {σ ε : Type} (frontend : Frontend σ ε) (serde : Serde)

/-- The complete lines that the loop takes before its exit. -/
def linesTaken : List Input → Pump σ → List (List UInt8)
  | [], _ => []
  | .ping :: rest, pump => linesTaken rest pump
  | .wake now :: rest, pump =>
    if now < pump.watch.nextDeadline then linesTaken rest pump
    else if (pump.watch.check now).isSome then [] else linesTaken rest pump
  | .bytes now bytes :: rest, pump =>
    let heard := { pump with watch := pump.watch.onUpstreamBytes now }
    let taken :=
      Lines.drain 10 (Lines.taking (onLine frontend serde now)) [] (heard.buffer ++ bytes) heard
    taken.out ++ if taken.stopped then
      [] else linesTaken rest { taken.state with buffer := taken.buffer }
  | .eof :: _, _ => []
  | .transportError _ :: _, _ => []

section Passing
variable {frontend : Frontend σ ε} {serde : Serde} {line : List UInt8} {pump : Pump σ} {now : Nat}

theorem readLine_oversized (h : Oversized line) : readLine serde line = .skipped := by
  unfold readLine
  dsimp only
  split_ifs with hempty
  · rfl
  · rfl
  · exact absurd h.2 ‹_›

theorem onBytes_oversized (h : Oversized line) (hline : 10 ∉ line) (hbuffer : pump.buffer = [])
    (rest : List UInt8) :
    onBytes frontend serde now (line ++ 10 :: rest) pump =
      onBytes frontend serde now rest pump := by
  have hstep : onLine frontend serde now line pump = ((pump, []), false) := by
    unfold onLine
    rw [readLine_oversized h]
  unfold onBytes
  rw [hbuffer, List.nil_append, List.nil_append, Lines.drain_line hline, hstep]
  rfl

theorem drive_oversized (h : Oversized line) (hline : 10 ∉ line) (hbuffer : pump.buffer = [])
    (rest : List UInt8) (inputs : List Input) :
    drive frontend serde (.bytes now (line ++ 10 :: rest) :: inputs) pump =
      drive frontend serde (.bytes now rest :: inputs) pump := by
  have hheard : ({ pump with watch := pump.watch.onUpstreamBytes now } : Pump σ).buffer = [] :=
    hbuffer
  simp only [drive, onBytes_oversized h hline hheard]

theorem mem_linesTaken (hline : 10 ∉ line) (hbuffer : pump.buffer = []) (rest : List UInt8)
    (inputs : List Input) :
    line ∈ linesTaken frontend serde (.bytes now (line ++ 10 :: rest) :: inputs) pump := by
  unfold linesTaken
  simp only [hbuffer, List.nil_append, Lines.drain_line hline]
  apply List.mem_append_left
  split_ifs <;> simp [Lines.taking]

end Passing

end Pump
end Lobster.Server

namespace Lobster.Anthropic
open Chat Emitter Server

namespace StreamPump

section Oversized
variable (serde : Serde) (hex : String) (expose : Bool) (timeouts : StreamTimeouts) (started : Nat)
  (inputs : List Input)

def Discards : Prop :=
  ∃ line ∈ Pump.linesTaken (Pump.recorder progress) serde inputs (.new () timeouts started),
  Oversized line

/-- The client of the stream gets an error event, and the aggregation is an error. -/
def Fails : Prop :=
  (streamResponse serde hex expose timeouts started inputs).sendsError = true ∧
    (aggregateResponse serde hex expose timeouts started inputs).fails = true

/-- A run that has ended after a discarded line fails on both paths exactly when it has
said no finish reason, before that line or after it, and has not ended by `[DONE]`. -/
theorem discards_fails_iff :
    let said := record serde timeouts started inputs
    (said.ending.isSome → Discards serde timeouts started inputs →
      Fails serde hex expose timeouts started inputs) ↔
      (said.ending.isSome → Discards serde timeouts started inputs →
        Pump.finishSaid said = none ∧ said.ending ≠ some .done) := by
  obtain ⟨hsends, -⟩ := streamResponse_errors serde hex expose timeouts started inputs
  have hfails := aggregateResponse_fails serde hex expose timeouts started inputs
  dsimp only at hsends hfails ⊢
  unfold Fails
  rw [hsends, hfails]
  apply imp_congr_right
  intro hended
  apply imp_congr_right
  intro _
  obtain ⟨ending, hending⟩ := Option.isSome_iff_exists.mp hended
  rw [hending]
  rcases Pump.finishSaid (record serde timeouts started inputs) with _ | reason
  · cases ending <;> simp [exitError]
  · simp

end Oversized

section Stopped
variable (n : Nat)

def wideLine (n : Nat) : List UInt8 := ascii "data:" ++ List.replicate (n + 1) 120

theorem newline_not_mem_wideLine : 10 ∉ wideLine n := by
  unfold wideLine
  rw [List.mem_append, not_or]
  refine ⟨by decide, ?_⟩
  intro hmem
  exact absurd (List.eq_of_mem_replicate hmem) (by decide)

theorem trimAscii_wideLine : trimAscii (wideLine n) = wideLine n := by
  have hlast : isBlank 120 = false := by decide
  have hwide : wideLine n = ascii "data:" ++ List.replicate n 120 ++ [120] := by
    unfold wideLine
    rw [List.replicate_succ', List.append_assoc]
  have hfirst : (wideLine n).dropWhile isBlank = wideLine n := by
    apply List.dropWhile_cons_of_neg
    decide
  unfold trimAscii
  rw [hfirst, hwide, List.rdropWhile_concat_neg _ _ _ (by simp [hlast])]

theorem oversized_wideLine : Oversized (wideLine maxSseLineBytes) := by
  unfold Oversized
  rw [trimAscii_wideLine]
  refine ⟨List.prefix_append _ _, ?_⟩
  unfold wideLine
  rw [List.length_append, List.length_replicate]
  omega

/-- Reads every event as a chunk that says the finish reason. -/
def stopSerde : Serde where
  toString _ := "\x7b\x7d"
  fromSlice _ := some (.obj [("choices", .arr [.obj [("finish_reason", .str "stop")]])])
  fromStr _ := none

def stopAfter (line : List UInt8) : List Input :=
  [.bytes 0
    (line ++ 10 :: (ascii "data: \x7b\"choices\":[\x7b\"finish_reason\":\"stop\"\x7d]\x7d" ++
    10 :: (ascii "data: [DONE]" ++ [10])))]

theorem stopAfter_succeeds {line : List UInt8} (h : Oversized line) (hline : 10 ∉ line) :
    Discards stopSerde ⟨0, 0, 0, 0⟩ 0 (stopAfter line) ∧
      (record stopSerde ⟨0, 0, 0, 0⟩ 0 (stopAfter line)).ending = some .done ∧
      (streamResponse stopSerde "0" false ⟨0, 0, 0, 0⟩ 0 (stopAfter line)).sendsError = false ∧
      (aggregateResponse stopSerde "0" false ⟨0, 0, 0, 0⟩ 0 (stopAfter line)).fails = false := by
  refine ⟨⟨line, Pump.mem_linesTaken hline rfl _ _, h⟩, ?_, ?_, ?_⟩
  · unfold record stopAfter
    rw [Pump.drive_oversized h hline rfl]
    decide
  · unfold streamResponse run stopAfter
    rw [Pump.drive_oversized h hline rfl]
    decide
  · unfold aggregateResponse run stopAfter
    rw [Pump.drive_oversized h hline rfl]
    decide

/-- A stream that passes over a line and then stops as if it were whole. -/
theorem discards_not_fails :
    Discards stopSerde ⟨0, 0, 0, 0⟩ 0 (stopAfter (wideLine maxSseLineBytes)) ∧
      (record stopSerde ⟨0, 0, 0, 0⟩ 0 (stopAfter (wideLine maxSseLineBytes))).ending = some .done ∧
      (streamResponse stopSerde "0" false ⟨0, 0, 0, 0⟩ 0
        (stopAfter (wideLine maxSseLineBytes))).sendsError = false ∧
      (aggregateResponse stopSerde "0" false ⟨0, 0, 0, 0⟩ 0
        (stopAfter (wideLine maxSseLineBytes))).fails = false :=
  stopAfter_succeeds oversized_wideLine (newline_not_mem_wideLine _)

end Stopped

end StreamPump
end Lobster.Anthropic
