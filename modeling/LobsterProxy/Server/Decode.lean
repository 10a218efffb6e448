import LobsterProxy.Server.Pump

/-! What the byte loops hand to a converter, against the decoding of the whole input. -/

namespace Lobster.Server
open Emitter

section Decoding
variable (serde : Serde)

/-- The values of the `data:` lines before `[DONE]`, without the lines that are oversized and
the payloads that do not parse. -/
def decodeLines : List (List UInt8) → List Json
  | [] => []
  | line :: rest =>
    let line := trimAscii line
    if line.isEmpty ∨ maxSseLineBytes < line.length then decodeLines rest
    else
      match stripPrefix (ascii "data:") line with
      | none => decodeLines rest
      | some payload =>
        if trimAscii payload = ascii "[DONE]" then []
        else
          match serde.fromSlice (trimAscii payload) with
          | none => decodeLines rest
          | some value => value :: decodeLines rest

def endedLines (bytes : List UInt8) : List (List UInt8) := (bytes.splitOn 10).dropLast

def noteLine : LineStep UInt8 Unit Json := fun line _ =>
  match readLine serde line with
  | .skipped => (((), []), false)
  | .noChunk => (((), []), false)
  | .done => (((), []), true)
  | .chunk value => (((), [value]), false)

theorem decodeLines_cons (line : List UInt8) (rest : List (List UInt8)) :
    decodeLines serde (line :: rest) =
      match readLine serde line with
      | .skipped => decodeLines serde rest
      | .noChunk => decodeLines serde rest
      | .done => []
      | .chunk value => value :: decodeLines serde rest := by
  rw [decodeLines]
  unfold readLine
  dsimp only
  by_cases hempty : (trimAscii line).isEmpty = true
  · rw [if_pos (.inl hempty), if_pos hempty]
  rw [if_neg hempty]
  by_cases hlong : maxSseLineBytes < (trimAscii line).length
  · rw [if_pos (.inr hlong), if_pos hlong]
  rw [if_neg (not_or.mpr ⟨hempty, hlong⟩), if_neg hlong]
  cases stripPrefix (ascii "data:") (trimAscii line) with
  | none => rfl
  | some payload =>
    dsimp only
    by_cases hdone : trimAscii payload = ascii "[DONE]"
    · rw [if_pos hdone, if_pos hdone]
    rw [if_neg hdone, if_neg hdone]
    cases serde.fromSlice (trimAscii payload) <;> rfl

theorem through_noteLine (lines : List (List UInt8)) :
    (Lines.through (noteLine serde) lines ()).1.2 = decodeLines serde lines := by
  induction lines with
  | nil => rfl
  | cons line rest ih =>
    rw [decodeLines_cons, Lines.through, ← ih]
    unfold noteLine
    cases readLine serde line <;> rfl

/-- However the input is cut, what is noted is the decoding of its ended lines. -/
theorem feed_noteLine {β : Type} (chunks : List (β × List UInt8)) :
    (Lines.feed 10 (fun _ s => s) (fun _ => noteLine serde) [] chunks ()).out =
      decodeLines serde (endedLines (chunks.flatMap Prod.snd)) := by
  obtain ⟨-, hout, -⟩ :=
    @Lines.feed_eq_drain _ _ _ _ β 10 (noteLine serde) [] List.not_mem_nil chunks ()
  have hlines := @Lines.drain_eq_through _ _ _ _ 10 (noteLine serde) [] (chunks.flatMap Prod.snd) ()
  rw [hout, ← through_noteLine]
  exact congrArg (fun taken => taken.1.2) hlines

/-- A step that keeps in its state what the notes put out. -/
def Notes {σ ε : Type} (handed : σ → List Json) (step : LineStep UInt8 σ ε) : Prop :=
  ∀ line s, handed (step line s).1.1 = handed s ++ (noteLine serde line ()).1.2 ∧
    (step line s).2 = (noteLine serde line ()).2

def Holds {σ ε : Type} (handed : σ → List Json) (s : σ) (_ : List ε) (_ : Unit)
    (noted : List Json) :
    Prop := handed s = noted

variable {serde} {σ ε : Type} {handed : σ → List Json}

theorem Notes.inStep {step : LineStep UInt8 σ ε} (h : Notes serde handed step) :
    Lines.InStep (Holds handed) step (noteLine serde) := by
  intro line s out t noted hs
  obtain ⟨hhanded, hstop⟩ := h line s
  exact ⟨hhanded.trans (congrArg (· ++ _) hs), hstop⟩

/-- A byte loop that begins with an empty buffer hands on the decoding of the ended lines. -/
theorem handed_feed {β : Type} {touch : β → σ → σ} {step : β → LineStep UInt8 σ ε}
    (htouch : ∀ b s, handed (touch b s) = handed s) (h : ∀ b, Notes serde handed (step b))
    (chunks : List (β × List UInt8)) {s : σ} (hs : handed s = []) :
    handed (Lines.feed 10 touch step [] chunks s).state =
      decodeLines serde (endedLines (chunks.flatMap Prod.snd)) := by
  have htouch' (b : β) (s : σ) (out : List ε) (t : Unit) (noted : List Json)
      (hs : Holds handed s out t noted) : Holds handed (touch b s) out t noted :=
        (htouch b s).trans hs
  have hstart : Holds handed s ([] : List ε) () [] := hs
  obtain ⟨hfed, -⟩ := Lines.feed_inStep htouch' (fun b => (h b).inStep) 10 [] chunks hstart
  rw [← feed_noteLine]
  exact hfed

end Decoding

section Chunks
variable {σ ε : Type} {frontend : Frontend σ ε} {serde : Serde}

def Frontend.logged (frontend : Frontend σ ε) : Frontend (σ × List Json) ε where
  feedChunk chunk := fun s =>
    let fed := frontend.feedChunk chunk s.1
    ((fed.1, s.2 ++ [chunk]), fed.2)
  semantic chunk := fun s => frontend.semantic chunk s.1

/-- `on_bytes` on one chunk after another, until it says that the stream is complete. -/
def Pump.onChunks (frontend : Frontend σ ε) (serde : Serde) :
    List (Nat × List UInt8) → Pump σ → Pump σ × List ε
  | [], pump => (pump, [])
  | (now, bytes) :: rest, pump =>
    let fed := onBytes frontend serde now bytes pump
    if fed.2 then fed.1
    else
      let later := onChunks frontend serde rest fed.1.1
      (later.1, fed.1.2 ++ later.2)

theorem notes_onLine (frontend : Frontend σ ε) (serde : Serde) (now : Nat) :
    Notes serde (fun pump => pump.converter.2) (Pump.onLine frontend.logged serde now) := by
  intro line pump
  unfold Pump.onLine noteLine
  cases readLine serde line with
  | chunk chunk => exact ⟨rfl, rfl⟩
  | _ => exact ⟨(List.append_nil _).symm, rfl⟩

theorem handed_onChunks (chunks : List (Nat × List UInt8)) (pump : Pump (σ × List Json)) :
    (Pump.onChunks frontend.logged serde chunks pump).1.converter.2 = pump.converter.2 ++
      (Lines.feed 10 (fun _ s => s) (fun _ => noteLine serde) pump.buffer chunks ()).out := by
  induction chunks generalizing pump with
  | nil => exact (List.append_nil _).symm
  | cons chunk rest ih =>
    have hstart : Holds (fun pump => pump.converter.2) pump ([] : List ε) () pump.converter.2 := rfl
    obtain ⟨hnoted, hstop, hleft⟩ :=
      Lines.drain_inStep (notes_onLine frontend serde chunk.1).inStep 10
      (pump.buffer ++ chunk.2) [] hstart
    unfold Holds at hnoted
    simp only [Pump.onChunks, Pump.onBytes, Lines.feed, hstop]
    by_cases hdone : (Lines.drain 10 (noteLine serde) [] (pump.buffer ++ chunk.2) ()).stopped = true
    · simp only [if_pos hdone, hnoted]
    · simp only [if_neg hdone, ih, hnoted, hleft, List.append_assoc]

end Chunks

end Lobster.Server
