import LobsterProxy.Responses.ByteLoops

/-! What the byte loops keep in their line buffers: the unended line of the input, however
long it is. -/

namespace Lobster.Server
open Emitter

section Stops
variable (serde : Serde)

def isDone (line : List UInt8) : Bool :=
  match readLine serde line with
  | .done => true
  | _ => false

def unendedLine (bytes : List UInt8) : List UInt8 := Lines.unended 10 bytes

def bytesOf (chunks : List (Nat × List UInt8)) : List UInt8 := chunks.flatMap Prod.snd

/-- After each chunk, unless `[DONE]` has come, what follows the last line feed is within the
bound of a line. -/
def Capped (chunks : List (Nat × List UInt8)) : Prop :=
  ∀ k < chunks.length,
  (∀ line ∈ endedLines (bytesOf (chunks.take (k + 1))), isDone serde line = false) →
    (unendedLine (bytesOf (chunks.take (k + 1)))).length ≤ maxSseLineBytes

theorem stops_noteLine (line : List UInt8) (s : Unit) :
    (noteLine serde line s).2 = isDone serde line := by
  unfold noteLine isDone
  cases readLine serde line <;> rfl

theorem through_stops (lines : List (List UInt8)) (s : Unit) :
    (Lines.through (noteLine serde) lines s).2 = lines.any (isDone serde) := by
  induction lines with
  | nil => rfl
  | cons line rest ih =>
    rw [Lines.through, List.any_cons, ← stops_noteLine serde line s]
    split_ifs with hstop
    · rw [hstop, Bool.true_or]
    · rw [Bool.eq_false_iff.mpr hstop, Bool.false_or]
      exact ih

theorem not_stopped_iff (bytes : List UInt8) :
    (Lines.drain 10 (noteLine serde) [] bytes ()).stopped = false ↔
    ∀ line ∈ endedLines bytes, isDone serde line = false := by
  have hlines := @Lines.drain_eq_through _ _ _ _ 10 (noteLine serde) [] bytes ()
  have hstop : (Lines.drain 10 (noteLine serde) [] bytes ()).stopped =
      (endedLines bytes).any (isDone serde) := by
    rw [← through_stops serde (endedLines bytes) ()]
    exact congrArg Prod.snd hlines
  rw [hstop, List.any_eq_false]
  simp

theorem noted_buffers_iff {chunks : List (Nat × List UInt8)}
    (hchunks : ∀ chunk ∈ chunks, chunk.2.length ≤ maxSseLineBytes) :
    (∀ kept ∈ Lines.buffers 10 (fun _ s => s) (fun _ => noteLine serde) [] chunks (),
      kept.length ≤ maxSseLineBytes) ↔
      Capped serde chunks := by
  have hstart : (Lines.drain 10 (noteLine serde) [] [] ()).stopped = false := rfl
  refine (Lines.buffers_le_iff hstart rfl rfl hchunks).trans ?_
  simp only [List.nil_append, not_stopped_iff]
  rfl

end Stops

section Loops
variable {σ ε : Type} {frontend : Frontend σ ε} {serde : Serde}

def Pump.buffers (frontend : Frontend σ ε) (serde : Serde) :
    List (Nat × List UInt8) → Pump σ → List (List UInt8)
  | [], _ => []
  | (now, bytes) :: rest, pump =>
    let fed := onBytes frontend serde now bytes pump
    fed.1.1.buffer :: if fed.2 then [] else buffers frontend serde rest fed.1.1

/-- Whether a line stops the loop does not depend on the converter. -/
def InTime {σ ε : Type} (_ : σ) (_ : List ε) (_ : Unit) (_ : List Json) : Prop := True

theorem onLine_inTime (frontend : Frontend σ ε) (serde : Serde) (now : Nat) :
    Lines.InStep InTime (Pump.onLine frontend serde now) (noteLine serde) := by
  intro line pump _ _ _ _
  refine ⟨trivial, ?_⟩
  unfold Pump.onLine noteLine
  cases readLine serde line <;> rfl

theorem pump_buffers (chunks : List (Nat × List UInt8)) (pump : Pump σ) :
    Pump.buffers frontend serde chunks pump =
      Lines.buffers 10 (fun _ s => s) (fun _ => noteLine serde) pump.buffer chunks () := by
  induction chunks generalizing pump with
  | nil => rfl
  | cons chunk rest ih =>
    have hstart : InTime pump ([] : List ε) () [] := trivial
    obtain ⟨-, hstop, hleft⟩ :=
      Lines.drain_inStep (onLine_inTime frontend serde chunk.1) 10 (pump.buffer ++ chunk.2)
        [] hstart
    rw [Pump.buffers, Lines.buffers, ih]
    simp only [Pump.onBytes, hstop, hleft]

theorem Notes.inTime {handed : σ → List Json} {step : LineStep UInt8 σ ε}
    (h : Notes serde handed step) :
    Lines.InStep InTime step (noteLine serde) := by
  intro line s _ t _ _
  exact ⟨trivial, (h line s).2⟩

end Loops

end Lobster.Server

namespace Lobster.Responses.ResponsesPump
open Server

def streamBuffers (serde : Serde) (hex : Nat → String) (chunks : List (Nat × List UInt8))
    (locals : Locals) :
    List (List UInt8) :=
      Lines.buffers 10 Locals.onUpstreamBytes (streamLine serde hex) [] chunks locals

def aggregateBuffers (serde : Serde) (hex : Nat → String) (chunks : List (Nat × List UInt8))
    (locals : Locals) :
    List (List UInt8) :=
      Lines.buffers 10 Locals.onUpstreamBytes (aggregateLine serde hex) [] chunks locals

theorem noted_buffers {serde : Serde} {step : Nat → LineStep UInt8 Locals Frame}
    (h : ∀ now, Notes serde Locals.handed (step now)) (chunks : List (Nat × List UInt8))
      (locals : Locals) :
    Lines.buffers 10 Locals.onUpstreamBytes step [] chunks locals =
      Lines.buffers 10 (fun _ s => s) (fun _ => noteLine serde) [] chunks () := by
  have hstart : InTime locals ([] : List Frame) () [] := trivial
  exact Lines.buffers_inStep (fun _ _ _ _ _ _ => trivial) (fun now => (h now).inTime) 10
    [] chunks hstart

/-- In each of the three loops the buffer stays within the bound of a line exactly when the
unended line of the input does. -/
theorem buffers_capped_iff (serde : Serde) (hex : Nat → String) {chunks : List (Nat × List UInt8)}
    (hchunks : ∀ chunk ∈ chunks, chunk.2.length ≤ maxSseLineBytes) (c : Anthropic.StreamConverter)
    (c' : ResponsesConverter) (watch : StreamWatch) :
    ((∀ kept ∈ Pump.buffers Anthropic.StreamPump.frontend serde chunks ⟨c, watch, []⟩,
      kept.length ≤ maxSseLineBytes) ↔
        Capped serde chunks) ∧
      ((∀ kept ∈ streamBuffers serde hex chunks ⟨c', watch, []⟩, kept.length ≤ maxSseLineBytes) ↔
        Capped serde chunks) ∧
      ((∀ kept ∈ aggregateBuffers serde hex chunks ⟨c', watch, []⟩, kept.length ≤ maxSseLineBytes) ↔
        Capped serde chunks) := by
  unfold streamBuffers aggregateBuffers
  rw [pump_buffers, noted_buffers (fun now => (notes_lines now).1),
    noted_buffers fun now => (notes_lines now).2]
  have hiff := noted_buffers_iff serde hchunks
  exact ⟨hiff, hiff, hiff⟩

theorem buffers_capped_iff_line :
    let hex (n : Nat) : String := String.ofList (List.replicate n '0')
    let chunks : List (Nat × List UInt8) :=
      [(0, ascii "data: \x7b\x7d\nda"), (1, ascii "ta: \x7b\x7d\n\nd"), (2, ascii "ata")]
    let watch : StreamWatch := .new ⟨0, 0, 0, 0⟩ 0
    ((∀ kept ∈ Pump.buffers Anthropic.StreamPump.frontend .emptyObject chunks
        ⟨.new "" false, watch, []⟩,
        kept.length ≤ maxSseLineBytes) ↔ Capped .emptyObject chunks) ∧
      ((∀ kept ∈ streamBuffers .emptyObject hex chunks ⟨.new hex 0 "m" false, watch, []⟩,
        kept.length ≤ maxSseLineBytes) ↔ Capped .emptyObject chunks) ∧
      ((∀ kept ∈ aggregateBuffers .emptyObject hex chunks ⟨.new hex 0 "m" false, watch, []⟩,
        kept.length ≤ maxSseLineBytes) ↔ Capped .emptyObject chunks) :=
  buffers_capped_iff .emptyObject _ (by decide +kernel) _ _ _

theorem buffers_unended (touch : Nat → Unit → Unit) (step : Nat → LineStep UInt8 Unit Json)
    {first second : List UInt8} (hfirst : 10 ∉ first) (hsecond : 10 ∉ second) :
    Lines.buffers 10 touch step [] [(0, first), (0, second)] () = [first, first ++ second] := by
  have hboth : 10 ∉ first ++ second := by
    rw [List.mem_append]
    exact not_or.mpr ⟨hfirst, hsecond⟩
  have hdrain {line : List UInt8} (hline : 10 ∉ line) :
      Lines.drain 10 (step 0) [] line (touch 0 ()) = ⟨touch 0 (), [], false, line⟩ := by
    have hreread := @Lines.drain_reread _ _ _ _ 10 (step 0) line hline [] [] (touch 0 ())
    rw [List.append_nil] at hreread
    exact hreread
  simp only [Lines.buffers, List.nil_append, hdrain hfirst, hdrain hboth, Bool.false_eq_true,
    if_false]

/-- A line that never ends: two chunks, each within the bound, are kept together. -/
theorem buffers_not_capped :
    ¬ ∀ (serde : Serde) (chunks : List (Nat × List UInt8)) (c : Anthropic.StreamConverter)
    (watch : StreamWatch), (∀ chunk ∈ chunks, chunk.2.length ≤ maxSseLineBytes) →
      ∀ kept ∈ Pump.buffers Anthropic.StreamPump.frontend serde chunks ⟨c, watch, []⟩,
        kept.length ≤ maxSseLineBytes := by
  intro h
  have hline (n : Nat) : (10 : UInt8) ∉ List.replicate n 97 := by
    intro hmem
    exact absurd (List.eq_of_mem_replicate hmem) (by decide)
  have hbound : 1 ≤ maxSseLineBytes := by
    unfold maxSseLineBytes
    decide
  have hbuffers :=
    h .emptyObject [(0, List.replicate maxSseLineBytes 97), (0, List.replicate 1 97)]
      (.new "" false)
    (.new ⟨0, 0, 0, 0⟩ 0) (by simpa using hbound)
  rw [pump_buffers, buffers_unended _ _ (hline maxSseLineBytes) (hline 1)] at hbuffers
  have hlong := hbuffers _ (List.mem_cons_of_mem _ (List.mem_singleton_self _))
  rw [List.length_append, List.length_replicate, List.length_replicate] at hlong
  omega

end Lobster.Responses.ResponsesPump
