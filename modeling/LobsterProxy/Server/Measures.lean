import LobsterProxy.Anthropic.Rebuild
import LobsterProxy.Anthropic.Replay
import LobsterProxy.Responses.Replay
import LobsterProxy.Server.Bookkeeping
import LobsterProxy.Server.Latency

/-! What the request summary says of a run, on each of the four paths. All of them account for
what the upstream has said and when; the Responses paths each leave something out. -/

namespace Lobster.Server
open Chat

variable {chunks : List Json}

theorem any_holds (kind : Chat.Piece → Bool) (chunks : List Json) :
    chunks.any (holds kind) = (chunks.flatMap chunkPieces).any kind := List.any_flatMap.symm

theorem ne_empty_of_mem_pieces {piece : Chat.Piece} (h : piece ∈ chunks.flatMap chunkPieces) :
    piece.reasoning? ≠ some "" ∧ piece.content? ≠ some "" := by
  obtain ⟨chunk, -, hpiece⟩ := List.mem_flatMap.mp h
  exact ne_empty_of_mem_chunkPieces hpiece

theorem reasoning_iff : chunks.any (holds Chat.Piece.isReasoning) = true ↔
    reasonings (chunks.flatMap chunkPieces) ≠ "" := by
  rw [any_holds]
  exact Anthropic.StreamConverter.any_isReasoning_iff fun _ hpiece =>
    (ne_empty_of_mem_pieces hpiece).1

theorem content_iff : chunks.any (holds Chat.Piece.isContent) = true ↔
    contents (chunks.flatMap chunkPieces) ≠ "" := by
  rw [any_holds]
  exact Anthropic.StreamConverter.any_isContent_iff fun _ hpiece =>
    (ne_empty_of_mem_pieces hpiece).2

theorem call_iff :
    chunks.any (holds Chat.Piece.isCall) = true ↔
      ∃ index, callsAt index (chunks.flatMap chunkPieces) ≠ [] := by
  rw [any_holds, List.any_eq_true]
  constructor
  · rintro ⟨piece, hpiece, hcall⟩
    cases piece with
    | call call =>
      have hat : (Chat.Piece.call call).callAt? call.index = some call := if_pos rfl
      exact ⟨call.index, List.ne_nil_of_mem (List.mem_filterMap.mpr ⟨_, hpiece, hat⟩)⟩
    | _ => cases hcall
  · rintro ⟨index, hcalled⟩
    obtain ⟨call, hcall⟩ := List.exists_mem_of_ne_nil _ hcalled
    obtain ⟨piece, hpiece, hat⟩ := List.mem_filterMap.mp hcall
    refine ⟨piece, hpiece, ?_⟩
    cases piece with
    | call fragment => rfl
    | _ => cases hat

end Lobster.Server

namespace Lobster.Anthropic.StreamPump
open Chat Emitter Server StreamConverter

def probes : Probes StreamConverter :=
  ⟨StreamConverter.hasReasoning, StreamConverter.hasText, StreamConverter.hasTools⟩

/-- What `finish` adds to the statistics, from the converter that it has closed. -/
def finishStats (requestStarted finished : Nat) (c : StreamConverter) (stats : StreamStats) :
    StreamStats :=
  let accumulated := c.accumulated
  { stats with
    durationMs := elapsedMs requestStarted finished
    finishReason := accumulated.finishReason
    inputTokens := (accumulated.usage.map Usage.input).or stats.inputTokens
    outputTokens := (accumulated.usage.map Usage.output).or stats.outputTokens
    cachedTokens := (accumulated.usage.map Usage.cached).or stats.cachedTokens
    reasoningBytes := accumulated.reasoning.utf8ByteSize
    textBytes := accumulated.text.utf8ByteSize
    toolBytes := (accumulated.toolCalls.map fun call => call.arguments.utf8ByteSize).sum }

def runStats (serde : Serde) (hex : String) (exposeThinking : Bool) (timeouts : StreamTimeouts)
    (requestStarted started finished : Nat) (inputs : List Input) : Option StreamStats :=
  let driven :=
    Metered.drive frontend (StreamStats.gauge frontend probes requestStarted) serde inputs
    ⟨.new (.new hex exposeThinking) timeouts started, .default⟩
  driven.1.ending.map fun ending =>
    let c := driven.1.pump.converter
    finishStats requestStarted finished (finish (exitError c.finishReason ending) c).1 driven.2

def tokens (usage : Json) : UInt64 × UInt64 × UInt64 :=
  let usage := mapUsage usage
  (usage.input, usage.output, usage.cached)

theorem usage_feedDelta (delta : Delta) (c : StreamConverter) :
    (feedDelta delta c).1.usage = c.usage := by
  have hclose (c : StreamConverter) : (closeThinking c).1.usage = c.usage := by
    unfold closeThinking
    split_ifs <;> rfl
  have hopen (c : StreamConverter) : (openText c).1.usage = c.usage := by
    unfold openText
    split_ifs <;> rfl
  have hslot (call : ToolCallDelta) (c : StreamConverter) :
      (feedSlot call c).1.usage = c.usage := by
    unfold feedSlot slotFor
    cases c.tools.find? call.index <;> rfl
  cases delta with
  | finish reason => rfl
  | reasoning text =>
    show (feedReasoning text c).1.usage = c.usage
    unfold feedReasoning openThinking andThen
    dsimp only
    split_ifs <;> rfl
  | content text => exact (hopen _).trans (hclose c)
  | toolCalls calls =>
    have hcall (call : ToolCallDelta) (c : StreamConverter) :
        (feedToolCall call c).1.usage = c.usage :=
      (hslot call _).trans (hclose c)
    exact forEach_frame hcall calls c

theorem usage_chunks (hex : String) (expose : Bool) (chunks : List Json) :
    (forEach feedChunk chunks (.new hex expose)).1.usage = (lastUsage chunks).map mapUsage := by
  induction chunks using List.reverseRecOn with
  | nil => rfl
  | append_singleton chunks chunk ih =>
    have hfinished := (feeding_chunks hex expose chunks).1
    rw [forEach_snoc, lastUsage_snoc, Option.map_or, ← ih]
    show (feedChunk chunk (forEach feedChunk chunks (.new hex expose)).1).1.usage = _
    generalize (forEach feedChunk chunks (.new hex expose)).1 = c at hfinished
    have hstart (c : StreamConverter) : (ensureStarted c).1.usage = c.usage := by
      unfold ensureStarted
      split_ifs <;> rfl
    unfold feedChunk
    rw [if_neg (by rw [hfinished]; exact Bool.false_ne_true)]
    exact (forEach_frame usage_feedDelta _ _).trans (hstart _)

theorem callsAt_find? {pieces : List Chat.Piece} {c : StreamConverter} {past : List Event}
    (h : Routed pieces c past) (index : Int) : (c.tools.find? index).map ToolSlot.arguments =
      if callsAt index pieces = [] then none else some (argumentsAt index pieces) := by
  have hcalled := h.called index
  unfold SortedMap.contains at hcalled
  cases hfind : c.tools.find? index with
  | none =>
    rw [hfind] at hcalled
    rw [if_pos (by simpa using hcalled)]
    rfl
  | some slot =>
    rw [hfind] at hcalled
    rw [if_neg (hcalled.mp rfl), Option.map_some, h.received index slot hfind]

theorem probed (hex : String) (expose : Bool) :
    Probed frontend probes progress (.new hex expose) where
  progresses := progresses hex expose
  pieces := by
    intro chunk piece hpiece
    obtain ⟨delta, hdelta, hpiece⟩ := List.mem_flatMap.mp hpiece
    refine List.any_eq_true.mpr ⟨delta, hdelta, decide_eq_true ?_⟩
    rintro rfl
    cases hpiece
  reasoning chunks := by
    obtain ⟨-, hspoken⟩ := steady_spoken.feedChunks (spoken_new hex expose) chunks
    have hiff : (forEach feedChunk chunks (.new hex expose)).1.hasReasoning = true ↔ _ :=
      decide_eq_true_iff
    rw [hspoken.reasonings, ← reasoning_iff] at hiff
    exact Bool.eq_iff_iff.mpr hiff
  text chunks := by
    obtain ⟨-, hspoken⟩ := steady_spoken.feedChunks (spoken_new hex expose) chunks
    have hiff : (forEach feedChunk chunks (.new hex expose)).1.hasText = true ↔ _ :=
      decide_eq_true_iff
    rw [hspoken.contents, ← content_iff] at hiff
    exact Bool.eq_iff_iff.mpr hiff
  tools chunks := by
    obtain ⟨-, hrouted⟩ := steady_routed.feedChunks (routed_new hex expose) chunks
    apply Bool.eq_iff_iff.mpr
    rw [call_iff]
    simp only [← hrouted.called]
    exact SortedMap.not_isEmpty_iff

theorem finishStats_latencies (hex : String) (expose : Bool) (error : Option String)
    (requestStarted finished : Nat) (heard : List (Nat × Json)) :
    finishStats requestStarted finished
      (finish error (forEach feedChunk (heard.map Prod.snd) (.new hex expose)).1).1
        (latencies progress requestStarted heard) =
      account progress tokens requestStarted (elapsedMs requestStarted finished) heard := by
  have hclosed :
      (finish error
        (forEach feedChunk (heard.map Prod.snd) (.new hex expose)).1).1.accumulated = _ :=
    (accumulated_finish _).1
  have husage := usage_chunks hex expose (heard.map Prod.snd)
  have hreason := (feeding_chunks hex expose (heard.map Prod.snd)).2
  obtain ⟨-, hspoken⟩ := steady_spoken.feedChunks (spoken_new hex expose) (heard.map Prod.snd)
  obtain ⟨-, hrouted⟩ := steady_routed.feedChunks (routed_new hex expose) (heard.map Prod.snd)
  have htools := weight_arguments (callsAt_find? hrouted)
  unfold finishStats
  rw [hclosed]
  unfold StreamConverter.accumulated account
  dsimp only
  rw [husage, hreason, hspoken.reasonings, hspoken.contents, List.map_map, ← htools]
  cases lastUsage (heard.map Prod.snd) <;> rfl

/-- The summary of a run is the account of what has been heard in it, on both paths. -/
theorem runStats_eq (serde : Serde) (hex : String) (expose : Bool) (timeouts : StreamTimeouts)
    (requestStarted started finished : Nat) (inputs : List Input) :
    runStats serde hex expose timeouts requestStarted started finished inputs =
      (record serde timeouts started inputs).ending.map fun _ =>
        account progress tokens requestStarted (elapsedMs requestStarted finished)
          (Metered.timeline progress serde timeouts started inputs) := by
  obtain ⟨hfed, hstats, hending⟩ :=
    drive_measures (probed hex expose) serde timeouts requestStarted started inputs
  obtain ⟨-, hrecord, -⟩ := run_record serde hex expose timeouts started inputs
  have hexit := hending.trans hrecord
  unfold runStats
  dsimp only
  rw [hexit, hfed, hstats]
  refine congrArg (Option.map · _) (funext fun ending => ?_)
  exact finishStats_latencies hex expose _ requestStarted finished _

end Lobster.Anthropic.StreamPump

namespace Lobster.Responses.ResponsesConverter
open Chat Emitter Server

def reasoningBytes (c : ResponsesConverter) : Nat :=
  (c.reasoning.map fun r => r.accum.utf8ByteSize).getD 0

def textBytes (c : ResponsesConverter) : Nat := (c.message.map fun m => m.accum.utf8ByteSize).getD 0

def toolBytes (c : ResponsesConverter) : Nat :=
  (c.tools.values.map fun slot => slot.arguments.utf8ByteSize).sum

theorem reasoningBytes_eq (c : ResponsesConverter) :
    c.reasoningBytes = c.reasoningText.utf8ByteSize := by
  unfold reasoningBytes reasoningText
  cases c.reasoning <;> rfl

theorem textBytes_eq (c : ResponsesConverter) :
    c.textBytes = ((c.message.map ItemState.accum).getD "").utf8ByteSize := by
  unfold textBytes
  cases c.message <;> rfl

section Feeding
variable {hex : Nat → String}

theorem usage_feedDelta (delta : Delta) (c : ResponsesConverter) :
    (feedDelta hex delta c).1.usage = c.usage := by
  have hclose (c : ResponsesConverter) : (closeMessageItem c).1.usage = c.usage := by
    obtain ⟨message, hstep, -⟩ := closeMessageItem_step c
    rw [hstep]
  have hadd (call : ToolCallDelta) (c : ResponsesConverter) : (addToolItem hex call c).1.usage =
      c.usage := by
    obtain ⟨slot, items, -, -, hstep, -⟩ := addToolItem_step hex c call
    rw [hstep]
  have hensure (call : ToolCallDelta) (c : ResponsesConverter) :
      (ensureToolItemAdded hex call c).1.usage = c.usage := by
    unfold ensureToolItemAdded
    split_ifs
    · rfl
    · exact (hadd call _).trans (hclose c)
    · exact hadd call c
  have hwrite (call : ToolCallDelta) (c : ResponsesConverter) :
      (feedToolCallArguments call c).1.usage = c.usage := by
    obtain ⟨tools, hstep, -⟩ := feedToolCallArguments_step c call
    rw [hstep]
  cases delta with
  | finish reason => rfl
  | reasoning text =>
    obtain ⟨state, next, items, draws, -, -, hstep, -⟩ := feedReasoning_step hex c text
    show (feedReasoning hex text c).1.usage = _
    rw [hstep]
  | content text =>
    obtain ⟨state, next, items, draws, -, -, hstep, -⟩ := feedText_step hex c text
    show (feedText hex text c).1.usage = _
    rw [hstep]
  | toolCalls calls => exact (forEach_frame hwrite calls _).trans (forEach_frame hensure calls c)

theorem usage_chunks (createdAt : UInt64) (model : String) (expose : Bool) (chunks : List Json) :
    (forEach (feedChunk hex) chunks (.new hex createdAt model expose)).1.usage =
      (lastUsage chunks).map mapUsage := by
  induction chunks using List.reverseRecOn with
  | nil => rfl
  | append_singleton chunks chunk ih =>
    rw [forEach_snoc, lastUsage_snoc, Option.map_or, ← ih]
    show (feedChunk hex chunk
      (forEach (feedChunk hex) chunks (.new hex createdAt model expose)).1).1.usage = _
    generalize (forEach (feedChunk hex) chunks (.new hex createdAt model expose)).1 = c
    have hstart (c : ResponsesConverter) : (ensureStarted c).1.usage = c.usage := by
      unfold ensureStarted
      split_ifs <;> rfl
    show (forEach (feedDelta hex) (chunkDeltas chunk)
      (noteChunk chunk (ensureStarted c).1)).1.usage = _
    rw [forEach_frame usage_feedDelta, ← hstart c]
    rfl

theorem mem_callOrder_iff (pieces : List Chat.Piece) (index : Int) :
    index ∈ callOrder pieces ↔ callsAt index pieces ≠ [] := by
  unfold callOrder callsAt
  rw [List.mem_eraseDups, List.mem_filterMap, Ne, List.filterMap_eq_nil_iff]
  push Not
  refine exists_congr fun piece => and_congr_right fun _ => ?_
  cases piece with
  | call call =>
    unfold Piece.index? Piece.callAt?
    simp
  | _ => simp [Piece.index?, Piece.callAt?]

theorem callsAt_find? {pieces : List Chat.Piece} {c : ResponsesConverter}
    (h : Accrued pieces pieces c) (index : Int) :
    (c.tools.find? index).map ToolSlot.arguments =
      if callsAt index pieces = [] then none else some (argumentsAt index pieces) := by
  rw [h.slots]
  simp only [mem_callOrder_iff, ite_not]

end Feeding

theorem textBytes_closeItems (c : ResponsesConverter) :
    (closeItems c).1.textBytes = c.textBytes := by
  obtain ⟨reasoning, hreasoning, -⟩ := closeReasoningItem_step c
  have hkept : (closeReasoningItem c).1.message = c.message := by rw [hreasoning]
  show (closeMessageItem (closeReasoningItem c).1).1.textBytes = c.textBytes
  unfold textBytes closeMessageItem
  rw [hkept]
  cases hmessage : c.message with
  | none =>
    dsimp only
    rw [hkept, hmessage]
  | some state =>
    dsimp only
    by_cases hdone : state.itemDone = true
    · rw [if_pos hdone, hkept, hmessage]
    · rw [if_neg hdone]
      rfl

theorem usage_closeItems (c : ResponsesConverter) : (closeItems c).1.usage = c.usage := by
  obtain ⟨reasoning, hreasoning, -⟩ := closeReasoningItem_step c
  obtain ⟨message, hmessage, -⟩ := closeMessageItem_step (closeReasoningItem c).1
  show (closeMessageItem (closeReasoningItem c).1).1.usage = c.usage
  rw [hmessage, hreasoning]

theorem finish_measured (error : Option String) (c : ResponsesConverter) :
    let c' := (finish error c).1
    c'.finishReason = c.finishReason ∧ c'.usage = c.usage ∧ c'.reasoningBytes = c.reasoningBytes ∧
      c'.textBytes = c.textBytes ∧ c'.toolBytes = c.toolBytes := by
  cases error with
  | some message => exact ⟨rfl, rfl, rfl, rfl, rfl⟩
  | none =>
    obtain ⟨hreason, -, hreasoning⟩ := closeItems_keeps { c with error := none }
    have htools : (closeItems { c with error := none }).1.toolBytes = c.toolBytes := by
      unfold toolBytes
      rw [tools_closeItems, SortedMap.values_mapValues, List.map_map]
      rfl
    have hthoughts : (closeItems { c with error := none }).1.reasoningBytes = c.reasoningBytes := by
      rw [reasoningBytes_eq, hreasoning, reasoningBytes_eq]
      rfl
    unfold finish numbered
    rw [finishEvents_none]
    exact ⟨hreason, usage_closeItems _, hthoughts, textBytes_closeItems _, htools⟩

end Lobster.Responses.ResponsesConverter

namespace Lobster.Responses.ResponsesPump
open Chat Emitter Server ResponsesConverter

def probes : Probes ResponsesConverter :=
  ⟨ResponsesConverter.hasReasoning, ResponsesConverter.hasText, ResponsesConverter.hasTools⟩

def finishStats (c : ResponsesConverter) (stats : StreamStats) : StreamStats :=
  { stats with
    finishReason := c.finishReason
    inputTokens := (c.usage.map Usage.input).or stats.inputTokens
    outputTokens := (c.usage.map Usage.output).or stats.outputTokens
    cachedTokens := (c.usage.map Usage.cached).or stats.cachedTokens
    textBytes := c.textBytes
    reasoningBytes := c.reasoningBytes
    toolBytes := c.toolBytes }

/-- The aggregation does not look for the first reasoning. -/
def aggregateGauge (hex : Nat → String) (requestStarted : Nat) :
    Gauge ResponsesConverter StreamStats :=
  fun now chunk before after stats =>
    if (frontend hex).semantic chunk before then
      let elapsed := elapsedMs requestStarted now
      { stats with
        ttftMs := latch true elapsed stats.ttftMs
        firstTextMs := latch after.hasText elapsed stats.firstTextMs
        firstToolMs := latch after.hasTools elapsed stats.firstToolMs }
    else stats

def copyResponsesStats (requestStarted finished : Nat) (c : ResponsesConverter)
    (stats : StreamStats) : StreamStats :=
  { finishStats c stats with durationMs := elapsedMs requestStarted finished }

section Paths
variable (serde : Serde) (hex : Nat → String) (createdAt : UInt64) (model : String)
    (exposeThinking : Bool)
  (timeouts : StreamTimeouts) (requestStarted started finished : Nat) (inputs : List Input)

def streamStats : Option StreamStats :=
  let driven :=
    Metered.drive (frontend hex) (StreamStats.gauge (frontend hex) probes requestStarted)
      serde inputs
    ⟨.new (.new hex createdAt model exposeThinking) timeouts started, .default⟩
  driven.1.ending.map fun ending =>
    let c := driven.1.pump.converter
    finishStats (finish (streamError c.finishReason ending) c).1 driven.2

/-- The summary at the end of an aggregated run. The failing exits do not finish the converter. -/
def aggregateStats : Option StreamStats :=
  let driven := Metered.drive (frontend hex) (aggregateGauge hex requestStarted) serde inputs
    ⟨.new (.new hex createdAt model exposeThinking) timeouts started, .default⟩
  driven.1.ending.map fun ending =>
    let c := driven.1.pump.converter
    match aggregateError c.finishReason ending with
    | some _ => copyResponsesStats requestStarted finished c driven.2
    | none => copyResponsesStats requestStarted finished (finish none c).1 driven.2

end Paths

def tokens (usage : Json) : UInt64 × UInt64 × UInt64 :=
  let usage := mapUsage usage
  (usage.input, usage.output, usage.cached)

section Measured
variable (hex : Nat → String) (createdAt : UInt64) (model : String) (expose : Bool)

theorem probed :
    Probed (frontend hex) probes ResponsesConverter.semantic (.new hex createdAt model expose) where
  progresses := fun _ _ => rfl
  pieces := by
    intro chunk piece hpiece
    obtain ⟨delta, hdelta, -⟩ := List.mem_flatMap.mp hpiece
    unfold ResponsesConverter.semantic
    rw [List.isEmpty_eq_false_iff.mpr (List.ne_nil_of_mem hdelta)]
    rfl
  reasoning chunks := by
    have htext := reasoningText_chunks hex createdAt model expose chunks
    apply Bool.eq_iff_iff.mpr
    rw [reasoning_iff, ← htext]
    show
      (forEach (feedChunk hex) chunks (.new hex createdAt model expose)).1.hasReasoning = true ↔ _
    unfold ResponsesConverter.hasReasoning reasoningText
    cases (forEach (feedChunk hex) chunks (.new hex createdAt model expose)).1.reasoning <;> simp
  text chunks := by
    have htext := (told_chunks hex createdAt model expose chunks).2.2.text
    apply Bool.eq_iff_iff.mpr
    rw [content_iff, ← htext]
    show (forEach (feedChunk hex) chunks (.new hex createdAt model expose)).1.hasText = true ↔ _
    unfold ResponsesConverter.hasText
    cases (forEach (feedChunk hex) chunks (.new hex createdAt model expose)).1.message <;> simp
  tools chunks := by
    have haccrued := (told_chunks hex createdAt model expose chunks).2.2
    apply Bool.eq_iff_iff.mpr
    rw [call_iff]
    have hcalled (index : Int) : callsAt index (chunks.flatMap chunkPieces) ≠ [] ↔
        (forEach (feedChunk hex) chunks
          (.new hex createdAt model expose)).1.tools.contains index = true :=
      (mem_callOrder_iff _ index).symm.trans haccrued.mem_callOrder
    simp only [hcalled]
    exact SortedMap.not_isEmpty_iff

theorem finishStats_latencies (error : Option String) (requestStarted : Nat)
    (heard : List (Nat × Json)) :
    finishStats
        (finish error
          (forEach (feedChunk hex) (heard.map Prod.snd) (.new hex createdAt model expose)).1).1
        (latencies ResponsesConverter.semantic requestStarted heard) =
      account ResponsesConverter.semantic tokens requestStarted 0 heard := by
  obtain ⟨hreason, husage, hreasoning, htext, htools⟩ := finish_measured error
    (forEach (feedChunk hex) (heard.map Prod.snd) (.new hex createdAt model expose)).1
  have haccrued := (told_chunks hex createdAt model expose (heard.map Prod.snd)).2.2
  have hweight := weight_arguments (callsAt_find? haccrued)
  unfold finishStats finish
  dsimp only at hreason husage hreasoning htext htools ⊢
  rw [hreason, husage, hreasoning, htext, htools, finishReason_chunks, usage_chunks,
    reasoningBytes_eq, textBytes_eq, reasoningText_chunks, haccrued.text]
  unfold toolBytes account
  dsimp only
  rw [hweight]
  cases lastUsage (heard.map Prod.snd) <;> rfl

/-- The aggregation measures as the stream does, without the first reasoning. -/
def Forgets (c : ResponsesConverter) (stats : StreamStats) (c' : ResponsesConverter)
    (stats' : StreamStats) : Prop :=
  c = c' ∧ stats = stats'.thoughtless

theorem tracks_forgets (requestStarted : Nat) :
    Metered.Tracks Forgets (frontend hex) (aggregateGauge hex requestStarted) (frontend hex)
      (StreamStats.gauge (frontend hex) probes requestStarted) where
  semantic := by
    rintro c stats _ stats' chunk ⟨rfl, -⟩
    rfl
  step := by
    rintro c stats _ stats' now chunk ⟨rfl, rfl⟩
    refine ⟨rfl, ?_⟩
    unfold aggregateGauge StreamStats.gauge
    split_ifs <;> rfl

variable (serde : Serde) (timeouts : StreamTimeouts) (requestStarted started finished : Nat)
    (inputs : List Input)

/-- The loop measures what its timeline says, and ends as the record of the run does. -/
theorem run_measures :
    let driven :=
      Metered.drive (frontend hex) (StreamStats.gauge (frontend hex) probes requestStarted)
        serde inputs
      ⟨.new (.new hex createdAt model expose) timeouts started, .default⟩
    let heard := Metered.timeline ResponsesConverter.semantic serde timeouts started inputs
    driven.1.pump.converter =
      (forEach (feedChunk hex) (heard.map Prod.snd) (.new hex createdAt model expose)).1 ∧
      driven.2 = latencies ResponsesConverter.semantic requestStarted heard ∧
      driven.1.ending = (record serde timeouts started inputs).ending := by
  obtain ⟨hfed, hstats, hending⟩ :=
    drive_measures (probed hex createdAt model expose) serde timeouts requestStarted started inputs
  obtain ⟨-, hrecord, -⟩ := @run_record serde hex createdAt model expose timeouts started inputs
  exact ⟨hfed, hstats, hending.trans hrecord⟩

theorem streamStats_eq :
    streamStats serde hex createdAt model expose timeouts requestStarted started inputs =
      (record serde timeouts started inputs).ending.map fun _ =>
        account ResponsesConverter.semantic tokens requestStarted 0
          (Metered.timeline ResponsesConverter.semantic serde timeouts started inputs) := by
  obtain ⟨hfed, hstats, hending⟩ :=
    run_measures hex createdAt model expose serde timeouts requestStarted started inputs
  unfold streamStats
  dsimp only
  rw [hending, hfed, hstats]
  refine congrArg (Option.map · _) (funext fun ending => ?_)
  exact finishStats_latencies hex createdAt model expose _ requestStarted _

theorem aggregateStats_eq :
    aggregateStats serde hex createdAt model expose timeouts requestStarted started finished
        inputs =
      (record serde timeouts started inputs).ending.map fun _ =>
        StreamStats.thoughtless
          (account ResponsesConverter.semantic tokens requestStarted
          (elapsedMs requestStarted finished)
          (Metered.timeline ResponsesConverter.semantic serde timeouts started inputs)) := by
  obtain ⟨hfed, hstats, hending⟩ :=
    run_measures hex createdAt model expose serde timeouts requestStarted started inputs
  have hstart :
      Metered.Abreast Forgets ⟨.new (.new hex createdAt model expose) timeouts started, .default⟩
      ⟨.new (.new hex createdAt model expose) timeouts started, .default⟩ := ⟨rfl, rfl, rfl⟩
  obtain ⟨⟨hconverter, hforgot⟩, hends⟩ :=
    Metered.drive_abreast serde (tracks_forgets hex requestStarted) inputs hstart rfl
  unfold aggregateStats
  dsimp only
  rw [hends, hconverter, hforgot, hending, hfed, hstats]
  refine congrArg (Option.map · _) (funext fun ending => ?_)
  let timed (stats : StreamStats) :=
    StreamStats.thoughtless { stats with durationMs := elapsedMs requestStarted finished }
  have hfinished (error : Option String) :=
    congrArg timed (finishStats_latencies hex createdAt model expose error
    requestStarted (Metered.timeline ResponsesConverter.semantic serde timeouts started inputs))
  cases aggregateError _ ending with
  | none => exact hfinished none
  -- an exit that does not finish the converter counts what it holds all the same
  | some message => exact hfinished (some message)

end Measured

end Lobster.Responses.ResponsesPump

namespace Lobster.Server
open Chat

section Summaries
variable (serde : Serde) (hex : String) (hexes : Nat → String) (createdAt : UInt64) (model : String)
    (expose : Bool) (timeouts : StreamTimeouts) (requestStarted started finished : Nat)
    (inputs : List Input)

/-- Each path accounts for what has been heard in its run: the streamed Responses path without the
time that it took, the aggregated one without the first reasoning. -/
theorem summaries_account :
    (Anthropic.StreamPump.runStats serde hex expose timeouts requestStarted started finished
        inputs =
      (Anthropic.StreamPump.record serde timeouts started inputs).ending.map fun _ =>
        account Anthropic.StreamPump.progress Anthropic.StreamPump.tokens requestStarted
          (elapsedMs requestStarted finished)
          (Metered.timeline Anthropic.StreamPump.progress serde timeouts started inputs)) ∧
    (Responses.ResponsesPump.streamStats serde hexes createdAt model expose timeouts requestStarted
      started inputs =
      (Responses.ResponsesPump.record serde timeouts started inputs).ending.map fun _ =>
        account Responses.ResponsesConverter.semantic Responses.ResponsesPump.tokens
          requestStarted 0
          (Metered.timeline Responses.ResponsesConverter.semantic serde timeouts started inputs)) ∧
    (Responses.ResponsesPump.aggregateStats serde hexes createdAt model expose timeouts
      requestStarted started finished inputs =
      (Responses.ResponsesPump.record serde timeouts started inputs).ending.map fun _ =>
        { account Responses.ResponsesConverter.semantic Responses.ResponsesPump.tokens
            requestStarted (elapsedMs requestStarted finished)
            (Metered.timeline Responses.ResponsesConverter.semantic serde timeouts started
              inputs) with
          firstReasoningMs := none }) :=
  ⟨Anthropic.StreamPump.runStats_eq serde hex expose timeouts requestStarted started finished
      inputs,
    Responses.ResponsesPump.streamStats_eq hexes createdAt model expose serde timeouts
      requestStarted started inputs,
    Responses.ResponsesPump.aggregateStats_eq hexes createdAt model expose serde timeouts
      requestStarted started finished inputs⟩

/-- While the clock does not go back, no summary that takes the time of its run has a first of
anything before the first progress or after the end. -/
theorem summaries_inOrder
    (hclock : (inputs.filterMap Input.clock? ++ [finished]).Pairwise (· ≤ ·)) :
    (∀ stats ∈ Anthropic.StreamPump.runStats serde hex expose timeouts requestStarted started
      finished inputs, stats.InOrder) ∧
    ∀ stats ∈ Responses.ResponsesPump.aggregateStats serde hexes createdAt model expose timeouts
      requestStarted started finished inputs, stats.InOrder := by
  constructor
  · intro stats hstats
    rw [Anthropic.StreamPump.runStats_eq] at hstats
    obtain ⟨ending, -, rfl⟩ := Option.map_eq_some_iff.mp hstats
    exact account_inOrder (Anthropic.StreamPump.probed hex expose).pieces
      (Metered.timely_timeline _ serde hclock)
  · intro stats hstats
    rw [Responses.ResponsesPump.aggregateStats_eq] at hstats
    obtain ⟨ending, -, rfl⟩ := Option.map_eq_some_iff.mp hstats
    exact (account_inOrder (Responses.ResponsesPump.probed hexes createdAt model expose).pieces
      (Metered.timely_timeline _ serde hclock)).thoughtless

end Summaries

def saidHello : Json :=
  .obj [("choices", .arr [.obj [("delta", .obj [("content", .str "hello")])]])]

def helloLine : List UInt8 :=
  ascii "data: \x7b\"choices\":[\x7b\"delta\":\x7b\"content\":\"hello\"\x7d\x7d]\x7d" ++ [10]

def helloSerde : Serde where
  toString _ := "\x7b\"choices\":[\x7b\"delta\":\x7b\"content\":\"hello\"\x7d\x7d]\x7d"
  fromSlice _ := some saidHello
  fromStr _ := some saidHello

theorem summaries_inOrder_hello :
    let hexes (n : Nat) : String := String.ofList (List.replicate n '0')
    let inputs : List Input :=
      [.bytes 3000000 helloLine, .ping, .bytes 5000000 (ascii "data: [DONE]" ++ [10])]
    (∀ stats ∈ Anthropic.StreamPump.runStats helloSerde "0" true ⟨0, 0, 0, 0⟩ 1000000 1000000
      9000000 inputs,
      stats.InOrder) ∧
    ∀ stats ∈ Responses.ResponsesPump.aggregateStats helloSerde hexes 0 "m" true ⟨0, 0, 0, 0⟩
      1000000 1000000 9000000
      inputs, stats.InOrder := by
  intro hexes inputs
  exact summaries_inOrder helloSerde "0" hexes 0 "m" true ⟨0, 0, 0, 0⟩ 1000000 1000000 9000000
    inputs (by decide)

end Lobster.Server
