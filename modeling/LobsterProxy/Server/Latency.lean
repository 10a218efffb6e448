import LobsterProxy.Chat.Turn
import LobsterProxy.Server.Meter

/-! What the two streaming loops measure of a run: the times of the first progress, reasoning,
text and tool call, as the chunks of the run alone determine them. -/

namespace Lobster.Server
open Chat Emitter

/-- The statistics of a run. Times are in milliseconds since the request came in. -/
structure StreamStats where
  ttftMs : Option Nat
  firstReasoningMs : Option Nat
  firstTextMs : Option Nat
  firstToolMs : Option Nat
  reasoningBytes : Nat
  textBytes : Nat
  toolBytes : Nat
  inputTokens : Option UInt64
  outputTokens : Option UInt64
  cachedTokens : Option UInt64
  finishReason : Option String
  durationMs : Nat
  deriving DecidableEq, Repr

structure Probes (σ : Type) where
  hasReasoning : σ → Bool
  hasText : σ → Bool
  hasTools : σ → Bool

def elapsedMs (requestStarted now : Nat) : Nat := (now - requestStarted) / 10 ^ 6

/-- A time is kept once it is set. -/
def latch (set : Bool) (elapsed : Nat) (first : Option Nat) : Option Nat :=
  first.or (if set then some elapsed else none)

namespace StreamStats
variable {σ ε : Type}

def default : StreamStats := ⟨none, none, none, none, 0, 0, 0, none, none, none, none, 0⟩

/-- Semantic progress, with the converter after it. -/
def onSemantic (probes : Probes σ) (elapsed : Nat) (c : σ) (stats : StreamStats) : StreamStats :=
  { stats with
    ttftMs := latch true elapsed stats.ttftMs
    firstReasoningMs := latch (probes.hasReasoning c) elapsed stats.firstReasoningMs
    firstTextMs := latch (probes.hasText c) elapsed stats.firstTextMs
    firstToolMs := latch (probes.hasTools c) elapsed stats.firstToolMs }

/-- What the loop does to the statistics once the converter has been fed. -/
def gauge (frontend : Frontend σ ε) (probes : Probes σ) (requestStarted : Nat) :
    Gauge σ StreamStats :=
  fun now chunk before after stats =>
    if frontend.semantic chunk before then
      stats.onSemantic probes (elapsedMs requestStarted now) after else stats

def thoughtless (stats : StreamStats) : StreamStats := { stats with firstReasoningMs := none }

end StreamStats

def firstAt (requestStarted : Nat) (kind : Json → Bool) (heard : List (Nat × Json)) : Option Nat :=
  (heard.find? fun said => kind said.2).map fun said => elapsedMs requestStarted said.1

def holds (kind : Chat.Piece → Bool) (chunk : Json) : Bool := (chunkPieces chunk).any kind

def lastUsage (chunks : List Json) : Option Json := (chunks.filterMap chunkUsage).getLast?

def account (progress : Json → Bool) (tokens : Json → UInt64 × UInt64 × UInt64)
    (requestStarted durationMs : Nat) (heard : List (Nat × Json)) : StreamStats :=
  let chunks := heard.map Prod.snd
  let pieces := chunks.flatMap chunkPieces
  let usage := (lastUsage chunks).map tokens
  { ttftMs := firstAt requestStarted progress heard
    firstReasoningMs := firstAt requestStarted (holds Chat.Piece.isReasoning) heard
    firstTextMs := firstAt requestStarted (holds Chat.Piece.isContent) heard
    firstToolMs := firstAt requestStarted (holds Chat.Piece.isCall) heard
    reasoningBytes := (reasonings pieces).utf8ByteSize
    textBytes := (contents pieces).utf8ByteSize
    toolBytes := (pieces.map argumentBytes).sum
    inputTokens := usage.map fun usage => usage.1
    outputTokens := usage.map fun usage => usage.2.1
    cachedTokens := usage.map fun usage => usage.2.2
    finishReason := lastFinish (chunks.flatMap chunkDeltas)
    durationMs := durationMs }

section First
variable {requestStarted : Nat} {kind kind' : Json → Bool} {heard : List (Nat × Json)}

theorem firstAt_snoc (now : Nat) (chunk : Json) :
    firstAt requestStarted kind (heard ++ [(now, chunk)]) =
    (firstAt requestStarted kind heard).or
      (if kind chunk then some (elapsedMs requestStarted now) else none) := by
  unfold firstAt
  rw [List.find?_append, Option.map_or, List.find?_singleton]
  split_ifs <;> rfl

theorem isSome_firstAt :
    (firstAt requestStarted kind heard).isSome = (heard.map Prod.snd).any kind := by
  unfold firstAt
  rw [Option.isSome_map, List.any_map]
  exact List.isSome_find?

theorem latch_firstAt (now : Nat) (chunk : Json) :
    latch ((heard.map Prod.snd ++ [chunk]).any kind) (elapsedMs requestStarted now)
      (firstAt requestStarted kind heard) =
      firstAt requestStarted kind (heard ++ [(now, chunk)]) := by
  have hsome : (firstAt requestStarted kind heard).isSome = _ := isSome_firstAt
  rw [firstAt_snoc]
  unfold latch
  rw [List.any_append, ← hsome]
  cases firstAt requestStarted kind heard with
  | none => simp
  | some first => rfl

theorem lastUsage_snoc (chunks : List Json) (chunk : Json) :
    lastUsage (chunks ++ [chunk]) = (chunkUsage chunk).or (lastUsage chunks) := by
  unfold lastUsage
  rw [List.filterMap_append]
  cases h : chunkUsage chunk with
  | none => simp [h]
  | some usage => simp [h]

theorem elapsedMs_mono (requestStarted : Nat) : Monotone (elapsedMs requestStarted) := fun _ _ h =>
  Nat.div_le_div_right (Nat.sub_le_sub_right h requestStarted)

theorem firstAt_le (hkind : ∀ chunk, kind chunk = true → kind' chunk = true)
    (htimes : (heard.map Prod.fst).Pairwise (· ≤ ·)) {first : Nat}
      (h : firstAt requestStarted kind heard = some first) :
    ∃ first', firstAt requestStarted kind' heard = some first' ∧ first' ≤ first := by
  induction heard with
  | nil => cases h
  | cons said rest ih =>
    obtain ⟨hbefore, hrest⟩ := List.pairwise_cons.mp htimes
    unfold firstAt at h ih ⊢
    rw [List.find?_cons] at h ⊢
    cases hwide : kind' said.2 with
    | true =>
      refine ⟨_, rfl, ?_⟩
      cases hnarrow : kind said.2 with
      | true =>
        rw [hnarrow] at h
        exact (Option.some.inj h).le
      | false =>
        rw [hnarrow] at h
        obtain ⟨later, hlater, rfl⟩ := Option.map_eq_some_iff.mp h
        exact elapsedMs_mono requestStarted
          (hbefore _ (List.mem_map_of_mem (List.mem_of_find?_eq_some hlater)))
    | false =>
      have hnarrow : kind said.2 = false := Bool.eq_false_iff.mpr fun hnarrow => by
        rw [hkind said.2 hnarrow] at hwide
        cases hwide
      rw [hnarrow] at h
      exact ih hrest h

theorem firstAt_le_finished {finished first : Nat}
    (htimes : (heard.map Prod.fst ++ [finished]).Pairwise (· ≤ ·))
    (h : firstAt requestStarted kind heard = some first) :
    first ≤ elapsedMs requestStarted finished := by
  obtain ⟨said, hsaid, rfl⟩ := Option.map_eq_some_iff.mp h
  have hbefore := (List.pairwise_append.mp htimes).2.2
  exact elapsedMs_mono requestStarted
    (hbefore _ (List.mem_map_of_mem (List.mem_of_find?_eq_some hsaid)) finished List.mem_cons_self)

end First

section Measured
variable {σ ε : Type} {frontend : Frontend σ ε} {probes : Probes σ} {progress : Json → Bool}
    {c₀ : σ}

/-- Along the chunks fed from `c₀` the probes tell which pieces there have been, and every piece is
progress. -/
structure Probed (frontend : Frontend σ ε) (probes : Probes σ) (progress : Json → Bool) (c₀ : σ) :
    Prop where
  progresses : Pump.Progresses frontend progress c₀
  pieces : ∀ chunk piece, piece ∈ chunkPieces chunk → progress chunk = true
  reasoning : ∀ chunks,
    probes.hasReasoning (forEach frontend.feedChunk chunks c₀).1 =
    chunks.any (holds Chat.Piece.isReasoning)
  text : ∀ chunks, probes.hasText (forEach frontend.feedChunk chunks c₀).1 =
    chunks.any (holds Chat.Piece.isContent)
  tools : ∀ chunks, probes.hasTools (forEach frontend.feedChunk chunks c₀).1 =
    chunks.any (holds Chat.Piece.isCall)

def latencies (progress : Json → Bool) (requestStarted : Nat) (heard : List (Nat × Json)) :
    StreamStats :=
  { StreamStats.default with
    ttftMs := firstAt requestStarted progress heard
    firstReasoningMs := firstAt requestStarted (holds Chat.Piece.isReasoning) heard
    firstTextMs := firstAt requestStarted (holds Chat.Piece.isContent) heard
    firstToolMs := firstAt requestStarted (holds Chat.Piece.isCall) heard }

def Measures (frontend : Frontend σ ε) (progress : Json → Bool) (requestStarted : Nat) (c₀ c : σ)
    (stats : StreamStats) (_ : Unit) (heard : List (Nat × Json)) : Prop :=
  c = (forEach frontend.feedChunk (heard.map Prod.snd) c₀).1 ∧
  stats = latencies progress requestStarted heard

theorem holds_of_progress (h : ∀ chunk piece, piece ∈ chunkPieces chunk → progress chunk = true)
    (kind : Chat.Piece → Bool) {chunk : Json} (hholds : holds kind chunk = true) :
    progress chunk = true := by
  obtain ⟨piece, hpiece, -⟩ := List.any_eq_true.mp hholds
  exact h chunk piece hpiece

theorem onSemantic_latencies (h : Probed frontend probes progress c₀) {requestStarted now : Nat}
    {chunk : Json} {heard : List (Nat × Json)} (hprogress : progress chunk = true) :
    (latencies progress requestStarted heard).onSemantic probes (elapsedMs requestStarted now)
        (forEach frontend.feedChunk (heard.map Prod.snd ++ [chunk]) c₀).1 =
      latencies progress requestStarted (heard ++ [(now, chunk)]) := by
  unfold StreamStats.onSemantic latencies
  rw [h.reasoning, h.text, h.tools]
  simp only [latch_firstAt]
  have hfirst : firstAt requestStarted progress (heard ++ [(now, chunk)]) = _ :=
    firstAt_snoc now chunk
  rw [hfirst, if_pos hprogress]
  rfl

theorem latencies_quiet (h : Probed frontend probes progress c₀) {requestStarted now : Nat}
    {chunk : Json} {heard : List (Nat × Json)} (hprogress : progress chunk = false) :
    latencies progress requestStarted (heard ++ [(now, chunk)]) =
      latencies progress requestStarted heard := by
  have hquiet (kind : Chat.Piece → Bool) : holds kind chunk = false :=
    Bool.eq_false_iff.mpr fun hholds => by
    rw [holds_of_progress h.pieces kind hholds] at hprogress
    cases hprogress
  unfold latencies
  simp only [firstAt_snoc, hprogress, hquiet, Bool.false_eq_true, if_false, Option.or_none]

theorem tracks_measures (h : Probed frontend probes progress c₀) (requestStarted : Nat) :
    Metered.Tracks (Measures frontend progress requestStarted c₀) frontend
      (StreamStats.gauge frontend probes requestStarted)
        (Pump.recorder progress) Metered.noteTime where
  semantic := by
    rintro c stats _ heard chunk ⟨rfl, -⟩
    exact h.progresses _ chunk
  step := by
    rintro c stats _ heard now chunk ⟨rfl, rfl⟩
    have hfed :
        (frontend.feedChunk chunk (forEach frontend.feedChunk (heard.map Prod.snd) c₀).1).1 =
        (forEach frontend.feedChunk (heard.map Prod.snd ++ [chunk]) c₀).1 := by
      rw [forEach_snoc]
      rfl
    refine ⟨?_, ?_⟩
    · show _ = (forEach frontend.feedChunk ((heard ++ [(now, chunk)]).map Prod.snd) c₀).1
      rw [hfed, List.map_append]
      rfl
    · show StreamStats.gauge frontend probes requestStarted now chunk _ _ _ =
        latencies progress requestStarted (heard ++ [(now, chunk)])
      unfold StreamStats.gauge
      rw [hfed, h.progresses]
      cases hprogress : progress chunk with
      | true => exact onSemantic_latencies h hprogress
      | false => exact (latencies_quiet h hprogress).symm

theorem drive_measures (h : Probed frontend probes progress c₀) (serde : Serde)
    (timeouts : StreamTimeouts) (requestStarted started : Nat) (inputs : List Input) :
    let driven :=
      Metered.drive frontend (StreamStats.gauge frontend probes requestStarted) serde inputs
      ⟨.new c₀ timeouts started, .default⟩
    let heard := Metered.timeline progress serde timeouts started inputs
    driven.1.pump.converter = (forEach frontend.feedChunk (heard.map Prod.snd) c₀).1 ∧
      driven.2 = latencies progress requestStarted heard ∧
      driven.1.ending = (Pump.drive frontend serde inputs (.new c₀ timeouts started)).ending := by
  have hstart : Metered.Abreast (Measures frontend progress requestStarted c₀)
      ⟨.new c₀ timeouts started, .default⟩
      ⟨.new () timeouts started, []⟩ := ⟨rfl, rfl, rfl⟩
  have hmeasured :=
    (Metered.drive_abreast serde (tracks_measures h requestStarted) inputs hstart rfl).1
  refine ⟨hmeasured.1, hmeasured.2, ?_⟩
  rw [Metered.drive_fst]

end Measured

section Ordered

/-- Nothing comes before the first progress, and nothing after the end. -/
structure StreamStats.InOrder (stats : StreamStats) : Prop where
  ttft :
    ∀ first ∈ [stats.firstReasoningMs, stats.firstTextMs, stats.firstToolMs],
    ∀ ms, first = some ms →
    ∃ ttft, stats.ttftMs = some ttft ∧ ttft ≤ ms
  ended :
    ∀ first ∈ [stats.ttftMs, stats.firstReasoningMs, stats.firstTextMs, stats.firstToolMs], ∀ ms,
    first = some ms → ms ≤ stats.durationMs

theorem StreamStats.InOrder.thoughtless {stats : StreamStats} (h : stats.InOrder) :
    stats.thoughtless.InOrder where
  ttft := by
    have hfirst := h.ttft
    simp only [List.forall_mem_cons] at hfirst ⊢
    exact ⟨fun _ hnone => (nomatch hnone), hfirst.2⟩
  ended := by
    have hended := h.ended
    simp only [List.forall_mem_cons] at hended ⊢
    exact ⟨hended.1, fun _ hnone => (nomatch hnone), hended.2.2⟩

variable {progress : Json → Bool} {tokens : Json → UInt64 × UInt64 × UInt64}
    {requestStarted finished : Nat}
  {heard : List (Nat × Json)}

theorem account_inOrder (hpieces : ∀ chunk piece, piece ∈ chunkPieces chunk → progress chunk = true)
    (htimes : (heard.map Prod.fst ++ [finished]).Pairwise (· ≤ ·)) :
    (account progress tokens requestStarted (elapsedMs requestStarted finished) heard).InOrder where
  ttft := by
    have hfirst (kind : Chat.Piece → Bool) (ms : Nat)
        (h : firstAt requestStarted (holds kind) heard = some ms) :
        ∃ ttft, firstAt requestStarted progress heard = some ttft ∧ ttft ≤ ms :=
      firstAt_le (fun _ hholds => holds_of_progress hpieces kind hholds)
        (List.pairwise_append.mp htimes).1 h
    simp only [List.forall_mem_cons]
    exact ⟨hfirst _, hfirst _, hfirst _, List.forall_mem_nil _⟩
  ended := by
    simp only [List.forall_mem_cons]
    exact ⟨fun _ => firstAt_le_finished htimes, fun _ => firstAt_le_finished htimes,
      fun _ => firstAt_le_finished htimes,
      fun _ => firstAt_le_finished htimes, List.forall_mem_nil _⟩

end Ordered
end Lobster.Server
