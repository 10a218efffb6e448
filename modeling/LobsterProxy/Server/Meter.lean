import LobsterProxy.Server.Pump

/-! The pump with a meter that is shown each chunk and the time it came at. -/

namespace Lobster.Server
open Chat Emitter

def Input.clock? : Input → Option Nat
  | wake now | bytes now _ => some now
  | _ => none

/-- What a meter makes of a chunk, given the time and the converter before and after it. -/
abbrev Gauge (σ μ : Type) := Nat → Json → σ → σ → μ → μ

structure Metered (σ μ : Type) where
  pump : Pump σ
  meter : μ

namespace Metered
variable {σ τ ε δ μ ν : Type}

section Loop
variable (frontend : Frontend σ ε) (gauge : Gauge σ μ) (serde : Serde)

def onLine (now : Nat) : LineStep UInt8 (Metered σ μ) ε := fun line metered =>
  let turned := Pump.onLine frontend serde now line metered.pump
  let meter := match readLine serde line with
    | .chunk chunk => gauge now chunk metered.pump.converter turned.1.1.converter metered.meter
    | _ => metered.meter
  ((⟨turned.1.1, meter⟩, turned.1.2), turned.2)

def onBytes (now : Nat) (bytes : List UInt8) (metered : Metered σ μ) :
    (Metered σ μ × List ε) × Bool :=
  let drained :=
    Lines.drain 10 (onLine frontend gauge serde now) [] (metered.pump.buffer ++ bytes) metered
  (({ drained.state with pump := { drained.state.pump with buffer := drained.buffer } },
    drained.out), drained.stopped)

/-- The loop up to its exit, with what the meter shows by then. -/
def drive : List Input → Metered σ μ → Pump.Driven σ ε × μ
  | [], metered => (⟨metered.pump, [], none⟩, metered.meter)
  | .ping :: rest, metered => (drive rest metered).map (Pump.Driven.after [.ping]) id
  | .wake now :: rest, metered =>
    if now < metered.pump.watch.nextDeadline then drive rest metered
    else
      match metered.pump.watch.check now with
      | some stall => (⟨metered.pump, [], some (.stall stall)⟩, metered.meter)
      | none => drive rest metered
  | .bytes now bytes :: rest, metered =>
    let heard := { metered.pump with watch := metered.pump.watch.onUpstreamBytes now }
    let fed := onBytes frontend gauge serde now bytes ⟨heard, metered.meter⟩
    let sent := fed.1.2.map Sent.event
    if fed.2 then (⟨fed.1.1.pump, sent, some .done⟩, fed.1.1.meter)
    else (drive rest fed.1.1).map (Pump.Driven.after sent) id
  | .eof :: _, metered => (⟨metered.pump, [], some .eof⟩, metered.meter)
  | .transportError err :: _, metered =>
    (⟨metered.pump, [], some (.transportError err)⟩, metered.meter)

end Loop

section Erasure
variable (frontend : Frontend σ ε) (gauge : Gauge σ μ) (serde : Serde)

def Erases (metered : Metered σ μ) (out : List ε) (pump : Pump σ) (out' : List ε) : Prop :=
  metered.pump = pump ∧ out = out'

theorem erases_onBytes (now : Nat) (bytes : List UInt8) (metered : Metered σ μ) :
    let fed := onBytes frontend gauge serde now bytes metered
    ((fed.1.1.pump, fed.1.2), fed.2) = Pump.onBytes frontend serde now bytes metered.pump := by
  have hstep : Lines.InStep Erases (onLine frontend gauge serde now)
      (Pump.onLine frontend serde now) := by
    rintro line metered out pump out' ⟨rfl, rfl⟩
    exact ⟨⟨rfl, rfl⟩, rfl⟩
  obtain ⟨⟨hpump, hout⟩, hstopped, hbuffer⟩ :=
    Lines.drain_inStep hstep 10 (metered.pump.buffer ++ bytes) []
    (⟨rfl, rfl⟩ : Erases metered [] metered.pump [])
  unfold onBytes Pump.onBytes
  dsimp only
  rw [List.nil_append, List.nil_append] at hout
  rw [hpump, hout, hstopped, hbuffer]

/-- The meter changes nothing of the run. -/
theorem drive_fst (inputs : List Input) (metered : Metered σ μ) :
    (drive frontend gauge serde inputs metered).1 =
      Pump.drive frontend serde inputs metered.pump := by
  induction inputs generalizing metered with
  | nil => rfl
  | cons input rest ih =>
    cases input with
    | ping => exact congrArg (Pump.Driven.after [.ping]) (ih metered)
    | wake now =>
      rw [drive, Pump.drive]
      split_ifs
      · exact ih metered
      · cases metered.pump.watch.check now with
        | none => exact ih metered
        | some stall => rfl
    | bytes now bytes =>
      have hfed := erases_onBytes frontend gauge serde now bytes
        ⟨{ metered.pump with watch := metered.pump.watch.onUpstreamBytes now }, metered.meter⟩
      dsimp only at hfed
      rw [drive, Pump.drive]
      dsimp only
      rw [← hfed]
      dsimp only
      split_ifs
      · rfl
      · exact congrArg (Pump.Driven.after _) (ih _)
    | eof => rfl
    | transportError err => rfl

end Erasure

section InStep
variable {R : σ → μ → τ → ν → Prop} {frontend : Frontend σ ε} {frontend' : Frontend τ δ}
    {gauge : Gauge σ μ}
  {gauge' : Gauge τ ν} (serde : Serde)

/-- The frontends agree on what progress is, and the relation between the converters and the
meters survives every chunk. -/
structure Tracks (R : σ → μ → τ → ν → Prop) (frontend : Frontend σ ε) (gauge : Gauge σ μ)
    (frontend' : Frontend τ δ) (gauge' : Gauge τ ν) : Prop where
  semantic : ∀ {c m c' m'} chunk, R c m c' m' → frontend.semantic chunk c =
    frontend'.semantic chunk c'
  step : ∀ {c m c' m'} now chunk, R c m c' m' →
    R (frontend.feedChunk chunk c).1 (gauge now chunk c (frontend.feedChunk chunk c).1 m)
      (frontend'.feedChunk chunk c').1 (gauge' now chunk c' (frontend'.feedChunk chunk c').1 m')

/-- Two loops that stand at the same point of a run. -/
structure Abreast (R : σ → μ → τ → ν → Prop) (metered : Metered σ μ) (metered' : Metered τ ν) :
    Prop where
  watch : metered.pump.watch = metered'.pump.watch
  meters : R metered.pump.converter metered.meter metered'.pump.converter metered'.meter

def Paced (R : σ → μ → τ → ν → Prop) (metered : Metered σ μ) (_ : List ε) (metered' : Metered τ ν)
    (_ : List δ) :
    Prop := Abreast R metered metered'

theorem abreast_onLine (h : Tracks R frontend gauge frontend' gauge') (now : Nat) :
    Lines.InStep (Paced R) (onLine frontend gauge serde now)
      (onLine frontend' gauge' serde now) := by
  rintro line ⟨pump, meter⟩ out ⟨pump', meter'⟩ out' ⟨hwatch, hmeters⟩
  dsimp only at hwatch hmeters
  unfold onLine Pump.onLine
  cases readLine serde line with
  | skipped => exact ⟨⟨hwatch, hmeters⟩, rfl⟩
  | noChunk => exact ⟨⟨congrArg StreamWatch.onSseEvent hwatch, hmeters⟩, rfl⟩
  | done => exact ⟨⟨congrArg StreamWatch.onSseEvent hwatch, hmeters⟩, rfl⟩
  | chunk chunk =>
    refine ⟨⟨?_, h.step now chunk hmeters⟩, rfl⟩
    dsimp only
    rw [h.semantic chunk hmeters, hwatch]

theorem abreast_onBytes (h : Tracks R frontend gauge frontend' gauge') (now : Nat)
    (bytes : List UInt8) {metered : Metered σ μ} {metered' : Metered τ ν}
    (habreast : Abreast R metered metered') (hbuffer : metered.pump.buffer = metered'.pump.buffer) :
    let fed := onBytes frontend gauge serde now bytes metered
    let fed' := onBytes frontend' gauge' serde now bytes metered'
    Abreast R fed.1.1 fed'.1.1 ∧ fed.2 = fed'.2 ∧ fed.1.1.pump.buffer = fed'.1.1.pump.buffer := by
  have hstart : Paced R metered ([] : List ε) metered' ([] : List δ) := habreast
  have hdrained :=
    Lines.drain_inStep (abreast_onLine serde h now) 10 (metered.pump.buffer ++ bytes) [] hstart
  unfold onBytes
  rw [← hbuffer]
  exact ⟨⟨hdrained.1.watch, hdrained.1.meters⟩, hdrained.2⟩

theorem drive_abreast (h : Tracks R frontend gauge frontend' gauge') (inputs : List Input)
    {metered : Metered σ μ} {metered' : Metered τ ν} (habreast : Abreast R metered metered')
    (hbuffer : metered.pump.buffer = metered'.pump.buffer) :
    let driven := drive frontend gauge serde inputs metered
    let driven' := drive frontend' gauge' serde inputs metered'
    R driven.1.pump.converter driven.2 driven'.1.pump.converter driven'.2 ∧
      driven.1.ending = driven'.1.ending := by
  induction inputs generalizing metered metered' with
  | nil => exact ⟨habreast.meters, rfl⟩
  | cons input rest ih =>
    cases input with
    | ping => exact ih habreast hbuffer
    | wake now =>
      simp only [drive, ← habreast.watch]
      split_ifs
      · exact ih habreast hbuffer
      · cases metered.pump.watch.check now with
        | none => exact ih habreast hbuffer
        | some stall => exact ⟨habreast.meters, rfl⟩
    | bytes now bytes =>
      have hheard :
          Abreast R ⟨{ metered.pump with watch := metered.pump.watch.onUpstreamBytes now },
          metered.meter⟩
          ⟨{ metered'.pump with watch := metered'.pump.watch.onUpstreamBytes now },
          metered'.meter⟩ :=
        ⟨congrArg (StreamWatch.onUpstreamBytes now) habreast.watch, habreast.meters⟩
      obtain ⟨hfed, hstop, hleft⟩ := abreast_onBytes serde h now bytes hheard hbuffer
      simp only [drive, ← hstop]
      split_ifs
      · exact ⟨hfed.meters, rfl⟩
      · exact ih hfed hleft
    | eof => exact ⟨habreast.meters, rfl⟩
    | transportError err => exact ⟨habreast.meters, rfl⟩

end InStep

section Timeline
variable (semantic : Json → Bool) (serde : Serde)

def noteTime : Gauge Unit (List (Nat × Json)) := fun now chunk _ _ heard => heard ++ [(now, chunk)]

/-- The chunks that a run says, each with the time it came at. -/
def timeline (timeouts : StreamTimeouts) (started : Nat) (inputs : List Input) :
    List (Nat × Json) :=
  (drive (Pump.recorder semantic) noteTime serde inputs ⟨.new () timeouts started, []⟩).2

theorem noted_onBytes (now : Nat) (bytes : List UInt8)
    (metered : Metered Unit (List (Nat × Json))) :
    ∃ n, ((onBytes (Pump.recorder semantic) noteTime serde now bytes metered).1.1.meter).map
        Prod.fst =
      metered.meter.map Prod.fst ++ List.replicate n now := by
  let noted (metered' : Metered Unit (List (Nat × Json))) :=
    ∃ n, metered'.meter.map Prod.fst = metered.meter.map Prod.fst ++ List.replicate n now
  have hline (line : List UInt8) (metered' : Metered Unit (List (Nat × Json)))
      (h : noted metered') :
      noted (onLine (Pump.recorder semantic) noteTime serde now line metered').1.1 := by
    obtain ⟨n, hn⟩ := h
    unfold onLine
    dsimp only
    cases readLine serde line with
    | chunk chunk =>
      refine ⟨n + 1, ?_⟩
      show (metered'.meter ++ [(now, chunk)]).map Prod.fst = _
      rw [List.map_append, hn, List.replicate_succ', List.append_assoc]
      rfl
    | _ => exact ⟨n, hn⟩
  exact Lines.drain_keeps hline 10 (metered.pump.buffer ++ bytes) [] ⟨0, (List.append_nil _).symm⟩

theorem pairwise_replicate_append {past later : List Nat} {now : Nat} (n : Nat)
    (h : (past ++ now :: later).Pairwise (· ≤ ·)) :
    (past ++ List.replicate n now ++ later).Pairwise (· ≤ ·) := by
  obtain ⟨hpast, hlater, hbetween⟩ := List.pairwise_append.mp h
  obtain ⟨hnow, hlater⟩ := List.pairwise_cons.mp hlater
  rw [List.append_assoc, List.pairwise_append, List.pairwise_append]
  refine ⟨hpast, ⟨List.pairwise_replicate.mpr (.inr le_rfl), hlater, ?_⟩, ?_⟩
  · intro a ha b hb
    rw [List.eq_of_mem_replicate ha]
    exact hnow b hb
  · intro a ha b hb
    rcases List.mem_append.mp hb with hb | hb
    · rw [List.eq_of_mem_replicate hb]
      exact hbetween a ha now List.mem_cons_self
    · exact hbetween a ha b (List.mem_cons_of_mem now hb)

theorem timely_drive (inputs : List Input) (metered : Metered Unit (List (Nat × Json)))
    (later : List Nat)
    (h : (metered.meter.map Prod.fst ++
      (inputs.filterMap Input.clock? ++ later)).Pairwise (· ≤ ·)) :
    ((drive (Pump.recorder semantic) noteTime serde inputs metered).2.map Prod.fst ++
      later).Pairwise (· ≤ ·) := by
  -- an exit leaves the clock of the inputs after it unread
  have hexit {past rest : List Nat} (h : (past ++ (rest ++ later)).Pairwise (· ≤ ·)) :
      (past ++ later).Pairwise (· ≤ ·) :=
    h.sublist ((List.sublist_append_right rest later).append_left past)
  induction inputs generalizing metered with
  | nil => exact h
  | cons input rest ih =>
    cases input with
    | ping => exact ih metered h
    | wake now =>
      have hrest :=
        h.sublist ((List.sublist_cons_self now _).append_left (metered.meter.map Prod.fst))
      rw [drive]
      split_ifs
      · exact ih metered hrest
      · cases metered.pump.watch.check now with
        | none => exact ih metered hrest
        | some stall => exact hexit h
    | bytes now bytes =>
      obtain ⟨n, hn⟩ := noted_onBytes semantic serde now bytes
        ⟨{ metered.pump with watch := metered.pump.watch.onUpstreamBytes now }, metered.meter⟩
      have hfed := pairwise_replicate_append n h
      rw [← hn] at hfed
      rw [drive]
      dsimp only
      split_ifs
      · exact hexit hfed
      · exact ih _ hfed
    | eof => exact hexit h
    | transportError err => exact hexit h

theorem timely_timeline {timeouts : StreamTimeouts} {started finished : Nat} {inputs : List Input}
    (h : (inputs.filterMap Input.clock? ++ [finished]).Pairwise (· ≤ ·)) :
    ((timeline semantic serde timeouts started inputs).map Prod.fst ++
      [finished]).Pairwise (· ≤ ·) :=
  timely_drive semantic serde inputs ⟨.new () timeouts started, []⟩ [finished] h

end Timeline

end Metered
end Lobster.Server
