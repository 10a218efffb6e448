import LobsterProxy.Observability.Histogram
import LobsterProxy.Server.Watch
import Mathlib.Algebra.BigOperators.Group.List.Basic

/-! The counters of the process, and the log of what was recorded: whatever is recorded in
whatever order, the counters hold the totals of the log. -/

namespace Lobster.Observability
open Server

/-- The fields of the counters, one of them for each kind of stall. -/
inductive Counter where
  | requestsTotal | requestsStream | requestsOk | requestsError
  | upstream401 | upstream403 | upstream429 | upstream5xx | upstream200Error
  | webSearchToolCalls | webSearchErrors | serverToolRounds | mixedToolRounds | pauseTurnEvents
  | countTokensRequests | modelDiscoveryRequests | transportErrors
  | refreshSuccess | refreshFailure | failovers
  | bytesIn | bytesOut
  | inputTokensTotal | outputTokensTotal | cachedTokensTotal
  | streamStalls (kind : StallKind)
  deriving DecidableEq, Repr

inductive Latency where
  | requestDuration | ttft | firstReasoning | firstText | firstTool
  deriving DecidableEq, Repr

structure RequestSummary where
  durationMs : Millis
  ttftMs : Option Millis
  firstReasoningMs : Option Millis
  firstTextMs : Option Millis
  firstToolMs : Option Millis
  deriving DecidableEq, Repr

structure Metrics where
  counters : Counter → UInt64
  requestsInFlight : Int64
  streamsInFlight : Int64
  latencies : Latency → Histogram

namespace Metrics

def new : Metrics := ⟨fun _ => 0, 0, 0, fun _ => Histogram.new⟩

def fetchAdd (c : Counter) (n : UInt64) (m : Metrics) : Metrics :=
  { m with counters := Function.update m.counters c (m.counters c + n) }

def observe (l : Latency) (millis : Millis) (m : Metrics) : Metrics :=
  { m with latencies := Function.update m.latencies l ((m.latencies l).observeMs millis) }

def recordRequest (stream : Bool) (m : Metrics) : Metrics :=
  let m := m.fetchAdd .requestsTotal 1
  if stream then m.fetchAdd .requestsStream 1 else m

def recordOk : Metrics → Metrics := fetchAdd .requestsOk 1

def recordError : Metrics → Metrics := fetchAdd .requestsError 1

def recordUpstream401 : Metrics → Metrics := fetchAdd .upstream401 1

def recordUpstream403 : Metrics → Metrics := fetchAdd .upstream403 1

def recordUpstream429 : Metrics → Metrics := fetchAdd .upstream429 1

def recordUpstream200Error : Metrics → Metrics := fetchAdd .upstream200Error 1

def recordUpstream5xx : Metrics → Metrics := fetchAdd .upstream5xx 1

def recordTransportError : Metrics → Metrics := fetchAdd .transportErrors 1

def recordRefresh (success : Bool) : Metrics → Metrics :=
  if success then fetchAdd .refreshSuccess 1 else fetchAdd .refreshFailure 1

def recordWebSearch : Metrics → Metrics := fetchAdd .webSearchToolCalls 1

def recordWebSearchError : Metrics → Metrics := fetchAdd .webSearchErrors 1

def recordServerToolRound : Metrics → Metrics := fetchAdd .serverToolRounds 1

def recordMixedToolRound : Metrics → Metrics := fetchAdd .mixedToolRounds 1

def recordPauseTurn : Metrics → Metrics := fetchAdd .pauseTurnEvents 1

def recordCountTokens : Metrics → Metrics := fetchAdd .countTokensRequests 1

def recordModelDiscovery : Metrics → Metrics := fetchAdd .modelDiscoveryRequests 1

def recordFailover (count : UInt32) : Metrics → Metrics := fetchAdd .failovers count.toUInt64

def recordBytesIn (n : UInt64) : Metrics → Metrics := fetchAdd .bytesIn n

def recordBytesOut (n : UInt64) : Metrics → Metrics := fetchAdd .bytesOut n

def recordStreamStall (kind : StallKind) : Metrics → Metrics := fetchAdd (.streamStalls kind) 1

/-- Counts that were not reported are not counted. -/
def recordTokens (input output cached : Option UInt64) (m : Metrics) : Metrics :=
  let m := match input with
    | some n => m.fetchAdd .inputTokensTotal n
    | none => m
  let m := match output with
    | some n => m.fetchAdd .outputTokensTotal n
    | none => m
  match cached with
  | some n => m.fetchAdd .cachedTokensTotal n
  | none => m

def observeSome (l : Latency) (millis : Option Millis) (m : Metrics) : Metrics :=
  match millis with
  | some millis => m.observe l millis
  | none => m

def recordLatencies (summary : RequestSummary) (m : Metrics) : Metrics :=
  let m := m.observe .requestDuration summary.durationMs
  let m := m.observeSome .ttft summary.ttftMs
  let m := m.observeSome .firstReasoning summary.firstReasoningMs
  let m := m.observeSome .firstText summary.firstTextMs
  m.observeSome .firstTool summary.firstToolMs

/-- The guard of a request in flight, when it is made and when it is dropped. -/
def guardNew (stream : Bool) (m : Metrics) : Metrics :=
  let m := { m with requestsInFlight := m.requestsInFlight + 1 }
  if stream then { m with streamsInFlight := m.streamsInFlight + 1 } else m

def guardDrop (stream : Bool) (m : Metrics) : Metrics :=
  let m := { m with requestsInFlight := m.requestsInFlight - 1 }
  if stream then { m with streamsInFlight := m.streamsInFlight - 1 } else m

end Metrics

/-- The recording calls, each atomic for the counters that it changes. -/
inductive Entry where
  | request (stream : Bool)
  | ok
  | error
  | upstream401
  | upstream403
  | upstream429
  | upstream200Error
  | upstream5xx
  | transportError
  | refresh (success : Bool)
  | webSearch
  | webSearchError
  | serverToolRound
  | mixedToolRound
  | pauseTurn
  | countTokens
  | modelDiscovery
  | failover (count : UInt32)
  | bytesIn (n : UInt64)
  | bytesOut (n : UInt64)
  | streamStall (kind : StallKind)
  | tokens (input output cached : Option UInt64)
  | latencies (summary : RequestSummary)
  | duration (millis : Millis)
  | guardNew (stream : Bool)
  | guardDrop (stream : Bool)
  deriving DecidableEq, Repr

namespace Entry

def perform : Entry → Metrics → Metrics
  | request stream => .recordRequest stream
  | ok => .recordOk
  | error => .recordError
  | upstream401 => .recordUpstream401
  | upstream403 => .recordUpstream403
  | upstream429 => .recordUpstream429
  | upstream200Error => .recordUpstream200Error
  | upstream5xx => .recordUpstream5xx
  | transportError => .recordTransportError
  | refresh success => .recordRefresh success
  | webSearch => .recordWebSearch
  | webSearchError => .recordWebSearchError
  | serverToolRound => .recordServerToolRound
  | mixedToolRound => .recordMixedToolRound
  | pauseTurn => .recordPauseTurn
  | countTokens => .recordCountTokens
  | modelDiscovery => .recordModelDiscovery
  | failover count => .recordFailover count
  | bytesIn n => .recordBytesIn n
  | bytesOut n => .recordBytesOut n
  | streamStall kind => .recordStreamStall kind
  | tokens input output cached => .recordTokens input output cached
  | latencies summary => .recordLatencies summary
  | duration millis => .observe .requestDuration millis
  | guardNew stream => .guardNew stream
  | guardDrop stream => .guardDrop stream

def increments : Entry → List (Counter × ℕ)
  | request stream => (.requestsTotal, 1) :: if stream then [(.requestsStream, 1)] else []
  | ok => [(.requestsOk, 1)]
  | error => [(.requestsError, 1)]
  | upstream401 => [(.upstream401, 1)]
  | upstream403 => [(.upstream403, 1)]
  | upstream429 => [(.upstream429, 1)]
  | upstream200Error => [(.upstream200Error, 1)]
  | upstream5xx => [(.upstream5xx, 1)]
  | transportError => [(.transportErrors, 1)]
  | refresh success => [(if success then .refreshSuccess else .refreshFailure, 1)]
  | webSearch => [(.webSearchToolCalls, 1)]
  | webSearchError => [(.webSearchErrors, 1)]
  | serverToolRound => [(.serverToolRounds, 1)]
  | mixedToolRound => [(.mixedToolRounds, 1)]
  | pauseTurn => [(.pauseTurnEvents, 1)]
  | countTokens => [(.countTokensRequests, 1)]
  | modelDiscovery => [(.modelDiscoveryRequests, 1)]
  | failover count => [(.failovers, count.toNat)]
  | bytesIn n => [(.bytesIn, n.toNat)]
  | bytesOut n => [(.bytesOut, n.toNat)]
  | streamStall kind => [(.streamStalls kind, 1)]
  | tokens input output cached =>
    input.toList.map (fun n => (.inputTokensTotal, n.toNat)) ++
      output.toList.map (fun n => (.outputTokensTotal, n.toNat)) ++
      cached.toList.map (fun n => (.cachedTokensTotal, n.toNat))
  | latencies _ | duration _ | guardNew _ | guardDrop _ => []

def observations : Entry → List (Latency × Millis)
  | latencies summary =>
    (.requestDuration, summary.durationMs) :: (summary.ttftMs.toList.map (fun ms => (.ttft, ms)) ++
      summary.firstReasoningMs.toList.map (fun ms => (.firstReasoning, ms)) ++
      summary.firstTextMs.toList.map (fun ms => (.firstText, ms)) ++
      summary.firstToolMs.toList.map (fun ms => (.firstTool, ms)))
  | duration millis => [(.requestDuration, millis)]
  | _ => []

/-- What an entry does to the number of requests in flight, or of streams among them. -/
def flight (counts : Bool → Bool) : Entry → ℤ
  | guardNew stream => (counts stream).toInt
  | guardDrop stream => -(counts stream).toInt
  | _ => 0

def adds (c : Counter) (e : Entry) : ℕ := (e.increments.map fun p => if p.1 = c then p.2 else 0).sum

def observed (l : Latency) (e : Entry) : List Millis :=
  e.observations.flatMap fun p => if p.1 = l then [p.2] else []

end Entry

section Step
variable (m : Metrics)

theorem fetchAdd_counters (c c' : Counter) (n : UInt64) :
    (m.fetchAdd c n).counters c' = m.counters c' + if c = c' then n else 0 := by
  unfold Metrics.fetchAdd
  by_cases h : c = c'
  · subst h
    rw [if_pos rfl]
    exact Function.update_self ..
  · rw [if_neg h, UInt64.add_zero]
    exact Function.update_of_ne (Ne.symm h) ..

theorem observe_latencies (l l' : Latency) (millis : Millis) : (m.observe l millis).latencies l' =
    Runs.run Histogram.observeMs (if l = l' then [millis] else []) (m.latencies l') := by
  unfold Metrics.observe
  by_cases h : l = l'
  · subst h
    rw [if_pos rfl]
    exact Function.update_self ..
  · rw [if_neg h]
    exact Function.update_of_ne (Ne.symm h) ..

def addAll (increments : List (Counter × ℕ)) : Metrics → Metrics :=
  Runs.run (fun p => Metrics.fetchAdd p.1 (UInt64.ofNat p.2)) increments

def observeAll (observations : List (Latency × Millis)) : Metrics → Metrics :=
  Runs.run (fun p => Metrics.observe p.1 p.2) observations

theorem addAll_counters (increments : List (Counter × ℕ)) (c : Counter) :
    (addAll increments m).counters c =
    m.counters c + UInt64.ofNat (increments.map fun p => if p.1 = c then p.2 else 0).sum := by
  induction increments generalizing m with
  | nil => exact (UInt64.add_zero _).symm
  | cons p increments ih =>
    have hzero : UInt64.ofNat 0 = 0 := rfl
    unfold addAll at ih ⊢
    rw [Runs.run_cons, ih, fetchAdd_counters, List.map_cons, List.sum_cons, UInt64.ofNat_add,
      UInt64.add_assoc, apply_ite UInt64.ofNat, hzero]

theorem observeAll_latencies (observations : List (Latency × Millis)) (l : Latency) :
    (observeAll observations m).latencies l = Runs.run Histogram.observeMs
      (observations.flatMap fun p => if p.1 = l then [p.2] else []) (m.latencies l) := by
  induction observations generalizing m with
  | nil => rfl
  | cons p observations ih =>
    unfold observeAll at ih ⊢
    rw [Runs.run_cons, ih, observe_latencies, List.flatMap_cons, Runs.run_append]

theorem perform_counters (e : Entry) (c : Counter) :
    (e.perform m).counters c = m.counters c + UInt64.ofNat (e.adds c) := by
  have hsame : (e.perform m).counters = (addAll e.increments m).counters := by
    cases e with
    | request stream => cases stream <;> rfl
    | refresh success => cases success <;> rfl
    | tokens input output cached =>
      cases input <;> cases output <;> cases cached <;>
        simp [Entry.perform, Entry.increments, Metrics.recordTokens, addAll]
    | latencies summary =>
      obtain ⟨duration, ttft, reasoning, text, tool⟩ := summary
      cases ttft <;> cases reasoning <;> cases text <;> cases tool <;> rfl
    | guardNew stream => cases stream <;> rfl
    | guardDrop stream => cases stream <;> rfl
    | failover count | bytesIn count | bytesOut count =>
      simp [Entry.perform, Entry.increments, Metrics.recordFailover, Metrics.recordBytesIn,
        Metrics.recordBytesOut, addAll]
    | _ => rfl
  rw [hsame, addAll_counters]
  rfl

theorem perform_latencies (e : Entry) (l : Latency) :
    (e.perform m).latencies l = Runs.run Histogram.observeMs (e.observed l) (m.latencies l) := by
  have hsame : (e.perform m).latencies = (observeAll e.observations m).latencies := by
    cases e with
    | request stream => cases stream <;> rfl
    | refresh success => cases success <;> rfl
    | tokens input output cached => cases input <;> cases output <;> cases cached <;> rfl
    | latencies summary =>
      obtain ⟨duration, ttft, reasoning, text, tool⟩ := summary
      cases ttft <;> cases reasoning <;> cases text <;> cases tool <;> rfl
    | guardNew stream => cases stream <;> rfl
    | guardDrop stream => cases stream <;> rfl
    | _ => rfl
  rw [hsame, observeAll_latencies]
  rfl

theorem perform_flight (e : Entry) :
    (e.perform m).requestsInFlight = m.requestsInFlight + Int64.ofInt (e.flight fun _ => true) ∧
      (e.perform m).streamsInFlight = m.streamsInFlight + Int64.ofInt (e.flight id) := by
  have hzero : ∀ n : Int64, n = n + Int64.ofInt 0 := fun n => (Int64.add_zero n).symm
  have hone : ∀ n : Int64, n - 1 = n + Int64.ofInt (-1) := fun n => Int64.sub_eq_add_neg n 1
  cases e with
  | request stream => cases stream <;> exact ⟨hzero _, hzero _⟩
  | refresh success => cases success <;> exact ⟨hzero _, hzero _⟩
  | tokens input output cached =>
    cases input <;> cases output <;> cases cached <;> exact ⟨hzero _, hzero _⟩
  | latencies summary =>
    obtain ⟨duration, ttft, reasoning, text, tool⟩ := summary
    cases ttft <;> cases reasoning <;> cases text <;> cases tool <;> exact ⟨hzero _, hzero _⟩
  | guardNew stream =>
    cases stream
    · exact ⟨rfl, hzero _⟩
    · exact ⟨rfl, rfl⟩
  | guardDrop stream =>
    cases stream
    · exact ⟨hone _, hzero _⟩
    · exact ⟨hone _, hone _⟩
  | _ => exact ⟨hzero _, hzero _⟩

end Step

section Log

def total (log : List Entry) (c : Counter) : ℕ := (log.map (Entry.adds c)).sum

def inFlight (counts : Bool → Bool) (log : List Entry) : ℤ := (log.map (Entry.flight counts)).sum

def observedIn (log : List Entry) (l : Latency) : List Millis := log.flatMap (Entry.observed l)

theorem total_append (log : List Entry) (e : Entry) (c : Counter) :
    total (log ++ [e]) c = total log c + e.adds c := by
  simp [total]

theorem inFlight_append (counts : Bool → Bool) (log : List Entry) (e : Entry) :
    inFlight counts (log ++ [e]) = inFlight counts log + e.flight counts := by simp [inFlight]

def Metrics.ofLog (log : List Entry) : Metrics :=
  ⟨fun c => UInt64.ofNat (total log c), Int64.ofInt (inFlight (fun _ => true) log),
  Int64.ofInt (inFlight id log),
    fun l => Histogram.ofObservations (observedIn log l)⟩

theorem perform_ofLog (log : List Entry) (e : Entry) :
    e.perform (.ofLog log) = .ofLog (log ++ [e]) := by
  have hobserved (l : Latency) : observedIn (log ++ [e]) l = observedIn log l ++ e.observed l := by
    simp [observedIn]
  have hcounters := perform_counters (.ofLog log) e
  have hlatencies := perform_latencies (.ofLog log) e
  obtain ⟨hrequests, hstreams⟩ := perform_flight (.ofLog log) e
  generalize e.perform (.ofLog log) = m at hcounters hlatencies hrequests hstreams
  obtain ⟨counters, requests, streams, latencies⟩ := m
  unfold Metrics.ofLog at hcounters hlatencies hrequests hstreams ⊢
  dsimp only at hcounters hlatencies hrequests hstreams
  rw [Metrics.mk.injEq]
  refine ⟨funext fun c => ?_, ?_, ?_, funext fun l => ?_⟩
  · rw [hcounters, total_append, UInt64.ofNat_add]
  · rw [hrequests, inFlight_append, Int64.ofInt_add]
  · rw [hstreams, inFlight_append, Int64.ofInt_add]
  · rw [hlatencies, hobserved, Runs.run_accumulates _ Histogram.observeMs_ofObservations]

/-- Whatever was recorded, the metrics hold its totals. -/
theorem run_perform (log : List Entry) : Runs.run Entry.perform log .new = .ofLog log := by
  have hnew : Metrics.new = .ofLog [] := by
    unfold Metrics.new Metrics.ofLog
    rw [Histogram.new_eq]
    rfl
  rw [hnew, Runs.run_accumulates _ perform_ofLog, List.nil_append]

end Log

end Lobster.Observability
