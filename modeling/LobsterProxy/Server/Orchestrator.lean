import LobsterProxy.Anthropic.Pump
import LobsterProxy.Anthropic.Request
import LobsterProxy.Base.Runs
import LobsterProxy.Deepseek.Canonical
import LobsterProxy.Responses.Pump
import LobsterProxy.Responses.Request
import LobsterProxy.Server.Shadowing
import LobsterProxy.Upstream.Generate
import Mathlib.Algebra.Order.BigOperators.Group.List

/-! The two request handlers from the body to the end of the answer, and what they count
on the way. -/

namespace Lobster.Server
open Deepseek Shadow Upstream

/-- The counters of the requests; the others are left out. -/
structure Metrics where
  requestsTotal : Nat
  requestsStream : Nat
  requestsOk : Nat
  requestsError : Nat
  requestsInFlight : Int
  streamsInFlight : Int
  deriving DecidableEq, Repr

namespace Metrics

def zero : Metrics := ⟨0, 0, 0, 0, 0, 0⟩

/-- The operations on the shared counters, each of them atomic. The guard of a request in
flight raises the gauges when it is made and lowers them when it is dropped. -/
inductive Update where
  | recordRequest (stream : Bool)
  | recordOk
  | recordError
  | guardNew (stream : Bool)
  | guardDrop (stream : Bool)
  deriving DecidableEq, Repr

def Update.perform : Update → Metrics → Metrics
  | recordRequest stream, m => { m with
      requestsTotal := m.requestsTotal + 1
      requestsStream := m.requestsStream + stream.toNat }
  | recordOk, m => { m with requestsOk := m.requestsOk + 1 }
  | recordError, m => { m with requestsError := m.requestsError + 1 }
  | guardNew stream, m => { m with
      requestsInFlight := m.requestsInFlight + 1
      streamsInFlight := m.streamsInFlight + stream.toNat }
  | guardDrop stream, m => { m with
      requestsInFlight := m.requestsInFlight - 1
      streamsInFlight := m.streamsInFlight - stream.toNat }

def Update.isRequest : Update → Bool
  | recordRequest _ => true
  | _ => false

def Update.isOutcome : Update → Bool
  | recordOk | recordError => true
  | _ => false

def Update.flight : Update → Int
  | guardNew _ => 1
  | guardDrop _ => -1
  | _ => 0

def after (updates : List Update) : Metrics := Runs.run Update.perform updates zero

end Metrics

/-- The endpoint that a request comes to, with the ids that its answer draws. -/
inductive Route where
  | messages (hex : String)
  | responses (hex : Nat → String) (createdAt : UInt64)

/-- One request, and what the world does to it while the client stays connected. -/
structure Exchange where
  route : Route
  authorized : Bool
  received : Except String (List UInt8)
  sessionFp : Option String
  store : ReasoningShadowStore
  clock : Nat → Nat
  pool : Pool
  startedAt : Nat
  turns : List Turn
  pumpStarted : Nat
  inputs : List Input

/-- What the two handlers differ in. The model of a generation goes to the answer. -/
structure Endpoint where
  convertRequest : Json → Conversion (Json × Bool)
  /-- The error that the pump hands to the request summary, once it has ended. -/
  streamError : (model : String) → (exposeThinking : Bool) → (started : Nat) → List Input →
    Option (Option String)
  aggregateError : (model : String) → (exposeThinking : Bool) → (started : Nat) → List Input →
    Option (Option ApiError)

/-- The counter updates of a request so far, and whether it has been handled. -/
structure Handling where
  updates : List Metrics.Update
  completed : Bool

def AggregateRun.error {α : Type} (run : AggregateRun α) : Option (Option ApiError) :=
  run.answer.map fun
    | .error err => some err
    | .ok _ => none

section Handlers
variable (serde : Serde) (jsonError : List UInt8 → String) (hash : String → Fin (2 ^ 64))
    (defaultModel : String)
  (timeouts : StreamTimeouts)

/-- What the parser says of a body that is no JSON is the parameter. -/
def readJsonBody (received : Except String (List UInt8)) : Except ApiError Json :=
  match received with
  | .error err => .error (.invalidRequest s!"failed to read request body: {err}")
  | .ok bytes =>
    match serde.fromSlice bytes with
    | some body => .ok body
    | none => .error (.invalidRequest s!"invalid JSON body: {jsonError bytes}")

def applyPolicy (exchange : Exchange) (chatBody : Json) : Json :=
  match chatBody with
  | .obj fields => .obj (canonicalizeToolArguments serde
      (prepareBody hash serde exchange.clock exchange.sessionFp fields exchange.store).1).1
  | body => body

def accept (stream : Bool) : List Metrics.Update := [.recordRequest stream, .guardNew stream]

/-- The end of an answer drops the guard and counts the outcome: in the tasks of the pump and
of its summary, or one after the other in the handler. -/
def conclude {α : Type} (stream : Bool) (ended : Option (Option α)) : Handling :=
  match ended with
  | none => ⟨accept stream, false⟩
  | some error =>
    ⟨accept stream ++ [.guardDrop stream, if error.isSome then .recordError else .recordOk], true⟩

def answer (endpoint : Endpoint) (exchange : Exchange) (stream thinkingRequested : Bool)
    (generation : StartedGeneration) : Handling :=
  let model := if generation.model = "" then defaultModel else generation.model
  if stream then conclude stream
    (endpoint.streamError model thinkingRequested exchange.pumpStarted exchange.inputs)
  else conclude stream
    (endpoint.aggregateError model thinkingRequested exchange.pumpStarted exchange.inputs)

def handle (endpoint : Endpoint) (exchange : Exchange) : Handling :=
  if !exchange.authorized then ⟨[], true⟩
  else
    match readJsonBody serde jsonError exchange.received with
    | .error _ => ⟨[.recordError], true⟩
    | .ok rawBody =>
      let stream := ((rawBody.get? "stream").bind Json.asBool).getD false
      let failed : Handling := ⟨accept stream ++ [.recordError, .guardDrop stream], true⟩
      match endpoint.convertRequest rawBody with
      | .error _ => failed
      | .ok (chatBody, thinkingRequested) =>
        let generation :=
          Generation.new exchange.sessionFp (applyPolicy serde hash exchange chatBody) defaultModel
          exchange.startedAt
        match (generate serde generation exchange.turns (.new exchange.pool)).ending with
        | none => ⟨accept stream, false⟩
        | some (_, .failed _) => failed
        | some (_, .started generation) =>
          answer defaultModel endpoint exchange stream thinkingRequested generation

def Route.endpoint : Route → Endpoint
  | messages hex => {
      convertRequest := fun body => do
        let converted ← Anthropic.convertRequest serde defaultModel body
        return (converted.chatBody, converted.thinkingRequested)
      streamError := fun _ expose started inputs =>
        (Anthropic.StreamPump.streamResponse serde hex expose timeouts started inputs).terminal
      aggregateError := fun _ expose started inputs =>
        (Anthropic.StreamPump.aggregateResponse serde hex expose timeouts started inputs).error }
  | responses hex createdAt => {
      convertRequest := fun body => do
        let converted ← Responses.convertRequest defaultModel body
        return (converted.chatBody, converted.thinkingRequested)
      streamError := fun model expose started inputs =>
        (Responses.ResponsesPump.responsesStreamResponse serde hex createdAt model expose
          timeouts started
          inputs).terminal
      aggregateError := fun model expose started inputs =>
        (Responses.ResponsesPump.aggregateResponses serde hex createdAt model expose timeouts
          started inputs).error }

def Exchange.handled (exchange : Exchange) : Handling :=
  handle serde jsonError hash defaultModel (exchange.route.endpoint serde defaultModel timeouts)
    exchange

end Handlers

namespace Metrics

theorem after_append (updates more : List Update) : after (updates ++ more) =
    Runs.run Update.perform more (after updates) := Runs.run_append

theorem after_counts (updates : List Update) :
    (after updates).requestsTotal = updates.countP Update.isRequest ∧
      (after updates).requestsOk + (after updates).requestsError = updates.countP Update.isOutcome ∧
      (after updates).requestsInFlight = (updates.map Update.flight).sum := by
  induction updates using List.reverseRecOn with
  | nil => exact ⟨rfl, rfl, rfl⟩
  | append_singleton updates update ih =>
    obtain ⟨htotal, houtcomes, hflight⟩ := ih
    rw [after_append, Runs.run_cons, Runs.run_nil, List.countP_append, List.countP_append,
      List.map_append, List.sum_append, ← htotal, ← houtcomes, ← hflight]
    cases update with
    | recordError => exact ⟨rfl, (Nat.add_assoc _ _ _).symm, (add_zero _).symm⟩
    | recordOk => exact ⟨rfl, Nat.add_right_comm _ _ _, (add_zero _).symm⟩
    | recordRequest => exact ⟨rfl, rfl, (add_zero _).symm⟩
    | guardNew | guardDrop =>
      exact ⟨rfl, rfl, by simp [Update.perform, Update.flight, sub_eq_add_neg]⟩

end Metrics

section Accounting
open Metrics
variable (serde : Serde) (jsonError : List UInt8 → String) (hash : String → Fin (2 ^ 64))
    (defaultModel : String)
  (timeouts : StreamTimeouts)

def Exchange.readable (exchange : Exchange) : Bool :=
  (readJsonBody serde jsonError exchange.received).toBool

structure Handling.Counts (handling : Handling) (accepted : Bool) : Prop where
  requests : handling.updates.countP Update.isRequest = accepted.toNat
  outcomes : handling.updates.countP Update.isOutcome = 1
  flight : (handling.updates.map Update.flight).sum = 0

theorem counts_conclude {α : Type} {stream : Bool} {ended : Option (Option α)}
    (h : (conclude stream ended).completed = true) : (conclude stream ended).Counts true := by
  cases ended with
  | none => cases h
  | some error => cases error <;> exact ⟨rfl, rfl, rfl⟩

theorem counts_answer {endpoint : Endpoint} {exchange : Exchange} {stream thinkingRequested : Bool}
    {generation : StartedGeneration}
    (h : (answer defaultModel endpoint exchange stream
      thinkingRequested generation).completed = true) :
    (answer defaultModel endpoint exchange stream thinkingRequested generation).Counts true := by
  unfold answer at h ⊢
  dsimp only at h ⊢
  split_ifs at h ⊢ <;> exact counts_conclude h

theorem counts_handle {endpoint : Endpoint} {exchange : Exchange}
    (hauthorized : exchange.authorized = true)
    (h : (handle serde jsonError hash defaultModel endpoint exchange).completed = true) :
    (handle serde jsonError hash defaultModel endpoint exchange).Counts
      (exchange.readable serde jsonError) := by
  have hfailed (stream : Bool) :
      Handling.Counts ⟨accept stream ++ [.recordError, .guardDrop stream], true⟩ true :=
        ⟨rfl, rfl, rfl⟩
  unfold handle at h ⊢
  unfold Exchange.readable
  rw [if_neg (by rw [hauthorized]; exact Bool.false_ne_true)] at h ⊢
  cases hbody : readJsonBody serde jsonError exchange.received with
  | error err => exact ⟨rfl, rfl, rfl⟩
  | ok rawBody =>
    rw [hbody] at h
    dsimp only at h ⊢
    cases hconverted : endpoint.convertRequest rawBody with
    | error err => exact hfailed _
    | ok converted =>
      rw [hconverted] at h
      dsimp only at h ⊢
      split at h
      · cases h
      · exact hfailed _
      · exact counts_answer defaultModel h

theorem handled_cases {exchange : Exchange}
    (h : (exchange.handled serde jsonError hash defaultModel timeouts).completed = true) :
    exchange.authorized = false ∧
    (exchange.handled serde jsonError hash defaultModel timeouts).updates = [] ∨
      exchange.authorized = true ∧
      (exchange.handled serde jsonError hash defaultModel timeouts).Counts
        (exchange.readable serde jsonError) := by
  cases hauthorized : exchange.authorized with
  | false =>
    refine .inl ⟨rfl, ?_⟩
    unfold Exchange.handled handle
    rw [hauthorized]
    rfl
  | true => exact .inr ⟨rfl, counts_handle serde jsonError hash defaultModel hauthorized h⟩

theorem sum_map_eq_iff {α : Type} {xs : List α} {f g : α → Nat} (h : ∀ x ∈ xs, f x ≤ g x) :
    (xs.map f).sum = (xs.map g).sum ↔ ∀ x ∈ xs, f x = g x := by
  induction xs with
  | nil => simp
  | cons x xs ih =>
    obtain ⟨hx, hxs⟩ := List.forall_mem_cons.mp h
    have hsum : (xs.map f).sum ≤ (xs.map g).sum := List.sum_le_sum hxs
    rw [List.map_cons, List.map_cons, List.sum_cons, List.sum_cons, List.forall_mem_cons, ← ih hxs]
    omega

/-- The requests add up to the outcomes, of which every accepted request has added one. -/
structure Balanced (exchanges : List Exchange) (updates : List Update) : Prop where
  total : (after updates).requestsTotal = (after updates).requestsOk + (after updates).requestsError
  outcomes : ∀ exchange ∈ exchanges, exchange.authorized = true →
    (exchange.handled serde jsonError hash defaultModel timeouts).updates.countP
      Update.isOutcome = 1

/-- When every request has been handled, in whatever order their updates interleave, none is
in flight, and the accounts balance exactly when every accepted request had a body that could
be read. -/
theorem balanced_iff (exchanges : List Exchange) (updates : List Update)
    (hcompleted : ∀ exchange ∈ exchanges,
      (exchange.handled serde jsonError hash defaultModel timeouts).completed = true)
    (hinterleaved : updates.Perm (exchanges.flatMap fun exchange =>
      (exchange.handled serde jsonError hash defaultModel timeouts).updates)) :
    (after updates).requestsInFlight = 0 ∧
      (Balanced serde jsonError hash defaultModel timeouts exchanges updates ↔
        ∀ exchange ∈ exchanges, exchange.authorized = true →
          exchange.readable serde jsonError = true) := by
  obtain ⟨htotal, houtcomes, hflight⟩ := after_counts updates
  have hcases :=
    fun exchange hmem => handled_cases serde jsonError hash defaultModel timeouts
      (hcompleted exchange hmem)
  constructor
  · rw [hflight, (hinterleaved.map _).sum_eq, List.map_flatMap, List.flatMap_def, List.sum_flatten,
      List.map_map]
    refine List.sum_eq_zero fun total htotal => ?_
    obtain ⟨exchange, hmem, rfl⟩ := List.mem_map.mp htotal
    rcases hcases exchange hmem with ⟨-, hnone⟩ | ⟨-, hcounts⟩
    · rw [Function.comp, hnone]
      rfl
    · exact hcounts.flight
  · have hbalance : (after updates).requestsTotal =
        (after updates).requestsOk + (after updates).requestsError ↔
        ∀ exchange ∈ exchanges, exchange.authorized = true →
          exchange.readable serde jsonError = true := by
      rw [htotal, houtcomes, hinterleaved.countP_eq, hinterleaved.countP_eq, List.countP_flatMap,
        List.countP_flatMap, sum_map_eq_iff]
      · refine forall₂_congr fun exchange hmem => ?_
        rcases hcases exchange hmem with ⟨hauthorized, hnone⟩ | ⟨hauthorized, hcounts⟩
        · rw [Function.comp, Function.comp, hnone, hauthorized]
          simp
        · rw [Function.comp, Function.comp, hcounts.requests, hcounts.outcomes, hauthorized]
          simp
      · intro exchange hmem
        rcases hcases exchange hmem with ⟨-, hnone⟩ | ⟨-, hcounts⟩
        · rw [Function.comp, Function.comp, hnone]
          exact Nat.le_refl _
        · rw [Function.comp, Function.comp, hcounts.requests, hcounts.outcomes]
          exact Bool.toNat_le _
    refine ⟨fun h => hbalance.mp h.total,
      fun h => ⟨hbalance.mpr h, fun exchange hmem hauthorized => ?_⟩⟩
    rcases hcases exchange hmem with ⟨hnot, -⟩ | ⟨-, hcounts⟩
    · rw [hauthorized] at hnot
      cases hnot
    · exact hcounts.outcomes

end Accounting

section Cases
open Metrics

def posted (received : Except String (List UInt8)) : Exchange :=
  ⟨.messages "m", true, received, none, .new ⟨4, 64, 16, 600⟩, fun _ => 0,
  .new ⟨60, 2, 60, 3600, 60⟩, 0, [], 0, []⟩

def noTimeouts : StreamTimeouts := ⟨0, 0, 0, 0⟩

theorem balanced_iff_twoRequests :
    (after [.recordRequest false, .recordRequest false, .guardNew false, .recordError,
      .guardNew false,
      .recordError, .guardDrop false, .guardDrop false]).requestsInFlight = 0 ∧
    Balanced .emptyObject (fun _ => "") (fun _ => 0) "m" noTimeouts
      [posted (.ok [123, 125]), posted (.ok [123, 125])]
      [.recordRequest false, .recordRequest false, .guardNew false, .recordError, .guardNew false,
        .recordError, .guardDrop false, .guardDrop false] := by
  have hiff := balanced_iff .emptyObject (fun _ => "") (fun _ => 0) "m" noTimeouts
    [posted (.ok [123, 125]), posted (.ok [123, 125])]
    [.recordRequest false, .recordRequest false, .guardNew false, .recordError, .guardNew false,
      .recordError, .guardDrop false, .guardDrop false] (by decide) (by decide)
  exact ⟨hiff.1, hiff.2.mpr (by decide)⟩

/-- A body that is no JSON counts as an error of no request. -/
theorem not_balanced :
    ¬ ∀ (serde : Serde) (jsonError : List UInt8 → String) (hash : String → Fin (2 ^ 64))
    (defaultModel : String) (timeouts : StreamTimeouts) (exchanges : List Exchange)
      (updates : List Update),
    (∀ exchange ∈ exchanges,
      (exchange.handled serde jsonError hash defaultModel timeouts).completed = true) →
    updates.Perm (exchanges.flatMap fun exchange =>
      (exchange.handled serde jsonError hash defaultModel timeouts).updates) →
    Balanced serde jsonError hash defaultModel timeouts exchanges updates := by
  intro h
  have htotal :=
    (h ⟨fun _ => "", fun _ => none, fun _ => none⟩ (fun _ => "") (fun _ => 0) "m" noTimeouts
    [posted (.ok [123])] [.recordError] (by decide) (by decide)).total
  exact absurd htotal (by decide)

end Cases
end Lobster.Server
