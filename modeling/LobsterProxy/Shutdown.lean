import LobsterProxy.Base.Runs
import Mathlib.Algebra.Order.Ring.Int
import Mathlib.Tactic.SplitIfs

/-! The drain of a graceful shutdown, among everything that moves while it waits: signals,
the server future, the requests in flight and the clock. -/

namespace Lobster.Shutdown
open Runs

def inFlightPoll : Nat := 25 * 10 ^ 6

inductive DrainOutcome where
  | connectionsClosed
  | drainTimedOut
  | forced
  deriving DecidableEq, Repr

/-- What the drain looks at. The timers are checked from time to time, so that they run
behind the clock; the clock does not go beyond the instants that can be represented. -/
structure World (instantMax : Nat) where
  signals : Nat
  senderDropped : Bool
  serveResolved : Bool
  requestsInFlight : Int
  now : Nat
  timersAt : Nat
  timers_le : timersAt ≤ now
  now_le : now ≤ instantMax

def armedAt : Nat := 1

namespace World
variable {instantMax : Nat}

def shutdownRequested (world : World instantMax) : Bool := 0 < world.signals || world.senderDropped

def forceRequested (world : World instantMax) : Bool :=
  armedAt < world.signals || world.senderDropped

end World

inductive AwaitBranch where
  | serve
  | shutdownRequested
  deriving DecidableEq

inductive DrainBranch where
  | force
  | connections
  | deadline
  deriving DecidableEq

inductive PollBranch where
  | force
  | sleep
  deriving DecidableEq

/-- Where the drain stands. A select polls its branches one after another and stays pending
when none is ready; the branches that are still to be polled are listed. -/
inductive Stage where
  | entered
  | awaiting (branches : List AwaitBranch)
  | triggered
  | draining (started : Nat) (branches : List DrainBranch)
  | gauging (started : Nat)
  | timing (started : Nat)
  | polling (started wake : Nat) (branches : List PollBranch)
  | returned (started : Option Nat) (outcome : DrainOutcome)
  deriving DecidableEq

structure State (instantMax : Nat) where
  world : World instantMax
  stage : Stage

inductive Event where
  | signal
  | dropSender
  | serveResolves
  | requestStarts
  | requestEnds
  | pass (nanos : Nat)
  | checkTimers (instant : Nat)
  /-- A select without an order of its own starts at either branch. -/
  | poll (second : Bool)

section Steps
variable {instantMax : Nat}

def inOrder {β : Type} (second : Bool) (a b : β) : List β := if second then [b, a] else [a, b]

/-- An instant that cannot be represented is replaced by the start. -/
def deadline (instantMax timeout started : Nat) : Nat :=
  if started + timeout ≤ instantMax then started + timeout else started

/-- One poll of one branch, or what runs between two selects. -/
def Stage.advance (timeout : Nat) (second : Bool) (world : World instantMax) : Stage → Stage
  | entered => if world.signals = 0 then awaiting [] else triggered
  | awaiting [] => awaiting (inOrder second .serve .shutdownRequested)
  | awaiting (.serve :: rest) =>
    if world.serveResolved then returned none .connectionsClosed else awaiting rest
  | awaiting (.shutdownRequested :: rest) =>
    if world.shutdownRequested then triggered else awaiting rest
  | triggered => draining world.now []
  -- this select is biased
  | draining started [] => draining started [.force, .connections, .deadline]
  | draining started (.force :: rest) =>
    if world.forceRequested then returned (some started) .forced else draining started rest
  | draining started (.connections :: rest) =>
    if world.serveResolved then gauging started else draining started rest
  | draining started (.deadline :: rest) =>
    if deadline instantMax timeout started ≤ world.timersAt then
      returned (some started) .drainTimedOut
    else draining started rest
  | gauging started =>
    if world.requestsInFlight ≤ 0 then returned (some started) .connectionsClosed
      else timing started
  | timing started =>
    let remaining := deadline instantMax timeout started - world.now
    if remaining = 0 then returned (some started) .drainTimedOut
    else polling started (world.now + min remaining inFlightPoll) []
  | polling started wake [] => polling started wake (inOrder second .force .sleep)
  | polling started wake (.force :: rest) =>
    if world.forceRequested then returned (some started) .forced else polling started wake rest
  | polling started wake (.sleep :: rest) =>
    if wake ≤ world.timersAt then gauging started else polling started wake rest
  | returned started outcome => returned started outcome

def World.move (event : Event) (world : World instantMax) : World instantMax :=
  match event with
  | .signal => if world.senderDropped then world else { world with signals := world.signals + 1 }
  | .dropSender => { world with senderDropped := true }
  | .serveResolves => { world with serveResolved := true }
  | .requestStarts => { world with requestsInFlight := world.requestsInFlight + 1 }
  | .requestEnds => { world with requestsInFlight := world.requestsInFlight - 1 }
  | .pass nanos => { world with
      now := min (world.now + nanos) instantMax
      timers_le :=
        Nat.le_trans world.timers_le (Nat.le_min.mpr ⟨Nat.le_add_right _ _, world.now_le⟩)
      now_le := Nat.min_le_right _ _ }
  | .checkTimers instant => { world with
      timersAt := max world.timersAt (min instant world.now)
      timers_le := Nat.max_le.mpr ⟨world.timers_le, Nat.min_le_right _ _⟩ }
  | .poll _ => world

/-- The drain moves when it is polled, the rest of the world in between. -/
def step (timeout : Nat) (event : Event) (s : State instantMax) : State instantMax :=
  match event with
  | .poll second => { s with stage := s.stage.advance timeout second s.world }
  | event => { s with world := s.world.move event }

def drainUntilIdle (world : World instantMax) : State instantMax := ⟨world, .entered⟩

def Justified (timeout : Nat) (world : World instantMax) (started : Option Nat) :
    DrainOutcome → Prop
  | .connectionsClosed => world.requestsInFlight ≤ 0
  | .forced => armedAt < world.signals ∨ world.senderDropped = true
  | .drainTimedOut => ∃ start, started = some start ∧ start + timeout ≤ world.now

/-- If the step returns, it does so with an outcome that is justified at its moment. -/
def ReturnsJustified (timeout : Nat) (event : Event) (s : State instantMax) : Prop :=
  ∀ started outcome, s.stage ≠ .returned started outcome →
    (step timeout event s).stage = .returned started outcome →
    Justified timeout s.world started outcome

/-- No request is in flight when the server future wins the race for the first signal, and
a deadline that passes is the start and the timeout. -/
def Unhurried (timeout : Nat) (event : Event) (s : State instantMax) : Prop :=
  match event, s.stage with
  | .poll _, .awaiting (.serve :: _) => s.world.serveResolved = true → s.world.requestsInFlight ≤ 0
  | .poll _, .draining started (.deadline :: _) =>
    deadline instantMax timeout started ≤ s.world.timersAt → started + timeout ≤ instantMax
  | .poll _, .timing started =>
    deadline instantMax timeout started ≤ s.world.now → started + timeout ≤ instantMax
  | _, _ => True

inductive Returns (timeout : Nat) (world : World instantMax) : Stage → Option Nat →
    DrainOutcome → Prop
  | served (rest : List AwaitBranch) (h : world.serveResolved = true) :
      Returns timeout world (.awaiting (.serve :: rest)) none .connectionsClosed
  | forced (started : Nat) (rest : List DrainBranch) (h : world.forceRequested = true) :
      Returns timeout world (.draining started (.force :: rest)) (some started) .forced
  | timedOut (started : Nat) (rest : List DrainBranch)
      (h : deadline instantMax timeout started ≤ world.timersAt) :
      Returns timeout world (.draining started (.deadline :: rest)) (some started) .drainTimedOut
  | idle (started : Nat) (h : world.requestsInFlight ≤ 0) :
      Returns timeout world (.gauging started) (some started) .connectionsClosed
  | late (started : Nat) (h : deadline instantMax timeout started ≤ world.now) :
      Returns timeout world (.timing started) (some started) .drainTimedOut
  | forcedLate (started wake : Nat) (rest : List PollBranch) (h : world.forceRequested = true) :
      Returns timeout world (.polling started wake (.force :: rest)) (some started) .forced

variable {timeout : Nat} {world : World instantMax} {stage : Stage} {started : Option Nat}
    {outcome : DrainOutcome}

theorem returns_of_advance {second : Bool} (hne : stage ≠ .returned started outcome)
    (h : stage.advance timeout second world = .returned started outcome) :
    Returns timeout world stage started outcome := by
  cases stage with
  | entered =>
    unfold Stage.advance at h
    dsimp only at h
    split_ifs at h
  | awaiting branches =>
    cases branches with
    | nil => cases h
    | cons branch rest =>
      unfold Stage.advance at h
      cases branch with
      | serve =>
        dsimp only at h
        split_ifs at h with hresolved
        cases h
        exact .served rest hresolved
      | shutdownRequested =>
        dsimp only at h
        split_ifs at h
  | triggered => cases h
  | draining started branches =>
    cases branches with
    | nil => cases h
    | cons branch rest =>
      unfold Stage.advance at h
      cases branch with
      | force =>
        dsimp only at h
        split_ifs at h with hforce
        cases h
        exact .forced started rest hforce
      | connections =>
        dsimp only at h
        split_ifs at h
      | deadline =>
        dsimp only at h
        split_ifs at h with hpassed
        cases h
        exact .timedOut started rest hpassed
  | gauging started =>
    unfold Stage.advance at h
    dsimp only at h
    split_ifs at h with hidle
    cases h
    exact .idle started hidle
  | timing started =>
    unfold Stage.advance at h
    dsimp only at h
    split_ifs at h with hnone
    cases h
    exact .late started (Nat.sub_eq_zero_iff_le.mp hnone)
  | polling started wake branches =>
    cases branches with
    | nil => cases h
    | cons branch rest =>
      unfold Stage.advance at h
      cases branch with
      | force =>
        dsimp only at h
        split_ifs at h with hforce
        cases h
        exact .forcedLate started wake rest hforce
      | sleep =>
        dsimp only at h
        split_ifs at h
  | returned started outcome =>
    cases h
    exact absurd rfl hne

theorem Returns.advance (h : Returns timeout world stage started outcome) (second : Bool) :
    stage ≠ .returned started outcome ∧ stage.advance timeout second world =
      .returned started outcome := by
  cases h with
  | late started h => exact ⟨nofun, if_pos (Nat.sub_eq_zero_of_le h)⟩
  | _ => exact ⟨nofun, if_pos ‹_›⟩

theorem forced_of_forceRequested (h : world.forceRequested = true) :
    armedAt < world.signals ∨ world.senderDropped = true := by
  rcases Bool.or_eq_true_iff.mp h with hsignals | hdropped
  · exact .inl (of_decide_eq_true hsignals)
  · exact .inr hdropped

/-- A deadline that has passed is the full timeout after the start just when it is an instant
that can be represented. -/
theorem timeout_passed_iff {start instant : Nat}
    (hpassed : deadline instantMax timeout start ≤ instant) (hmax : instant ≤ instantMax) :
    start + timeout ≤ instant ↔ start + timeout ≤ instantMax := by
  refine ⟨fun h => Nat.le_trans h hmax, fun h => ?_⟩
  rw [deadline, if_pos h] at hpassed
  exact hpassed

theorem justified_timedOut_iff {start : Nat}
    (hpassed : deadline instantMax timeout start ≤ world.now) :
    Justified timeout world (some start) .drainTimedOut ↔ start + timeout ≤ instantMax := by
  rw [← timeout_passed_iff hpassed world.now_le]
  refine ⟨?_, fun h => ⟨start, rfl, h⟩⟩
  rintro ⟨_, heq, h⟩
  cases heq
  exact h

theorem returnsJustified_poll (second : Bool) (s : State instantMax) :
    ReturnsJustified timeout (.poll second) s ↔
      ∀ started outcome, Returns timeout s.world s.stage started outcome →
        Justified timeout s.world started outcome := by
  constructor
  · intro h started outcome hreturns
    obtain ⟨hne, hadvance⟩ := hreturns.advance second
    exact h started outcome hne hadvance
  · intro h started outcome hne hadvance
    exact h started outcome (returns_of_advance hne hadvance)

theorem returnsJustified_iff (event : Event) (s : State instantMax) :
    ReturnsJustified timeout event s ↔ Unhurried timeout event s := by
  obtain ⟨world, stage⟩ := s
  cases event with
  | poll second =>
    rw [returnsJustified_poll]
    constructor
    · intro h
      unfold Unhurried
      split
      · next hstage =>
        cases hstage
        exact fun hserved => h none .connectionsClosed (.served _ hserved)
      · next start rest _ hstage =>
        cases hstage
        intro hpassed
        exact (justified_timedOut_iff (Nat.le_trans hpassed world.timers_le)).mp
          (h _ _ (.timedOut start rest hpassed))
      · next start _ hstage =>
        cases hstage
        exact fun hpassed => (justified_timedOut_iff hpassed).mp (h _ _ (.late start hpassed))
      · trivial
    · intro h started outcome hreturns
      cases hreturns with
      | served rest hserved => exact h hserved
      | forced start rest hforced => exact forced_of_forceRequested hforced
      | timedOut start rest hpassed =>
        exact (justified_timedOut_iff (Nat.le_trans hpassed world.timers_le)).mpr (h hpassed)
      | idle start hidle => exact hidle
      | late start hpassed => exact (justified_timedOut_iff hpassed).mpr (h hpassed)
      | forcedLate start wake rest hforced => exact forced_of_forceRequested hforced
  | signal | dropSender | serveResolves | requestStarts | requestEnds | pass _ | checkTimers _ =>
    exact iff_of_true (fun _ _ hne h => absurd h hne) trivial

end Steps

/-- In any order of signals, requests, timers and polls the drain returns what is justified
at its moment exactly when each of its steps is unhurried. -/
theorem drain_justified_iff {instantMax : Nat} (timeout : Nat) (world : World instantMax)
    (events : List Event) :
    Meets (step timeout) (ReturnsJustified timeout) events (drainUntilIdle world) ↔
      Meets (step timeout) (Unhurried timeout) events (drainUntilIdle world) :=
  ⟨fun h => h.imp fun event s => (returnsJustified_iff event s).mp,
    fun h => h.imp fun event s => (returnsJustified_iff event s).mpr⟩

def streaming : World 100 := ⟨0, false, false, 1, 0, 0, Nat.le_refl _, Nat.zero_le _⟩

/-- The first signal also resolves the server future, which is polled first. -/
theorem drain_not_justified :
    ¬ ∀ (instantMax timeout : Nat) (world : World instantMax) (events : List Event),
    Meets (step timeout) (ReturnsJustified timeout) events (drainUntilIdle world) := by
  intro h
  have hmeets := (drain_justified_iff 30 streaming _).mp
    (h 100 30 streaming [.poll false, .signal, .serveResolves, .poll false, .poll false])
  exact absurd (hmeets.2.2.2.2.1 rfl) (by decide)

end Lobster.Shutdown
