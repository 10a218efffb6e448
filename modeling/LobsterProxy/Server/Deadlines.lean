import LobsterProxy.Base.Runs
import LobsterProxy.Server.Pump

/-! The deadline that the loops sleep to, against the check that they make when they wake. An
instant that lies beyond the last one that can be represented is a panic. -/

namespace Lobster.Server

/-- A timer that fires once the timeout has passed. -/
structure Timer where
  since : Nat
  timeout : Nat
  deriving DecidableEq, Repr

namespace Timer

def deadline (timer : Timer) : Nat := timer.since + timer.timeout

def earliest (far : Nat) (timers : List Timer) : Nat := (timers.map deadline).foldl min far

theorem earliest_append (far : Nat) (timers more : List Timer) :
    earliest far (timers ++ more) = earliest (earliest far timers) more := by
  unfold earliest
  rw [List.map_append, List.foldl_append]

theorem earliest_le_iff {far now : Nat} {timers : List Timer} :
    earliest far timers ≤ now ↔ far ≤ now ∨ ∃ timer ∈ timers, timer.deadline ≤ now := by
  unfold earliest
  induction timers generalizing far with
  | nil => simp
  | cons timer timers ih =>
    rw [List.map_cons, List.foldl_cons, ih, min_le_iff, or_assoc]
    simp

end Timer

def year : Nat := 60 * 60 * 24 * 365 * 10 ^ 9

namespace StreamTimeouts

def fromSecs (firstEvent firstSemantic streamIdle semanticIdle : Nat) : StreamTimeouts :=
  ⟨firstEvent * 10 ^ 9, firstSemantic * 10 ^ 9, streamIdle * 10 ^ 9, semanticIdle * 10 ^ 9⟩

end StreamTimeouts

namespace StreamWatch

/-- `Instant + Duration`. -/
def plus (instantMax instant duration : Nat) : Option Nat :=
  if instant + duration ≤ instantMax then some (instant + duration) else none

def arm? (instantMax : Nat) (held : Bool) (since timeout deadline : Nat) : Option Nat :=
  if held && timeout ≠ 0 then (plus instantMax since timeout).map (min deadline) else some deadline

/-- `next_deadline` among the instants that there are; `none` is a panic. -/
def nextDeadline? (instantMax : Nat) (w : StreamWatch) : Option Nat := do
  let far ← plus instantMax w.started year
  let deadline ← arm? instantMax (!w.gotFirstEvent) w.started w.timeouts.firstEvent far
  let deadline ← arm? instantMax (!w.gotFirstSemantic) w.started w.timeouts.firstSemantic deadline
  let deadline ← arm? instantMax true w.lastByte w.timeouts.streamIdle deadline
  arm? instantMax w.gotFirstSemantic w.lastSemantic w.timeouts.semanticIdle deadline

def timer? (held : Bool) (since timeout : Nat) : List Timer :=
  if held && timeout ≠ 0 then [⟨since, timeout⟩] else []

def armed (w : StreamWatch) : List Timer :=
  timer? (!w.gotFirstEvent) w.started w.timeouts.firstEvent ++
    (timer? (!w.gotFirstSemantic) w.started w.timeouts.firstSemantic ++
      (timer? true w.lastByte w.timeouts.streamIdle ++
        timer? w.gotFirstSemantic w.lastSemantic w.timeouts.semanticIdle))

/-- The earliest deadline is within a year of the start, if any timer is armed. -/
def Near (w : StreamWatch) : Prop :=
  w.armed ≠ [] → ∃ timer ∈ w.armed, timer.deadline ≤ w.started + year

instance (w : StreamWatch) : Decidable w.Near := inferInstanceAs (Decidable (_ → _))

/-- The year and every armed timer end at instants that there are. -/
def Representable (instantMax : Nat) (w : StreamWatch) : Prop :=
  w.started + year ≤ instantMax ∧ ∀ timer ∈ w.armed, timer.deadline ≤ instantMax

/-- A stall is reported from the deadline on, and not before it. -/
def Agrees (instantMax : Nat) (w : StreamWatch) : Prop :=
  ∃ deadline, w.nextDeadline? instantMax = some deadline ∧
    ∀ now, (w.check now).isSome = true ↔ w.armed ≠ [] ∧ deadline ≤ now

section Check
variable {instantMax : Nat} {w : StreamWatch} {now deadline : Nat} {held : Bool}
    {since timeout : Nat}

theorem exists_timer_iff :
    (∃ timer ∈ timer? held since timeout, timer.deadline ≤ now) ↔
      (held && fires timeout since now) = true := by
  unfold timer? fires Timer.deadline
  cases held with
  | false => simp
  | true =>
    by_cases hzero : timeout = 0
    · simp [hzero]
    · simp only [Bool.true_and, ne_eq, hzero, not_false_eq_true, decide_true, if_true,
        List.mem_singleton, exists_eq_left, decide_eq_true_eq]
      omega

theorem check_isSome_iff :
    (w.check now).isSome = true ↔ ∃ timer ∈ w.armed, timer.deadline ≤ now := by
  unfold armed
  simp only [List.mem_append, or_and_right, exists_or, exists_timer_iff, Bool.true_and]
  unfold check
  split_ifs with hevent hsemantic hidle hsilent
  · simp [hevent]
  · simp [hsemantic]
  · simp [hidle]
  · simp [hsilent]
  · simp [hevent, hsemantic, hidle, hsilent]

theorem earliest_timer? (held : Bool) (since timeout far : Nat) :
    Timer.earliest far (timer? held since timeout) =
    if held && timeout ≠ 0 then min far (since + timeout) else far := by
  unfold timer?
  split_ifs <;> rfl

theorem nextDeadline_eq (w : StreamWatch) :
    w.nextDeadline = Timer.earliest (w.started + year) w.armed := by
  unfold armed
  rw [Timer.earliest_append, Timer.earliest_append, Timer.earliest_append, earliest_timer?,
    earliest_timer?, earliest_timer?, earliest_timer?]
  rfl

theorem plus_eq_some : plus instantMax since timeout = some deadline ↔
    since + timeout ≤ instantMax ∧ since + timeout = deadline := by
  unfold plus
  split_ifs with h <;> simp [h]

theorem arm?_eq_some {far : Nat} : arm? instantMax held since timeout far = some deadline ↔
    (∀ timer ∈ timer? held since timeout, timer.deadline ≤ instantMax) ∧
      Timer.earliest far (timer? held since timeout) = deadline := by
  unfold arm?
  rw [earliest_timer?]
  unfold timer?
  split_ifs with harmed
  · rw [Option.map_eq_some_iff]
    simp only [plus_eq_some, List.mem_singleton, forall_eq, and_assoc, exists_eq_left',
      exists_and_left]
    rfl
  · simp

theorem nextDeadline?_eq_some : w.nextDeadline? instantMax = some deadline ↔
    w.Representable instantMax ∧ w.nextDeadline = deadline := by
  unfold nextDeadline? Representable
  rw [nextDeadline_eq]
  unfold armed
  simp only [Option.bind_eq_bind, Option.bind_eq_some_iff, plus_eq_some, arm?_eq_some,
    List.forall_mem_append, Timer.earliest_append]
  constructor
  · rintro ⟨_, ⟨hyear, rfl⟩, _, ⟨hevent, rfl⟩, _, ⟨hsemantic, rfl⟩, _, ⟨hidle, rfl⟩, hsilent, rfl⟩
    exact ⟨⟨hyear, hevent, hsemantic, hidle, hsilent⟩, rfl⟩
  · rintro ⟨⟨hyear, hevent, hsemantic, hidle, hsilent⟩, rfl⟩
    exact ⟨_, ⟨hyear, rfl⟩, _, ⟨hevent, rfl⟩, _, ⟨hsemantic, rfl⟩, _, ⟨hidle, rfl⟩, hsilent, rfl⟩

/-- With a timer that ends within the year, the year does not matter. -/
theorem check_isSome_iff_nextDeadline (h : w.Near) :
    (w.check now).isSome = true ↔ w.armed ≠ [] ∧ w.nextDeadline ≤ now := by
  rw [check_isSome_iff, nextDeadline_eq, Timer.earliest_le_iff]
  constructor
  · rintro ⟨timer, hmem, hreached⟩
    exact ⟨List.ne_nil_of_mem hmem, .inr ⟨timer, hmem, hreached⟩⟩
  · rintro ⟨harmed, hfar | hreached⟩
    · obtain ⟨timer, hmem, hnear⟩ := h harmed
      exact ⟨timer, hmem, hnear.trans hfar⟩
    · exact hreached

theorem agrees_iff (h : w.Near) : w.Agrees instantMax ↔ w.Representable instantMax := by
  constructor
  · rintro ⟨deadline, hdeadline, -⟩
    exact (nextDeadline?_eq_some.mp hdeadline).1
  · intro hrepresentable
    exact ⟨_, nextDeadline?_eq_some.mpr ⟨hrepresentable, rfl⟩,
    fun now => check_isSome_iff_nextDeadline h⟩

end Check

section Run

inductive Progress where
  | upstreamBytes (now : Nat)
  | sseEvent
  | semantic (now : Nat)
  deriving DecidableEq, Repr

def step (progress : Progress) (w : StreamWatch) : StreamWatch :=
  match progress with
  | .upstreamBytes now => w.onUpstreamBytes now
  | .sseEvent => w.onSseEvent
  | .semantic now => w.onSemantic now

def after (timeouts : StreamTimeouts) (started : Nat) (progress : List Progress) : StreamWatch :=
  Runs.run step progress (.new timeouts started)

/-- The last instant of a clock that keeps its seconds in 64 bits. -/
def lastInstant : Nat := (2 ^ 63 - 1) * 10 ^ 9 + 999999999

/-- In every state of every run, the deadline and the check agree exactly when the year and
the armed timers end at instants that there are. -/
theorem after_agrees_iff (instantMax : Nat) (timeouts : StreamTimeouts) (started : Nat)
    (progress : List Progress) (h : (after timeouts started progress).Near) :
    (after timeouts started progress).Agrees instantMax ↔
      (after timeouts started progress).Representable instantMax :=
  agrees_iff h

theorem after_agrees_iff_event :
    (after (.fromSecs 3 5 2 4) 0 [.upstreamBytes (10 ^ 9), .sseEvent]).Agrees lastInstant ↔
      (after (.fromSecs 3 5 2 4) 0 [.upstreamBytes (10 ^ 9), .sseEvent]).Representable
        lastInstant :=
  after_agrees_iff lastInstant (.fromSecs 3 5 2 4) 0 [.upstreamBytes (10 ^ 9), .sseEvent]
    (by decide)

/-- The idle timer ends beyond the last instant, while the others end in minutes. -/
theorem after_not_agrees : (after (.fromSecs 90 240 (2 ^ 63 - 1) 300) (10 ^ 9) []).Near ∧
    ¬ (after (.fromSecs 90 240 (2 ^ 63 - 1) 300) (10 ^ 9) []).Agrees lastInstant := by
  refine ⟨by decide, ?_⟩
  rintro ⟨deadline, hdeadline, -⟩
  have hnone : (after (.fromSecs 90 240 (2 ^ 63 - 1) 300) (10 ^ 9) []).nextDeadline? lastInstant =
      none := by decide
  rw [hnone] at hdeadline
  cases hdeadline

end Run

end StreamWatch

namespace Pump
variable {σ ε : Type} (frontend : Frontend σ ε) (serde : Serde) {pump : Pump σ}

/-- A loop that wakes at the deadline of a timer reports its stall, and no loop that goes on
has missed one. -/
theorem drive_wake (h : pump.watch.Near) (now : Nat) (rest : List Input) :
    (∃ stall, pump.watch.check now = some stall ∧
        drive frontend serde (.wake now :: rest) pump = ⟨pump, [], some (.stall stall)⟩) ∨
      (pump.watch.check now = none ∧ drive frontend serde (.wake now :: rest) pump =
        drive frontend serde rest pump) := by
  have hagrees := @StreamWatch.check_isSome_iff_nextDeadline pump.watch now h
  rw [drive]
  cases hcheck : pump.watch.check now with
  | some stall =>
    rw [hcheck] at hagrees
    left
    refine ⟨stall, rfl, ?_⟩
    rw [if_neg (Nat.not_lt.mpr (hagrees.mp rfl).2)]
  | none =>
    right
    refine ⟨rfl, ?_⟩
    split_ifs <;> rfl

end Pump
end Lobster.Server
