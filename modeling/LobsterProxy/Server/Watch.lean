import Mathlib.Algebra.Order.Ring.Int

/-! The stall watchdog of a stream. Instants and durations count nanoseconds; an
elapsed time saturates at zero. -/

namespace Lobster.Server

structure StreamTimeouts where
  firstEvent : Nat
  firstSemantic : Nat
  streamIdle : Nat
  semanticIdle : Nat
  deriving DecidableEq, Repr

inductive StallKind where
  | firstEvent
  | firstSemantic
  | streamIdle
  | semanticIdle
  deriving DecidableEq, Repr

namespace StallKind

def asStr : StallKind → String
  | firstEvent => "upstream_first_event_timeout"
  | firstSemantic => "upstream_first_semantic_timeout"
  | streamIdle => "upstream_stream_idle_timeout"
  | semanticIdle => "upstream_semantic_idle_timeout"

def message : StallKind → String
  | firstEvent => "upstream produced no stream event before the first-event timeout"
  | firstSemantic =>
    "upstream produced no reasoning/text/tool progress before the first-semantic timeout"
  | streamIdle => "upstream stream was idle (no bytes) beyond the configured limit"
  | semanticIdle =>
    "upstream produced no reasoning/text/tool progress beyond the semantic idle limit"

end StallKind

def stallError (stall : StallKind) : String := s!"{stall.asStr}: {stall.message}"

structure StreamWatch where
  timeouts : StreamTimeouts
  started : Nat
  lastByte : Nat
  lastSemantic : Nat
  gotFirstEvent : Bool
  gotFirstSemantic : Bool
  deriving DecidableEq, Repr

namespace StreamWatch

def new (timeouts : StreamTimeouts) (started : Nat) : StreamWatch :=
  ⟨timeouts, started, started, started, false, false⟩

def onUpstreamBytes (now : Nat) (w : StreamWatch) : StreamWatch := { w with lastByte := now }

def onSseEvent (w : StreamWatch) : StreamWatch := { w with gotFirstEvent := true }

def onSemantic (now : Nat) (w : StreamWatch) : StreamWatch :=
  { w with gotFirstSemantic := true, lastSemantic := now }

/-- A timer is armed unless it is zero, and fires once the time since `since` reaches it. -/
def fires (timeout since now : Nat) : Bool := timeout ≠ 0 && timeout ≤ now - since

def check (w : StreamWatch) (now : Nat) : Option StallKind :=
  if !w.gotFirstEvent && fires w.timeouts.firstEvent w.started now then some .firstEvent
  else if !w.gotFirstSemantic && fires w.timeouts.firstSemantic w.started now then
    some .firstSemantic
  else if fires w.timeouts.streamIdle w.lastByte now then some .streamIdle
  else if w.gotFirstSemantic && fires w.timeouts.semanticIdle w.lastSemantic now then
    some .semanticIdle
  else none

/-- The next instant at which a stall may fire, a year after the start when none is armed. -/
def nextDeadline (w : StreamWatch) : Nat :=
  let arm (armed : Bool) (since timeout deadline : Nat) : Nat :=
    if armed && timeout ≠ 0 then min deadline (since + timeout) else deadline
  arm w.gotFirstSemantic w.lastSemantic w.timeouts.semanticIdle <|
    arm true w.lastByte w.timeouts.streamIdle <|
      arm (!w.gotFirstSemantic) w.started w.timeouts.firstSemantic <|
        arm (!w.gotFirstEvent) w.started w.timeouts.firstEvent <|
          w.started + 60 * 60 * 24 * 365 * 10 ^ 9

end StreamWatch
end Lobster.Server
