import Ezcap.Model.Daemon

/-! The daemon and its store, from `daemon.cpp`: the capture thread, the loop of `run` and the
requests of the clients. The capture thread redacts an event under the policy of that moment
and delivers it later, so that other steps can fall in between. Of the loop only the pruning is
here; its drop counter is in `Counters`. -/

namespace Ezcap

structure Persistence where
  daemon : Daemon
  /-- The event that the capture thread has redacted and not yet delivered. -/
  redacted : Option Event := none
  /-- `next_prune` in nanoseconds of the steady clock. -/
  nextPrune : ℤ

namespace Persistence

/-- `std::chrono::minutes{5}`. -/
def pruneInterval : ℤ := 5 * 60 * 10 ^ 9

/-- The daemon when `run` enters its loop at time `now`. -/
def start (config : Config) (now : ℤ) : Persistence :=
  { daemon := .new config, nextPrune := now + pruneInterval }

/-- `store_` is set exactly when the configuration enables storage. -/
def hasStore (s : Persistence) : Bool := s.daemon.config.storageEnabled

/-- What is asked of the store. -/
inductive Operation where
  | store (event : Event)
  | prune (retention : ℤ)

/-- `on_capture_event` up to the policy's decision. -/
def redact (s : Persistence) (now : ℤ) (event : Event) : Persistence :=
  let correlated := s.daemon.correlator.correlate now event
  let daemon :=
    { s.daemon with eventsSeen := s.daemon.eventsSeen + 1, correlator := correlated.1 }
  let applied := PolicyEngine.apply daemon.policyEngine.policy correlated.2
  if applied.2 = .drop then
    { s with daemon := { daemon with eventsDropped := daemon.eventsDropped + 1 } }
  else { s with daemon := daemon, redacted := some applied.1 }

/-- The rest of `on_capture_event`; `stored` is what the store answers, if there is one. -/
def deliver (s : Persistence) (stored : Bool) (event : Event) : Persistence :=
  { s with
    redacted := none
    daemon :=
      { s.daemon with
        published := s.daemon.published ++ [event]
        eventsDropped :=
          if s.hasStore && !stored then s.daemon.eventsDropped + 1 else s.daemon.eventsDropped
        eventsPublished := s.daemon.eventsPublished + 1 } }

def pruneDue (s : Persistence) (now : ℤ) : Bool := s.hasStore && decide (now ≥ s.nextPrune)

/-- An iteration of the loop at time `now`. -/
def tick (s : Persistence) (now : ℤ) : Persistence :=
  if s.pruneDue now then { s with nextPrune := now + pruneInterval } else s

inductive Action where
  | control (c : Daemon.Control)
  | redact (now : ℤ) (event : Event)
  | deliver (stored : Bool)
  | tick (now : ℤ)

def step (s : Persistence) : Action → Option Persistence
  | .control c => some { s with daemon := s.daemon.control c }
  | .redact now event => if s.redacted.isNone then some (s.redact now event) else none
  | .deliver stored => s.redacted.map (s.deliver stored)
  | .tick now => some (s.tick now)

/-- What the action asks of the store. -/
def operation (s : Persistence) : Action → Option Operation
  | .control _ => none
  | .redact _ _ => none
  | .deliver _ => if s.hasStore then s.redacted.map .store else none
  | .tick now => if s.pruneDue now then some (.prune s.daemon.config.storageRetention) else none

end Persistence

end Ezcap
