import Ezcap.Model.Daemon
import Ezcap.Model.Server

/-! The daemon's count of dropped events, from `daemon.cpp`. The capture thread increments it and
the run loop overwrites it with the server's count; every access to one of these atomics
is a step of its own. -/

namespace Ezcap

open StdString

structure Counters where
  daemon : Daemon
  /-- `dropped_events` of the server. -/
  serverDropped : UInt64 := 0
  /-- What the run loop has loaded from the server and not yet stored. -/
  loaded : Option UInt64 := none
  /-- Not in the source: the events that the policy dropped. -/
  policyDrops : ℕ := 0
  /-- Not in the source: the events that the store refused. -/
  storeRefusals : ℕ := 0
  /-- Not in the source: what the run loop stored last. -/
  propagated : UInt64 := 0

namespace Counters

inductive Step where
  /-- What the capture thread and the clients make the daemon do. -/
  | daemon (s : Daemon.Step)
  /-- The server adds to its count: 1 for a full queue, the whole batch for a failed send. -/
  | slowConsumer (count : ℕ)
  /-- The two halves of `events_dropped_.store(server_->dropped_events())`. -/
  | load
  | store

/-- The daemon as its constructor leaves it. -/
def new (config : Config) : Counters := { daemon := .new config }

def droppedByPolicy (daemon : Daemon) (now : ℤ) (event : Event) : Bool :=
  decide ((PolicyEngine.apply daemon.policyEngine.policy
    (daemon.correlator.correlate now event).2).2 = .drop)

def step (s : Counters) : Step → Option Counters
  | .daemon (.control c) => some { s with daemon := s.daemon.control c }
  | .daemon (.capture now stored event) =>
      let policy := droppedByPolicy s.daemon now event
      some { s with
        daemon := s.daemon.onCaptureEvent now stored event
        policyDrops := if policy then s.policyDrops + 1 else s.policyDrops
        storeRefusals := if !policy && !stored then s.storeRefusals + 1 else s.storeRefusals }
  | .slowConsumer count => some { s with serverDropped := s.serverDropped + UInt64.ofNat count }
  | .load => if s.loaded = none then some { s with loaded := some s.serverDropped } else none
  | .store =>
      s.loaded.map fun dropped =>
        { s with
          daemon := { s.daemon with eventsDropped := dropped }
          loaded := none
          propagated := dropped }

/-- The counters as `build_status_json` reads them. -/
def status (s : Counters) : DaemonStatus :=
  { eventsSeen := s.daemon.eventsSeen
    eventsPublished := s.daemon.eventsPublished
    eventsDropped := s.daemon.eventsDropped }

/-- The `events_dropped` that a status reply shows. -/
def reported (s : Counters) : Option ℕ :=
  (((Server.buildStatusJson s.status).field? (cstr "counters")).bind
    (Json.field? · (cstr "events_dropped"))).bind Json.unsigned?

end Counters

end Ezcap
