import Ezcap.Model.Capture
import Ezcap.Model.Config
import Ezcap.Model.Correlator
import Ezcap.Model.PolicyEngine

/-! The daemon's event pipeline, from `daemon.cpp`. The steps of the capture thread, of the
clients' `set_policy` requests and of the browser bridge interleave; each step below is
what one thread does while it holds the lock of one component. Correlating an event and
applying the policy to it lock different components, so a capture is one step. -/

namespace Ezcap

structure Daemon where
  config : Config
  policyEngine : PolicyEngine := {}
  correlator : Correlator := {}
  eventsSeen : UInt64 := 0
  eventsPublished : UInt64 := 0
  eventsDropped : UInt64 := 0
  /-- The events handed to the server and the store, oldest first. -/
  published : List Event := []

namespace Daemon

/-- The constructor: only the configuration is passed on. -/
def new (config : Config) : Daemon := { config }

/-- `on_capture_event` at time `now`; `stored` is what the store answers, true without one. -/
def onCaptureEvent (daemon : Daemon) (now : ℤ) (stored : Bool) (event : Event) : Daemon :=
  let correlated := daemon.correlator.correlate now event
  let daemon :=
    { daemon with eventsSeen := daemon.eventsSeen + 1, correlator := correlated.1 }
  let applied := PolicyEngine.apply daemon.policyEngine.policy correlated.2
  if applied.2 = .drop then { daemon with eventsDropped := daemon.eventsDropped + 1 }
  else
    { daemon with
      published := daemon.published ++ [applied.1]
      eventsDropped := if stored then daemon.eventsDropped else daemon.eventsDropped + 1
      eventsPublished := daemon.eventsPublished + 1 }

/-- What the other threads do: the two steps of `set_policy` request `r`, and the two reports
of the browser bridge. -/
inductive Control where
  | snapshot (r : ℕ) (doc : Json)
  | commit (r : ℕ)
  | navigation (observation : NavigationObservation)
  | processes (processes : List BrowserProcess)

def control (daemon : Daemon) : Control → Daemon
  | .snapshot r doc => { daemon with policyEngine := daemon.policyEngine.snapshot r doc }
  | .commit r => { daemon with policyEngine := daemon.policyEngine.commit r }
  | .navigation observation =>
      { daemon with correlator := daemon.correlator.recordNavigation observation }
  | .processes processes =>
      { daemon with correlator := daemon.correlator.setBrowserProcesses processes }

inductive Step where
  | control (c : Control)
  | capture (now : ℤ) (stored : Bool) (event : Event)

def step (daemon : Daemon) : Step → Daemon
  | .control c => daemon.control c
  | .capture now stored event => daemon.onCaptureEvent now stored event

def run (daemon : Daemon) (steps : List Step) : Daemon := steps.foldl step daemon

end Daemon

end Ezcap

/-! ## The pipeline with its sources -/

namespace Ezcap

/-- What a capture backend is given: a packet, with what `/dev/urandom` would yield for it, or
a ring-buffer record. -/
inductive CaptureInput where
  | packet (interface : Bytes) (urandom : Option Bytes) (packet : PcapPacket)
  | record (bootWalltime : ℤ) (data : Bytes)

/-- The daemon together with the process-wide counter of the event ids. -/
structure Pipeline where
  daemon : Daemon
  counter : UInt64 := 0

namespace Pipeline

inductive Step where
  | control (c : Daemon.Control)
  | input (now : ℤ) (stored : Bool) (i : CaptureInput)

/-- The backend's callback on one input: the event and the counter after it. -/
def normalize (counter : UInt64) : CaptureInput → Option Event × UInt64
  | .packet interface urandom packet =>
      (packet.handle interface urandom counter,
        if packet.accepted then counter + 1 else counter)
  | .record bootWalltime data => (Ebpf.handleRecord data bootWalltime, counter)

def step (pipeline : Pipeline) : Step → Pipeline
  | .control c => { pipeline with daemon := pipeline.daemon.control c }
  | .input now stored i =>
      let normalized := normalize pipeline.counter i
      { counter := normalized.2
        daemon :=
          match normalized.1 with
          | none => pipeline.daemon
          | some event => pipeline.daemon.onCaptureEvent now stored event }

def run (pipeline : Pipeline) (steps : List Step) : Pipeline := steps.foldl step pipeline

end Pipeline

end Ezcap
