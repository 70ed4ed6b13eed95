import Ezcap.Library.Binary64
import Ezcap.Model.Event
import Ezcap.Model.Manifest
import Ezcap.Model.Sandbox

/-! The life cycle of a driver, from `DriverInstance` in `driver_engine.cpp`. What the Lua library
and the script do is given with each operation: whether the sandbox can be made, what the compiler
says, which callbacks the script defines at that time and what they do. -/

namespace Ezcap.Drivers

open StdString
open Manifests (DriverManifest)

/-! ## Records -/

structure EngineLimits where
  maxEndpointsPerDriver : UInt32 := 8
  maxSubscriptionsPerDriver : UInt32 := 16
  maxEventsPerSecondPerDriver : UInt32 := 64
  faultThreshold : UInt32 := 3
  sandboxBudgets : SandboxBudgets := {}

inductive DriverState where
  | discovered
  | loaded
  | started
  | quarantined
  | failed
  deriving DecidableEq, Repr

/-- A filter lets an event through. -/
def CaptureFilter.passes (filter : CaptureFilter) (event : Event) : Bool :=
  (filter.eventType.isEmpty || filter.eventType == eventTypeName event.type) &&
  (filter.transport.isEmpty ||
    event.network.all fun network => filter.transport == transportName network.transport) &&
  (filter.minConfidencePermille == 0 ||
    decide (filter.minConfidencePermille.toNat ≤ Binary64.round (event.confidence * 1000)))

/-- What a function of the script does when it is called, with its calls of the host. -/
structure DriverScript extends Script where
  bindings : List BindingCall := []

inductive Callback where
  | chunk
  | onLoad
  | onStart
  | onEvent
  | onStop
  deriving DecidableEq, Repr

structure DriverInstance where
  manifest : DriverManifest := {}
  limits : EngineLimits := {}
  state : DriverState := .discovered
  faults : UInt32 := 0
  sandbox : Option Sandbox := none
  host : DriverHostState := {}

/-- What an operation leaves, the error that it reports, and the callbacks that it has run. -/
structure Operated where
  driver : DriverInstance
  error : Option Bytes := none
  callbacks : List Callback := []

/-- What `load` meets: whether `Sandbox::create` returns a sandbox, the error of the registration
of the bindings and the message of the compiler, if any, the chunk, and `on_load` if it is a
function then. -/
structure LoadInput where
  created : Bool := true
  bindingError : Option Bytes := none
  source : Bytes := []
  rejected : Option Bytes := none
  chunk : DriverScript := {}
  onLoad : Option DriverScript := some {}

namespace DriverInstance

/-! ## Callbacks -/

def resourceLimits (driver : DriverInstance) : DriverResourceLimits where
  maxEndpoints := min driver.limits.maxEndpointsPerDriver driver.manifest.maxEndpoints
  maxSubscriptions := min driver.limits.maxSubscriptionsPerDriver driver.manifest.maxSubscriptions
  maxEventsPerSecond := driver.limits.maxEventsPerSecondPerDriver

/-- The calls of the host that a script makes. -/
def performAll (driver : DriverInstance) (bindings : List BindingCall) : DriverInstance :=
  { driver with
    host := bindings.foldl
      (DriverHostState.perform driver.manifest.capabilities driver.resourceLimits) driver.host }

/-- The waiting time that follows a fault below the threshold is left out. -/
def recordFault (driver : DriverInstance) : DriverInstance :=
  let faults := driver.faults + 1
  if faults ≥ driver.limits.faultThreshold then { driver with faults, state := .quarantined }
  else { driver with faults }

/-- A callback that is called if the script defines it. -/
def call (driver : DriverInstance) (sandbox : Sandbox) (callback : Callback)
    (script : Option DriverScript) : Operated × Except SandboxError Unit :=
  let called := sandbox.callGlobal (script.map (·.toScript))
  let driver := driver.performAll ((script.map (·.bindings)).getD [])
  ({ driver := { driver with sandbox := some called.1 }
     callbacks := (script.map fun _ => callback).toList }, called.2)

/-! ## Operations -/

/-- A load that fails destroys the sandbox. -/
def loadFailed (driver : DriverInstance) (error : Bytes) (callbacks : List Callback) :
    Operated where
  driver := { driver with state := .failed, sandbox := none }
  error := error
  callbacks := callbacks

def load (driver : DriverInstance) (input : LoadInput) : Operated :=
  if driver.state ≠ .discovered then
    { driver, error := cstr "driver is not in the discovered state" }
  else if !input.created then driver.loadFailed (cstr "sandbox construction failed") []
  else
    match input.bindingError with
    | some error => driver.loadFailed (cstr "binding registration failed: " ++ error) []
    | none =>
      match Sandbox.loadSource input.source input.rejected with
      | .error error => driver.loadFailed error.message []
      | .ok () =>
        let driver := driver.performAll input.chunk.bindings
        match Sandbox.callback { budgets := driver.limits.sandboxBudgets } input.chunk.toScript with
        | (_, .error error) => driver.loadFailed error.message [.chunk]
        | (sandbox, .ok ()) =>
          match input.onLoad with
          | none => driver.loadFailed (cstr "script does not define on_load") [.chunk]
          | some script =>
            let driver := driver.performAll script.bindings
            match sandbox.callback script.toScript with
            | (_, .error error) =>
                driver.recordFault.loadFailed error.message [.chunk, .onLoad]
            | (sandbox, .ok ()) =>
                { driver := { driver with state := .loaded, sandbox := some sandbox }
                  callbacks := [.chunk, .onLoad] }

/-- The result is `none` where a null sandbox is used. -/
def start (driver : DriverInstance) (onStart : Option DriverScript) : Option Operated :=
  if driver.state ≠ .loaded then
    some { driver, error := cstr "driver is not in the loaded state" }
  else
    driver.sandbox.map fun sandbox =>
      match driver.call sandbox .onStart onStart with
      | (called, .error error) =>
          { called with driver := called.driver.recordFault, error := error.message }
      | (called, .ok ()) => { called with driver := { called.driver with state := .started } }

/-- The driver has subscribed to the event, and its filters let it through. -/
def receives (driver : DriverInstance) (event : Event) : Bool :=
  (driver.manifest.eventTypes.isEmpty ||
    driver.manifest.eventTypes.contains (eventTypeName event.type)) &&
  driver.host.captureFilters.all (·.passes event)

def onEvent (driver : DriverInstance) (event : Event) (script : Option DriverScript) : Operated :=
  match driver.state, driver.sandbox with
  | .started, some sandbox =>
      if driver.receives event then
        match driver.call sandbox .onEvent script with
        | (called, .error _) => { called with driver := called.driver.recordFault }
        | (called, .ok ()) => called
      else { driver }
  | _, _ => { driver }

/-- The callback of `stop`. -/
def stopCallback (driver : DriverInstance) (onStop : Option DriverScript) : Operated :=
  match driver.state, driver.sandbox with
  | .started, some sandbox =>
      match driver.call sandbox .onStop onStop with
      | (called, .error _) => { called with driver := called.driver.recordFault }
      | (called, .ok ()) => called
  | _, _ => { driver }

def stop (driver : DriverInstance) (onStop : Option DriverScript) : Operated :=
  let stopped := driver.stopCallback onStop
  let state := stopped.driver.state
  { stopped with
    driver := { stopped.driver with
      sandbox := none
      state := if state = .started ∨ state = .loaded then .discovered else state } }

/-! ## Runs -/

inductive Action where
  | load (input : LoadInput)
  | start (onStart : Option DriverScript)
  | onEvent (event : Event) (script : Option DriverScript)
  | stop (onStop : Option DriverScript)

def operate (driver : DriverInstance) : Action → Option Operated
  | .load input => some (driver.load input)
  | .start onStart => driver.start onStart
  | .onEvent event script => some (driver.onEvent event script)
  | .stop onStop => some (driver.stop onStop)

def step (driver : DriverInstance) (action : Action) : Option DriverInstance :=
  (driver.operate action).map (·.driver)

end DriverInstance

end Ezcap.Drivers
