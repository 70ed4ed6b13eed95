import Ezcap.Model.Descriptor
import Mathlib.Data.Finset.Basic

/-! The functions that a script calls and that change the state of its host, from `lezcap.cpp`. How
they read their Lua tables is left out: each is given what the table comes to, or the error for
it. -/

namespace Ezcap.Drivers

open StdString

/-! ## Records -/

inductive Capability where
  | events
  | capture
  | dns
  | process
  | policy
  | endpoint
  | spec
  | log
  | util
  | status
  deriving DecidableEq, Repr

/-- `DriverResourceLimits`; the bound on strings is left out with the functions that read them. -/
structure DriverResourceLimits where
  maxEndpoints : UInt32 := 8
  maxSubscriptions : UInt32 := 16
  maxEventsPerSecond : UInt32 := 64

structure CaptureFilter where
  eventType : Bytes := []
  transport : Bytes := []
  minConfidencePermille : UInt32 := 0
  deriving DecidableEq, Repr

/-- `DriverHostState` without the manifest and the limits, which no function changes. -/
structure DriverHostState where
  endpoints : List Specgen.EndpointDescriptor := []
  captureFilters : List CaptureFilter := []
  eventsEmitted : UInt64 := 0
  eventsDropped : UInt64 := 0
  lastEventWindowStartMs : ℤ := 0
  eventsInWindow : UInt32 := 0

/-! ## Functions -/

namespace DriverHostState

/-- `lezcap.endpoint.declare` on the document that is built from its table. An error is answered as
its code and its message. -/
def endpointDeclare (limits : DriverResourceLimits) (host : DriverHostState)
    (doc : Except Bytes Json) : DriverHostState × Option Bytes :=
  if host.endpoints.length ≥ limits.maxEndpoints.toNat then
    (host, cstr "limit.endpoints: endpoint limit reached")
  else
    match doc with
    | .error error => (host, error)
    | .ok doc =>
        match Specgen.parseEndpointDescriptor doc with
        | .error error => (host, cstr "argument.invalid: " ++ error)
        | .ok descriptor => ({ host with endpoints := host.endpoints ++ [descriptor] }, none)

/-- `lezcap.capture.register_filter` on the filter that is read from its table. -/
def captureRegisterFilter (limits : DriverResourceLimits) (host : DriverHostState)
    (filter : Except Bytes CaptureFilter) : DriverHostState × Option Bytes :=
  if host.captureFilters.length ≥ limits.maxSubscriptions.toNat then
    (host, cstr "limit.subscriptions: filter limit reached")
  else
    match filter with
    | .error error => (host, error)
    | .ok filter => ({ host with captureFilters := host.captureFilters ++ [filter] }, none)

/-- A new window of one second begins. -/
def renewWindow (host : DriverHostState) (nowMs : ℤ) : DriverHostState :=
  if nowMs - host.lastEventWindowStartMs ≥ 1000 then
    { host with lastEventWindowStartMs := nowMs, eventsInWindow := 0 }
  else host

/-- `lezcap.event.emit` on the text that its table is dumped to. -/
def eventEmit (limits : DriverResourceLimits) (host : DriverHostState) (nowMs : ℤ)
    (text : Except Bytes Bytes) : DriverHostState × Option Bytes :=
  let host := host.renewWindow nowMs
  if limits.maxEventsPerSecond > 0 ∧ host.eventsInWindow ≥ limits.maxEventsPerSecond then
    ({ host with eventsDropped := host.eventsDropped + 1 },
      cstr "limit.rate: event rate limit reached")
  else
    let host :=
      { host with
        eventsInWindow := host.eventsInWindow + 1
        eventsEmitted := host.eventsEmitted + 1 }
    match text with
    | .error error => (host, cstr "argument.invalid: " ++ error)
    | .ok text =>
        if text.length > 32 * 1024 then
          ({ host with eventsDropped := host.eventsDropped + 1 },
            cstr "limit.size: event exceeds size cap")
        else (host, none)

end DriverHostState

/-! ## Calls of a script -/

inductive BindingCall where
  | endpointDeclare (doc : Except Bytes Json)
  | captureRegisterFilter (filter : Except Bytes CaptureFilter)
  | eventEmit (nowMs : ℤ) (text : Except Bytes Bytes)

/-- The capability that the function is registered under. -/
def BindingCall.capability : BindingCall → Capability
  | .endpointDeclare _ => .endpoint
  | .captureRegisterFilter _ => .capture
  | .eventEmit _ _ => .events

/-- A function that is not registered is not there for the script. -/
def DriverHostState.perform (capabilities : Finset Capability) (limits : DriverResourceLimits)
    (host : DriverHostState) (call : BindingCall) : DriverHostState :=
  if call.capability ∈ capabilities then
    match call with
    | .endpointDeclare doc => (host.endpointDeclare limits doc).1
    | .captureRegisterFilter filter => (host.captureRegisterFilter limits filter).1
    | .eventEmit nowMs text => (host.eventEmit limits nowMs text).1
  else host

end Ezcap.Drivers
