import Mathlib.Data.Finset.Card
import Mathlib.Data.List.FinRange
import Ezcap.Library.Threads
import Ezcap.Model.Ipc
import Ezcap.Model.PolicyEngine

/-! The socket server and the daemon's request handler, from `unix_socket_server.cpp` and
`daemon.cpp`, as threads: one reader for each client, and the capture thread that
broadcasts. A request handler that throws ends the process. -/

namespace Ezcap

open StdString Ipc

/-- What the status reply reports of the daemon: whether it runs and for how long, its backend
and whether that is running, its counters, and those of its store. -/
structure DaemonStatus where
  running : Bool := true
  uptimeSeconds : ℤ := 0
  backend : Option (EventSource × Bool) := none
  eventsSeen : UInt64 := 0
  eventsPublished : UInt64 := 0
  eventsDropped : UInt64 := 0
  storage : Option (UInt64 × UInt64 × UInt32) := none

structure Client where
  subscriptions : Finset Bytes := ∅
  outQueue : List Bytes := []
  /-- The client is in the map of clients. -/
  connected : Bool := true
  /-- Not in the source: what `handle_frame` has handed to `deliver`, oldest first. -/
  replies : List Bytes := []

/-- The state that the threads share, for `n` clients in the order of their sockets. -/
structure Server (n : ℕ) where
  clients : Fin n → Client := fun _ => {}
  running : Bool := true
  droppedEvents : UInt64 := 0
  policy : Policy := {}
  status : DaemonStatus := {}

inductive Mutex (n : ℕ) where
  | clients
  | out (c : Fin n)
  | policy
  deriving DecidableEq

namespace Server

variable {n : ℕ}

/-- A thread of the server. -/
abbrev Run (n : ℕ) (α : Type) : Type := Prog (Mutex n) (Server n) α

/-- Change the record of client `c`. -/
def update (c : Fin n) (f : Client → Client) (s : Server n) : Server n :=
  { s with clients := Function.update s.clients c (f (s.clients c)) }

def addDropped (count : ℕ) (s : Server n) : Server n :=
  { s with droppedEvents := s.droppedEvents + UInt64.ofNat count }

/-! ## The request handler -/

def helloJson : Json :=
  .mkObject
    [(cstr "daemon", .string (cstr "ezcap")), (cstr "version", .string kVersionString),
     (cstr "protocol_version", .integer kProtocolVersion), (cstr "metadata_only", .bool true)]

def subscribeJson (requestId : Bytes) : Json :=
  .mkObject [(cstr "subscription_id", .string requestId)]

def unsubscribeJson (requestId : Bytes) : Json :=
  .mkObject [(cstr "subscription_id", .string requestId), (cstr "removed", .bool true)]

def storageJson : Option (UInt64 × UInt64 × UInt32) → Json
  | none => .mkObject [(cstr "enabled", .bool false)]
  | some (stored, dropped, schemaVersion) =>
      .mkObject
        [(cstr "enabled", .bool true), (cstr "stored", .unsigned stored.toNat),
         (cstr "dropped", .unsigned dropped.toNat),
         (cstr "schema_version", .unsigned schemaVersion.toNat)]

def backendsJson : Option (EventSource × Bool) → Json
  | none => .array []
  | some (name, active) =>
      .array [.mkObject [(cstr "name", .string (eventSourceName name)),
        (cstr "active", .bool active)]]

def buildStatusJson (status : DaemonStatus) : Json :=
  .mkObject
    [(cstr "state", .string (if status.running then cstr "running" else cstr "stopped")),
     (cstr "version", .string kVersionString),
     (cstr "uptime_seconds", .integer status.uptimeSeconds),
     (cstr "metadata_only", .bool true),
     (cstr "backends", backendsJson status.backend),
     (cstr "counters", .mkObject
       [(cstr "events_seen", .unsigned status.eventsSeen.toNat),
        (cstr "events_published", .unsigned status.eventsPublished.toNat),
        (cstr "events_dropped", .unsigned status.eventsDropped.toNat)]),
     (cstr "storage", storageJson status.storage)]

/-- `to_json` of the policy engine, under its mutex. -/
def policyJson : Run n Json := .lock .policy (.read fun s => PolicyEngine.toJson s.policy)

/-- `update_from_json`: the policy is copied under the mutex, edited without it, and written
back under it. -/
def updateFromJson (doc : Json) : Run n (Except Bytes Unit) := do
  let next ← .lock .policy (.read Server.policy)
  match PolicyEngine.editPolicy doc next with
  | .error message => .pure (.error message)
  | .ok next => do
      .lock .policy (.modify fun s => { s with policy := next })
      .pure (.ok ())

variable (lib : JsonLib)

/-- A reply with the given result. -/
def success (request : Request) (result : Json) : Run n Response := do
  let resultJson ← .orAbort (lib.dump result)
  .pure { requestId := request.requestId, ok := true, resultJson := resultJson }

def setPolicy (request : Request) : Run n Response :=
  let params := (lib.parse request.paramsJson).filter Json.isObject
  match params with
  | none =>
      .pure { requestId := request.requestId,
              error := ⟨.schemaViolation, cstr "set_policy params must be an object"⟩ }
  | some params => do
      match ← updateFromJson params with
      | .error message =>
          .pure { requestId := request.requestId, error := ⟨.policyViolation, message⟩ }
      | .ok _ => do
          success lib request (← policyJson)

def handleRequest (request : Request) : Run n Response :=
  match request.operation with
  | .hello => success lib request helloJson
  | .getStatus => do success lib request (← .read fun s => buildStatusJson s.status)
  | .subscribe => success lib request (subscribeJson request.requestId)
  | .unsubscribe => success lib request (unsubscribeJson request.requestId)
  | .getPolicy => do success lib request (← policyJson)
  | .setPolicy => setPolicy lib request
  | .shutdown =>
      .pure { requestId := request.requestId,
              error := ⟨.operationNotAllowed, cstr "shutdown is not available over IPC"⟩ }

/-! ## Delivery -/

/-- The sends of `deliver`: the first that fails drops the whole batch of `total`. -/
def sendQueue (total : ℕ) : List Bytes → Run n Unit
  | [] => .pure ()
  | _ :: rest => do
      let sent ← .ask
      if sent then sendQueue total rest else .modify (addDropped total)

/-- The bounded push; whether the queue was full. -/
def push (c : Fin n) (encoded : Bytes) : Run n Bool := do
  let queue ← .read fun s => (s.clients c).outQueue
  if queue.length ≥ kMaxOutgoingQueue then do
    .modify (update c fun client => { client with outQueue := [] })
    .modify (addDropped 1)
    .pure true
  else do
    .modify (update c fun client =>
      { client with outQueue := client.outQueue ++ [encoded ++ cstr "\n"] })
    .pure false

def deliver (c : Fin n) (encoded : Bytes) : Run n Unit := do
  let full ← .lock (.out c) (push c encoded)
  if full then .pure ()
  else do
    let toSend ← .lock (.out c) (.exchange
      (update c fun client => { client with outQueue := [] }) fun s => (s.clients c).outQueue)
    sendQueue toSend.length toSend

/-! ## Frames -/

/-- `deliver` called from `handle_frame`, recorded as a reply. -/
def reply (c : Fin n) (encoded : Option Bytes) : Run n Unit := do
  let encoded ← .orAbort encoded
  .modify (update c fun client => { client with replies := client.replies ++ [encoded] })
  deliver c encoded

/-- The cap on subscriptions; whether the request was answered. The refusal is delivered in the
scope of the lock guard. -/
def refuseSubscription (c : Fin n) (request : Request) : Run n Bool :=
  if request.operation = .subscribe then
    .lock (.out c) do
      let count ← .read fun s => (s.clients c).subscriptions.card
      if count ≥ kMaxSubscriptionsPerClient then do
        reply c (encodeError lib request.requestId
          ⟨.tooManySubscriptions, cstr "subscription limit reached"⟩)
        .pure true
      else .pure false
  else .pure false

def trackSubscription (c : Fin n) (request : Request) (response : Response) : Run n Unit :=
  if request.operation = .subscribe ∧ response.ok then
    .lock (.out c) (.modify (update c fun client =>
      { client with subscriptions := insert request.requestId client.subscriptions }))
  else if request.operation = .unsubscribe then
    .lock (.out c) (.modify (update c fun client =>
      { client with subscriptions := client.subscriptions.erase request.requestId }))
  else .pure ()

/-- A request that passed the validation and the cap. -/
def dispatch (c : Fin n) (request : Request) : Run n Unit :=
  if request.operation = .shutdown then
    reply c (encodeError lib request.requestId
      ⟨.operationNotAllowed, cstr "shutdown must be issued by the service owner locally"⟩)
  else do
    let response ← handleRequest lib request
    trackSubscription c request response
    reply c (encodeResponse lib response)

/-- `handle_frame`; it never asks for a shutdown. -/
def handleFrame (c : Fin n) (frame : Bytes) : Run n Bool :=
  match parseRequest lib frame kMaxRequestBytes with
  | .error error => do
      reply c (encodeError lib [] error)
      .pure true
  | .ok request => do
      let refused ← refuseSubscription lib c request
      if refused then .pure true
      else do
        dispatch lib c request
        .pure true

def handleFrames (c : Fin n) : List Bytes → Run n Unit
  | [] => .pure ()
  | frame :: frames => do
      let alive ← handleFrame lib c frame
      if alive then handleFrames c frames else .modify fun s => { s with running := false }

/-- What `client_loop` does with the chunks it receives, from the given contents of `rx_buffer`:
the frames passed to `handle_frame`, which never asks to stop, and the buffer that is left, or
`none` after a framing error was answered and the client disconnected. -/
def receive (buffer : Bytes) : List Bytes → List Bytes × Option Bytes
  | [] => ([], some buffer)
  | chunk :: chunks =>
      match splitFrames (buffer ++ chunk) kMaxRequestBytes with
      | .error _ => ([], none)
      | .ok (frames, rest) =>
          let later := receive rest chunks
          (frames ++ later.1, later.2)

/-! ## Threads -/

/-- The reader of client `c`, which sends `frames` (see `receive`) and disconnects. -/
def clientLoop (c : Fin n) (frames : List Bytes) : Run n Unit := do
  let found ← .lock .clients (.read fun s => (s.clients c).connected)
  if found then do
    handleFrames lib c frames
    .lock .clients (.modify (update c fun client => { client with connected := false }))
  else .pure ()

/-- The clients among `cs` that are connected and subscribed. -/
def subscribers : List (Fin n) → Run n (List (Fin n))
  | [] => .pure []
  | c :: cs => do
      let connected ← .read fun s => (s.clients c).connected
      if connected then do
        let subscribed ← .lock (.out c) (.read fun s => decide (s.clients c).subscriptions.Nonempty)
        let rest ← subscribers cs
        .pure (if subscribed then c :: rest else rest)
      else subscribers cs

def broadcast (event : Event) : Run n Unit := do
  let clients ← .lock .clients (subscribers (List.finRange n))
  let encoded ← .orAbort (encodeEvent lib event)
  .forEach (deliver · encoded) clients

/-- The server with the capture thread, `none`, and the reader of every client at their start. -/
def pool (status : DaemonStatus) (frames : Fin n → List Bytes) (events : List Event) :
    Pool (Option (Fin n)) (Mutex n) (Server n) where
  shared := { status := status }
  owner := fun _ => none
  code := fun
    | none => .forEach (broadcast lib) events
    | some c => clientLoop lib c (frames c)

end Server

end Ezcap
