import Ezcap.Model.Ipc

/-! The native messaging host, from `main.cpp`, `daemon_client.cpp` and `message_writer.cpp`. A
message of the browser is checked, forwarded over a connection of its own, and answered with
what a single poll of that connection returns. -/

namespace Ezcap.NativeHost

open StdString Ipc

/-! ## Messages to the browser -/

/-- A message to the browser. -/
structure Envelope where
  kind : Bytes
  payload : Json

def envelopeJson (envelope : Envelope) : Json :=
  .mkObject
    [(cstr "protocol_version", .unsigned kProtocolVersion.toNat),
     (cstr "kind", .string envelope.kind), (cstr "payload", envelope.payload)]

/-- What the host does: the envelopes it writes, and its answer; an exception that nobody catches
is `none`. -/
structure Host (α : Type) where
  written : List Envelope := []
  answer : Option α

namespace Host

variable {α β : Type}

def bind (host : Host α) (k : α → Host β) : Host β :=
  match host.answer with
  | none => { written := host.written, answer := none }
  | some a => { written := host.written ++ (k a).written, answer := (k a).answer }

instance : Monad Host where
  pure a := { answer := some a }
  bind := bind

/-- A call that throws instead of answering. -/
def orThrow (a : Option α) : Host α := { answer := a }

end Host

/-- The largest message that is written or read. -/
def kMaxMessageBytes : ℕ := 1024 * 1024

/-- Whether `MessageWriter::write` takes the text. -/
def writable (text : Bytes) : Bool := text != [] && decide (text.length ≤ kMaxMessageBytes)

variable (lib : JsonLib)

def sendEnvelope (kind : Bytes) (payload : Json) : Host Unit := do
  let text ← Host.orThrow (lib.dump (envelopeJson ⟨kind, payload⟩))
  { written := if writable text then [⟨kind, payload⟩] else [], answer := some () }

def errorJson (requestId code message : Bytes) : Json :=
  .mkObject <|
    fieldIf (requestId != []) (cstr "request_id") (.string requestId) ++
    [(cstr "code", .string code), (cstr "message", .string (message.take 256))]

def sendError (requestId code message : Bytes) : Host Unit :=
  sendEnvelope lib (cstr "error") (errorJson requestId code message)

/-! ## The daemon client -/

/-- What comes of `connect`. -/
inductive Connect where
  | ok
  | socketFailed
  | missing
  | denied
  | failed
  | otherUser
  deriving DecidableEq, Repr

def kDefaultSocketPath : Bytes := cstr "/run/ezcap/ezcap.sock"

/-- The error that `connect` reports, if any. -/
def connectError (connect : Connect) : Option Bytes :=
  if connect = .socketFailed then some (cstr "socket creation failed")
  else if kDefaultSocketPath.length ≥ 108 then some (cstr "socket path too long")
  else
    match connect with
    | .missing => some (cstr "daemon not running (socket missing)")
    | .denied => some (cstr "permission denied connecting to daemon")
    | .failed => some (cstr "connect failed")
    | .otherUser => some (cstr "daemon socket peer uid mismatch")
    | _ => none

/-- The document that `send_request` sends. The text of the params is the serializer's own, so
the parser never discards it. -/
def requestJson (request : Request) : Json :=
  .mkObject <|
    [(cstr "protocol_version", .unsigned kProtocolVersion.toNat),
     (cstr "operation", .string (operationName request.operation)),
     (cstr "request_id", .string request.requestId)] ++
    fieldIf (request.paramsJson != []) (cstr "params") ((lib.parse request.paramsJson).getD .null)

/-- The frame that `send_request` sends, or `none` if it is too long to be sent. -/
def requestFrame (request : Request) : Host (Option Bytes) := do
  let frame ← Host.orThrow (lib.dump (requestJson lib request))
  return if frame.length > kMaxRequestBytes then none else some (frame ++ cstr "\n")

/-- The loop of `extract_frames` at what the buffer holds from `start` on. -/
def extractLoop : ℕ → Bytes → List Bytes → List Bytes × Bytes
  | 0, rest, frames => (frames, rest)
  | fuel + 1, rest, frames =>
      match find rest '\n'.toUInt8 0 with
      | none => (frames, rest)
      | some newline => extractLoop fuel (rest.drop (newline + 1)) (frames ++ [rest.take newline])

/-- Every round takes a byte, so the length of the buffer is fuel enough. -/
def extractFrames (buffer : Bytes) : List Bytes × Bytes := extractLoop buffer.length buffer []

/-- What `poll` and `recv` return to `DaemonClient::poll`. -/
inductive Poll where
  | interrupted
  | failed
  | timeout
  | hangup
  | wouldBlock
  | recvFailed
  | closed
  | data (chunk : Bytes)
  deriving DecidableEq, Repr

structure DaemonClient where
  connected : Bool := true
  rxBuffer : Bytes := []

/-- The complete frames, or an error, and the client afterwards. -/
def DaemonClient.poll (client : DaemonClient) (event : Poll) :
    Except Bytes (List Bytes) × DaemonClient :=
  if client.connected then
    let buffered := extractFrames client.rxBuffer
    let client := { client with rxBuffer := buffered.2 }
    if buffered.1 ≠ [] then (.ok buffered.1, client)
    else
      match event with
      | .interrupted | .timeout | .wouldBlock => (.ok [], client)
      | .failed => (.error (cstr "poll failed"), client)
      | .hangup | .closed => (.error (cstr "daemon closed the connection"), client)
      | .recvFailed => (.error (cstr "recv failed"), client)
      | .data chunk =>
          let buffer := client.rxBuffer ++ chunk
          if buffer.length > kMaxEventBytes then
            (.error (cstr "oversized frame from daemon"), { client with rxBuffer := buffer })
          else
            let extracted := extractFrames buffer
            (.ok extracted.1, { client with rxBuffer := extracted.2 })
  else (.error (cstr "not connected"), client)

/-! ## Checking a message -/

def kAllowedOperations : List Bytes :=
  [cstr "hello", cstr "get_status", cstr "subscribe", cstr "unsubscribe", cstr "set_policy",
    cstr "get_policy"]

def operationAllowed (name : Bytes) : Bool := kAllowedOperations.contains name

def kForbidden : List Bytes :=
  [cstr "payload", cstr "body", cstr "cookies", cstr "authorization", cstr "password",
    cstr "api_key", cstr "execute", cstr "run", cstr "eval", cstr "command", cstr "shell"]

/-- `get<int>`, which also converts floats and booleans and throws on everything else. -/
def int? : Json → Option ℤ
  | .bool b => some (if b then 1 else 0)
  | .integer i => some (Int.bmod i (2 ^ 32))
  | .unsigned n => some (Int.bmod n (2 ^ 32))
  | .float q => some (Int.bmod (q.num.tdiv q.den) (2 ^ 32))
  | _ => none

/-- `doc.value("protocol_version", 0)`. -/
def protocolVersion (doc : Json) : Host ℤ :=
  match doc.field? (cstr "protocol_version") with
  | none => return 0
  | some version => Host.orThrow (int? version)

/-- The kind and the payload of a message, if its envelope is well formed. -/
def readEnvelope (doc : Json) : Host (Option Envelope) := do
  if doc.isObject then
    if (← protocolVersion doc) ≠ 1 then return none
    else
      match (doc.field? (cstr "kind")).bind Json.string?,
          (doc.field? (cstr "payload")).filter Json.isObject with
      | some kind, some payload => return some ⟨kind, payload⟩
      | _, _ => return none
  else return none

/-- A request that may be forwarded. -/
structure Message where
  operation : Bytes
  requestId : Bytes
  payload : Json

/-- The first key of the payload that is forbidden. -/
def forbiddenField (payload : Json) : Option Bytes :=
  ((payload.object?.getD []).map Prod.fst).find? kForbidden.contains

/-- The checks on a request: the request to forward, or what `handle_message` returns. -/
def readMessage (payload : Json) : Host (Except Bool Message) :=
  match (payload.field? (cstr "operation")).bind Json.string?,
      (payload.field? (cstr "request_id")).bind Json.string? with
  | some operation, some requestId => do
      if requestId = [] ∨ requestId.length > 64 then
        sendError lib [] (cstr "schema_violation") (cstr "request_id must be 1-64 characters")
        return .error true
      else
        match forbiddenField payload with
        | some bad => do
            sendError lib requestId (cstr "schema_violation") (cstr "forbidden field: " ++ bad)
            return .error true
        | none =>
            if operationAllowed operation then return .ok ⟨operation, requestId, payload⟩
            else do
              sendError lib requestId (cstr "unknown_operation")
                (cstr "operation not available through the native host")
              return .error true
  | _, _ => do
      sendError lib [] (cstr "schema_violation")
        (cstr "request requires operation and request_id")
      return .error true

/-- Everything that `handle_message` checks before it connects. -/
def validate (doc : Json) : Host (Except Bool Message) := do
  match ← readEnvelope doc with
  | none => do
      sendError lib [] (cstr "schema_violation") (cstr "malformed envelope")
      return .error false
  | some envelope =>
      if envelope.kind ≠ cstr "request" then do
        sendError lib [] (cstr "schema_violation") (cstr "only 'request' messages are accepted")
        return .error true
      else readMessage lib envelope.payload

/-! ## Forwarding -/

/-- The text of the params, empty if there are none or too many. -/
def paramsText (payload : Json) : Host Bytes :=
  match (payload.field? (cstr "params")).bind Json.object? with
  | none => return []
  | some fields => if fields.length ≤ 8 then Host.orThrow (lib.dump (.object fields)) else return []

/-- A response as the browser gets it. -/
def rewrapped (requestId : Bytes) (ok : Bool) (result : Option Json) : Json :=
  .mkObject <|
    [(cstr "request_id", .string requestId), (cstr "ok", .bool ok)] ++
    fieldOf (cstr "result") id result

/-- The response in a frame; `value("ok", false)` throws on a value that is no object and on a
flag that is no boolean. -/
def responseOf (requestId : Bytes) (parsed : Json) : Host Json :=
  if parsed.isObject then do
    let ok ← match parsed.field? (cstr "ok") with
      | none => pure false
      | some flag => Host.orThrow flag.bool?
    return rewrapped requestId ok (parsed.field? (cstr "result"))
  else Host.orThrow none

/-- One frame of the daemon, passed on to the browser. -/
def relayFrame (requestId frame : Bytes) : Host Unit :=
  match lib.parse frame with
  | none => return ()
  | some parsed =>
      if (parsed.field? (cstr "ok")).isNone && (parsed.field? (cstr "event_type")).isSome then
        sendEnvelope lib (cstr "event") parsed
      else do sendEnvelope lib (cstr "response") (← responseOf requestId parsed)

def relayFrames (requestId : Bytes) : List Bytes → Host Unit
  | [] => return ()
  | frame :: frames => do
      relayFrame lib requestId frame
      relayFrames requestId frames

/-- What the operating system answers while a message is handled. -/
structure Env where
  connect : Connect := .ok
  /-- The whole frame could be sent. -/
  sent : Bool := true
  poll : Poll

/-- The request made of a checked message. -/
def buildRequest (message : Message) (operation : Operation) : Host Request := do
  let paramsJson ← paramsText lib message.payload
  return { operation, requestId := message.requestId, paramsJson }

/-- Waiting for the answer: one poll, and what it returned is relayed. -/
def awaitAnswer (requestId : Bytes) (event : Poll) : Host Bool :=
  match (DaemonClient.poll {} event).1 with
  | .error error => do
      sendError lib requestId (cstr "daemon_error") error
      return true
  | .ok frames => do
      relayFrames lib requestId frames
      return true

/-- Forwarding a message. The client is closed on return. -/
def forward (env : Env) (message : Message) : Host Bool :=
  match connectError env.connect with
  | some error => do
      sendError lib message.requestId (cstr "daemon_unavailable") error
      return true
  | none =>
      match operationFromName message.operation with
      | none => do
          sendError lib message.requestId (cstr "unknown_operation") message.operation
          return true
      | some operation => do
          let frame ← requestFrame lib (← buildRequest lib message operation)
          if frame.isSome && env.sent then awaitAnswer lib message.requestId env.poll
          else do
            sendError lib message.requestId (cstr "daemon_unavailable")
              (cstr "failed to send request to daemon")
            return true

/-- What `handle_message` does; it answers whether the host goes on. -/
def handleMessage (env : Env) (doc : Json) : Host Bool := do
  match ← validate lib doc with
  | .error goesOn => return goesOn
  | .ok message => forward lib env message

end Ezcap.NativeHost
