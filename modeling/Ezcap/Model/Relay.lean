import Ezcap.Library.Executions
import Ezcap.Model.NativeHost
import Ezcap.Model.Server

/-! The native host and the daemon together. Every message that is forwarded gets a connection
of its own, since `handle_message` has a `DaemonClient` of its own: the host closes it when it
returns, and the daemon's reader then erases the client. -/

namespace Ezcap.Relay

open StdString Ipc NativeHost

/-- Where the host is: before the next message, waiting for the daemon to answer on its
connection, or about to return. -/
inductive Phase (n : ℕ) where
  | idle
  | waiting (c : Fin n)
  | returning (c : Fin n)

/-- The connection that the host has open. -/
def Phase.connection {n : ℕ} : Phase n → Option (Fin n)
  | .idle => none
  | .waiting c | .returning c => some c

/-- Both processes, for `n` connections. -/
structure System (n : ℕ) where
  server : Server n
  phase : Phase n := .idle
  /-- The messages forwarded so far; the one at place `c` went over connection `c`. -/
  messages : List Message := []
  /-- The frames that were sent and not yet read by the daemon. -/
  pending : Fin n → Option Bytes := fun _ => none
  /-- Not in the source: the subscriptions that were answered ok to the browser, and not ended
  by an unsubscribe request that was. -/
  acknowledged : Finset Bytes := ∅

/-- The start: no connection has been made. -/
def start (n : ℕ) : System n where
  server := { clients := fun _ => { connected := false } }

/-- The browser was told that its request succeeded. -/
def acknowledges (requestId : Bytes) (written : List Envelope) : Bool :=
  written.any fun envelope =>
    envelope.kind == cstr "response" &&
    (envelope.payload.field? (cstr "request_id")).bind Json.string? == some requestId &&
    (envelope.payload.field? (cstr "ok")).bind Json.bool? == some true

/-- The acknowledged subscriptions after the answer to a message. -/
def acknowledgedAfter (message : Message) (written : List Envelope) (ids : Finset Bytes) :
    Finset Bytes :=
  if acknowledges message.requestId written then
    if message.operation = cstr "subscribe" then insert message.requestId ids
    else if message.operation = cstr "unsubscribe" then
      match ((message.payload.field? (cstr "params")).bind
          (·.field? (cstr "subscription_id"))).bind Json.string? with
      | none => ids
      | some id => ids.erase id
    else ids
  else ids

variable {n : ℕ}

/-- What goes on in the daemon while a frame is handled: events are broadcast, but no other
frame is handled. -/
def Meanwhile (server server' : Server n) : Prop :=
  server'.policy = server.policy ∧
    ∀ c, (server'.clients c).subscriptions = (server.clients c).subscriptions ∧
      (server'.clients c).connected = (server.clients c).connected ∧
      (server'.clients c).replies = (server.clients c).replies

/-- What the daemon can have sent over connection `c`: replies and events. -/
def Sends (lib : JsonLib) (server : Server n) (c : Fin n) : Poll → Prop
  | .data chunk => ∀ frame ∈ (extractFrames chunk).1,
      frame ∈ (server.clients c).replies ∨ ∃ event, encodeEvent lib event = some frame
  | _ => True

/-- The frame, without its newline, in which a message is sent to the daemon. -/
def SentAs (lib : JsonLib) (message : Message) (frame : Bytes) : Prop :=
  ∃ operation request, operationFromName message.operation = some operation ∧
    (buildRequest lib message operation).answer = some request ∧
    (requestFrame lib request).answer = some (some (frame ++ cstr "\n"))

inductive Step (lib : JsonLib) : System n → System n → Prop where
  /-- The host connects and sends the request; if sending fails it returns. -/
  | forward {s : System n} {doc : Json} {message : Message} {frame : Bytes} {c : Fin n}
      (hidle : s.phase = .idle) (hvalid : (validate lib doc).answer = some (.ok message))
      (hrequest : SentAs lib message frame) (hc : c.val = s.messages.length) (sent : Bool) :
      Step lib s { s with
        server := s.server.update c fun _ => {}
        phase := if sent then .waiting c else .returning c
        messages := s.messages ++ [message]
        pending := Function.update s.pending c (if sent then some frame else none) }
  /-- The daemon handles the frame of a connection. -/
  | handle {s : System n} {c : Fin n} {frame : Bytes} {server : Server n}
      (hpending : s.pending c = some frame)
      (hends : (Server.handleFrame lib c frame).Ends Meanwhile [] s.server true [] server) :
      Step lib s { s with server := server, pending := Function.update s.pending c none }
  | broadcast {s : System n} {event : Event} {server : Server n}
      (hencodes : (encodeEvent lib event).isSome = true)
      (hends : (Server.broadcast lib event).Ends Meanwhile [] s.server () [] server) :
      Step lib s { s with server := server }
  /-- The host polls once, and relays what it got. -/
  | answer {s : System n} {c : Fin n} {message : Message} {event : Poll}
      (hwaiting : s.phase = .waiting c) (hmessage : s.messages[c.val]? = some message)
      (hevent : Sends lib s.server c event)
      (hgoesOn : (awaitAnswer lib message.requestId event).answer = some true) :
      Step lib s { s with
        phase := .returning c
        acknowledged := acknowledgedAfter message
          (awaitAnswer lib message.requestId event).written s.acknowledged }
  /-- The host returns, and its client closes the connection. -/
  | close {s : System n} {c : Fin n} (hreturning : s.phase = .returning c) :
      Step lib s { s with phase := .idle }
  /-- The daemon reads the end of a connection that the host has closed. -/
  | disconnect {s : System n} {c : Fin n} (hmade : c.val < s.messages.length)
      (hclosed : s.phase.connection ≠ some c) (hread : s.pending c = none) :
      Step lib s { s with
        server := s.server.update c fun client => { client with connected := false } }

abbrev Reach (lib : JsonLib) : System n → System n → Prop := Relation.ReflTransGen (Step lib)

/-- The daemon has a connected client with the subscription `id`, over whose connection the host
still relays. -/
def Live (s : System n) (id : Bytes) : Prop :=
  ∃ c, s.phase.connection = some c ∧ (s.server.clients c).connected = true ∧
    id ∈ (s.server.clients c).subscriptions

end Ezcap.Relay
