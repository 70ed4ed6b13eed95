import Ezcap.Library.Format
import Ezcap.Library.Json
import Ezcap.Model.Event

/-! Requests, responses and their encoding, from `error.hpp`, `ipc_protocol.hpp`,
`ipc_codec.cpp` and `time.cpp`. `none` from an encoder is the exception that the JSON
serializer throws on text that is not UTF-8. -/

namespace Ezcap

open StdString

inductive ErrorCode where
  | invalidFraming
  | messageTooLarge
  | invalidJson
  | invalidUtf8
  | schemaViolation
  | unsupportedVersion
  | unknownOperation
  | operationNotAllowed
  | missingField
  | tooManySubscriptions
  | queueOverflow
  | clientTimeout
  | daemonUnavailable
  | socketPermission
  | connectionClosed
  | backendUnavailable
  | missingPermission
  | captureFilterError
  | backendLoadFailure
  | storageError
  | policyViolation
  | internalError
  deriving DecidableEq, Repr

def errorCodeName : ErrorCode → Bytes
  | .invalidFraming => cstr "invalid_framing"
  | .messageTooLarge => cstr "message_too_large"
  | .invalidJson => cstr "invalid_json"
  | .invalidUtf8 => cstr "invalid_utf8"
  | .schemaViolation => cstr "schema_violation"
  | .unsupportedVersion => cstr "unsupported_version"
  | .unknownOperation => cstr "unknown_operation"
  | .operationNotAllowed => cstr "operation_not_allowed"
  | .missingField => cstr "missing_field"
  | .tooManySubscriptions => cstr "too_many_subscriptions"
  | .queueOverflow => cstr "queue_overflow"
  | .clientTimeout => cstr "client_timeout"
  | .daemonUnavailable => cstr "daemon_unavailable"
  | .socketPermission => cstr "socket_permission"
  | .connectionClosed => cstr "connection_closed"
  | .backendUnavailable => cstr "backend_unavailable"
  | .missingPermission => cstr "missing_permission"
  | .captureFilterError => cstr "capture_filter_error"
  | .backendLoadFailure => cstr "backend_load_failure"
  | .storageError => cstr "storage_error"
  | .policyViolation => cstr "policy_violation"
  | .internalError => cstr "internal_error"

structure IpcError where
  code : ErrorCode := .internalError
  message : Bytes := []
  deriving DecidableEq, Repr

namespace Ipc

def kProtocolVersion : ℤ := 1
def kVersionString : Bytes := cstr "0.1.0"
def kMaxRequestBytes : ℕ := 64 * 1024
def kMaxEventBytes : ℕ := 256 * 1024
def kMaxClients : ℕ := 16
def kMaxSubscriptionsPerClient : ℕ := 8
def kMaxOutgoingQueue : ℕ := 1024

inductive Operation where
  | hello
  | getStatus
  | subscribe
  | unsubscribe
  | setPolicy
  | getPolicy
  | shutdown
  deriving DecidableEq, Repr

def operationName : Operation → Bytes
  | .hello => cstr "hello"
  | .getStatus => cstr "get_status"
  | .subscribe => cstr "subscribe"
  | .unsubscribe => cstr "unsubscribe"
  | .setPolicy => cstr "set_policy"
  | .getPolicy => cstr "get_policy"
  | .shutdown => cstr "shutdown"

def operationFromName (name : Bytes) : Option Operation :=
  if name = cstr "hello" then some .hello
  else if name = cstr "get_status" then some .getStatus
  else if name = cstr "subscribe" then some .subscribe
  else if name = cstr "unsubscribe" then some .unsubscribe
  else if name = cstr "set_policy" then some .setPolicy
  else if name = cstr "get_policy" then some .getPolicy
  else if name = cstr "shutdown" then some .shutdown
  else none

/-- A validated request; its `protocol_version` is always `kProtocolVersion`. -/
structure Request where
  operation : Operation := .hello
  requestId : Bytes := []
  paramsJson : Bytes := []
  deriving DecidableEq, Repr

structure Response where
  requestId : Bytes := []
  ok : Bool := false
  resultJson : Bytes := []
  error : IpcError := {}
  deriving DecidableEq, Repr

/-! ## Requests -/

def kForbidden : List Bytes :=
  [cstr "payload", cstr "body", cstr "cookies", cstr "authorization", cstr "password",
    cstr "api_key"]

def hasForbiddenField (doc : Json) : Bool := kForbidden.any fun f => (doc.field? f).isSome

def checkVersion (doc : Json) : Except IpcError Unit :=
  match (doc.field? (cstr "protocol_version")).bind Json.integer? with
  | none => .error ⟨.missingField, cstr "protocol_version missing"⟩
  | some version =>
      if version = kProtocolVersion then .ok ()
      else .error ⟨.unsupportedVersion, cstr "unsupported protocol version"⟩

def readOperation (doc : Json) : Except IpcError Operation :=
  match (doc.field? (cstr "operation")).bind Json.string? with
  | none => .error ⟨.missingField, cstr "operation missing"⟩
  | some name =>
      match operationFromName name with
      | none => .error ⟨.unknownOperation, cstr "unknown operation"⟩
      | some op => .ok op

def readRequestId (doc : Json) : Except IpcError Bytes :=
  match (doc.field? (cstr "request_id")).bind Json.string? with
  | none => .error ⟨.missingField, cstr "request_id missing"⟩
  | some requestId =>
      if requestId = [] ∨ requestId.length > 64 then
        .error ⟨.schemaViolation, cstr "request_id must be 1-64 chars"⟩
      else .ok requestId

def readParams (lib : JsonLib) (doc : Json) : Except IpcError Bytes :=
  match doc.field? (cstr "params") with
  | none => .ok []
  | some params =>
      match params.object? with
      | none => .error ⟨.schemaViolation, cstr "params must be an object"⟩
      | some fields =>
          if fields.length > 8 then .error ⟨.schemaViolation, cstr "too many params"⟩
          else
            match lib.dump params with
            | none => .error ⟨.invalidJson, cstr "request failed JSON validation"⟩
            | some text => .ok text

def readRequest (lib : JsonLib) (doc : Json) : Except IpcError Request :=
  (checkVersion doc).bind fun _ =>
  (readOperation doc).bind fun operation =>
  (readRequestId doc).bind fun requestId =>
  (readParams lib doc).map fun paramsJson => { operation, requestId, paramsJson }

def parseRequest (lib : JsonLib) (frame : Bytes) (maxBytes : ℕ) : Except IpcError Request :=
  if frame.length > maxBytes then .error ⟨.messageTooLarge, cstr "request exceeds frame limit"⟩
  else
    match lib.parse frame with
    | none => .error ⟨.invalidJson, cstr "request is not valid JSON"⟩
    | some doc =>
        if doc.isObject then
          if hasForbiddenField doc then
            .error ⟨.schemaViolation, cstr "request contains forbidden fields"⟩
          else readRequest lib doc
        else .error ⟨.schemaViolation, cstr "request must be a JSON object"⟩

/-! ## Framing -/

/-- The loop of `split_frames` at what the buffer holds from `search_from` on. -/
def splitLoop (maxBytes : ℕ) : ℕ → Bytes → List Bytes → Except IpcError (List Bytes × Bytes)
  | 0, rest, frames => .ok (frames, rest)
  | fuel + 1, rest, frames =>
      match find rest '\n'.toUInt8 0 with
      | none => .ok (frames, rest)
      | some nl =>
          if nl > maxBytes then .error ⟨.messageTooLarge, cstr "frame exceeds size limit"⟩
          else splitLoop maxBytes fuel (rest.drop (nl + 1)) (frames ++ [rest.take nl])

/-- The complete frames of the buffer and what stays in it. Every round takes a byte, so the
length of the buffer is fuel enough. -/
def splitFrames (buffer : Bytes) (maxBytes : ℕ) : Except IpcError (List Bytes × Bytes) :=
  (splitLoop maxBytes buffer.length buffer []).bind fun (frames, rest) =>
    if rest.length ≥ maxBytes then .error ⟨.messageTooLarge, cstr "frame exceeds size limit"⟩
    else .ok (frames, rest)

/-! ## Responses -/

def responseResult (lib : JsonLib) (response : Response) : Json :=
  if response.resultJson = [] then .object []
  else (lib.parse response.resultJson).getD (.object [])

def responseJson (lib : JsonLib) (response : Response) : Json :=
  .mkObject
    [(cstr "request_id", .string response.requestId), (cstr "ok", .bool response.ok),
     if response.ok then (cstr "result", responseResult lib response)
     else (cstr "error", .mkObject
       [(cstr "code", .string (errorCodeName response.error.code)),
        (cstr "message", .string response.error.message)])]

def encodeResponse (lib : JsonLib) (response : Response) : Option Bytes :=
  lib.dump (responseJson lib response)

def encodeError (lib : JsonLib) (requestId : Bytes) (error : IpcError) : Option Bytes :=
  encodeResponse lib { requestId, ok := false, error }

/-! ## Times -/

/-- Year, month and day of the day number `days` since 1970-01-01, as `gmtime_r` has them. -/
def civilFromDays (days : ℤ) : ℤ × ℤ × ℤ :=
  let z := days + 719468
  let era := z.fdiv 146097
  let doe := z - era * 146097
  let yoe := (doe - doe / 1460 + doe / 36524 - doe / 146096) / 365
  let doy := doe - (365 * yoe + yoe / 4 - yoe / 100)
  let mp := (5 * doy + 2) / 153
  let day := doy - (153 * mp + 2) / 5 + 1
  let month := if mp < 10 then mp + 3 else mp - 9
  (yoe + era * 400 + (if month ≤ 2 then 1 else 0), month, day)

/-- Seconds and milliseconds are truncated towards zero, the calendar fields are not. -/
def toRfc3339 (tp : ℤ) : Bytes :=
  let secs := tp.tdiv (10 ^ 9)
  let ms := (tp - secs * 10 ^ 9).tdiv (10 ^ 6)
  let (year, month, day) := civilFromDays (secs.fdiv 86400)
  let rem := secs.fmod 86400
  Format.decimalPadded 4 year ++ cstr "-" ++ Format.decimalPadded 2 month ++ cstr "-" ++
    Format.decimalPadded 2 day ++ cstr "T" ++ Format.decimalPadded 2 (rem / 3600) ++ cstr ":" ++
    Format.decimalPadded 2 (rem % 3600 / 60) ++ cstr ":" ++ Format.decimalPadded 2 (rem % 60) ++
    cstr "." ++ Format.decimalPadded 3 ms ++ cstr "Z"

/-! ## Events -/

/-- A member that is assigned only under a condition. -/
def fieldIf (condition : Bool) (key : Bytes) (value : Json) : List (Bytes × Json) :=
  if condition then [(key, value)] else []

/-- A member that is assigned only when there is a value. -/
def fieldOf {α : Type} (key : Bytes) (encode : α → Json) : Option α → List (Bytes × Json)
  | none => []
  | some value => [(key, encode value)]

/-- A string member that is left out when empty. -/
def textField (key value : Bytes) : List (Bytes × Json) := fieldIf (value != []) key (.string value)

def processJson (process : ProcessInfo) : Json :=
  .mkObject <|
    [(cstr "pid", .unsigned process.pid.toNat)] ++ textField (cstr "name") process.name ++
    fieldOf (cstr "uid") (fun uid => .unsigned uid.toNat) process.uid

def networkJson (network : NetworkInfo) : Json :=
  .mkObject <|
    [(cstr "transport", .string (transportName network.transport))] ++
    fieldIf (network.direction != .unknown) (cstr "direction")
      (.string (directionName network.direction)) ++
    textField (cstr "local_address") network.localAddress ++
    fieldIf (network.localAddress != []) (cstr "local_port")
      (.unsigned network.localPort.toNat) ++
    textField (cstr "remote_address") network.remoteAddress ++
    fieldIf (network.remoteAddress != []) (cstr "remote_port")
      (.unsigned network.remotePort.toNat) ++
    textField (cstr "dns_query_name") network.dnsQueryName ++
    fieldOf (cstr "dns_response_code") (fun code => .unsigned code.toNat)
      network.dnsResponseCode ++
    textField (cstr "interface") network.interface ++
    [(cstr "backend", .string (eventSourceName network.backend))]

def browserJson (browser : BrowserInfo) : Json :=
  .mkObject <|
    [(cstr "tab_id", .unsigned browser.tabId.toNat),
     (cstr "window_id", .unsigned browser.windowId.toNat)] ++
    textField (cstr "url") browser.url ++ textField (cstr "title") browser.title ++
    fieldIf (browser.navigationId != []) (cstr "navigation") (.mkObject
      [(cstr "navigation_id", .string browser.navigationId),
       (cstr "frame_id", .unsigned browser.frameId.toNat)])

def redactionNames (redactions : Redactions) : List Json :=
  (if redactions.queryString then [.string (cstr "query-string")] else []) ++
  (if redactions.fragment then [.string (cstr "fragment")] else []) ++
  (if redactions.hostnameHash then [.string (cstr "hostname-hash")] else []) ++
  (if redactions.hostnameMask then [.string (cstr "hostname-mask")] else []) ++
  (if redactions.domainExcluded then [.string (cstr "domain-excluded")] else [])

def privacyJson (privacy : PrivacyInfo) : Json :=
  .mkObject <|
    [(cstr "redacted", .bool privacy.redacted), (cstr "metadata_only", .bool true)] ++
    fieldIf (!(redactionNames privacy.redactions).isEmpty) (cstr "redactions")
      (.array (redactionNames privacy.redactions))

def backendJson (backend : BackendStatus) : Json :=
  .mkObject <|
    [(cstr "name", .string (eventSourceName backend.name)),
     (cstr "state", .string (if backend.active then cstr "active" else cstr "unavailable"))] ++
    textField (cstr "detail") backend.detail

def eventJson (event : Event) : Json :=
  .mkObject <|
    [(cstr "schema_version", .unsigned event.schemaVersion.toNat),
     (cstr "event_id", .string event.eventId),
     (cstr "event_type", .string (eventTypeName event.type)),
     (cstr "timestamp", .string (toRfc3339 event.timestamp)),
     (cstr "source", .string (eventSourceName event.source)),
     (cstr "confidence", .float event.confidence)] ++
    textField (cstr "correlation_id") event.correlationId ++
    fieldOf (cstr "process") processJson event.process ++
    fieldOf (cstr "network") networkJson event.network ++
    fieldOf (cstr "browser") browserJson event.browser ++
    [(cstr "privacy", privacyJson event.privacy)] ++
    fieldIf (event.type == .status && !event.backendStatuses.isEmpty) (cstr "status") (.mkObject
      [(cstr "state", .string (cstr "running")),
       (cstr "backends", .array (event.backendStatuses.map backendJson))]) ++
    fieldIf (event.type == .error) (cstr "error") (.mkObject
      [(cstr "code", .string event.errorCode), (cstr "message", .string event.errorMessage)])

def encodeEvent (lib : JsonLib) (event : Event) : Option Bytes := lib.dump (eventJson event)

end Ipc

end Ezcap
