import Ezcap.Library.Json
import Ezcap.Model.Redactor

/-! The daemon's configuration and its parser, from `config.hpp` and `config.cpp`. -/

namespace Ezcap

open StdString

structure Config where
  socketPath : Bytes := cstr "/run/ezcap/ezcap.sock"
  logLevel : Bytes := cstr "info"
  logFile : Bytes := []
  preferEbpf : Bool := true
  pcapFallback : Bool := true
  interfaces : List Bytes := []
  pcapFilter : Bytes := cstr "ip or ip6"
  policy : Policy := {}
  storageEnabled : Bool := false
  storagePath : Bytes := cstr "/var/lib/ezcap/events.db"
  storageRetention : ℤ := 86400 * 7
  statusInterval : ℤ := 1000
  maxEventsPerSecond : ℕ := 0
  deriving DecidableEq, Repr

namespace Config

/-- How `Config::parse` can fail: it returns false with a text, or `json::value` throws
because the policy is no object. -/
inductive Failure where
  | error (text : Bytes)
  | typeError
  deriving DecidableEq, Repr

/-- Parsing so far: a configuration to go on with, or a failure. -/
abbrev Parsed (α : Type) := Except Failure α

def reject {α : Type} (text : String) : Parsed α := .error (.error (cstr text))

/-- Read a member if it is there. -/
def ifPresent {α : Type} (doc : Json) (key : String) (reader : Json → α → Parsed α) (out : α) :
    Parsed α :=
  match doc.field? (cstr key) with
  | none => .ok out
  | some value => reader value out

/-- Reject a member whose key is not in `keys`, with `text` and the key as the error. -/
def checkKeys (keys : List String) (text : String) : List (Bytes × Json) → Parsed Unit
  | [] => .ok ()
  | (key, _) :: fields =>
      if key ∈ keys.map cstr then checkKeys keys text fields
      else .error (.error (cstr text ++ key))

/-- The strings of an array, each of at least one and at most `bound` bytes. -/
def readStrings (bound : ℕ) (text : String) : List Json → Parsed (List Bytes)
  | [] => .ok []
  | value :: values =>
      match value.string? with
      | none => reject text
      | some s =>
          if s = [] ∨ s.length > bound then reject text
          else (readStrings bound text values).map (s :: ·)

def readBool (text : String) (value : Json) : Parsed Bool :=
  match value.bool? with
  | none => reject text
  | some b => .ok b

/-- A string of at most `bound` bytes. -/
def readShort (bound : ℕ) (text : String) (value : Json) : Parsed Bytes :=
  match value.string? with
  | none => reject text
  | some s => if s.length > bound then reject text else .ok s

/-- An unsigned number between `low` and `high`. -/
def readRange (low high : ℕ) (text : String) (value : Json) : Parsed ℕ :=
  match value.unsigned? with
  | none => reject text
  | some n => if n < low ∨ n > high then reject text else .ok n

def readArray (bound : ℕ) (notArray badEntry : String) (value : Json) : Parsed (List Bytes) :=
  match value.array? with
  | none => reject notArray
  | some values => readStrings bound badEntry values

/-! ## The policy section -/

def readRedactionMode (value : Json) (policy : Policy) : Parsed Policy :=
  match value.string? with
  | none => reject "policy.redaction.redaction_mode must be a string"
  | some name =>
      match redactionModeFromName name with
      | none => reject "unknown redaction_mode"
      | some mode => .ok { policy with redactionMode := mode }

/-- The readers of the keys of `policy.redaction`. -/
def redactionReaders : List (String × (Json → Policy → Parsed Policy)) :=
  [("redaction_mode", readRedactionMode),
   ("strip_query_string", fun value policy =>
     (readBool "policy.redaction.strip_query_string must be a boolean" value).map
       fun b => { policy with stripQueryString := b }),
   ("strip_fragment", fun value policy =>
     (readBool "policy.redaction.strip_fragment must be a boolean" value).map
       fun b => { policy with stripFragment := b }),
   ("sensitive_domains", fun value policy =>
     (readArray 253 "policy.redaction.sensitive_domains must be an array"
       ("policy.redaction.sensitive_domains entries must be " ++
         "non-empty strings (max 253 chars)") value).map
       fun ds => { policy with sensitiveDomains := ds }),
   ("capture_interfaces", fun value policy =>
     (readArray 16 "policy.redaction.capture_interfaces must be an array"
       ("policy.redaction.capture_interfaces entries must be " ++
         "non-empty interface names (max 16 chars)") value).map
       fun names => { policy with captureInterfaces := names }),
   ("pcap_filter", fun value policy =>
     (readShort 256 "policy.redaction.pcap_filter must be a string (max 256 chars)" value).map
       fun filter => { policy with pcapFilter := filter })]

/-- The loop over the members of `policy.redaction`. -/
def readRedaction : List (Bytes × Json) → Policy → Parsed Policy
  | [], policy => .ok policy
  | (key, value) :: fields, policy =>
      match redactionReaders.find? fun r => cstr r.1 == key with
      | none => .error (.error (cstr "unknown policy key: " ++ key))
      | some reader => (reader.2 value policy).bind (readRedaction fields)

/-- Other members of the policy than `redaction` are not looked at. -/
def parsePolicy (doc : Json) (policy : Policy) : Parsed Policy :=
  match doc with
  | .object _ =>
      match ((doc.field? (cstr "redaction")).getD (.object [])).object? with
      | none => reject "policy.redaction must be an object"
      | some fields => readRedaction fields policy
  | _ => .error .typeError

/-! ## The whole document -/

def validPath (path : Bytes) : Parsed Unit :=
  if path.head? ≠ some '/'.toUInt8 then reject "path must be absolute"
  else if (findSub (cstr "..") path).isSome then reject "path must not contain '..'"
  else if path.length > 104 then reject "path too long for a unix socket"
  else .ok ()

def readSocketPath (value : Json) (config : Config) : Parsed Config :=
  match value.string? with
  | none => reject "invalid socket_path"
  | some path => (validPath path).map fun _ => { config with socketPath := path }

def logLevels : List String := ["trace", "debug", "info", "warn", "error", "off"]

def readLogLevel (value : Json) (config : Config) : Parsed Config :=
  match value.string? with
  | none => reject "log_level must be a string"
  | some level =>
      if level ∈ logLevels.map cstr then .ok { config with logLevel := level }
      else reject "log_level must be one of trace|debug|info|warn|error|off"

def readLogFile (value : Json) (config : Config) : Parsed Config :=
  match value.string? with
  | none => reject "log_file must be a string"
  | some file => .ok { config with logFile := file }

def readStoragePath (value : Json) (config : Config) : Parsed Config :=
  match value.string? with
  | none => reject "storage.path must be a non-empty string"
  | some path =>
      if path = [] then reject "storage.path must be a non-empty string"
      else .ok { config with storagePath := path }

def storageReaders : List (String × (Json → Config → Parsed Config)) :=
  [("enabled", fun value config =>
     (readBool "storage.enabled must be a boolean" value).map
       fun b => { config with storageEnabled := b }),
   ("path", readStoragePath),
   ("retention_seconds", fun value config =>
     (readRange 60 31536000 "storage.retention_seconds must be between 60 and 31536000"
       value).map fun n => { config with storageRetention := n })]

def readStorage (value : Json) (config : Config) : Parsed Config :=
  match value.object? with
  | none => reject "storage must be an object"
  | some fields =>
      (checkKeys (storageReaders.map Prod.fst) "unknown storage key: " fields).bind fun _ =>
        storageReaders.foldlM (fun config r => ifPresent value r.1 r.2 config) config

def readMaxEventsPerSecond (value : Json) (config : Config) : Parsed Config :=
  match value.unsigned? with
  | none => reject "max_events_per_second must be a non-negative integer"
  | some n => .ok { config with maxEventsPerSecond := n }

/-- The readers of the top-level keys, in the order in which they are tried. -/
def topReaders : List (String × (Json → Config → Parsed Config)) :=
  [("socket_path", readSocketPath),
   ("log_level", readLogLevel),
   ("log_file", readLogFile),
   ("prefer_ebpf", fun value config =>
     (readBool "prefer_ebpf must be a boolean" value).map
       fun b => { config with preferEbpf := b }),
   ("pcap_fallback", fun value config =>
     (readBool "pcap_fallback must be a boolean" value).map
       fun b => { config with pcapFallback := b }),
   ("interfaces", fun value config =>
     (readArray 16 "interfaces must be an array"
       "interfaces entries must be non-empty names (max 16 chars)" value).map
       fun names => { config with interfaces := names }),
   ("pcap_filter", fun value config =>
     (readShort 256 "pcap_filter must be a string (max 256 chars)" value).map
       fun filter => { config with pcapFilter := filter }),
   ("policy", fun value config =>
     (parsePolicy value config.policy).map fun policy => { config with policy := policy }),
   ("storage", readStorage),
   ("status_interval_ms", fun value config =>
     (readRange 100 3600000 "status_interval_ms must be between 100 and 3600000" value).map
       fun n => { config with statusInterval := n }),
   ("max_events_per_second", readMaxEventsPerSecond)]

def parseDocument (doc : Json) (config : Config) : Parsed Config :=
  match doc.object? with
  | none => reject "configuration must be a JSON object"
  | some fields =>
      (checkKeys (topReaders.map Prod.fst) "unknown configuration key: " fields).bind fun _ =>
      (topReaders.foldlM (fun config r => ifPresent doc r.1 r.2 config) config).bind fun config =>
        if config.storageEnabled ∧ config.storagePath = [] then
          reject "storage.enabled requires storage.path"
        else .ok config

/-- `Config::parse` into the configuration that it is given. -/
def parseInto (lib : JsonLib) (text : Bytes) (out : Config) : Parsed Config :=
  match lib.parse text with
  | none => reject "configuration is not valid JSON"
  | some doc => parseDocument doc out

/-- `Config::parse` into a default-constructed configuration, as the daemon calls it. -/
def parse (lib : JsonLib) (text : Bytes) : Parsed Config := parseInto lib text {}

/-! ## Writing a configuration -/

def policyJson (policy : Policy) : Json :=
  .mkObject
    [(cstr "redaction_mode", .string (redactionModeName policy.redactionMode)),
     (cstr "strip_query_string", .bool policy.stripQueryString),
     (cstr "strip_fragment", .bool policy.stripFragment),
     (cstr "sensitive_domains", .array (policy.sensitiveDomains.map .string)),
     (cstr "capture_interfaces", .array (policy.captureInterfaces.map .string))]

def storageJson (config : Config) : Json :=
  .mkObject
    [(cstr "enabled", .bool config.storageEnabled),
     (cstr "path", .string config.storagePath),
     (cstr "retention_seconds", .unsigned (config.storageRetention % 2 ^ 64).toNat)]

def toJson (config : Config) : Json :=
  .mkObject
    [(cstr "socket_path", .string config.socketPath),
     (cstr "log_level", .string config.logLevel),
     (cstr "log_file", .string config.logFile),
     (cstr "prefer_ebpf", .bool config.preferEbpf),
     (cstr "pcap_fallback", .bool config.pcapFallback),
     (cstr "interfaces", .array (config.interfaces.map .string)),
     (cstr "pcap_filter", .string config.pcapFilter),
     (cstr "policy", policyJson config.policy),
     (cstr "storage", storageJson config)]

/-- The text of a configuration; `dump` throws on a string that is not UTF-8. -/
def toJsonText (lib : JsonLib) (config : Config) : Option Bytes := lib.dump (toJson config)

end Config

end Ezcap
