import Ezcap.Library.StdString
import Mathlib.Data.Rat.Defs

/-! The normalized event shared by every component, from `event_types.hpp` and
`event.hpp`. Time points are nanoseconds since the epoch; confidences are exact
decimals. -/

namespace Ezcap

open StdString

inductive EventType where
  | connection
  | dns
  | navigation
  | process
  | status
  | error
  deriving DecidableEq, Repr

inductive EventSource where
  | ebpf
  | pcap
  | browser
  deriving DecidableEq, Repr

inductive Transport where
  | tcp
  | udp
  | icmp
  | other
  deriving DecidableEq, Repr

inductive Direction where
  | inbound
  | outbound
  | unknown
  deriving DecidableEq, Repr

def eventTypeName : EventType → Bytes
  | .connection => cstr "connection"
  | .dns => cstr "dns"
  | .navigation => cstr "navigation"
  | .process => cstr "process"
  | .status => cstr "status"
  | .error => cstr "error"

def eventSourceName : EventSource → Bytes
  | .ebpf => cstr "ebpf"
  | .pcap => cstr "pcap"
  | .browser => cstr "browser"

def transportName : Transport → Bytes
  | .tcp => cstr "tcp"
  | .udp => cstr "udp"
  | .icmp => cstr "icmp"
  | .other => cstr "other"

def directionName : Direction → Bytes
  | .inbound => cstr "inbound"
  | .outbound => cstr "outbound"
  | .unknown => cstr "unknown"

def equalsCi (a b : Bytes) : Bool := a.map lowerChar == b.map lowerChar

def eventTypeFromName (name : Bytes) : Option EventType :=
  if equalsCi name (cstr "connection") then some .connection
  else if equalsCi name (cstr "dns") then some .dns
  else if equalsCi name (cstr "navigation") then some .navigation
  else if equalsCi name (cstr "process") then some .process
  else if equalsCi name (cstr "status") then some .status
  else if equalsCi name (cstr "error") then some .error
  else none

def transportFromName (name : Bytes) : Option Transport :=
  if equalsCi name (cstr "tcp") then some .tcp
  else if equalsCi name (cstr "udp") then some .udp
  else if equalsCi name (cstr "icmp") then some .icmp
  else if equalsCi name (cstr "other") then some .other
  else none

/-- Kinds of redaction, in the order of `PrivacyInfo::redactions`. -/
inductive RedactionKind where
  | queryString
  | fragment
  | hostnameHash
  | hostnameMask
  | domainExcluded
  deriving DecidableEq, Repr

/-- A `std::array<bool, 5>` indexed by `RedactionKind`. -/
structure Redactions where
  queryString : Bool := false
  fragment : Bool := false
  hostnameHash : Bool := false
  hostnameMask : Bool := false
  domainExcluded : Bool := false
  deriving DecidableEq, Repr

def Redactions.mark (r : Redactions) : RedactionKind → Redactions
  | .queryString => { r with queryString := true }
  | .fragment => { r with fragment := true }
  | .hostnameHash => { r with hostnameHash := true }
  | .hostnameMask => { r with hostnameMask := true }
  | .domainExcluded => { r with domainExcluded := true }

/-- Entrywise disjunction, the merge loop at the end of `PolicyEngine::apply`. -/
def Redactions.merge (r q : Redactions) : Redactions where
  queryString := r.queryString || q.queryString
  fragment := r.fragment || q.fragment
  hostnameHash := r.hostnameHash || q.hostnameHash
  hostnameMask := r.hostnameMask || q.hostnameMask
  domainExcluded := r.domainExcluded || q.domainExcluded

structure ProcessInfo where
  pid : UInt32 := 0
  name : Bytes := []
  uid : Option UInt32 := none
  deriving DecidableEq, Repr

structure NetworkInfo where
  transport : Transport := .other
  direction : Direction := .unknown
  localAddress : Bytes := []
  localPort : UInt16 := 0
  remoteAddress : Bytes := []
  remotePort : UInt16 := 0
  dnsQueryName : Bytes := []
  dnsResponseCode : Option UInt8 := none
  interface : Bytes := []
  backend : EventSource := .pcap
  deriving DecidableEq, Repr

structure BrowserInfo where
  tabId : UInt64 := 0
  windowId : UInt64 := 0
  url : Bytes := []
  title : Bytes := []
  navigationId : Bytes := []
  frameId : UInt64 := 0
  deriving DecidableEq, Repr

structure PrivacyInfo where
  redacted : Bool := false
  metadataOnly : Bool := true
  redactions : Redactions := {}
  deriving DecidableEq, Repr

/-- One entry of a status event. -/
structure BackendStatus where
  name : EventSource := .pcap
  active : Bool := false
  detail : Bytes := []
  deriving DecidableEq, Repr

def kEventSchemaVersion : UInt32 := 1

structure Event where
  schemaVersion : UInt32 := kEventSchemaVersion
  eventId : Bytes := []
  type : EventType := .connection
  source : EventSource := .pcap
  timestamp : ℤ := 0
  confidence : ℚ := 0
  correlationId : Bytes := []
  process : Option ProcessInfo := none
  network : Option NetworkInfo := none
  browser : Option BrowserInfo := none
  privacy : PrivacyInfo := {}
  backendStatuses : List BackendStatus := []
  errorCode : Bytes := []
  errorMessage : Bytes := []
  deriving DecidableEq, Repr

end Ezcap
