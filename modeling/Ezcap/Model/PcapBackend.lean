import Ezcap.Library.StdString

/-! The pcap backend's start and the validator of capture filters, from `pcap_capture.cpp` and
`pcap_filter.cpp`. -/

namespace Ezcap

open StdString

/-! ## Filters -/

namespace PcapFilterValidator

def allowedTokens : List Bytes :=
  [cstr "ip", cstr "ip6", cstr "tcp", cstr "udp", cstr "icmp", cstr "host", cstr "net",
   cstr "port", cstr "ports", cstr "src", cstr "dst", cstr "and", cstr "or", cstr "not",
   cstr "ether", cstr "arp", cstr "rarp", cstr "ipproto", cstr "broadcast", cstr "less",
   cstr "greater", cstr "len"]

def isWordChar (c : UInt8) : Bool :=
  isalnum c || c == '.'.toUInt8 || c == ':'.toUInt8 || c == '/'.toUInt8

def isNumber (s : Bytes) : Bool := s != [] && s.all isdigit

/-- An address or a number. -/
def looksLikeLiteral (s : Bytes) : Bool :=
  isNumber s ||
    s.all (fun c => c == ':'.toUInt8 || c == '.'.toUInt8 || isxdigit c || c == '/'.toUInt8) &&
    (decide (s.count '.'.toUInt8 > 0) || decide (s.count ':'.toUInt8 > 0))

/-- The end of a token, and the character that may not stand there. -/
def flush (token : Bytes) (unexpected : Option UInt8) : Except Bytes Unit :=
  if token != [] && !(allowedTokens.contains token || looksLikeLiteral token) then
    .error (cstr "disallowed token in filter")
  else
    match unexpected with
    | some c => .error (cstr "unexpected character in filter: " ++ [c])
    | none => .ok ()

/-- The loop over the characters, with the token so far. -/
def validateLoop : Bytes → Bytes → Except Bytes Unit
  | [], token => flush token none
  | c :: rest, token =>
      if isWordChar c then validateLoop rest (token ++ [c])
      else if c = ' '.toUInt8 ∨ c = '\t'.toUInt8 ∨ c = '\n'.toUInt8 then
        (flush token none).bind fun _ => validateLoop rest []
      else if c = '('.toUInt8 ∨ c = ')'.toUInt8 then
        (flush token none).bind fun _ => validateLoop rest []
      else (flush token (some c)).bind fun _ => validateLoop rest []

def validate (filter : Bytes) : Except Bytes Unit :=
  if filter = [] then .error (cstr "empty filter")
  else if filter.length > 256 then .error (cstr "filter too long")
  else validateLoop filter []

end PcapFilterValidator

/-! ## Starting a capture -/

namespace PcapCaptureBackend

/-- What the calls into libpcap return for one interface. -/
structure Outcome where
  creates : Bool := true
  configures : Bool := true
  activates : Bool := true
  compiles : Bool := true
  setsFilter : Bool := true

/-- The filter that is handed to `pcap_compile`, if it gets there, and the result. -/
structure Start where
  compiled : Option Bytes := none
  result : Except Bytes Unit

def start (filter : Bytes) (outcome : Outcome) : Start :=
  if !outcome.creates then
    { result := .error (cstr "pcap_create failed on interface (permission or missing device)") }
  else if !outcome.configures then { result := .error (cstr "pcap configuration failed") }
  else if !outcome.activates then
    { result := .error (cstr "pcap_activate failed (permission or busy device)") }
  else if !outcome.compiles then
    { compiled := some (untilNul filter), result := .error (cstr "capture filter rejected") }
  else if !outcome.setsFilter then
    { compiled := some (untilNul filter), result := .error (cstr "pcap_setfilter failed") }
  else { compiled := some (untilNul filter), result := .ok () }

end PcapCaptureBackend

end Ezcap
