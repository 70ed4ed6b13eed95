import Ezcap.Library.Inet
import Ezcap.Model.Event

/-! The link-layer frame parser, from `packet_parser.cpp`. A frame is the captured
bytes; every read below sits behind the bounds check that the source makes. -/

namespace Ezcap

open StdString

structure PacketMetadata where
  valid : Bool := false
  transport : Transport := .other
  direction : Direction := .unknown
  localAddress : Bytes := []
  remoteAddress : Bytes := []
  sourcePort : UInt16 := 0
  destinationPort : UInt16 := 0
  dnsQueryName : Bytes := []
  dnsResponseCode : UInt8 := 0
  hasDnsResponseCode : Bool := false
  deriving DecidableEq, Repr

namespace PacketParser

def kEthHeaderLen : ℕ := 14
def kEthTypeIp4 : UInt16 := 0x0800
def kEthTypeIp6 : UInt16 := 0x86DD
def kProtoTcp : UInt8 := 6
def kProtoUdp : UInt8 := 17
def kDnsPort : UInt16 := 53

/-- The big-endian 16-bit field at `i`. -/
def readBe16 (data : Bytes) (i : ℕ) : UInt16 :=
  ((data.getD i 0).toUInt16 <<< 8) ||| (data.getD (i + 1) 0).toUInt16

/-! ## DNS question names -/

def qnameChar (ch : UInt8) : Bool :=
  ('a'.toUInt8 ≤ ch && ch ≤ 'z'.toUInt8) || ('A'.toUInt8 ≤ ch && ch ≤ 'Z'.toUInt8) ||
    ('0'.toUInt8 ≤ ch && ch ≤ '9'.toUInt8) || ch == '-'.toUInt8 || ch == '_'.toUInt8 ||
    ch == '.'.toUInt8

/-- `out.push_back(ch)` behind the length check. -/
def pushName (out : Bytes) (ch : UInt8) : Option Bytes :=
  if out.length + 1 ≥ 253 then none else some (out ++ [ch])

/-- The separator before every label but the first. -/
def pushDot (out : Bytes) : Option Bytes :=
  if out ≠ [] then pushName out '.'.toUInt8 else some out

/-- The inner loop over the bytes of one label. -/
def pushLabel : Bytes → Bytes → Option Bytes
  | out, [] => some out
  | out, ch :: label =>
      if qnameChar ch then (pushName out ch).bind (pushLabel · label) else none

/-- The label loop at index `i`, with `labels` iterations left. The empty name stands for
every malformation. -/
def qnameLoop (data : Bytes) : ℕ → ℕ → Bytes → Bytes
  | 0, _, _ => []
  | labels + 1, i, out =>
      if i < data.length then
        let labelLen := data.getD i 0
        if labelLen = 0 then out
        else if labelLen &&& 0xC0 ≠ 0 ∨ labelLen > 63 then []
        else if i + 1 + labelLen.toNat > data.length then []
        else
          match (pushDot out).bind (pushLabel · (substr data (i + 1) (some labelLen.toNat))) with
          | none => []
          | some out => qnameLoop data labels (i + 1 + labelLen.toNat) out
      else []

def parseDnsQname (data : Bytes) : Bytes := qnameLoop data 128 0 []

/-! ## Frames -/

def formatIpv4 (bytes : Bytes) : Bytes := Inet.ntop4 bytes

def formatIpv6 (bytes : Bytes) : Bytes := Inet.ntop6 bytes

def transportOf (proto : UInt8) : Transport := if proto = kProtoTcp then .tcp else .udp

/-- The length in bytes that the IHL field of the IPv4 header at `offset` declares. -/
def ihl (frame : Bytes) (offset : ℕ) : ℕ := (frame.getD offset 0 &&& 0x0F).toNat * 4

/-- The IPv4 branch: the metadata so far, and where the transport header starts unless the
parser has returned. -/
def parseIpv4 (frame : Bytes) (offset : ℕ) : PacketMetadata × Option ℕ :=
  if frame.length < offset + 20 then ({}, none)
  else
    if ihl frame offset < 20 ∨ frame.length < offset + ihl frame offset then ({}, none)
    else
      let metadata : PacketMetadata :=
        { localAddress := formatIpv4 (substr frame (offset + 12) (some 4))
          remoteAddress := formatIpv4 (substr frame (offset + 16) (some 4)) }
      let proto := frame.getD (offset + 9) 0
      if proto ≠ kProtoTcp ∧ proto ≠ kProtoUdp then (metadata, none)
      else ({ metadata with transport := transportOf proto }, some (offset + ihl frame offset))

/-- The IPv6 branch; extension headers are not walked. -/
def parseIpv6 (frame : Bytes) (offset : ℕ) : PacketMetadata × Option ℕ :=
  if frame.length < offset + 40 then ({}, none)
  else
    let nextHeader := frame.getD (offset + 6) 0
    if nextHeader ≠ kProtoTcp ∧ nextHeader ≠ kProtoUdp then ({}, none)
    else
      ({ localAddress := formatIpv6 (substr frame (offset + 8) (some 16))
         remoteAddress := formatIpv6 (substr frame (offset + 24) (some 16))
         transport := transportOf nextHeader },
        some (offset + 40))

def parseNetworkHeader (frame : Bytes) : PacketMetadata × Option ℕ :=
  if frame.length < kEthHeaderLen then ({}, none)
  else if readBe16 frame 12 = kEthTypeIp4 then parseIpv4 frame kEthHeaderLen
  else if readBe16 frame 12 = kEthTypeIp6 then parseIpv6 frame kEthHeaderLen
  else ({}, none)

/-- The first question of a datagram on port 53. -/
def parseDnsPayload (payload : Bytes) (metadata : PacketMetadata) : PacketMetadata :=
  if payload.length ≥ 12 then
    { metadata with
      hasDnsResponseCode := true
      dnsResponseCode := payload.getD 3 0 &&& 0x0F
      dnsQueryName :=
        if readBe16 payload 4 ≥ 1 then parseDnsQname (payload.drop 12)
        else metadata.dnsQueryName }
  else metadata

/-- The two ports, which TCP and UDP have at the same place. -/
def withPorts (frame : Bytes) (offset : ℕ) (metadata : PacketMetadata) : PacketMetadata :=
  { metadata with
    sourcePort := readBe16 frame offset
    destinationPort := readBe16 frame (offset + 2) }

/-- DNS is decoded on port 53 only. -/
def onDnsPort (metadata : PacketMetadata) : Bool :=
  metadata.destinationPort == kDnsPort || metadata.sourcePort == kDnsPort

/-- The transport header at `offset`. The comparison of the UDP length field with the captured
data has an empty body in the source and is left out. -/
def parseTransportHeader (frame : Bytes) (offset : ℕ) (metadata : PacketMetadata) :
    PacketMetadata :=
  let remaining := frame.length - offset
  let ported := withPorts frame offset metadata
  if metadata.transport = .tcp then
    if remaining < 20 then { metadata with transport := .other }
    else { ported with valid := true }
  else
    if remaining < 8 then { metadata with transport := .other }
    else if onDnsPort ported then
      { parseDnsPayload (frame.drop (offset + 8)) ported with valid := true }
    else { ported with valid := true }

def parseEthernetFrame (frame : Bytes) : PacketMetadata :=
  match parseNetworkHeader frame with
  | (metadata, none) => metadata
  | (metadata, some offset) => parseTransportHeader frame offset metadata

end PacketParser

end Ezcap
