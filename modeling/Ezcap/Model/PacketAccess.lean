import Ezcap.Library.Access
import Ezcap.Model.Probes

/-! The functions of `packet_parser.cpp` and `dns.bpf.c` that take packets apart, down to each
access that they make: every index, every pointer that is read through and every subspan, in the
order of the source. -/

namespace Ezcap

open StdString Access

/-! ## The frame parser -/

namespace PacketAccess

open PacketParser

def readBe16 (p : Span) (i : ℕ) : Access UInt8 UInt16 := do
  let high ← p.get i
  let low ← p.get (i + 1)
  return (high.toUInt16 <<< 8) ||| low.toUInt16

/-- The variables of the label loop. -/
structure QnameState where
  i : ℕ := 0
  labels : ℕ := 0
  out : Bytes := []

/-- The inner loop, with `n` bytes of the label left from index `k` on. -/
def pushLabel (data : Span) : ℕ → ℕ → Bytes → Access UInt8 (Option Bytes)
  | 0, _, out => return some out
  | n + 1, k, out => do
      let ch ← data.get k
      if qnameChar ch then
        match pushName out ch with
        | none => return none
        | some out => pushLabel data n (k + 1) out
      else return none

/-- One turn of the label loop: what is returned, or the variables after it. -/
def qnameTurn (data : Span) (s : QnameState) : Access UInt8 (Bytes ⊕ QnameState) := do
  let labelLen ← data.get s.i
  if labelLen = 0 then return .inl s.out
  else if labelLen &&& 0xC0 ≠ 0 ∨ labelLen > 63 then return .inl []
  else if s.i + 1 + labelLen.toNat > data.size then return .inl []
  else
    match pushDot s.out with
    | none => return .inl []
    | some out => do
        match ← pushLabel data labelLen.toNat (s.i + 1) out with
        | none => return .inl []
        | some out => return .inr ⟨s.i + 1 + labelLen.toNat, s.labels + 1, out⟩

/-- The condition of the loop has its own count of labels; that this ends it after 128 turns is
checked. -/
def parseDnsQname (data : Span) : Access UInt8 Bytes :=
  whileLoop (fun s => decide (s.i < data.size ∧ s.labels < 128)) (qnameTurn data) (fun _ => [])
    128 {}

def parseIpv4 (frame : Span) (offset : ℕ) : Access UInt8 (PacketMetadata × Option ℕ) :=
  if frame.size < offset + 20 then return ({}, none)
  else do
    let versionIhl ← frame.get offset
    let ihl := (versionIhl &&& 0x0F).toNat * 4
    if ihl < 20 ∨ frame.size < offset + ihl then return ({}, none)
    else do
      let source ← frame.getMany (offset + 12) 4
      let destination ← frame.getMany (offset + 16) 4
      let metadata : PacketMetadata :=
        { localAddress := formatIpv4 source, remoteAddress := formatIpv4 destination }
      let proto ← frame.get (offset + 9)
      if proto ≠ kProtoTcp ∧ proto ≠ kProtoUdp then return (metadata, none)
      else return ({ metadata with transport := transportOf proto }, some (offset + ihl))

def parseIpv6 (frame : Span) (offset : ℕ) : Access UInt8 (PacketMetadata × Option ℕ) :=
  if frame.size < offset + 40 then return ({}, none)
  else do
    let nextHeader ← frame.get (offset + 6)
    if nextHeader ≠ kProtoTcp ∧ nextHeader ≠ kProtoUdp then return ({}, none)
    else do
      let source ← frame.getMany (offset + 8) 16
      let destination ← frame.getMany (offset + 24) 16
      return ({ localAddress := formatIpv6 source
                remoteAddress := formatIpv6 destination
                transport := transportOf nextHeader },
        some (offset + 40))

def parseNetworkHeader (frame : Span) : Access UInt8 (PacketMetadata × Option ℕ) :=
  if frame.size < kEthHeaderLen then return ({}, none)
  else do
    let ethType ← readBe16 frame 12
    if ethType = kEthTypeIp4 then parseIpv4 frame kEthHeaderLen
    else if ethType = kEthTypeIp6 then parseIpv6 frame kEthHeaderLen
    else return ({}, none)

def parseDnsPayload (payload : Span) (metadata : PacketMetadata) : Access UInt8 PacketMetadata :=
  if payload.size ≥ 12 then do
    let qdcount ← readBe16 payload 4
    let flags ← payload.get 3
    let metadata :=
      { metadata with hasDnsResponseCode := true, dnsResponseCode := flags &&& 0x0F }
    if qdcount ≥ 1 then do
      let question ← payload.subspan 12 (payload.size - 12)
      let dnsQueryName ← parseDnsQname question
      return { metadata with dnsQueryName }
    else return metadata
  else return metadata

def withPorts (frame : Span) (offset : ℕ) (metadata : PacketMetadata) :
    Access UInt8 PacketMetadata := do
  let sourcePort ← readBe16 frame offset
  let destinationPort ← readBe16 frame (offset + 2)
  return { metadata with sourcePort, destinationPort }

/-- The number of bytes from the offset on must not be negative. The UDP length is read, but
nothing comes of it. -/
def parseTransportHeader (frame : Span) (offset : ℕ) (metadata : PacketMetadata) :
    Access UInt8 PacketMetadata := do
  require (offset ≤ frame.size)
  let remaining := frame.size - offset
  if metadata.transport = .tcp then
    if remaining < 20 then return { metadata with transport := .other }
    else do
      let ported ← withPorts frame offset metadata
      return { ported with valid := true }
  else
    if remaining < 8 then return { metadata with transport := .other }
    else do
      let ported ← withPorts frame offset metadata
      let _dgramLen ← readBe16 frame (offset + 4)
      if onDnsPort ported then do
        let payload ← frame.subspan (offset + 8) (frame.size - (offset + 8))
        let decoded ← parseDnsPayload payload ported
        return { decoded with valid := true }
      else return { ported with valid := true }

def parseEthernetFrame (frame : Span) : Access UInt8 PacketMetadata := do
  match ← parseNetworkHeader frame with
  | (metadata, none) => return metadata
  | (metadata, some offset) => parseTransportHeader frame offset metadata

end PacketAccess

/-! ## The DNS tracer -/

namespace TracerAccess

open PacketParser Ebpf

/-- The inner loop, with `n` bytes of the label left from index `k` on. -/
def copyLabel (payload payloadLen : ℕ) : ℕ → ℕ → Bytes → Access UInt8 (Except Bytes Bytes)
  | 0, _, out => return .ok out
  | n + 1, k, out =>
      if out.length ≥ EZCAP_DNS_NAME_MAX - 1 then return .error out
      else if k ≥ payloadLen then return .error out
      else do
        let ch ← load (payload + k)
        copyLabel payload payloadLen n (k + 1) (out ++ [ch])

def copyLabels (payload payloadLen : ℕ) : ℕ → ℕ → Bytes → Access UInt8 (Except Bytes Bytes)
  | 0, _, out => return .ok out
  | hops + 1, i, out =>
      if i < payloadLen then do
        let labelLen ← load (payload + i)
        if labelLen = 0 then return .ok out
        else if labelLen &&& 0xC0 ≠ 0 ∨ labelLen > 63 then return .error out
        else if i + 1 + labelLen.toNat > payloadLen then return .error out
        else
          match pushSeparator out with
          | .error out => return .error out
          | .ok out => do
              match ← copyLabel payload payloadLen labelLen.toNat (i + 1) out with
              | .error out => return .error out
              | .ok out => copyLabels payload payloadLen hops (i + 1 + labelLen.toNat) out
      else return .ok out

def copyQname (payload payloadLen : ℕ) : Access UInt8 (Except Bytes Bytes) :=
  copyLabels payload payloadLen 128 0 []

/-- The payload length, from the copied UDP header and `skb->len`. -/
def payloadLen (udph : Bytes) (len ihl : ℕ) : ℕ :=
  let udpLen := (PacketParser.readBe16 udph 4).toNat
  min 512 (if udpLen < 8 + 12 then len - (ihl + 8) else udpLen - 8 - 12)

theorem length_ifname_set (ev : DnsEvent) : (ev.ifname.set 0 0).length = EZCAP_IFNAME_MAX := by
  rw [List.length_set, ev.ifname_length]

/-- The record, from the copied headers and the name. -/
def record (task : Task) (iph udph : Bytes) (name : Except Bytes Bytes) (ev : DnsEvent) :
    DnsEvent :=
  { ev with
    hdr := fillHeader task EZCAP_EVENT_TAG_DNS
    localAddr4 := (readLe iph 12 4).toUInt32
    localPort := PacketParser.readBe16 udph 0
    isIpv6 := 0
    transport := 17
    queryLen := queryLenOf name
    queryName := queryNameOf ev.queryName name
    ifname := ev.ifname.set 0 0
    queryName_length := length_queryNameOf ev.queryName_length name
    ifname_length := length_ifname_set ev }

/-- The program on a packet of `size` bytes in front of `data_end`, with the addresses counted from
`data` on. The headers are copied before they are looked at. -/
def dnsTrace (reserved : Option DnsEvent) (task : Task) (protocol : UInt16) (size len : ℕ) :
    Access UInt8 (Option DnsEvent) :=
  if protocol ≠ kEthTypeIp4 ∧ protocol ≠ kEthTypeIp6 then return none
  else if size < 20 then return none
  else do
    let iph ← loads 0 20
    if iph.getD 9 0 ≠ kProtoUdp then return none
    else
      let ihl := PacketParser.ihl iph 0
      if ihl < 20 ∨ size < ihl + 8 then return none
      else do
        let udph ← loads ihl 8
        if PacketParser.readBe16 udph 0 ≠ kDnsPort ∧ PacketParser.readBe16 udph 2 ≠ kDnsPort then
          return none
        else if size < ihl + 8 + 12 then return none
        else do
          let dnsh ← loads (ihl + 8) 12
          if PacketParser.readBe16 dnsh 4 < 1 then return none
          else
            match reserved with
            | none => return none
            | some ev => do
                let name ← copyQname (ihl + 8 + 12) (payloadLen udph len ihl)
                return some (record task iph udph name ev)

end TracerAccess

end Ezcap
