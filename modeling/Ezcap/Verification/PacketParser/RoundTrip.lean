import Ezcap.Library.LittleEndian
import Ezcap.Verification.PacketParser.Noninterference

/-! Frames that are built from their parts, and what the parser finds in them: the transport, the
ports and the text of the addresses. Of every other frame it says that it is not valid. -/

namespace Ezcap.PacketParser

open StdString

/-! ## Fields -/

section Fields

variable {front field rest : Bytes} {i n : ℕ}

theorem getD_append_cons (hi : front.length = i) (c : UInt8) :
    (front ++ c :: rest).getD i 0 = c := by
  simp [← hi]

theorem substr_append (hi : front.length = i) (hn : field.length = n) :
    substr (front ++ (field ++ rest)) i (some n) = field := by
  simp [substr, ← hi, ← hn]

/-- A 16-bit number in network byte order. -/
def be16 (v : UInt16) : Bytes := [(v >>> 8).toUInt8, v.toUInt8]

@[simp] theorem length_be16 (v : UInt16) : (be16 v).length = 2 := rfl

theorem or_shiftLeft_bytes (v : UInt16) :
    (v >>> 8).toUInt8.toUInt16 <<< 8 ||| v.toUInt8.toUInt16 = v := by
  have hlt := v.toNat_lt
  have height : UInt16.toNat 8 % 16 = 8 := rfl
  have hhigh : v.toNat / 2 ^ 8 % 2 ^ 8 = v.toNat / 2 ^ 8 := Nat.mod_eq_of_lt (by omega)
  have hlow : v.toNat % 2 ^ 8 < 2 ^ 8 := Nat.mod_lt _ (by decide)
  have hshift : (v.toNat / 2 ^ 8) <<< 8 % 2 ^ 16 = (v.toNat / 2 ^ 8) <<< 8 := by
    rw [Nat.shiftLeft_eq]
    exact Nat.mod_eq_of_lt (by omega)
  apply UInt16.toNat_inj.mp
  simp only [UInt16.toNat_or, UInt16.toNat_shiftLeft, UInt8.toNat_toUInt16, UInt16.toNat_toUInt8,
    UInt16.toNat_shiftRight, height, Nat.shiftRight_eq_div_pow, hhigh, hshift]
  rw [Nat.or_comm, LittleEndian.or_shiftLeft hlow]
  omega

theorem readBe16_append (hi : front.length = i) (v : UInt16) :
    readBe16 (front ++ (be16 v ++ rest)) i = v := by
  have hhigh : (front ++ (be16 v ++ rest)).getD i 0 = (v >>> 8).toUInt8 :=
    getD_append_cons hi _
  have hlow : (front ++ (be16 v ++ rest)).getD (i + 1) 0 = v.toUInt8 := by
    simp [← hi, be16]
  rw [readBe16, hhigh, hlow, or_shiftLeft_bytes]

end Fields

/-! ## Building a frame -/

/-- An IPv4 header of version 4 with fragment offset zero, apart from its protocol. -/
structure Ipv4 where
  optionWords : Fin 11
  serviceLengthId : Vector UInt8 5
  flags : Fin 8
  ttl : UInt8
  checksum : Vector UInt8 2
  source : Vector UInt8 4
  destination : Vector UInt8 4
  options : Vector UInt8 (4 * optionWords)

/-- An IPv6 header without extension headers, apart from its protocol. -/
structure Ipv6 where
  versionClassFlow : Vector UInt8 4
  payloadLength : Vector UInt8 2
  hopLimit : UInt8
  source : Vector UInt8 16
  destination : Vector UInt8 16

inductive Network where
  | ipv4 (header : Ipv4)
  | ipv6 (header : Ipv6)

/-- What follows the ports in a transport header. -/
inductive Segment where
  | tcp (rest : Vector UInt8 16)
  | udp (rest : Vector UInt8 4)

structure Packet where
  macs : Vector UInt8 12
  network : Network
  sourcePort : UInt16
  destinationPort : UInt16
  segment : Segment
  payload : Bytes

/-- The first twelve bytes; the lower half of the first one is the length in words. -/
def Ipv4.fixed (header : Ipv4) (proto : UInt8) : Bytes :=
  UInt8.ofNat (0x45 + header.optionWords) :: (header.serviceLengthId.toList ++
    [UInt8.ofNat (32 * header.flags), 0, header.ttl] ++ proto :: header.checksum.toList)

@[simp] theorem Ipv4.length_fixed (header : Ipv4) (proto : UInt8) :
    (header.fixed proto).length = 12 := by
  simp [Ipv4.fixed]

def Ipv4.bytes (header : Ipv4) (proto : UInt8) : Bytes :=
  header.fixed proto ++ (header.source.toList ++ (header.destination.toList ++
    header.options.toList))

def Ipv6.bytes (header : Ipv6) (proto : UInt8) : Bytes :=
  header.versionClassFlow.toList ++ header.payloadLength.toList ++ proto :: header.hopLimit ::
    (header.source.toList ++ header.destination.toList)

namespace Network

def etherType : Network → UInt16
  | ipv4 _ => kEthTypeIp4
  | ipv6 _ => kEthTypeIp6

def bytes (proto : UInt8) : Network → Bytes
  | ipv4 header => header.bytes proto
  | ipv6 header => header.bytes proto

/-- The text of the source address. -/
def sourceText : Network → Bytes
  | ipv4 header => formatIpv4 header.source.toList
  | ipv6 header => formatIpv6 header.source.toList

def destinationText : Network → Bytes
  | ipv4 header => formatIpv4 header.destination.toList
  | ipv6 header => formatIpv6 header.destination.toList

end Network

namespace Segment

def transport : Segment → Transport
  | tcp _ => .tcp
  | udp _ => .udp

def proto : Segment → UInt8
  | tcp _ => kProtoTcp
  | udp _ => kProtoUdp

def rest : Segment → Bytes
  | tcp rest => rest.toList
  | udp rest => rest.toList

end Segment

namespace Packet

variable (p : Packet)

/-- The Ethernet and the IP header. -/
def front : Bytes :=
  p.macs.toList ++ (be16 p.network.etherType ++ p.network.bytes p.segment.proto)

/-- What follows them. -/
def back : Bytes :=
  be16 p.sourcePort ++ (be16 p.destinationPort ++ (p.segment.rest ++ p.payload))

def frame : Bytes := p.front ++ p.back

/-- How long the headers are. -/
def headersLength : ℕ := p.front.length + 4 + p.segment.rest.length

/-- What the headers say. -/
def metadata : PacketMetadata where
  transport := p.segment.transport
  localAddress := p.network.sourceText
  remoteAddress := p.network.destinationText

theorem etherType_frame : readBe16 p.frame 12 = p.network.etherType := by
  have hmacs : p.macs.toList.length = 12 := by simp
  have hframe : p.frame = p.macs.toList ++ (be16 p.network.etherType ++
      (p.network.bytes p.segment.proto ++ p.back)) := by
    simp [frame, front]
  rw [hframe, readBe16_append hmacs]

theorem proto_eq : p.segment.proto = kProtoTcp ∨ p.segment.proto = kProtoUdp := by
  cases p.segment with
  | tcp rest => exact .inl rfl
  | udp rest => exact .inr rfl

theorem transportOf_proto : transportOf p.segment.proto = p.segment.transport := by
  cases p.segment with
  | tcp rest => rfl
  | udp rest => rfl

end Packet

/-! ## The IP header of a frame -/

section Ipv4

variable {p : Packet} {header : Ipv4} (h : p.network = .ipv4 header)

include h

theorem frame_ipv4 : p.frame = p.macs.toList ++ be16 kEthTypeIp4 ++
    (header.fixed p.segment.proto ++ (header.source.toList ++ (header.destination.toList ++
      (header.options.toList ++ p.back)))) := by
  simp [Packet.frame, Packet.front, h, Network.bytes, Network.etherType, Ipv4.bytes]

theorem ihl_frame : ihl p.frame 14 = 4 * (5 + header.optionWords) := by
  have hfirst : p.frame.getD 14 0 = UInt8.ofNat (0x45 + header.optionWords) := by
    rw [frame_ipv4 h, Ipv4.fixed, List.cons_append]
    exact getD_append_cons (by simp) _
  have hnibble : ∀ words : Fin 11, (UInt8.ofNat (0x45 + words) &&& 0x0F).toNat = 5 + words := by
    decide
  rw [ihl, hfirst, hnibble, Nat.mul_comm]

theorem proto_frame : p.frame.getD 23 0 = p.segment.proto := by
  have hframe : p.frame = (p.macs.toList ++ be16 kEthTypeIp4 ++
      UInt8.ofNat (0x45 + header.optionWords) :: (header.serviceLengthId.toList ++
        [UInt8.ofNat (32 * header.flags), 0, header.ttl])) ++ p.segment.proto ::
      (header.checksum.toList ++ (header.source.toList ++ (header.destination.toList ++
        (header.options.toList ++ p.back)))) := by
    rw [frame_ipv4 h]
    simp [Ipv4.fixed]
  rw [hframe]
  exact getD_append_cons (by simp) _

theorem source_frame : substr p.frame 26 (some 4) = header.source.toList := by
  rw [frame_ipv4 h, ← List.append_assoc]
  exact substr_append (by simp) (by simp)

theorem destination_frame : substr p.frame 30 (some 4) = header.destination.toList := by
  rw [frame_ipv4 h, ← List.append_assoc, ← List.append_assoc]
  exact substr_append (by simp) (by simp)

theorem length_front_ipv4 : p.front.length = 14 + 4 * (5 + header.optionWords) := by
  simp [Packet.front, h, Network.bytes, Ipv4.bytes]
  omega

theorem parseNetworkHeader_ipv4 :
    parseNetworkHeader p.frame = (p.metadata, some p.front.length) := by
  have hihl := ihl_frame h
  have hfront := length_front_ipv4 h
  have hlength : p.front.length ≤ p.frame.length := by simp [Packet.frame]
  have hheader : Ipv4Header p.frame := by
    refine ⟨by omega, by omega, by omega, ?_⟩
    rw [proto_frame h]
    exact p.proto_eq
  have htype : readBe16 p.frame 12 = kEthTypeIp4 := by
    rw [p.etherType_frame, h]
    rfl
  rw [hheader.parseNetworkHeader htype, ipv4Metadata, source_frame h, destination_frame h,
    proto_frame h, p.transportOf_proto, hihl, hfront, Packet.metadata, h]
  rfl

end Ipv4

section Ipv6

variable {p : Packet} {header : Ipv6} (h : p.network = .ipv6 header)

include h

theorem frame_ipv6 : p.frame = p.macs.toList ++ be16 kEthTypeIp6 ++
    header.versionClassFlow.toList ++ header.payloadLength.toList ++ p.segment.proto ::
      header.hopLimit :: (header.source.toList ++ (header.destination.toList ++ p.back)) := by
  simp [Packet.frame, Packet.front, h, Network.bytes, Network.etherType, Ipv6.bytes]

theorem nextHeader_frame : p.frame.getD 20 0 = p.segment.proto := by
  rw [frame_ipv6 h]
  exact getD_append_cons (by simp) _

theorem frame_ipv6_addresses : p.frame = (p.macs.toList ++ be16 kEthTypeIp6 ++
    header.versionClassFlow.toList ++ header.payloadLength.toList ++
      [p.segment.proto, header.hopLimit]) ++
        (header.source.toList ++ (header.destination.toList ++ p.back)) := by
  rw [frame_ipv6 h]
  simp

theorem source_frame_ipv6 : substr p.frame 22 (some 16) = header.source.toList := by
  rw [frame_ipv6_addresses h]
  exact substr_append (by simp) (by simp)

theorem destination_frame_ipv6 : substr p.frame 38 (some 16) = header.destination.toList := by
  rw [frame_ipv6_addresses h, ← List.append_assoc]
  exact substr_append (by simp) (by simp)

theorem length_front_ipv6 : p.front.length = 54 := by
  simp [Packet.front, h, Network.bytes, Ipv6.bytes]

theorem parseNetworkHeader_ipv6 :
    parseNetworkHeader p.frame = (p.metadata, some p.front.length) := by
  have hfront := length_front_ipv6 h
  have hlength : p.front.length ≤ p.frame.length := by simp [Packet.frame]
  have hheader : Ipv6Header p.frame := by
    refine ⟨by omega, ?_⟩
    rw [nextHeader_frame h]
    exact p.proto_eq
  have htype : readBe16 p.frame 12 = kEthTypeIp6 := by
    rw [p.etherType_frame, h]
    rfl
  rw [hheader.parseNetworkHeader htype, ipv6Metadata, source_frame_ipv6 h,
    destination_frame_ipv6 h, nextHeader_frame h, p.transportOf_proto, hfront, Packet.metadata, h]
  rfl

end Ipv6

/-! ## The frame as a whole -/

namespace Packet

variable (p : Packet)

theorem parseNetworkHeader_frame :
    parseNetworkHeader p.frame = (p.metadata, some p.front.length) := by
  cases h : p.network with
  | ipv4 header => exact parseNetworkHeader_ipv4 h
  | ipv6 header => exact parseNetworkHeader_ipv6 h

theorem headersLength_eq : p.headersLength = p.front.length + transportHeaderLen p.metadata := by
  rw [headersLength, transportHeaderLen, metadata]
  cases p.segment with
  | tcp rest => simp [Segment.transport, Segment.rest]
  | udp rest => simp [Segment.transport, Segment.rest]

theorem headersLength_le : p.headersLength ≤ p.frame.length := by
  simp only [headersLength, frame, back, List.length_append, length_be16]
  omega

theorem sourcePort_frame : readBe16 p.frame p.front.length = p.sourcePort := by
  rw [frame, back, readBe16_append rfl]

theorem destinationPort_frame : readBe16 p.frame (p.front.length + 2) = p.destinationPort := by
  rw [frame, back, ← List.append_assoc]
  exact readBe16_append (by simp) _

end Packet

theorem parseTransportHeader_addresses (f : Bytes) (offset : ℕ) (m : PacketMetadata) :
    (parseTransportHeader f offset m).localAddress = m.localAddress ∧
      (parseTransportHeader f offset m).remoteAddress = m.remoteAddress := by
  unfold parseTransportHeader parseDnsPayload
  dsimp only
  split_ifs <;> exact ⟨rfl, rfl⟩

/-- How many bytes of transport header a protocol has. -/
def protoHeaderLen (proto : UInt8) : ℕ := if proto = kProtoTcp then 20 else 8

theorem transportHeaderLen_eq {m : PacketMetadata} {proto : UInt8}
    (h : m.transport = transportOf proto) : transportHeaderLen m = protoHeaderLen proto := by
  rw [transportHeaderLen, protoHeaderLen, h, transportOf]
  by_cases htcp : proto = kProtoTcp
  · simp [htcp]
  · simp [htcp]

/-- The frames all of whose headers were captured: an IPv4 or IPv6 header of a length that it may
have, for TCP or UDP, and the transport header. -/
def HeadersFit (frame : Bytes) : Prop :=
  (readBe16 frame 12 = kEthTypeIp4 ∧ Ipv4Header frame ∧
    14 + ihl frame 14 + protoHeaderLen (frame.getD 23 0) ≤ frame.length) ∨
  (readBe16 frame 12 = kEthTypeIp6 ∧ Ipv6Header frame ∧
    54 + protoHeaderLen (frame.getD 20 0) ≤ frame.length)

theorem valid_of_complete {f : Bytes} {m : PacketMetadata} {offset : ℕ}
    (hnet : parseNetworkHeader f = (m, some offset))
    (hlen : offset + transportHeaderLen m ≤ f.length) : (parseEthernetFrame f).valid = true := by
  rw [parseEthernetFrame_of_some hnet]
  exact (parseTransportHeader_complete hlen).1

theorem length_of_valid {f : Bytes} {m : PacketMetadata} {offset : ℕ}
    (hnet : parseNetworkHeader f = (m, some offset))
    (hvalid : (parseEthernetFrame f).valid = true) : offset + transportHeaderLen m ≤ f.length := by
  have hm := headerOnly_parseNetworkHeader f
  rw [hnet] at hm
  rw [parseEthernetFrame_of_some hnet] at hvalid
  exact complete_of_valid hm (offset_le_length hnet) hvalid

theorem headersFit_of_valid {f : Bytes} (h : (parseEthernetFrame f).valid = true) :
    HeadersFit f := by
  obtain ⟨m, hnet, -⟩ := parseNetworkHeader_of_valid h
  have hlen := length_of_valid hnet h
  rcases parseNetworkHeader_eq_some hnet with ⟨htype, hheader, rfl, hoffset⟩ |
    ⟨htype, hheader, rfl, hoffset⟩
  · rw [hoffset, transportHeaderLen_eq rfl] at hlen
    exact .inl ⟨htype, hheader, hlen⟩
  · rw [hoffset, transportHeaderLen_eq rfl] at hlen
    exact .inr ⟨htype, hheader, hlen⟩

theorem valid_of_headersFit {f : Bytes} (h : HeadersFit f) :
    (parseEthernetFrame f).valid = true := by
  rcases h with ⟨htype, hheader, hlen⟩ | ⟨htype, hheader, hlen⟩
  · apply valid_of_complete (hheader.parseNetworkHeader htype)
    rw [transportHeaderLen_eq rfl]
    exact hlen
  · apply valid_of_complete (hheader.parseNetworkHeader htype)
    rw [transportHeaderLen_eq rfl]
    exact hlen

/-- Cut anywhere in its headers, a frame is not valid. -/
theorem Packet.valid_take (p : Packet) {n : ℕ} (hn : n < p.headersLength) :
    (parseEthernetFrame (p.frame.take n)).valid = false := by
  by_contra hvalid
  rw [Bool.not_eq_false] at hvalid
  obtain ⟨m, hnet, -⟩ := parseNetworkHeader_of_valid hvalid
  have hlen := length_of_valid hnet hvalid
  have hframe : AgreeUpTo (p.frame.take n).length (p.frame.take n) p.frame := by
    rw [AgreeUpTo, List.take_length, List.length_take, List.take_eq_take_min]
  have hwhole := parseNetworkHeader_congr hnet le_rfl (offset_le_length hnet) hframe
  rw [p.parseNetworkHeader_frame] at hwhole
  simp only [Prod.mk.injEq, Option.some.injEq] at hwhole
  rw [← hwhole.1, ← hwhole.2, ← p.headersLength_eq, List.length_take] at hlen
  omega

/-- Of a frame built from its parts the parser finds the transport, the ports and the addresses,
whatever the other fields, the options and the payload are; cut in its headers the frame is not
valid, and neither is any frame without them. -/
theorem frame_round_trip :
    (∀ p : Packet,
      (parseEthernetFrame p.frame).valid = true ∧
      (parseEthernetFrame p.frame).transport = p.segment.transport ∧
      (parseEthernetFrame p.frame).sourcePort = p.sourcePort ∧
      (parseEthernetFrame p.frame).destinationPort = p.destinationPort ∧
      (parseEthernetFrame p.frame).localAddress = p.network.sourceText ∧
      (parseEthernetFrame p.frame).remoteAddress = p.network.destinationText) ∧
    (∀ (p : Packet) (n : ℕ), n < p.headersLength →
      (parseEthernetFrame (p.frame.take n)).valid = false) ∧
    ∀ frame : Bytes, (parseEthernetFrame frame).valid = true ↔ HeadersFit frame := by
  refine ⟨fun p => ?_, fun p n hn => p.valid_take hn,
    fun frame => ⟨headersFit_of_valid, valid_of_headersFit⟩⟩
  have hlen : p.front.length + transportHeaderLen p.metadata ≤ p.frame.length := by
    rw [← p.headersLength_eq]
    exact p.headersLength_le
  obtain ⟨hvalid, htransport, hsource, hdestination⟩ := parseTransportHeader_complete hlen
  have haddresses := parseTransportHeader_addresses p.frame p.front.length p.metadata
  rw [parseEthernetFrame_of_some p.parseNetworkHeader_frame]
  exact ⟨hvalid, htransport, hsource.trans p.sourcePort_frame,
    hdestination.trans p.destinationPort_frame, haddresses⟩

end Ezcap.PacketParser
