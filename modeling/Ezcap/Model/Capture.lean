import Ezcap.Model.PacketParser

/-! From captured frames and ring-buffer records to events: `event_normalizer.cpp`,
`ebpf_events.cpp`, the packet handler of `pcap_capture.cpp` and the ring-buffer
callback of `ebpf_manager.cpp`, on a little-endian machine. -/

namespace Ezcap

open StdString

/-! ## Event ids -/

namespace EventNormalizer

/-- The bytes of a 64-bit number as `memcpy` copies them. -/
def bytesOf64 (n : UInt64) : Bytes :=
  (List.range 8).map fun i => (n >>> (8 * i).toUInt64).toUInt8

/-- What `/dev/urandom` contributes: nothing when it cannot be opened or read in full. -/
def randomBytes : Option Bytes → Bytes
  | none => List.replicate 16 0
  | some bytes => if bytes.length = 16 then bytes else List.replicate 16 0

/-- The sixteen bytes of an id: random ones, then the counter, then the version and variant
bits. -/
def uuidBytes (urandom : Option Bytes) (seq : UInt64) : Bytes :=
  let bytes := (randomBytes urandom).take 8 ++ bytesOf64 seq
  let bytes := bytes.set 6 ((bytes.getD 6 0 &&& 0x0F) ||| 0x40)
  bytes.set 8 ((bytes.getD 8 0 &&& 0x3F) ||| 0x80)

/-- `%02x` of the bytes, in groups of 4, 2, 2, 2 and 6. -/
def formatUuid (bytes : Bytes) : Bytes :=
  let group := fun i n => (substr bytes i (some n)).flatMap Format.hexByte
  group 0 4 ++ cstr "-" ++ group 4 2 ++ cstr "-" ++ group 6 2 ++ cstr "-" ++ group 8 2 ++
    cstr "-" ++ group 10 6

def randomUuid (urandom : Option Bytes) (seq : UInt64) : Bytes :=
  formatUuid (uuidBytes urandom seq)

/-! ## Packets -/

/-- The network fields that connection and DNS events of a packet share. -/
def packetNetwork (metadata : PacketMetadata) (interface : Bytes) : NetworkInfo where
  transport := metadata.transport
  direction := metadata.direction
  localAddress := metadata.localAddress
  localPort := metadata.sourcePort
  remoteAddress := metadata.remoteAddress
  remotePort := metadata.destinationPort
  interface := interface
  backend := .pcap

def fromPacketMetadata (eventId : Bytes) (metadata : PacketMetadata) (timestamp : ℤ)
    (interface : Bytes) : Event where
  eventId := eventId
  type := .connection
  source := .pcap
  timestamp := timestamp
  confidence := 1 / 10
  network := some (packetNetwork metadata interface)

def dnsFromPacketMetadata (eventId : Bytes) (metadata : PacketMetadata) (timestamp : ℤ)
    (interface : Bytes) : Event where
  eventId := eventId
  type := .dns
  source := .pcap
  timestamp := timestamp
  confidence := 2 / 10
  network := some
    { packetNetwork metadata interface with
      dnsQueryName := metadata.dnsQueryName
      dnsResponseCode :=
        if metadata.hasDnsResponseCode then some metadata.dnsResponseCode else none }

end EventNormalizer

/-- A record of libpcap: its header and the captured bytes, `caplen` of them. -/
structure PcapPacket where
  tvSec : ℤ
  tvUsec : ℤ
  len : ℕ
  frame : Bytes

namespace PcapPacket

def timestamp (packet : PcapPacket) : ℤ := packet.tvSec * 10 ^ 9 + packet.tvUsec * 10 ^ 3

def isDns (metadata : PacketMetadata) : Bool :=
  metadata.dnsQueryName != [] ||
    metadata.transport == .udp &&
      (metadata.destinationPort == 53 || metadata.sourcePort == 53)

/-- Whether the handler turns the packet into an event. -/
def accepted (packet : PcapPacket) : Bool :=
  decide (packet.frame.length ≤ packet.len) &&
    (PacketParser.parseEthernetFrame packet.frame).valid

/-- The packet handler; an id is drawn for an accepted packet only. -/
def handle (packet : PcapPacket) (interface : Bytes) (urandom : Option Bytes) (seq : UInt64) :
    Option Event :=
  if packet.accepted then
    let metadata := PacketParser.parseEthernetFrame packet.frame
    let eventId := EventNormalizer.randomUuid urandom seq
    some (if isDns metadata then
        EventNormalizer.dnsFromPacketMetadata eventId metadata packet.timestamp interface
      else EventNormalizer.fromPacketMetadata eventId metadata packet.timestamp interface)
  else none

end PcapPacket

/-! ## Ring-buffer records -/

namespace Ebpf

def EZCAP_EVENT_VERSION : UInt8 := 1
def EZCAP_EVENT_TAG_CONNECT : UInt8 := 1
def EZCAP_EVENT_TAG_DNS : UInt8 := 2
def EZCAP_EVENT_TAG_SOCKET_STATE : UInt8 := 3
def EZCAP_IFNAME_MAX : ℕ := 16
def EZCAP_DNS_NAME_MAX : ℕ := 253

structure EventHeader where
  version : UInt8
  tag : UInt8
  pid : UInt32
  uid : UInt32
  timestampNs : UInt64

/-- The endpoints of a connect or socket-state event; its two structures agree on them. -/
structure SocketEvent where
  hdr : EventHeader
  localAddr4 : UInt32
  remoteAddr4 : UInt32
  localAddr6 : Bytes
  remoteAddr6 : Bytes
  localPort : UInt16
  remotePort : UInt16
  transport : UInt8
  direction : UInt8
  isIpv6 : UInt8
  ifname : Bytes
  ifname_length : ifname.length = EZCAP_IFNAME_MAX

structure DnsEvent where
  hdr : EventHeader
  localAddr4 : UInt32
  localAddr6 : Bytes
  localPort : UInt16
  isIpv6 : UInt8
  transport : UInt8
  queryLen : UInt16
  queryName : Bytes
  ifname : Bytes
  queryName_length : queryName.length = EZCAP_DNS_NAME_MAX
  ifname_length : ifname.length = EZCAP_IFNAME_MAX

/-- `from_ktime_ns`: the counter is converted to a signed duration. -/
def wallTime (timestampNs : UInt64) (bootWalltime : ℤ) : ℤ :=
  bootWalltime + Int.bmod timestampNs.toNat (2 ^ 64)

def boundedString (src : Bytes) (cap : ℕ) : Bytes := untilNul (src.take cap)

/-- The bytes of a 32-bit number in memory. -/
def bytesOf32 (n : UInt32) : Bytes :=
  (List.range 4).map fun i => (n >>> (8 * i).toUInt32).toUInt8

def formatAddress (isIpv6 : UInt8) (addr4 : UInt32) (addr6 : Bytes) : Bytes :=
  if isIpv6 ≠ 0 then PacketParser.formatIpv6 addr6
  else PacketParser.formatIpv4 (bytesOf32 addr4)

def directionOf (direction : UInt8) : Direction :=
  if direction = 1 then .outbound else if direction = 2 then .inbound else .unknown

def processInfo (hdr : EventHeader) : ProcessInfo := { pid := hdr.pid, uid := some hdr.uid }

/-- The common body of the connect and socket-state normalizers. No event id is set. -/
def normalizeSocket (transport : Transport) (confidence : ℚ) (raw : SocketEvent)
    (bootWalltime : ℤ) : Event where
  type := .connection
  source := .ebpf
  timestamp := wallTime raw.hdr.timestampNs bootWalltime
  confidence := confidence
  process := some (processInfo raw.hdr)
  network := some
    { transport := transport
      direction := directionOf raw.direction
      localPort := raw.localPort
      remotePort := raw.remotePort
      localAddress := formatAddress raw.isIpv6 raw.localAddr4 raw.localAddr6
      remoteAddress := formatAddress raw.isIpv6 raw.remoteAddr4 raw.remoteAddr6
      interface := boundedString raw.ifname EZCAP_IFNAME_MAX
      backend := .ebpf }

def normalizeConnectEvent (raw : SocketEvent) (bootWalltime : ℤ) : Event :=
  normalizeSocket
    (if raw.transport = 6 then .tcp else if raw.transport = 17 then .udp else .other)
    (95 / 100) raw bootWalltime

def normalizeSocketStateEvent (raw : SocketEvent) (bootWalltime : ℤ) : Event :=
  normalizeSocket .tcp (9 / 10) raw bootWalltime

def normalizeDnsEvent (raw : DnsEvent) (bootWalltime : ℤ) : Event where
  type := .dns
  source := .ebpf
  timestamp := wallTime raw.hdr.timestampNs bootWalltime
  confidence := 9 / 10
  process := some (processInfo raw.hdr)
  network := some
    { transport := if raw.transport = 17 then .udp else .other
      localAddress := formatAddress raw.isIpv6 raw.localAddr4 raw.localAddr6
      localPort := raw.localPort
      dnsQueryName :=
        if 0 < raw.queryLen ∧ raw.queryLen.toNat ≤ EZCAP_DNS_NAME_MAX then
          boundedString raw.queryName raw.queryLen.toNat
        else []
      interface := boundedString raw.ifname EZCAP_IFNAME_MAX
      backend := .ebpf }

/-! ### Reading a record -/

/-- The little-endian number in the `n` bytes at `i`. -/
def readLe (data : Bytes) (i n : ℕ) : ℕ :=
  (substr data i (some n)).foldr (fun b acc => b.toNat + 256 * acc) 0

def readHeader (data : Bytes) : EventHeader where
  version := data.getD 0 0
  tag := data.getD 1 0
  pid := (readLe data 4 4).toUInt32
  uid := (readLe data 8 4).toUInt32
  timestampNs := (readLe data 16 8).toUInt64

theorem length_field {data : Bytes} {size i n : ℕ} (h : size ≤ data.length) (hi : i + n ≤ size) :
    (substr data i (some n)).length = n := by
  simp only [substr, List.length_take, List.length_drop]
  omega

/-- A connect (88 bytes) or socket-state (112 bytes) record: the two differ in where the
interface name stands. -/
def readSocketEvent (data : Bytes) (ifname : ℕ) (h : ifname + EZCAP_IFNAME_MAX ≤ data.length) :
    SocketEvent where
  hdr := readHeader data
  localAddr4 := (readLe data 24 4).toUInt32
  remoteAddr4 := (readLe data 28 4).toUInt32
  localAddr6 := substr data 32 (some 16)
  remoteAddr6 := substr data 48 (some 16)
  localPort := (readLe data 64 2).toUInt16
  remotePort := (readLe data 66 2).toUInt16
  transport := data.getD 68 0
  direction := data.getD 69 0
  isIpv6 := data.getD 70 0
  ifname := substr data ifname (some EZCAP_IFNAME_MAX)
  ifname_length := length_field h le_rfl

def readDnsEvent (data : Bytes) (h : 328 ≤ data.length) : DnsEvent where
  hdr := readHeader data
  localAddr4 := (readLe data 24 4).toUInt32
  localAddr6 := substr data 28 (some 16)
  localPort := (readLe data 44 2).toUInt16
  isIpv6 := data.getD 48 0
  transport := data.getD 49 0
  queryLen := (readLe data 50 2).toUInt16
  queryName := substr data 52 (some EZCAP_DNS_NAME_MAX)
  ifname := substr data 305 (some EZCAP_IFNAME_MAX)
  queryName_length := length_field h (by decide)
  ifname_length := length_field h (by decide)

/-- The ring-buffer callback: truncated records, other versions and unknown tags are dropped. -/
def handleRecord (data : Bytes) (bootWalltime : ℤ) : Option Event :=
  if data.length < 24 then none
  else if data.getD 0 0 ≠ EZCAP_EVENT_VERSION then none
  else if data.getD 1 0 = EZCAP_EVENT_TAG_CONNECT then
    if h : 88 ≤ data.length then
      some (normalizeConnectEvent (readSocketEvent data 72 h) bootWalltime)
    else none
  else if data.getD 1 0 = EZCAP_EVENT_TAG_DNS then
    if h : 328 ≤ data.length then some (normalizeDnsEvent (readDnsEvent data h) bootWalltime)
    else none
  else if data.getD 1 0 = EZCAP_EVENT_TAG_SOCKET_STATE then
    if h : 112 ≤ data.length then
      some (normalizeSocketStateEvent (readSocketEvent data 96 h) bootWalltime)
    else none
  else none

end Ebpf

end Ezcap
