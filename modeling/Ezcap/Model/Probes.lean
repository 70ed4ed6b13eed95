import Ezcap.Library.Control
import Ezcap.Model.Capture

/-! The kernel programs, from `connect.bpf.c`, `socket_state.bpf.c` and `dns.bpf.c`. A record is
reserved in the ring buffer without being cleared: what a program does not write keeps the
contents of the reserved memory. No record is reserved when the buffer is full. -/

namespace Ezcap.Ebpf

open StdString

/-- What the helpers return about the current task and the clock. -/
structure Task where
  pidTgid : UInt64
  uidGid : UInt64
  ktimeNs : UInt64

/-- `fill_header`, which every program has in its own copy. -/
def fillHeader (task : Task) (tag : UInt8) : EventHeader where
  version := EZCAP_EVENT_VERSION
  tag := tag
  pid := (task.pidTgid >>> 32).toUInt32
  uid := task.uidGid.toUInt32
  timestampNs := task.ktimeNs

/-! ## Sockets -/

/-- What the programs read of a `struct sock`, as loaded on a little-endian machine. -/
structure Sock where
  skcRcvSaddr : UInt32
  skcDaddr : UInt32
  skcV6RcvSaddr : Bytes
  skcV6Daddr : Bytes
  skcNum : UInt16
  skcDport : UInt16
  skTxhash : UInt64
  skcV6RcvSaddr_length : skcV6RcvSaddr.length = 16
  skcV6Daddr_length : skcV6Daddr.length = 16

/-- `__builtin_bswap16`. -/
def bswap16 (n : UInt16) : UInt16 := (n <<< 8) ||| (n >>> 8)

/-- `ev->ifname[0] = '\0'`. -/
def clearIfname (ev : SocketEvent) : SocketEvent :=
  { ev with ifname := ev.ifname.set 0 0, ifname_length := by simp [ev.ifname_length] }

/-- What both connect programs write whatever the address family. -/
def fillConnect (task : Task) (sk : Sock) (isIpv6 : UInt8) (ev : SocketEvent) : SocketEvent :=
  clearIfname
    { ev with
      hdr := fillHeader task EZCAP_EVENT_TAG_CONNECT
      localPort := sk.skcNum
      remotePort := bswap16 sk.skcDport
      transport := 6
      direction := 1
      isIpv6 := isIpv6 }

def tcpV4Connect (reserved : Option SocketEvent) (task : Task) (sk : Sock) : Option SocketEvent :=
  reserved.map fun ev =>
    fillConnect task sk 0 { ev with remoteAddr4 := sk.skcRcvSaddr, localAddr4 := sk.skcDaddr }

def tcpV6Connect (reserved : Option SocketEvent) (task : Task) (sk : Sock) : Option SocketEvent :=
  reserved.map fun ev =>
    fillConnect task sk 1 { ev with remoteAddr6 := sk.skcV6Daddr, localAddr6 := sk.skcV6RcvSaddr }

/-- A socket-state record: the endpoints, and the counters that no normalizer reads. -/
structure SocketStateEvent extends SocketEvent where
  newState : UInt8
  durationNs : UInt64
  bytesTx : UInt64
  bytesRx : UInt64

def tcpDestroySock (reserved : Option SocketStateEvent) (task : Task) (sk : Sock) :
    Option SocketStateEvent :=
  reserved.map fun ev =>
    { toSocketEvent := clearIfname
        { ev.toSocketEvent with
          hdr := fillHeader task EZCAP_EVENT_TAG_SOCKET_STATE
          localAddr4 := sk.skcRcvSaddr
          remoteAddr4 := sk.skcDaddr
          localAddr6 := sk.skcV6RcvSaddr
          remoteAddr6 := sk.skcV6Daddr
          localPort := sk.skcNum
          remotePort := bswap16 sk.skcDport
          transport := 6
          direction := 1
          isIpv6 := if sk.skcRcvSaddr = 0 then 1 else 0 }
      newState := 7
      durationNs := if task.ktimeNs > sk.skTxhash then task.ktimeNs - sk.skTxhash else 0
      bytesTx := 0
      bytesRx := 0 }

/-! ## Question names -/

/-- `out[o++] = ch` behind the length check; an error keeps what was written. -/
def pushQname (out : Bytes) (ch : UInt8) : Except Bytes Bytes :=
  if out.length ≥ EZCAP_DNS_NAME_MAX - 1 then .error out else .ok (out ++ [ch])

def pushSeparator (out : Bytes) : Except Bytes Bytes :=
  if out.length > 0 then pushQname out '.'.toUInt8 else .ok out

/-- The inner loop over the bytes of one label, from index `k` on. -/
def copyLabel (payload : ℕ → UInt8) (payloadLen : ℕ) : ℕ → ℕ → Bytes → Except Bytes Bytes
  | 0, _, out => .ok out
  | n + 1, k, out =>
      if out.length ≥ EZCAP_DNS_NAME_MAX - 1 then .error out
      else if k ≥ payloadLen then .error out
      else copyLabel payload payloadLen n (k + 1) (out ++ [payload k])

/-- The label loop at index `i`, with `hops` iterations left. The end of the payload ends the
name as a zero label does. -/
def copyLabels (payload : ℕ → UInt8) (payloadLen : ℕ) : ℕ → ℕ → Bytes → Except Bytes Bytes
  | 0, _, out => .ok out
  | hops + 1, i, out =>
      if i < payloadLen then
        let labelLen := payload i
        if labelLen = 0 then .ok out
        else if labelLen &&& 0xC0 ≠ 0 ∨ labelLen > 63 then .error out
        else if i + 1 + labelLen.toNat > payloadLen then .error out
        else
          (pushSeparator out).bind fun out =>
            (copyLabel payload payloadLen labelLen.toNat (i + 1) out).bind
              (copyLabels payload payloadLen hops (i + 1 + labelLen.toNat))
      else .ok out

/-- `copy_qname`: the name, or what was written of it before it was rejected. The payload is a
pointer, and nothing but `payload_len` bounds what is read through it. -/
def copyQname (payload : ℕ → UInt8) (payloadLen : ℕ) : Except Bytes Bytes :=
  copyLabels payload payloadLen 128 0 []

/-! ## Datagrams -/

/-- A socket buffer: its linear data, what memory holds elsewhere, and its length with the paged
part counted. -/
structure SkBuff where
  protocol : UInt16
  data : Bytes
  elsewhere : ℕ → UInt8
  len : ℕ
  data_le : data.length ≤ len

/-- The byte at offset `i` from the start of the data. -/
def SkBuff.byteAt (skb : SkBuff) (i : ℕ) : UInt8 :=
  if i < skb.data.length then skb.data.getD i 0 else skb.elsewhere i

/-- `query_name` after `written` was copied to its start. -/
def overwriteQname (queryName written : Bytes) : Bytes :=
  (written ++ queryName.drop written.length).take EZCAP_DNS_NAME_MAX

theorem length_overwriteQname {queryName : Bytes} (h : queryName.length = EZCAP_DNS_NAME_MAX)
    (written : Bytes) : (overwriteQname queryName written).length = EZCAP_DNS_NAME_MAX := by
  simp only [overwriteQname, List.length_take, List.length_append, List.length_drop]
  omega

/-- `query_len` after `copy_qname`: it stays zero for a rejected name. -/
def queryLenOf : Except Bytes Bytes → UInt16
  | .ok out => (out.length + 1).toUInt16
  | .error _ => 0

/-- `query_name` after `copy_qname`, from a buffer whose first byte was cleared before. -/
def queryNameOf (queryName : Bytes) : Except Bytes Bytes → Bytes
  | .ok out => overwriteQname (queryName.set 0 0) (out ++ [0])
  | .error out => overwriteQname (queryName.set 0 0) out

theorem length_queryNameOf {queryName : Bytes} (h : queryName.length = EZCAP_DNS_NAME_MAX)
    (name : Except Bytes Bytes) : (queryNameOf queryName name).length = EZCAP_DNS_NAME_MAX := by
  have hcleared : (queryName.set 0 0).length = EZCAP_DNS_NAME_MAX := by rw [List.length_set, h]
  cases name <;> exact length_overwriteQname hcleared _

/-- The payload length that the program takes from the UDP header, which is at `ihl`. -/
def dnsPayloadLen (skb : SkBuff) (ihl : ℕ) : ℕ :=
  let udpLen := (PacketParser.readBe16 skb.data (ihl + 4)).toNat
  min 512 (if udpLen < 8 + 12 then skb.len - (ihl + 8) else udpLen - 8 - 12)

/-- The record of a datagram that has passed the checks. -/
def fillDns (task : Task) (skb : SkBuff) (ihl : ℕ) (ev : DnsEvent) : DnsEvent :=
  let name := copyQname (fun i => skb.byteAt (ihl + 8 + 12 + i)) (dnsPayloadLen skb ihl)
  { ev with
    hdr := fillHeader task EZCAP_EVENT_TAG_DNS
    localAddr4 := (readLe skb.data 12 4).toUInt32
    localPort := PacketParser.readBe16 skb.data ihl
    isIpv6 := 0
    transport := 17
    queryLen := queryLenOf name
    queryName := queryNameOf ev.queryName name
    ifname := ev.ifname.set 0 0
    queryName_length := length_queryNameOf ev.queryName_length name
    ifname_length := by rw [List.length_set, ev.ifname_length] }

def dnsTrace (reserved : Option DnsEvent) (task : Task) (skb : SkBuff) : Option DnsEvent :=
  if skb.protocol ≠ PacketParser.kEthTypeIp4 ∧ skb.protocol ≠ PacketParser.kEthTypeIp6 then none
  else if skb.data.length < 20 then none
  else if skb.data.getD 9 0 ≠ PacketParser.kProtoUdp then none
  else
    let ihl := PacketParser.ihl skb.data 0
    if ihl < 20 ∨ skb.data.length < ihl + 8 then none
    else if PacketParser.readBe16 skb.data ihl ≠ PacketParser.kDnsPort ∧
        PacketParser.readBe16 skb.data (ihl + 2) ≠ PacketParser.kDnsPort then none
    else if skb.data.length < ihl + 8 + 12 then none
    else if PacketParser.readBe16 skb.data (ihl + 8 + 4) < 1 then none
    else reserved.map (fillDns task skb ihl)

end Ezcap.Ebpf
