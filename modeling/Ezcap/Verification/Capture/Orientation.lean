import Ezcap.Model.Probes

/-! Which end of a connection an event calls local. The kernel programs choose the fields, the
normalizers only print them; the two together are compared with the socket's own tuple. -/

namespace Ezcap.Ebpf

open StdString

inductive Family where
  | inet
  | inet6
  deriving DecidableEq, Repr

/-- The ends of a connection as an event prints them. -/
structure Endpoints where
  localAddress : Bytes
  localPort : UInt16
  remoteAddress : Bytes
  remotePort : UInt16
  deriving DecidableEq

/-- The two bytes of a 16-bit number in memory. -/
def bytesOf16 (n : UInt16) : Bytes := [n.toUInt8, (n >>> 8).toUInt8]

/-- The ends of a socket by the kernel's convention: `skc_rcv_saddr` and `skc_num` are its own,
`skc_daddr` and the big-endian `skc_dport` its peer's. -/
def Sock.endpoints (sk : Sock) : Family → Endpoints
  | .inet =>
      { localAddress := PacketParser.formatIpv4 (bytesOf32 sk.skcRcvSaddr)
        localPort := sk.skcNum
        remoteAddress := PacketParser.formatIpv4 (bytesOf32 sk.skcDaddr)
        remotePort := PacketParser.readBe16 (bytesOf16 sk.skcDport) 0 }
  | .inet6 =>
      { localAddress := PacketParser.formatIpv6 sk.skcV6RcvSaddr
        localPort := sk.skcNum
        remoteAddress := PacketParser.formatIpv6 sk.skcV6Daddr
        remotePort := PacketParser.readBe16 (bytesOf16 sk.skcDport) 0 }

def NetworkInfo.endpoints (network : NetworkInfo) : Endpoints :=
  ⟨network.localAddress, network.localPort, network.remoteAddress, network.remotePort⟩

/-- The event has network information, with these ends. -/
def Names (event : Event) (endpoints : Endpoints) : Prop :=
  event.network.map NetworkInfo.endpoints = some endpoints

/-- The probe on the connect function of each family. -/
def tcpConnect : Family → Option SocketEvent → Task → Sock → Option SocketEvent
  | .inet => tcpV4Connect
  | .inet6 => tcpV6Connect

/-! ## Byte order and address text -/

theorem bswap16_eq (n : UInt16) : bswap16 n = PacketParser.readBe16 (bytesOf16 n) 0 := by
  have height : UInt16.toNat 8 % 16 = 8 := rfl
  have hlt := n.toNat_lt
  have hhigh : n.toUInt8.toUInt16 <<< 8 = n <<< 8 := by
    apply UInt16.toNat_inj.mp
    simp only [UInt16.toNat_shiftLeft, UInt8.toNat_toUInt16, UInt16.toNat_toUInt8, height,
      Nat.shiftLeft_eq]
    omega
  have hlow : (n >>> 8).toUInt8.toUInt16 = n >>> 8 := by
    apply UInt16.toNat_inj.mp
    simp only [UInt16.toNat_shiftRight, UInt8.toNat_toUInt16, UInt16.toNat_toUInt8, height,
      Nat.shiftRight_eq_div_pow]
    omega
  simp only [bswap16, PacketParser.readBe16, bytesOf16, List.getD_cons_zero, List.getD_cons_succ,
    hhigh, hlow]

theorem bytesOf32_injective : Function.Injective bytesOf32 := by
  intro m n h
  have hbyte (k : ℕ) (hk : k < 4) : m.toNat / 2 ^ (8 * k) % 256 = n.toNat / 2 ^ (8 * k) % 256 := by
    have hget : (m >>> (8 * k).toUInt32).toUInt8 = (n >>> (8 * k).toUInt32).toUInt8 := by
      simpa [bytesOf32, hk] using congrArg (·[k]?) h
    have hshift : (8 * k).toUInt32.toNat % 32 = 8 * k := by
      rw [show (8 * k).toUInt32.toNat = 8 * k % 2 ^ 32 from rfl]
      omega
    simpa only [UInt32.toNat_toUInt8, UInt32.toNat_shiftRight, hshift, Nat.shiftRight_eq_div_pow]
      using congrArg UInt8.toNat hget
  have h0 := hbyte 0 (by decide)
  have h1 := hbyte 1 (by decide)
  have h2 := hbyte 2 (by decide)
  have h3 := hbyte 3 (by decide)
  have hm := m.toNat_lt
  have hn := n.toNat_lt
  apply UInt32.toNat_inj.mp
  omega

theorem formatIpv4_inj {m n : UInt32}
    (h : PacketParser.formatIpv4 (bytesOf32 m) = PacketParser.formatIpv4 (bytesOf32 n)) : m = n :=
  bytesOf32_injective (Inet.ntop4_inj (by simp [bytesOf32]) (by simp [bytesOf32]) h)

theorem formatIpv4_ne_formatIpv6 {bytes : Bytes} (h : bytes.length = 16) (s : Bytes) :
    PacketParser.formatIpv4 s ≠ PacketParser.formatIpv6 bytes := by
  intro heq
  have hcolon : ':'.toUInt8 ∈ PacketParser.formatIpv6 bytes := Inet.colon_mem_ntop6 h
  rw [← heq] at hcolon
  exact Inet.colon_notMem_ntop4 s hcolon

/-! ## Records and events -/

/-- The ends that a record gives, which both normalizers print. -/
def SocketEvent.endpoints (raw : SocketEvent) : Endpoints where
  localAddress := formatAddress raw.isIpv6 raw.localAddr4 raw.localAddr6
  localPort := raw.localPort
  remoteAddress := formatAddress raw.isIpv6 raw.remoteAddr4 raw.remoteAddr6
  remotePort := raw.remotePort

theorem names_normalizeSocket (transport : Transport) (confidence : ℚ) (raw : SocketEvent)
    (bootWalltime : ℤ) (endpoints : Endpoints) :
    Names (normalizeSocket transport confidence raw bootWalltime) endpoints ↔
      raw.endpoints = endpoints := by
  simp [Names, normalizeSocket, NetworkInfo.endpoints, SocketEvent.endpoints]

section

variable (sk : Sock) (task : Task)

/-- The IPv4 program has the two addresses the wrong way round. -/
theorem endpoints_tcpV4Connect (reserved : SocketEvent) :
    (tcpV4Connect (some reserved) task sk).map SocketEvent.endpoints =
      some { sk.endpoints .inet with
        localAddress := (sk.endpoints .inet).remoteAddress
        remoteAddress := (sk.endpoints .inet).localAddress } := by
  simp [tcpV4Connect, fillConnect, clearIfname, SocketEvent.endpoints, Sock.endpoints,
    formatAddress, bswap16_eq]

theorem endpoints_tcpV6Connect (reserved : SocketEvent) :
    (tcpV6Connect (some reserved) task sk).map SocketEvent.endpoints =
      some (sk.endpoints .inet6) := by
  simp [tcpV6Connect, fillConnect, clearIfname, SocketEvent.endpoints, Sock.endpoints,
    formatAddress, bswap16_eq]

/-- The close program takes a socket without an IPv4 address of its own for an IPv6 one. -/
theorem endpoints_tcpDestroySock (reserved : SocketStateEvent) :
    (tcpDestroySock (some reserved) task sk).map (·.endpoints) =
      some (sk.endpoints (if sk.skcRcvSaddr = 0 then .inet6 else .inet)) := by
  by_cases h : sk.skcRcvSaddr = 0 <;>
    simp [tcpDestroySock, clearIfname, SocketEvent.endpoints, Sock.endpoints, formatAddress,
      bswap16_eq, h]

end

theorem endpoints_inet_ne_inet6 (sk : Sock) : sk.endpoints .inet ≠ sk.endpoints .inet6 := fun h =>
  formatIpv4_ne_formatIpv6 sk.skcV6RcvSaddr_length _ (congrArg Endpoints.localAddress h)

theorem forall_mem_iff_of_map {α β : Type} {f : α → β} {raw : Option α} {b : β}
    (h : raw.map f = some b) (c : β) : (∀ a ∈ raw, f a = c) ↔ b = c := by
  obtain ⟨a, rfl, rfl⟩ := Option.map_eq_some_iff.mp h
  simp

/-- The connect event names the ends of the socket exactly for IPv6 sockets and for sockets
whose two addresses are the same; the close event exactly when a zero `skc_rcv_saddr` tells
the family. -/
theorem events_name_endpoints_iff (family : Family) (sk : Sock) (connected : SocketEvent)
    (closed : SocketStateEvent) (task task' : Task) (bootWalltime : ℤ) :
    ((∀ raw ∈ tcpConnect family (some connected) task sk,
        Names (normalizeConnectEvent raw bootWalltime) (sk.endpoints family)) ↔
      family = .inet6 ∨ sk.skcRcvSaddr = sk.skcDaddr) ∧
    ((∀ raw ∈ tcpDestroySock (some closed) task' sk,
        Names (normalizeSocketStateEvent raw.toSocketEvent bootWalltime) (sk.endpoints family)) ↔
      (family = .inet6 ↔ sk.skcRcvSaddr = 0)) := by
  simp only [normalizeConnectEvent, normalizeSocketStateEvent, names_normalizeSocket]
  constructor
  · cases family with
    | inet =>
        rw [tcpConnect, forall_mem_iff_of_map (endpoints_tcpV4Connect sk task connected)]
        simp only [reduceCtorEq, false_or]
        constructor
        · exact fun h => (formatIpv4_inj (congrArg Endpoints.localAddress h)).symm
        · intro h
          simp [Sock.endpoints, h]
    | inet6 =>
        rw [tcpConnect, forall_mem_iff_of_map (endpoints_tcpV6Connect sk task connected)]
        simp
  · rw [forall_mem_iff_of_map (endpoints_tcpDestroySock sk task' closed)]
    have hne := endpoints_inet_ne_inet6 sk
    cases family with
    | inet => by_cases h : sk.skcRcvSaddr = 0 <;> simp [h, hne.symm]
    | inet6 => by_cases h : sk.skcRcvSaddr = 0 <;> simp [h, hne]

/-- A connection from 10.0.0.1 to 192.0.2.7: its connect event has the addresses exchanged, its
close event has them right. -/
theorem connect_event_exchanges_addresses :
    let sk : Sock :=
      { skcRcvSaddr := 0x0100000A, skcDaddr := 0x070200C0, skcNum := 50000, skcDport := 0xBB01
        skcV6RcvSaddr := List.replicate 16 0, skcV6Daddr := List.replicate 16 0, skTxhash := 0
        skcV6RcvSaddr_length := rfl, skcV6Daddr_length := rfl }
    sk.endpoints .inet = ⟨cstr "10.0.0.1", 50000, cstr "192.0.2.7", 443⟩ ∧
      ∀ (connected : SocketEvent) (closed : SocketStateEvent) (task : Task) (bootWalltime : ℤ),
        (∀ raw ∈ tcpConnect .inet (some connected) task sk,
          Names (normalizeConnectEvent raw bootWalltime)
            ⟨cstr "192.0.2.7", 50000, cstr "10.0.0.1", 443⟩) ∧
        ∀ raw ∈ tcpDestroySock (some closed) task sk,
          Names (normalizeSocketStateEvent raw.toSocketEvent bootWalltime)
            ⟨cstr "10.0.0.1", 50000, cstr "192.0.2.7", 443⟩ := by
  intro sk
  have hends : sk.endpoints .inet = ⟨cstr "10.0.0.1", 50000, cstr "192.0.2.7", 443⟩ := by
    decide +kernel
  refine ⟨hends, fun connected closed task bootWalltime => ?_⟩
  simp only [normalizeConnectEvent, normalizeSocketStateEvent, names_normalizeSocket]
  constructor
  · rw [tcpConnect, forall_mem_iff_of_map (endpoints_tcpV4Connect sk task connected), hends]
  · rw [forall_mem_iff_of_map (endpoints_tcpDestroySock sk task closed)]
    exact hends

end Ezcap.Ebpf
