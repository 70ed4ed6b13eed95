import Ezcap.Verification.PacketParser.Noninterference

/-! IPv4 fragments. The parser does not look at the fragment offset, so the bytes after the
IP header of a later fragment are read as a transport header whenever there are enough
of them. -/

namespace Ezcap.PacketParser

open StdString

/-- The low 13 bits of bytes 6 and 7 of the IPv4 header. -/
def fragmentOffset (frame : Bytes) : ℕ := (readBe16 frame 20).toNat % 2 ^ 13

/-- Where the IPv4 header ends; its fixed part counts even if the IHL field is too small. -/
def ipv4HeaderEnd (frame : Bytes) : ℕ := 14 + max 20 (ihl frame 14)

/-- The frame holds a whole IPv4 header of TCP or UDP, and after it as many bytes as that
transport's header has. -/
structure HasTransportBytes (frame : Bytes) : Prop where
  header : Ipv4Header frame
  enough : 14 + ihl frame 14 + transportHeaderLen (ipv4Metadata frame) ≤ frame.length

theorem parseNetworkHeader_congr_ipv4 {f g : Bytes} (htype : readBe16 f 12 = kEthTypeIp4)
    (hlen : g.length = f.length) (hg : AgreeUpTo 34 f g) :
    parseNetworkHeader g = parseNetworkHeader f := by
  have htypeg : readBe16 g 12 = kEthTypeIp4 := by
    rw [← readBe16_congr hg (by omega), htype]
  have hihl : ihl g 14 = ihl f 14 := (ihl_congr hg (by omega)).symm
  have hproto : g.getD 23 0 = f.getD 23 0 := (hg.getD (by omega)).symm
  simp only [parseNetworkHeader, htype, htypeg, if_true, parseIpv4, kEthHeaderLen, hlen, hihl,
    hproto, hg.substr (show 14 + 12 + 4 ≤ 34 by omega), hg.substr (show 14 + 16 + 4 ≤ 34 by omega)]

/-- Without enough bytes for a transport header, the outcome is fixed by the IP header and
the length of the frame. -/
theorem parseEthernetFrame_headerOnly {f : Bytes} (htype : readBe16 f 12 = kEthTypeIp4)
    (h : ¬ HasTransportBytes f) :
    ∃ m, HeaderOnly m ∧ ∀ g : Bytes, g.length = f.length →
      parseNetworkHeader g = parseNetworkHeader f → parseEthernetFrame g = m := by
  have hm := headerOnly_parseNetworkHeader f
  rcases hnet : parseNetworkHeader f with ⟨m, _ | offset⟩
  · rw [hnet] at hm
    refine ⟨m, hm, fun g _ hg => ?_⟩
    simp only [parseEthernetFrame, hg]
  · rw [hnet] at hm
    have hm : HeaderOnly m := hm
    rcases parseNetworkHeader_eq_some hnet with ⟨_, hheader, rfl, rfl⟩ | ⟨h6, _⟩
    · have hshort : f.length < 14 + ihl f 14 + transportHeaderLen (ipv4Metadata f) := by
        by_contra henough
        exact h ⟨hheader, by omega⟩
      refine ⟨{ ipv4Metadata f with transport := .other }, rfl, fun g hlen hg => ?_⟩
      rw [parseEthernetFrame_of_some hg,
        parseTransportHeader_short (by omega) (by rw [hlen]; exact hheader.options)]
    · rw [htype] at h6
      exact absurd h6 (by decide)

/-- With enough bytes, the first two of them are taken as the source port. -/
theorem HasTransportBytes.sourcePort {f : Bytes} (h : HasTransportBytes f)
    (htype : readBe16 f 12 = kEthTypeIp4) :
    (parseEthernetFrame f).sourcePort = readBe16 f (14 + ihl f 14) := by
  rw [parseEthernetFrame_of_some (h.header.parseNetworkHeader htype)]
  exact (parseTransportHeader_complete h.enough).2.2.1

/-- Overwrite the two bytes at `i`. -/
def overwrite (f : Bytes) (i : ℕ) (x : UInt8) : Bytes := (f.set i x).set (i + 1) x

theorem length_overwrite (f : Bytes) (i : ℕ) (x : UInt8) : (overwrite f i x).length = f.length := by
  simp [overwrite]

theorem agreeUpTo_overwrite (f : Bytes) (i : ℕ) (x : UInt8) : AgreeUpTo i f (overwrite f i x) := by
  simp [AgreeUpTo, overwrite, List.take_set_of_le]

theorem readBe16_overwrite {f : Bytes} {i : ℕ} (x : UInt8) (hi : i + 2 ≤ f.length) :
    readBe16 (overwrite f i x) i = (x.toUInt16 <<< 8) ||| x.toUInt16 := by
  have h0 : i < f.length := by omega
  have h1 : i + 1 < f.length := by omega
  simp [readBe16, overwrite, h0, h1]

theorem HasTransportBytes.overwrite_port {f : Bytes} (h : HasTransportBytes f)
    (htype : readBe16 f 12 = kEthTypeIp4) (x : UInt8) :
    (parseEthernetFrame (overwrite f (14 + ihl f 14) x)).sourcePort =
      (x.toUInt16 <<< 8) ||| x.toUInt16 := by
  have hagree := agreeUpTo_overwrite f (14 + ihl f 14) x
  have hlen := length_overwrite f (14 + ihl f 14) x
  have hge := h.header.ihl_ge
  have henough := h.enough
  have hlong : 8 ≤ transportHeaderLen (ipv4Metadata f) := by
    unfold transportHeaderLen
    split_ifs <;> omega
  obtain ⟨hheader, hmeta, hihl⟩ := h.header.congr h.header.options hagree le_rfl
  have hbytes : HasTransportBytes (overwrite f (14 + ihl f 14) x) :=
    ⟨hheader, by rw [hmeta, hihl, hlen]; exact henough⟩
  have htypeg : readBe16 (overwrite f (14 + ihl f 14) x) 12 = kEthTypeIp4 := by
    rw [← readBe16_congr hagree (by omega), htype]
  rw [hbytes.sourcePort htypeg, hihl, readBe16_overwrite x (by omega)]

/-- A later fragment gives away nothing after its IP header exactly when that header is not
followed by enough bytes to be taken for a transport header. The fragment offset itself
plays no part: the parser never reads it. -/
theorem fragment_opaque_iff (f : Bytes) (htype : readBe16 f 12 = kEthTypeIp4)
    (_hfragment : fragmentOffset f ≠ 0) :
    ((∀ g : Bytes, g.length = f.length → AgreeUpTo (ipv4HeaderEnd f) f g →
        parseEthernetFrame g = parseEthernetFrame f) ∧
      (parseEthernetFrame f).sourcePort = 0 ∧ (parseEthernetFrame f).destinationPort = 0 ∧
      (parseEthernetFrame f).dnsQueryName = []) ↔
    ¬ HasTransportBytes f := by
  constructor
  · rintro ⟨hsame, -⟩ h
    have hend : ipv4HeaderEnd f = 14 + ihl f 14 := by
      rw [ipv4HeaderEnd, max_eq_right h.header.ihl_ge]
    have hport : ∀ x : UInt8, (parseEthernetFrame f).sourcePort =
        (x.toUInt16 <<< 8) ||| x.toUInt16 := by
      intro x
      rw [← hsame _ (length_overwrite f (14 + ihl f 14) x)
        (by rw [hend]; exact agreeUpTo_overwrite f _ x)]
      exact h.overwrite_port htype x
    exact absurd ((hport 0).symm.trans (hport 1)) (by decide)
  · intro h
    obtain ⟨m, hm, hparse⟩ := parseEthernetFrame_headerOnly htype h
    rw [hparse f rfl rfl]
    refine ⟨fun g hlen hg => hparse g hlen ?_, ?_⟩
    · exact parseNetworkHeader_congr_ipv4 htype hlen (hg.mono (by rw [ipv4HeaderEnd]; omega))
    · rw [hm]
      exact ⟨rfl, rfl, rfl⟩

/-- The payload of a later fragment, laid out like a DNS query, is decoded as one. -/
theorem fragment_leaks_name :
    let f := ipv4Frame [0x00, 0x01] 17 (dnsDatagram 53 ([6] ++ cstr "secret" ++ [0]))
    readBe16 f 12 = kEthTypeIp4 ∧ fragmentOffset f = 1 ∧
      (parseEthernetFrame f).dnsQueryName = cstr "secret" ∧
      ¬ ∀ g : Bytes, g.length = f.length → AgreeUpTo (ipv4HeaderEnd f) f g →
        parseEthernetFrame g = parseEthernetFrame f := by
  refine ⟨by decide, by decide, by decide, fun h => ?_⟩
  have hname := congrArg PacketMetadata.dnsQueryName
    (h (ipv4Frame [0x00, 0x01] 17 (dnsDatagram 53 ([6] ++ cstr "public" ++ [0]))) (by decide)
      (by decide))
  exact absurd hname (by decide)

/-- Four bytes of a TCP segment are too few to be taken for its header. -/
theorem short_fragment_opaque :
    let f := ipv4Frame [0x00, 0x01] 6 (cstr "tail")
    (∀ g : Bytes, g.length = f.length → AgreeUpTo (ipv4HeaderEnd f) f g →
        parseEthernetFrame g = parseEthernetFrame f) ∧
      (parseEthernetFrame f).sourcePort = 0 ∧ (parseEthernetFrame f).destinationPort = 0 ∧
      (parseEthernetFrame f).dnsQueryName = [] :=
  (fragment_opaque_iff _ (by decide) (by decide)).mpr fun h => absurd h.enough (by decide)

end Ezcap.PacketParser
