import Ezcap.Model.PacketParser

/-! The parser does not look past the headers: what it returns for a valid frame is
fixed by the bytes up to the end of the transport header, and for a DNS datagram up
to the zero byte that ends the first question name. -/

namespace Ezcap.PacketParser

open StdString

theorem readBe16_congr {n i : ℕ} {f g : Bytes} (h : AgreeUpTo n f g) (hi : i + 2 ≤ n) :
    readBe16 f i = readBe16 g i := by
  rw [readBe16, readBe16, h.getD (by omega), h.getD (by omega)]

theorem ihl_congr {n offset : ℕ} {f g : Bytes} (h : AgreeUpTo n f g) (hn : offset < n) :
    ihl f offset = ihl g offset := by
  rw [ihl, ihl, h.getD hn]

/-! ## The IP header -/

/-- Where the IP header ends, by the frame's Ethernet type. -/
def ipHeaderEnd (frame : Bytes) : ℕ :=
  if readBe16 frame 12 = kEthTypeIp4 then 14 + ihl frame 14 else 14 + 40

def ipv4Metadata (frame : Bytes) : PacketMetadata where
  localAddress := formatIpv4 (substr frame 26 (some 4))
  remoteAddress := formatIpv4 (substr frame 30 (some 4))
  transport := transportOf (frame.getD 23 0)

def ipv6Metadata (frame : Bytes) : PacketMetadata where
  localAddress := formatIpv6 (substr frame 22 (some 16))
  remoteAddress := formatIpv6 (substr frame 38 (some 16))
  transport := transportOf (frame.getD 20 0)

/-- The frames for which the IPv4 branch goes on to the transport header. -/
structure Ipv4Header (frame : Bytes) : Prop where
  fixed : 34 ≤ frame.length
  ihl_ge : 20 ≤ ihl frame 14
  options : 14 + ihl frame 14 ≤ frame.length
  proto : frame.getD 23 0 = kProtoTcp ∨ frame.getD 23 0 = kProtoUdp

structure Ipv6Header (frame : Bytes) : Prop where
  fixed : 54 ≤ frame.length
  proto : frame.getD 20 0 = kProtoTcp ∨ frame.getD 20 0 = kProtoUdp

theorem Ipv4Header.parse {f : Bytes} (h : Ipv4Header f) :
    parseIpv4 f 14 = (ipv4Metadata f, some (14 + ihl f 14)) := by
  have hshort : ¬ f.length < 14 + 20 := by
    have := h.fixed
    omega
  have hihl : ¬ (ihl f 14 < 20 ∨ f.length < 14 + ihl f 14) := by
    have := h.ihl_ge
    have := h.options
    omega
  have hproto : ¬ (f.getD (14 + 9) 0 ≠ kProtoTcp ∧ f.getD (14 + 9) 0 ≠ kProtoUdp) := by
    have := h.proto
    tauto
  simp only [parseIpv4, if_neg hshort, if_neg hihl, if_neg hproto]
  rfl

theorem Ipv6Header.parse {f : Bytes} (h : Ipv6Header f) :
    parseIpv6 f 14 = (ipv6Metadata f, some 54) := by
  have hshort : ¬ f.length < 14 + 40 := by
    have := h.fixed
    omega
  have hproto : ¬ (f.getD (14 + 6) 0 ≠ kProtoTcp ∧ f.getD (14 + 6) 0 ≠ kProtoUdp) := by
    have := h.proto
    tauto
  simp only [parseIpv6, if_neg hshort, if_neg hproto]
  rfl

theorem ipv4Header_of_parse {f : Bytes} {m : PacketMetadata} {offset : ℕ}
    (h : parseIpv4 f 14 = (m, some offset)) : Ipv4Header f := by
  unfold parseIpv4 at h
  dsimp only at h
  split_ifs at h with hshort hihl hproto
  · cases h
  · cases h
  · cases h
  · exact ⟨by omega, by omega, by omega, by tauto⟩

theorem ipv6Header_of_parse {f : Bytes} {m : PacketMetadata} {offset : ℕ}
    (h : parseIpv6 f 14 = (m, some offset)) : Ipv6Header f := by
  unfold parseIpv6 at h
  dsimp only at h
  split_ifs at h with hshort hproto
  · cases h
  · cases h
  · exact ⟨by omega, by tauto⟩

theorem parseNetworkHeader_eq_some {f : Bytes} {m : PacketMetadata} {offset : ℕ}
    (h : parseNetworkHeader f = (m, some offset)) :
    readBe16 f 12 = kEthTypeIp4 ∧ Ipv4Header f ∧ m = ipv4Metadata f ∧ offset = 14 + ihl f 14 ∨
      readBe16 f 12 = kEthTypeIp6 ∧ Ipv6Header f ∧ m = ipv6Metadata f ∧ offset = 54 := by
  unfold parseNetworkHeader at h
  split_ifs at h with hlen h4 h6
  · cases h
  · have hheader := ipv4Header_of_parse h
    have hparse := hheader.parse.symm.trans h
    simp only [Prod.mk.injEq, Option.some.injEq] at hparse
    exact .inl ⟨h4, hheader, hparse.1.symm, hparse.2.symm⟩
  · have hheader := ipv6Header_of_parse h
    have hparse := hheader.parse.symm.trans h
    simp only [Prod.mk.injEq, Option.some.injEq] at hparse
    exact .inr ⟨h6, hheader, hparse.1.symm, hparse.2.symm⟩
  · cases h

theorem Ipv4Header.parseNetworkHeader {f : Bytes} (h : Ipv4Header f)
    (htype : readBe16 f 12 = kEthTypeIp4) :
    parseNetworkHeader f = (ipv4Metadata f, some (14 + ihl f 14)) := by
  have hlen : ¬ f.length < kEthHeaderLen := by
    have := h.fixed
    simp only [kEthHeaderLen]
    omega
  simp only [PacketParser.parseNetworkHeader, if_neg hlen, if_pos htype]
  exact h.parse

theorem Ipv6Header.parseNetworkHeader {f : Bytes} (h : Ipv6Header f)
    (htype : readBe16 f 12 = kEthTypeIp6) :
    parseNetworkHeader f = (ipv6Metadata f, some 54) := by
  have hlen : ¬ f.length < kEthHeaderLen := by
    have := h.fixed
    simp only [kEthHeaderLen]
    omega
  have hne : ¬ readBe16 f 12 = kEthTypeIp4 := by
    rw [htype]
    decide
  simp only [PacketParser.parseNetworkHeader, if_neg hlen, if_neg hne, if_pos htype]
  exact h.parse

theorem Ipv4Header.congr {n : ℕ} {f g : Bytes} (h : Ipv4Header f) (hn : n ≤ f.length)
    (hg : AgreeUpTo n f g) (hend : 14 + ihl f 14 ≤ n) :
    Ipv4Header g ∧ ipv4Metadata g = ipv4Metadata f ∧ ihl g 14 = ihl f 14 := by
  have hge := h.ihl_ge
  have hlen := hg.le_length hn
  have hihl : ihl f 14 = ihl g 14 := ihl_congr hg (by omega)
  have hproto : f.getD 23 0 = g.getD 23 0 := hg.getD (by omega)
  refine ⟨⟨by omega, by omega, by omega, ?_⟩, ?_, hihl.symm⟩
  · rw [← hproto]
    exact h.proto
  · simp only [ipv4Metadata, hproto, hg.substr (show 26 + 4 ≤ n by omega),
      hg.substr (show 30 + 4 ≤ n by omega)]

theorem Ipv6Header.congr {n : ℕ} {f g : Bytes} (h : Ipv6Header f) (hn : n ≤ f.length)
    (hg : AgreeUpTo n f g) (hend : 54 ≤ n) :
    Ipv6Header g ∧ ipv6Metadata g = ipv6Metadata f := by
  have hlen := hg.le_length hn
  have hproto : f.getD 20 0 = g.getD 20 0 := hg.getD (by omega)
  refine ⟨⟨by omega, ?_⟩, ?_⟩
  · rw [← hproto]
    exact h.proto
  · simp only [ipv6Metadata, hproto, hg.substr (show 22 + 16 ≤ n by omega),
      hg.substr (show 38 + 16 ≤ n by omega)]

theorem parseNetworkHeader_congr {n offset : ℕ} {f g : Bytes} {m : PacketMetadata}
    (h : parseNetworkHeader f = (m, some offset)) (hn : n ≤ f.length) (hoffset : offset ≤ n)
    (hg : AgreeUpTo n f g) : parseNetworkHeader g = (m, some offset) := by
  rcases parseNetworkHeader_eq_some h with ⟨htype, hheader, rfl, rfl⟩ | ⟨htype, hheader, rfl, rfl⟩
  · obtain ⟨hheaderg, hmeta, hihl⟩ := hheader.congr hn hg hoffset
    have htypeg : readBe16 g 12 = kEthTypeIp4 := by
      have hge := hheader.ihl_ge
      rw [← readBe16_congr hg (by omega), htype]
    rw [hheaderg.parseNetworkHeader htypeg, hmeta, hihl]
  · obtain ⟨hheaderg, hmeta⟩ := hheader.congr hn hg hoffset
    have htypeg : readBe16 g 12 = kEthTypeIp6 := by
      rw [← readBe16_congr hg (by omega), htype]
    rw [hheaderg.parseNetworkHeader htypeg, hmeta]

/-! ## The question name -/

/-- The labels from index `i` on end with the zero byte at `z`. -/
inductive NameEndsAt (data : Bytes) : ℕ → ℕ → Prop
  | zero {i : ℕ} (hi : i < data.length) (h : data.getD i 0 = 0) : NameEndsAt data i i
  | label {i z : ℕ} (h : data.getD i 0 ≠ 0)
      (rest : NameEndsAt data (i + 1 + (data.getD i 0).toNat) z) : NameEndsAt data i z

theorem NameEndsAt.bounds {data : Bytes} {i z : ℕ} (h : NameEndsAt data i z) :
    i ≤ z ∧ z < data.length := by
  induction h with
  | zero hi _ => exact ⟨le_rfl, hi⟩
  | label _ _ ih => exact ⟨by omega, ih.2⟩

theorem NameEndsAt.unique {data : Bytes} {i y z : ℕ} (hy : NameEndsAt data i y)
    (hz : NameEndsAt data i z) : y = z := by
  induction hy with
  | zero _ h =>
      cases hz with
      | zero => rfl
      | label hne => exact absurd h hne
  | label hne _ ih =>
      cases hz with
      | zero _ h => exact absurd h hne
      | label _ hrest => exact ih hrest

theorem qnameLoop_zero {data : Bytes} {labels i : ℕ} {out : Bytes} (hi : i < data.length)
    (hzero : data.getD i 0 = 0) : qnameLoop data (labels + 1) i out = out := by
  simp only [qnameLoop, if_pos hi, if_pos hzero]

theorem qnameLoop_label {data : Bytes} {i : ℕ} {out out' : Bytes} (labels : ℕ)
    (hend : i + 1 + (data.getD i 0).toNat ≤ data.length) (hzero : data.getD i 0 ≠ 0)
    (hlen : ¬ (data.getD i 0 &&& 0xC0 ≠ 0 ∨ data.getD i 0 > 63))
    (hout : (pushDot out).bind
      (pushLabel · (substr data (i + 1) (some (data.getD i 0).toNat))) = some out') :
    qnameLoop data (labels + 1) i out =
      qnameLoop data labels (i + 1 + (data.getD i 0).toNat) out' := by
  simp only [qnameLoop, if_pos (show i < data.length by omega), if_neg hzero, if_neg hlen,
    if_neg (Nat.not_lt.mpr hend), hout]

theorem qnameLoop_ne_nil {data : Bytes} {labels i : ℕ} {out : Bytes}
    (h : qnameLoop data (labels + 1) i out ≠ []) :
    i < data.length ∧ data.getD i 0 = 0 ∨
      i + 1 + (data.getD i 0).toNat ≤ data.length ∧ data.getD i 0 ≠ 0 ∧
        ¬ (data.getD i 0 &&& 0xC0 ≠ 0 ∨ data.getD i 0 > 63) ∧
        ∃ out', (pushDot out).bind
          (pushLabel · (substr data (i + 1) (some (data.getD i 0).toNat))) = some out' := by
  unfold qnameLoop at h
  dsimp only at h
  split_ifs at h with hi hzero hlen htrunc
  · exact .inl ⟨hi, hzero⟩
  · simp at h
  · simp at h
  · split at h
    · simp at h
    · rename_i out' hout
      exact .inr ⟨Nat.not_lt.mp htrunc, hzero, hlen, out', hout⟩
  · simp at h

/-- A name that was decoded depends only on the bytes up to its zero byte. -/
theorem qnameLoop_congr {data : Bytes} (data' : Bytes) (labels i : ℕ) (out : Bytes)
    (h : qnameLoop data labels i out ≠ []) :
    ∃ z, NameEndsAt data i z ∧
      (AgreeUpTo (z + 1) data data' →
        qnameLoop data' labels i out = qnameLoop data labels i out) := by
  induction labels generalizing i out with
  | zero => simp [qnameLoop] at h
  | succ labels ih =>
      rcases qnameLoop_ne_nil h with ⟨hi, hzero⟩ | ⟨hend, hzero, hlen, out', hout⟩
      · refine ⟨i, .zero hi hzero, fun hg => ?_⟩
        have hi' : i < data'.length := hg.le_length (by omega)
        have hzero' : data'.getD i 0 = 0 := (hg.getD (by omega)).symm.trans hzero
        rw [qnameLoop_zero hi hzero, qnameLoop_zero hi' hzero']
      · have hstep := qnameLoop_label labels hend hzero hlen hout
        rw [hstep] at h ⊢
        obtain ⟨z, hz, hcongr⟩ := ih _ _ h
        refine ⟨z, .label hzero hz, fun hg => ?_⟩
        have hb := hz.bounds
        have hend' : z + 1 ≤ data'.length := hg.le_length (by omega)
        have hget : data.getD i 0 = data'.getD i 0 := hg.getD (by omega)
        have hsub := hg.substr (show i + 1 + (data.getD i 0).toNat ≤ z + 1 by omega)
        rw [← hcongr hg]
        rw [hget] at hzero hlen hsub hout hb ⊢
        rw [hsub] at hout
        exact qnameLoop_label _ (by omega) hzero hlen hout

/-! ## The transport header -/

/-- Before the transport header only the addresses and the transport are set. -/
def HeaderOnly (m : PacketMetadata) : Prop :=
  m = { transport := m.transport, localAddress := m.localAddress, remoteAddress := m.remoteAddress }

theorem headerOnly_parseNetworkHeader (f : Bytes) : HeaderOnly (parseNetworkHeader f).1 := by
  unfold parseNetworkHeader parseIpv4 parseIpv6
  dsimp only
  split_ifs <;> rfl

theorem HeaderOnly.valid {m : PacketMetadata} (h : HeaderOnly m) : m.valid = false := by rw [h]

theorem HeaderOnly.dnsQueryName {m : PacketMetadata} (h : HeaderOnly m) :
    m.dnsQueryName = [] := by rw [h]

theorem parseEthernetFrame_of_some {f : Bytes} {m : PacketMetadata} {offset : ℕ}
    (h : parseNetworkHeader f = (m, some offset)) :
    parseEthernetFrame f = parseTransportHeader f offset m := by
  simp only [parseEthernetFrame, h]

theorem ipHeaderEnd_of_some {f : Bytes} {m : PacketMetadata} {offset : ℕ}
    (h : parseNetworkHeader f = (m, some offset)) : offset = ipHeaderEnd f := by
  rcases parseNetworkHeader_eq_some h with ⟨htype, _, _, rfl⟩ | ⟨htype, _, _, rfl⟩
  · rw [ipHeaderEnd, if_pos htype]
  · rw [ipHeaderEnd, if_neg (by rw [htype]; decide)]

theorem offset_le_length {f : Bytes} {m : PacketMetadata} {offset : ℕ}
    (h : parseNetworkHeader f = (m, some offset)) : offset ≤ f.length := by
  rcases parseNetworkHeader_eq_some h with ⟨_, hheader, _, rfl⟩ | ⟨_, hheader, _, rfl⟩
  · exact hheader.options
  · exact hheader.fixed

theorem parseNetworkHeader_of_valid {f : Bytes} (h : (parseEthernetFrame f).valid = true) :
    ∃ m, parseNetworkHeader f = (m, some (ipHeaderEnd f)) ∧ HeaderOnly m := by
  have hm := headerOnly_parseNetworkHeader f
  rcases hnet : parseNetworkHeader f with ⟨m, _ | offset⟩
  · rw [hnet] at hm
    have hvalid : m.valid = false := HeaderOnly.valid hm
    simp [parseEthernetFrame, hnet, hvalid] at h
  · rw [hnet] at hm
    rw [← ipHeaderEnd_of_some hnet]
    exact ⟨m, rfl, hm⟩

section Transport

variable {f g : Bytes} {m : PacketMetadata} {offset : ℕ}

theorem withPorts_congr {n : ℕ} (h : AgreeUpTo n f g) (hn : offset + 4 ≤ n) :
    withPorts g offset m = withPorts f offset m := by
  simp only [withPorts, readBe16_congr h (show offset + 2 ≤ n by omega),
    readBe16_congr h (show offset + 2 + 2 ≤ n by omega)]

theorem parseTransportHeader_tcp (hm : m.transport = .tcp) (hf : offset + 20 ≤ f.length) :
    parseTransportHeader f offset m = { withPorts f offset m with valid := true } := by
  rw [parseTransportHeader, if_pos hm, if_neg (show ¬ f.length - offset < 20 by omega)]

theorem parseTransportHeader_udp (hm : m.transport ≠ .tcp) (hf : offset + 8 ≤ f.length) :
    parseTransportHeader f offset m =
      if onDnsPort (withPorts f offset m) then
        { parseDnsPayload (f.drop (offset + 8)) (withPorts f offset m) with valid := true }
      else { withPorts f offset m with valid := true } := by
  rw [parseTransportHeader, if_neg hm, if_neg (show ¬ f.length - offset < 8 by omega)]

/-- How many bytes the transport header has. -/
def transportHeaderLen (m : PacketMetadata) : ℕ := if m.transport = .tcp then 20 else 8

theorem parseTransportHeader_short (hf : f.length < offset + transportHeaderLen m)
    (hend : offset ≤ f.length) :
    parseTransportHeader f offset m = { m with transport := .other } := by
  rw [transportHeaderLen] at hf
  by_cases htcp : m.transport = .tcp
  · rw [if_pos htcp] at hf
    rw [parseTransportHeader, if_pos htcp, if_pos (show f.length - offset < 20 by omega)]
  · rw [if_neg htcp] at hf
    rw [parseTransportHeader, if_neg htcp, if_pos (show f.length - offset < 8 by omega)]

/-- A question name that was decoded ends in the payload, and the outcome depends on no
byte after it. -/
theorem parseDnsPayload_congr {payload : Bytes} (payload' : Bytes) (hm : m.dnsQueryName = [])
    (h : (parseDnsPayload payload m).dnsQueryName ≠ []) :
    ∃ z, NameEndsAt (payload.drop 12) 0 z ∧
      (AgreeUpTo (12 + z + 1) payload payload' →
        parseDnsPayload payload' m = parseDnsPayload payload m) := by
  unfold parseDnsPayload at h
  split_ifs at h with hlen hcount
  · obtain ⟨z, hz, hcongr⟩ := qnameLoop_congr (payload'.drop 12) 128 0 [] h
    refine ⟨z, hz, fun hg => ?_⟩
    have hb := hz.bounds
    rw [List.length_drop] at hb
    have hlen' : payload'.length ≥ 12 := by
      have := hg.le_length (by omega)
      omega
    have hname : parseDnsQname (payload'.drop 12) = parseDnsQname (payload.drop 12) :=
      hcongr ((hg.drop 12).mono (by omega))
    simp only [parseDnsPayload, if_pos hlen, if_pos hlen', hname,
      hg.getD (show 3 < 12 + z + 1 by omega), readBe16_congr hg (show 4 + 2 ≤ 12 + z + 1 by omega)]
  · exact absurd hm h
  · exact absurd hm h

theorem parseTransportHeader_complete (hlen : offset + transportHeaderLen m ≤ f.length) :
    (parseTransportHeader f offset m).valid = true ∧
      (parseTransportHeader f offset m).transport = m.transport ∧
      (parseTransportHeader f offset m).sourcePort = readBe16 f offset ∧
      (parseTransportHeader f offset m).destinationPort = readBe16 f (offset + 2) := by
  rw [transportHeaderLen] at hlen
  by_cases htcp : m.transport = .tcp
  · rw [if_pos htcp] at hlen
    rw [parseTransportHeader_tcp htcp hlen]
    exact ⟨rfl, rfl, rfl, rfl⟩
  · rw [if_neg htcp] at hlen
    rw [parseTransportHeader_udp htcp hlen]
    unfold parseDnsPayload
    split_ifs <;> exact ⟨rfl, rfl, rfl, rfl⟩

theorem complete_of_valid (hm : HeaderOnly m) (hend : offset ≤ f.length)
    (h : (parseTransportHeader f offset m).valid = true) :
    offset + transportHeaderLen m ≤ f.length := by
  by_contra hshort
  rw [parseTransportHeader_short (by omega) hend] at h
  exact absurd h (by simp [hm.valid])

end Transport

/-! ## Whole frames -/

section Frames

variable {f g : Bytes} {m : PacketMetadata} {offset : ℕ}

theorem parseEthernetFrame_congr_tcp (hnet : parseNetworkHeader f = (m, some offset))
    (hm : m.transport = .tcp) (hf : offset + 20 ≤ f.length) (hg : AgreeUpTo (offset + 20) f g) :
    parseEthernetFrame g = parseEthernetFrame f := by
  have hnetg := parseNetworkHeader_congr hnet hf (by omega) hg
  rw [parseEthernetFrame_of_some hnet, parseEthernetFrame_of_some hnetg,
    parseTransportHeader_tcp hm hf, parseTransportHeader_tcp hm (hg.le_length hf),
    withPorts_congr hg (by omega)]

theorem parseEthernetFrame_congr_udp (hnet : parseNetworkHeader f = (m, some offset))
    (hm : m.transport ≠ .tcp) (hport : onDnsPort (withPorts f offset m) = false)
    (hf : offset + 8 ≤ f.length) (hg : AgreeUpTo (offset + 8) f g) :
    parseEthernetFrame g = parseEthernetFrame f := by
  have hnetg := parseNetworkHeader_congr hnet hf (by omega) hg
  have hports : withPorts g offset m = withPorts f offset m := withPorts_congr hg (by omega)
  rw [parseEthernetFrame_of_some hnet, parseEthernetFrame_of_some hnetg,
    parseTransportHeader_udp hm hf, parseTransportHeader_udp hm (hg.le_length hf), hports,
    if_neg (by simp [hport]), if_neg (by simp [hport])]

theorem parseEthernetFrame_congr_dns (hnet : parseNetworkHeader f = (m, some offset))
    (hm : m.transport ≠ .tcp) (hempty : m.dnsQueryName = [])
    (hport : onDnsPort (withPorts f offset m) = true) (hf : offset + 8 ≤ f.length)
    (hname : (parseEthernetFrame f).dnsQueryName ≠ []) :
    ∃ z, NameEndsAt (f.drop (offset + 20)) 0 z ∧
      (AgreeUpTo (offset + 20 + z + 1) f g → parseEthernetFrame g = parseEthernetFrame f) := by
  rw [parseEthernetFrame_of_some hnet, parseTransportHeader_udp hm hf, if_pos hport] at hname ⊢
  obtain ⟨z, hz, hcongr⟩ := parseDnsPayload_congr (m := withPorts f offset m)
    (g.drop (offset + 8)) hempty hname
  rw [List.drop_drop] at hz
  refine ⟨z, hz, fun hg => ?_⟩
  have hb := hz.bounds
  rw [List.length_drop] at hb
  have hlen : offset + 20 + z + 1 ≤ g.length := hg.le_length (by omega)
  have hnetg := parseNetworkHeader_congr hnet (by omega) (by omega) hg
  have hports : withPorts g offset m = withPorts f offset m := withPorts_congr hg (by omega)
  rw [parseEthernetFrame_of_some hnetg, parseTransportHeader_udp hm (by omega), hports,
    if_pos hport, hcongr ((hg.drop (offset + 8)).mono (by omega))]

end Frames

/-- Two frames, of which the first is valid, are parsed alike when they agree up to the end
of the TCP header, of the UDP header when neither port is 53, and else up to and
including the zero byte that ends the decoded question name. -/
theorem payload_noninterference (f g : Bytes) (hvalid : (parseEthernetFrame f).valid = true) :
    ((parseEthernetFrame f).transport = .tcp →
      ipHeaderEnd f + 20 ≤ f.length → ipHeaderEnd f + 20 ≤ g.length →
      AgreeUpTo (ipHeaderEnd f + 20) f g →
      parseEthernetFrame g = parseEthernetFrame f) ∧
    ((parseEthernetFrame f).transport = .udp →
      (parseEthernetFrame f).sourcePort ≠ 53 → (parseEthernetFrame f).destinationPort ≠ 53 →
      ipHeaderEnd f + 8 ≤ f.length → ipHeaderEnd f + 8 ≤ g.length →
      AgreeUpTo (ipHeaderEnd f + 8) f g →
      parseEthernetFrame g = parseEthernetFrame f) ∧
    ((parseEthernetFrame f).transport = .udp →
      ((parseEthernetFrame f).sourcePort = 53 ∨ (parseEthernetFrame f).destinationPort = 53) →
      (parseEthernetFrame f).dnsQueryName ≠ [] →
      ∃ z, NameEndsAt (f.drop (ipHeaderEnd f + 20)) 0 z ∧
        (AgreeUpTo (ipHeaderEnd f + 20 + z + 1) f g →
          parseEthernetFrame g = parseEthernetFrame f)) := by
  obtain ⟨m, hnet, hm⟩ := parseNetworkHeader_of_valid hvalid
  have hvalid' := hvalid
  rw [parseEthernetFrame_of_some hnet] at hvalid'
  have hlen := complete_of_valid hm (offset_le_length hnet) hvalid'
  obtain ⟨-, htransport, hsource, hdest⟩ := parseTransportHeader_complete hlen
  rw [← parseEthernetFrame_of_some hnet] at htransport hsource hdest
  rw [htransport, hsource, hdest]
  refine ⟨fun htcp hf _ hg => parseEthernetFrame_congr_tcp hnet htcp hf hg, ?_, ?_⟩
  · intro hudp hs hd hf _ hg
    have hport : onDnsPort (withPorts f (ipHeaderEnd f) m) = false := by
      simp [onDnsPort, withPorts, kDnsPort, hs, hd]
    exact parseEthernetFrame_congr_udp hnet (by simp [hudp]) hport hf hg
  · intro hudp hport hname
    have hne : m.transport ≠ .tcp := by simp [hudp]
    have hdns : onDnsPort (withPorts f (ipHeaderEnd f) m) = true := by
      simpa [onDnsPort, withPorts, kDnsPort] using hport.symm
    rw [transportHeaderLen, if_neg hne] at hlen
    exact parseEthernetFrame_congr_dns hnet hne hm.dnsQueryName hdns hlen hname

/-- An Ethernet/IPv4 frame with the given fragment field and protocol, zero addresses and no
options. -/
def ipv4Frame (fragment : Bytes) (proto : UInt8) (payload : Bytes) : Bytes :=
  List.replicate 12 0 ++ [0x08, 0x00] ++ [0x45, 0, 0, 0, 0, 0] ++ fragment ++ [64, proto, 0, 0] ++
    List.replicate 8 0 ++ payload

/-- A UDP header from port 40000 to `port`, and a DNS header with one question. -/
def dnsDatagram (port : UInt8) (question : Bytes) : Bytes :=
  [0x9c, 0x40, 0, port, 0, 40, 0, 0] ++ [0, 7, 1, 0, 0, 1, 0, 0, 0, 0, 0, 0] ++ question

/-- Frames of each kind that differ in their payload only. -/
theorem payload_noninterference_frames :
    (let tcp := fun payload => ipv4Frame [0, 0] 6 (List.replicate 20 1 ++ payload)
     parseEthernetFrame (tcp (cstr "password")) = parseEthernetFrame (tcp (cstr "x"))) ∧
    (let udp := fun payload => ipv4Frame [0, 0] 17 ([1, 2, 3, 4, 0, 9, 0, 0] ++ payload)
     parseEthernetFrame (udp (cstr "password")) = parseEthernetFrame (udp (cstr "x"))) ∧
    (let dns := fun tail => ipv4Frame [0, 0] 17 (dnsDatagram 53 ([1, 97, 0] ++ tail))
     parseEthernetFrame (dns (cstr "password")) = parseEthernetFrame (dns (cstr "x"))) := by
  refine ⟨?_, ?_, ?_⟩
  · exact (payload_noninterference _ _ (by decide)).1 (by decide) (by decide) (by decide)
      (by decide)
  · exact (payload_noninterference _ _ (by decide)).2.1 (by decide) (by decide) (by decide)
      (by decide) (by decide) (by decide)
  · obtain ⟨z, hz, h⟩ := (payload_noninterference
      (ipv4Frame [0, 0] 17 (dnsDatagram 53 ([1, 97, 0] ++ cstr "x")))
      (ipv4Frame [0, 0] 17 (dnsDatagram 53 ([1, 97, 0] ++ cstr "password")))
      (by decide)).2.2 (by decide) (by decide) (by decide)
    obtain rfl := hz.unique (.label (by decide) (.zero (by decide) (by decide)))
    exact h (by decide)

end Ezcap.PacketParser
