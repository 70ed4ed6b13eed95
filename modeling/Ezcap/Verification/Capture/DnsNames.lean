import Ezcap.Verification.Capture.DnsDecoders
import Ezcap.Verification.Capture.TracerBounds

/-! The DNS names that the two capture backends report for one datagram. The kernel program
checks no characters, takes the end of the payload for the end of the name and goes by the
UDP length; the frame parser wants a zero byte and goes by the captured bytes. -/

namespace Ezcap

open StdString DnsName PacketParser
open TracerAccess (Traced dnsTrace_eq_some_iff ipLen)

namespace Ebpf

/-! ## What is reported of a copied name -/

/-- The name that an event carries: rejected names are empty, others end at a NUL. -/
def reportedName : Except Bytes Bytes → Bytes
  | .ok out => untilNul out
  | .error _ => []

def queryName (event : Event) : Option Bytes := event.network.map (·.dnsQueryName)

theorem untilNul_append_zero (out rest : Bytes) : untilNul (out ++ 0 :: rest) = untilNul out :=
  takeWhile_append_of_head out (by simp)

theorem queryName_normalizeDnsEvent (raw : DnsEvent) (bootWalltime : ℤ) :
    queryName (normalizeDnsEvent raw bootWalltime) =
      some (if 0 < raw.queryLen ∧ raw.queryLen.toNat ≤ EZCAP_DNS_NAME_MAX then
        boundedString raw.queryName raw.queryLen.toNat
      else []) := rfl

/-- The length and the buffer of a record together give the reported name. -/
theorem boundedString_queryNameOf {name : Except Bytes Bytes} (buffer : Bytes)
    (hname : ∀ out, name = .ok out → out.length ≤ 252) :
    (if 0 < queryLenOf name ∧ (queryLenOf name).toNat ≤ EZCAP_DNS_NAME_MAX then
        boundedString (queryNameOf buffer name) (queryLenOf name).toNat
      else []) = reportedName name := by
  cases name with
  | error out => rfl
  | ok out =>
      have hlen := hname out rfl
      have hmax : EZCAP_DNS_NAME_MAX = 253 := rfl
      have hquery : (queryLenOf (.ok out)).toNat = out.length + 1 := by
        rw [queryLenOf, show (out.length + 1).toUInt16.toNat = (out.length + 1) % 2 ^ 16 from rfl]
        omega
      have hpos : 0 < queryLenOf (.ok out) := by
        rw [UInt16.lt_iff_toNat_lt, hquery]
        exact Nat.succ_pos _
      rw [if_pos ⟨hpos, by omega⟩, hquery, boundedString, queryNameOf, overwriteQname,
        List.take_take, min_eq_left (by omega), List.take_left' (by simp)]
      exact untilNul_append_zero out []

theorem queryName_fillDns (task : Task) (skb : SkBuff) (ihl : ℕ) (ev : DnsEvent)
    (bootWalltime : ℤ) :
    queryName (normalizeDnsEvent (fillDns task skb ihl ev) bootWalltime) =
      some (reportedName
        (copyQname (fun i => skb.byteAt (ihl + 8 + 12 + i)) (dnsPayloadLen skb ihl))) := by
  rw [queryName_normalizeDnsEvent]
  refine congrArg some (boundedString_queryNameOf ev.queryName fun out hout => ?_)
  obtain ⟨labels, hcopies, rfl⟩ := copyQname_eq_ok_iff.mp hout
  exact hcopies.length_le

/-! ## The two decoders compared -/

theorem untilNul_dotted {labels : List Bytes}
    (hchars : ∀ label ∈ labels, ∀ c ∈ label, qnameChar c = true) :
    untilNul (dotted labels) = dotted labels := by
  refine List.takeWhile_eq_self_iff.mpr fun c hc => ?_
  rcases mem_dotted hc with rfl | ⟨label, hlabel, hmem⟩
  · decide
  · have hallowed := hchars label hlabel c hmem
    simp only [decide_eq_true_eq]
    rintro rfl
    exact absurd hallowed (by decide)

/-- The frame parser reports no name if there is none that it decodes. -/
theorem parseDnsQname_eq_nil_iff {data : Bytes} :
    parseDnsQname data = [] ↔ ∀ labels, DecodesTo data labels → labels = [] := by
  constructor
  · intro hnil labels hdecodes
    have htwo := two_mul_length_le hdecodes.isLabel
    rw [← hdecodes.parseDnsQname, hnil, List.length_nil] at htwo
    exact List.length_eq_zero_iff.mp (by omega)
  · intro hnone
    by_contra hne
    obtain ⟨labels, hdecodes, hname⟩ := decodesTo_of_parseDnsQname hne
    rw [hnone labels hdecodes] at hname
    exact hne hname

/-- The kernel program has none reported if there is none that it copies, or it starts with NUL. -/
theorem reportedName_copyQname_eq_nil_iff {payload : ℕ → UInt8} {n : ℕ} :
    reportedName (copyQname payload n) = [] ↔
      ∀ labels, CopiesTo (window payload n) labels → ∀ c ∈ (dotted labels).head?, c = 0 := by
  have hreported (name : Except Bytes Bytes) : reportedName name = [] ↔
      ∀ out, name = .ok out → ∀ c ∈ out.head?, c = 0 := by
    cases name with
    | error out => simp [reportedName]
    | ok out => cases out <;> simp [reportedName, untilNul]
  rw [hreported]
  constructor
  · intro h labels hcopies
    exact h _ (copyQname_eq_ok_iff.mpr ⟨labels, hcopies, rfl⟩)
  · intro h out hout
    obtain ⟨labels, hcopies, rfl⟩ := copyQname_eq_ok_iff.mp hout
    exact h labels hcopies

section

variable {data : Bytes} {payload : ℕ → UInt8} {n : ℕ}
  (hagree : AgreeUpTo (min data.length n) data (window payload n))

include hagree

/-- A name that the frame parser decodes is copied too if the window reaches its end. -/
theorem copyQname_of_decodesTo {labels : List Bytes} (h : DecodesTo data labels)
    (hlen : (encode labels).length ≤ n) : copyQname payload n = .ok (dotted labels) := by
  obtain ⟨rest, hdata⟩ := h.terminated
  have hlength : (encode labels).length + 1 ≤ data.length := by simp [hdata]
  refine copyQname_eq_ok_iff.mpr ⟨labels, ⟨h.isLabel,
    ⟨(window payload n).drop (encode labels).length, ?_, ?_⟩, h.length_le⟩, rfl⟩
  · intro c hc
    by_cases hlt : (encode labels).length < n
    · rw [drop_eq_getD_cons (by simpa using hlt), List.head?_cons, Option.mem_def,
        Option.some.injEq, ← hagree.getD (by omega)] at hc
      rw [← hc, hdata]
      simp
    · rw [List.drop_eq_nil_of_le (by simp; omega)] at hc
      cases hc
  · have htake : data.take (encode labels).length =
        (window payload n).take (encode labels).length := hagree.mono (by omega)
    rw [hdata, List.take_left] at htake
    calc window payload n
      _ = (window payload n).take (encode labels).length ++
          (window payload n).drop (encode labels).length := (List.take_append_drop ..).symm
      _ = encode labels ++ (window payload n).drop (encode labels).length := by rw [← htake]

/-- The two names are the same exactly when the frame holds a name that the parser decodes and the
window reaches its end, or neither decoder finds one. -/
theorem parseDnsQname_eq_reportedName_iff :
    parseDnsQname data = reportedName (copyQname payload n) ↔
      (∃ labels, labels ≠ [] ∧ DecodesTo data labels ∧ (encode labels).length ≤ n) ∨
      (∀ labels, DecodesTo data labels → labels = []) ∧
        ∀ labels, CopiesTo (window payload n) labels → ∀ c ∈ (dotted labels).head?, c = 0 := by
  rw [← parseDnsQname_eq_nil_iff, ← reportedName_copyQname_eq_nil_iff]
  constructor
  · intro heq
    by_cases hnil : parseDnsQname data = []
    · exact .inr ⟨hnil, heq ▸ hnil⟩
    · obtain ⟨labels, hdecodes, hname⟩ := decodesTo_of_parseDnsQname hnil
      have hne : labels ≠ [] := by
        rintro rfl
        exact hnil hname
      refine .inl ⟨labels, hne, hdecodes, ?_⟩
      cases hcopy : copyQname payload n with
      | error out => exact absurd (heq.trans (by rw [hcopy]; rfl)) hnil
      | ok out =>
          -- the copied text is as long, and the window holds its wire form
          obtain ⟨labels', ⟨hlabels', ⟨tail, -, hwindow⟩, -⟩, rfl⟩ := copyQname_eq_ok_iff.mp hcopy
          rw [hcopy, reportedName] at heq
          have hle : (dotted labels).length ≤ (dotted labels').length := by
            rw [← hname, heq]
            exact (List.takeWhile_sublist _).length_le
          have hlength := length_dotted hdecodes.isLabel hne
          have hwire := congrArg List.length hwindow
          rw [length_window, List.length_append] at hwire
          rcases eq_or_ne labels' [] with rfl | hne'
          · exact absurd (heq.trans rfl) hnil
          · have hlength' := length_dotted hlabels' hne'
            omega
  · rintro (⟨labels, -, hdecodes, hlen⟩ | ⟨hdata, hcopied⟩)
    · rw [hdecodes.parseDnsQname, copyQname_of_decodesTo hagree hdecodes hlen, reportedName,
        untilNul_dotted hdecodes.chars]
    · rw [hdata, hcopied]

end

/-! ## One datagram on both paths -/

/-- An Ethernet frame with a UDP datagram on port 53 over IPv4, in full, whose IP and UDP length
fields agree; padding may follow. -/
structure DnsDatagram (frame : Bytes) : Prop where
  etherType : readBe16 frame 12 = kEthTypeIp4
  protocol : frame.getD 23 0 = kProtoUdp
  ihl_ge : 20 ≤ ihl frame 14
  udpLength : 8 ≤ (readBe16 frame (14 + ihl frame 14 + 4)).toNat
  totalLength : (readBe16 frame 16).toNat =
    ihl frame 14 + (readBe16 frame (14 + ihl frame 14 + 4)).toNat
  complete : 14 + (readBe16 frame 16).toNat ≤ frame.length
  port : readBe16 frame (14 + ihl frame 14) = kDnsPort ∨
    readBe16 frame (14 + ihl frame 14 + 2) = kDnsPort

/-- The socket buffer of a frame: the kernel program sees the packet from its IP header on. -/
def skbOf (frame : Bytes) (elsewhere : ℕ → UInt8) : SkBuff where
  protocol := readBe16 frame 12
  data := frame.drop kEthHeaderLen
  elsewhere := elsewhere
  len := (frame.drop kEthHeaderLen).length
  data_le := le_rfl

/-- What follows the DNS header in a frame. -/
def question (frame : Bytes) : Bytes := frame.drop (14 + ihl frame 14 + 20)

/-- What `copy_qname` may read of it, and behind it. -/
def readable (frame : Bytes) (elsewhere : ℕ → UInt8) : Bytes :=
  window (fun i => (skbOf frame elsewhere).byteAt (ihl frame 14 + 8 + 12 + i))
    (dnsPayloadLen (skbOf frame elsewhere) (ihl frame 14))

theorem readBe16_drop (frame : Bytes) (i j : ℕ) :
    readBe16 (frame.drop i) j = readBe16 frame (i + j) := by
  simp [readBe16, List.getElem?_drop, Nat.add_assoc]

theorem ihl_drop (frame : Bytes) (i j : ℕ) : ihl (frame.drop i) j = ihl frame (i + j) := by
  simp [ihl, List.getElem?_drop]

theorem DnsDatagram.header {frame : Bytes} (h : DnsDatagram frame) : Ipv4Header frame := by
  have hcomplete := h.complete
  have htotal := h.totalLength
  have hudp := h.udpLength
  have hihl := h.ihl_ge
  exact ⟨by omega, hihl, by omega, .inr h.protocol⟩

/-- The window of the kernel program and the captured question agree as far as both go. -/
theorem agree_window (frame : Bytes) (elsewhere : ℕ → UInt8) (n : ℕ) :
    AgreeUpTo (min (question frame).length n) (question frame)
      (window (fun i => (skbOf frame elsewhere).byteAt (ihl frame 14 + 8 + 12 + i)) n) := by
  refine .of_getD (min_le_left ..) (by simp) fun i hi => ?_
  have hquestion : i < frame.length - (14 + ihl frame 14 + 20) := by
    simpa [question] using hi.trans_le (min_le_left ..)
  have hdata : ihl frame 14 + 8 + 12 + i < (skbOf frame elsewhere).data.length := by
    simp only [skbOf, List.length_drop, kEthHeaderLen]
    omega
  rw [getD_window (hi.trans_le (min_le_right ..)), SkBuff.byteAt, if_pos hdata]
  simp only [question, skbOf, kEthHeaderLen, List.getD_eq_getElem?_getD, List.getElem?_drop]
  congr 2
  omega

/-- With a DNS header in the datagram, the kernel program reads the first part of the question,
within the UDP payload. -/
theorem readable_eq_take {frame : Bytes} (h : DnsDatagram frame) (elsewhere : ℕ → UInt8)
    (hudp : 20 ≤ (readBe16 frame (14 + ihl frame 14 + 4)).toNat) :
    readable frame elsewhere = (question frame).take
      (min 512 ((readBe16 frame (14 + ihl frame 14 + 4)).toNat - 20)) := by
  have hread : readBe16 (skbOf frame elsewhere).data (ihl frame 14 + 4) =
      readBe16 frame (14 + ihl frame 14 + 4) := by
    rw [skbOf, readBe16_drop, Nat.add_assoc]
    rfl
  have hlen : dnsPayloadLen (skbOf frame elsewhere) (ihl frame 14) =
      min 512 ((readBe16 frame (14 + ihl frame 14 + 4)).toNat - 20) := by
    rw [dnsPayloadLen, hread, if_neg (by omega)]
    omega
  have hfits : min 512 ((readBe16 frame (14 + ihl frame 14 + 4)).toNat - 20) ≤
      (question frame).length := by
    have htotal := h.totalLength
    have hcomplete := h.complete
    rw [question, List.length_drop]
    omega
  have hagree := agree_window frame elsewhere
    (min 512 ((readBe16 frame (14 + ihl frame 14 + 4)).toNat - 20))
  rw [min_eq_right hfits, AgreeUpTo, List.take_of_length_le (length_window ..).le] at hagree
  rw [readable, hlen, hagree]

theorem ipLen_skbOf (frame : Bytes) (elsewhere : ℕ → UInt8) :
    ipLen (skbOf frame elsewhere) = ihl frame 14 :=
  ihl_drop frame 14 0

/-- A datagram that is traced has its DNS header and announces a question. -/
theorem long_of_traced {frame : Bytes} {elsewhere : ℕ → UInt8}
    (h : Traced (skbOf frame elsewhere)) :
    14 + ihl frame 14 + 20 ≤ frame.length ∧
      1 ≤ readBe16 frame (14 + ihl frame 14 + 8 + 4) := by
  have hlong := h.dnsHeader
  have hcount := h.question
  rw [ipLen_skbOf] at hlong hcount
  rw [skbOf, List.length_drop, kEthHeaderLen] at hlong
  rw [skbOf, readBe16_drop, kEthHeaderLen, ← Nat.add_assoc, ← Nat.add_assoc] at hcount
  exact ⟨by omega, hcount⟩

theorem queryName_handle {packet : PcapPacket} {interface : Bytes} {urandom : Option Bytes}
    {seq : UInt64} {event : Event} (h : DnsDatagram packet.frame)
    (hevent : packet.handle interface urandom seq = some event)
    (hlong : 14 + ihl packet.frame 14 + 20 ≤ packet.frame.length)
    (hcount : 1 ≤ readBe16 packet.frame (14 + ihl packet.frame 14 + 8 + 4)) :
    queryName event = some (parseDnsQname (question packet.frame)) := by
  have hnet := h.header.parseNetworkHeader h.etherType
  have htransport : (ipv4Metadata packet.frame).transport = .udp := by
    rw [ipv4Metadata, h.protocol]
    rfl
  have hudp : (ipv4Metadata packet.frame).transport ≠ .tcp := by simp [htransport]
  have hport : onDnsPort (withPorts packet.frame (14 + ihl packet.frame 14)
      (ipv4Metadata packet.frame)) = true := by
    simpa [onDnsPort, withPorts, or_comm] using h.port
  have hdns : PcapPacket.isDns (parseEthernetFrame packet.frame) = true := by
    have hcomplete : 14 + ihl packet.frame 14 + transportHeaderLen (ipv4Metadata packet.frame) ≤
        packet.frame.length := by
      rw [transportHeaderLen, if_neg hudp]
      omega
    obtain ⟨-, htrans, hsource, hdest⟩ := parseTransportHeader_complete hcomplete
    rw [← parseEthernetFrame_of_some hnet] at htrans hsource hdest
    simp only [PcapPacket.isDns, htrans, htransport, hsource, hdest]
    simpa [kDnsPort, or_comm] using .inr h.port
  have hname : (parseEthernetFrame packet.frame).dnsQueryName =
      parseDnsQname (question packet.frame) := by
    have hpayload : (packet.frame.drop (14 + ihl packet.frame 14 + 8)).length ≥ 12 := by
      rw [List.length_drop]
      omega
    rw [parseEthernetFrame_of_some hnet, parseTransportHeader_udp hudp (by omega), if_pos hport]
    simp only [parseDnsPayload, if_pos hpayload, readBe16_drop, if_pos hcount, List.drop_drop]
    rfl
  unfold PcapPacket.handle at hevent
  split at hevent
  · simp only [hdns, if_true, Option.some.injEq] at hevent
    rw [← hevent, ← hname]
    rfl
  · cases hevent

/-- For a datagram that both backends turn into an event, the two names are the same exactly when
the question is a sequence of labels of allowed characters that ends with a zero byte, has at most
252 characters in dotted form and lies within what the kernel program reads; or when it is no such
sequence and what the kernel program reads is none either, of any characters and with or without
the zero byte, unless its text starts with NUL. -/
theorem backends_report_same_name_iff {packet : PcapPacket} (h : DnsDatagram packet.frame)
    (interface : Bytes) (urandom : Option Bytes) (seq : UInt64) (elsewhere : ℕ → UInt8)
    (reserved : DnsEvent) (task : Task) (bootWalltime : ℤ) :
    ∀ event ∈ packet.handle interface urandom seq,
      ∀ raw ∈ dnsTrace (some reserved) task (skbOf packet.frame elsewhere),
        (queryName event = queryName (normalizeDnsEvent raw bootWalltime) ↔
          (∃ labels, labels ≠ [] ∧ DecodesTo (question packet.frame) labels ∧
            (encode labels).length ≤ (readable packet.frame elsewhere).length) ∨
          (∀ labels, DecodesTo (question packet.frame) labels → labels = []) ∧
            ∀ labels, CopiesTo (readable packet.frame elsewhere) labels →
              ∀ c ∈ (dotted labels).head?, c = 0) := by
  intro event hevent raw hraw
  obtain ⟨htraced, ⟨⟩⟩ := dnsTrace_eq_some_iff.mp hraw
  obtain ⟨hlong, hcount⟩ := long_of_traced htraced
  rw [queryName_handle h hevent hlong hcount, queryName_fillDns, ipLen_skbOf]
  rw [Option.some.injEq, readable, length_window]
  exact parseDnsQname_eq_reportedName_iff (agree_window packet.frame elsewhere _)

/-- A frame with one question of the given name, from port 40000 to port 53. -/
def dnsFrame (name : Bytes) : Bytes :=
  List.replicate 12 0 ++ [0x08, 0x00] ++
    [0x45, 0, 0, (44 + name.length).toUInt8, 0, 0, 0, 0, 64, 17, 0, 0] ++ List.replicate 8 0 ++
    [0x9c, 0x40, 0, 53, 0, (24 + name.length).toUInt8, 0, 0] ++
    [0, 7, 1, 0, 0, 1, 0, 0, 0, 0, 0, 0] ++ name ++ [0, 1, 0, 1]

/-- The record of a captured frame. -/
def captured (frame : Bytes) : PcapPacket :=
  { tvSec := 0, tvUsec := 0, len := frame.length, frame := frame }

/-- A question with a blank in its only label. -/
def blankFrame : Bytes := dnsFrame ([3] ++ cstr "a b" ++ [0])

theorem dnsDatagram_blankFrame : DnsDatagram blankFrame :=
  ⟨by decide, by decide, by decide, by decide, by decide, by decide, by decide⟩

/-- The frame parser rejects the name with the blank, the kernel program reports it. -/
theorem backends_report_different_names :
    DnsDatagram blankFrame ∧ ((captured blankFrame).handle [] none 0).bind queryName = some [] ∧
      ∀ (elsewhere : ℕ → UInt8) (reserved : DnsEvent) (task : Task) (bootWalltime : ℤ),
        (dnsTrace (some reserved) task (skbOf blankFrame elsewhere)).bind
          (fun raw => queryName (normalizeDnsEvent raw bootWalltime)) = some (cstr "a b") := by
  refine ⟨dnsDatagram_blankFrame, by decide +kernel, ?_⟩
  intro elsewhere reserved task bootWalltime
  have htraced : Traced (skbOf blankFrame elsewhere) :=
    ⟨.inl dnsDatagram_blankFrame.etherType,
      show (blankFrame.drop 14).getD 9 0 = kProtoUdp by decide,
      show 20 ≤ ihl (blankFrame.drop 14) 0 by decide,
      .inr (show readBe16 (blankFrame.drop 14) (ihl (blankFrame.drop 14) 0 + 2) = kDnsPort by
        decide),
      show ihl (blankFrame.drop 14) 0 + 8 + 12 ≤ (blankFrame.drop 14).length by decide,
      show 1 ≤ readBe16 (blankFrame.drop 14) (ihl (blankFrame.drop 14) 0 + 8 + 4) by decide⟩
  have hcopies : CopiesTo (readable blankFrame elsewhere) [cstr "a b"] := by
    refine ⟨?_, ⟨[0, 0, 1, 0, 1], by simp, ?_⟩, by decide⟩
    · simp only [List.mem_singleton, forall_eq]
      exact ⟨by decide, by decide⟩
    · exact (readable_eq_take dnsDatagram_blankFrame elsewhere (by decide)).trans (by decide)
  rw [dnsTrace_eq_some_iff.mpr ⟨htraced, rfl⟩, Option.bind_some, queryName_fillDns, ipLen_skbOf,
    copyQname_eq_ok_iff.mpr ⟨_, hcopies, rfl⟩]
  decide

/-- A question whose only label is plain. -/
def plainFrame : Bytes := dnsFrame ([3] ++ cstr "abc" ++ [0])

/-- The plain name is reported by both. -/
theorem backends_report_plain_name :
    ∃ event, (captured plainFrame).handle [] none 0 = some event ∧
      queryName event = some (cstr "abc") ∧
      ∀ (elsewhere : ℕ → UInt8) (reserved : DnsEvent) (task : Task) (bootWalltime : ℤ),
        ∀ raw ∈ dnsTrace (some reserved) task (skbOf plainFrame elsewhere),
          queryName event = queryName (normalizeDnsEvent raw bootWalltime) := by
  have hframe : DnsDatagram (captured plainFrame).frame :=
    ⟨by decide, by decide, by decide, by decide, by decide, by decide, by decide⟩
  obtain ⟨event, hevent⟩ : ∃ event, (captured plainFrame).handle [] none 0 = some event :=
    Option.isSome_iff_exists.mp (by decide +kernel)
  have hname := queryName_handle hframe hevent (by decide) (by decide)
  refine ⟨event, hevent, hname.trans (by decide), ?_⟩
  intro elsewhere reserved task bootWalltime raw hraw
  have hdecodes : DecodesTo (question plainFrame) [cstr "abc"] := by
    refine ⟨?_, by decide +kernel, ⟨[0, 1, 0, 1], by decide⟩, by decide⟩
    simp only [List.mem_singleton, forall_eq]
    exact ⟨by decide, by decide⟩
  have hlen : (readable plainFrame elsewhere).length = 9 := by
    have hreadable : readable plainFrame elsewhere = _ :=
      readable_eq_take hframe elsewhere (by decide)
    rw [hreadable]
    decide
  exact (backends_report_same_name_iff hframe [] none 0 elsewhere reserved task bootWalltime event
    hevent raw hraw).mpr
      (.inl ⟨[cstr "abc"], by simp, hdecodes, (show 4 ≤ 9 by decide).trans_eq hlen.symm⟩)

end Ebpf

end Ezcap
