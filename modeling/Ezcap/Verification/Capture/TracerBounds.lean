import Ezcap.Model.PacketAccess

/-! What the DNS tracer reads of a packet. The headers are checked against the end of the data
before they are copied, but the name is not: its bound comes from the UDP length field, or from
`skb->len`, which counts the paged part of the packet and from which the DNS header is not taken
off. -/

namespace Ezcap.TracerAccess

open StdString Access PacketParser Ebpf

/-! ## The name -/

section Name

variable (memory : ℕ → UInt8) (payload payloadLen : ℕ)

theorem run_copyLabel (n k : ℕ) (out : Bytes) :
    (copyLabel payload payloadLen n k out).run memory =
      Ebpf.copyLabel (fun i => memory (payload + i)) payloadLen n k out := by
  induction n generalizing k out with
  | zero => rfl
  | succ n ih =>
      rw [copyLabel, Ebpf.copyLabel]
      split
      · rfl
      · split
        · rfl
        · exact ih (k + 1) _

theorem run_copyLabels (hops i : ℕ) (out : Bytes) :
    (copyLabels payload payloadLen hops i out).run memory =
      Ebpf.copyLabels (fun i => memory (payload + i)) payloadLen hops i out := by
  induction hops generalizing i out with
  | zero => rfl
  | succ hops ih =>
      rw [copyLabels, Ebpf.copyLabels]
      by_cases hi : i < payloadLen
      · rw [if_pos hi, if_pos hi, run_bind, run_load]
        dsimp only
        split_ifs
        · rfl
        · rfl
        · rfl
        · cases pushSeparator out with
          | error written => rfl
          | ok separated =>
              simp only [run_bind, run_copyLabel, Except.bind]
              cases Ebpf.copyLabel (fun i => memory (payload + i)) payloadLen
                  (memory (payload + i)).toNat (i + 1) separated with
              | error written => rfl
              | ok copied => exact ih _ copied
      · rw [if_neg hi, if_neg hi]
        rfl

variable {memory payload payloadLen} {bound : ℕ} (hbound : payload + payloadLen ≤ bound)

include hbound

theorem within_copyLabel (n k : ℕ) (out : Bytes) :
    (copyLabel payload payloadLen n k out).Within memory bound := by
  induction n generalizing k out with
  | zero => trivial
  | succ n ih =>
      rw [copyLabel]
      split
      · trivial
      · split
        · trivial
        · exact ⟨by omega, ih (k + 1) _⟩

theorem within_copyLabels (hops i : ℕ) (out : Bytes) :
    (copyLabels payload payloadLen hops i out).Within memory bound := by
  induction hops generalizing i out with
  | zero => trivial
  | succ hops ih =>
      rw [copyLabels]
      by_cases hi : i < payloadLen
      · rw [if_pos hi, within_bind, within_load, run_load]
        refine ⟨by omega, ?_⟩
        split_ifs
        · trivial
        · trivial
        · trivial
        · cases pushSeparator out with
          | error written => trivial
          | ok separated =>
              simp only [within_bind, run_copyLabel]
              refine ⟨within_copyLabel hbound _ _ _, ?_⟩
              cases Ebpf.copyLabel (fun i => memory (payload + i)) payloadLen
                  (memory (payload + i)).toNat (i + 1) separated with
              | error written => trivial
              | ok copied => exact ih _ copied
      · rw [if_neg hi]
        trivial

end Name

/-! ## The headers -/

theorem map_byteAt (skb : SkBuff) {i n : ℕ} (h : i + n ≤ skb.data.length) :
    (List.range' i n).map skb.byteAt = substr skb.data i (some n) := by
  refine List.ext_getElem ?_ fun j hj hj' => ?_
  · simp only [List.length_map, List.length_range', substr, List.length_take, List.length_drop]
    omega
  · have hlt : i + j < skb.data.length := by
      simp only [List.length_map, List.length_range'] at hj
      omega
    simp [substr, SkBuff.byteAt, hlt]

theorem getD_substr (data : Bytes) {i n j : ℕ} (h : j < n) :
    (substr data i (some n)).getD j 0 = data.getD (i + j) 0 := by
  simp [substr, h, List.getElem?_drop]

theorem readBe16_substr (data : Bytes) {i n j : ℕ} (h : j + 1 < n) :
    PacketParser.readBe16 (substr data i (some n)) j = PacketParser.readBe16 data (i + j) := by
  rw [PacketParser.readBe16, PacketParser.readBe16, getD_substr data (by omega),
    getD_substr data h, Nat.add_assoc]

/-- The program has this outcome, and stays inside the packet if it makes no record or if reading
the name does. -/
structure Traces (skb : SkBuff) (named : Prop) (p : Access UInt8 (Option DnsEvent))
    (outcome : Option DnsEvent) : Prop where
  run : p.run skb.byteAt = outcome
  within : p.Within skb.byteAt skb.data.length ↔ (outcome.isSome = true → named)

section Traces

variable {skb : SkBuff} {named : Prop} {outcome : Option DnsEvent}

theorem traces_none : Traces skb named (pure none) none := ⟨rfl, by simp⟩

theorem traces_guard {c : Prop} [Decidable c] {p : Access UInt8 (Option DnsEvent)}
    (h : ¬ c → Traces skb named p outcome) :
    Traces skb named (if c then pure none else p) (if c then none else outcome) := by
  split
  · exact traces_none
  · exact h ‹_›

theorem traces_loads {i n : ℕ} {f : Bytes → Access UInt8 (Option DnsEvent)}
    (hle : i + n ≤ skb.data.length)
    (h : Traces skb named (f (substr skb.data i (some n))) outcome) :
    Traces skb named (loads i n >>= f) outcome where
  run := by
    rw [run_bind, run_loads, map_byteAt skb hle]
    exact h.run
  within := by
    rw [within_bind, run_loads, map_byteAt skb hle, and_iff_right (within_loads _ hle)]
    exact h.within

end Traces

/-- The length of the IP header of a packet. -/
def ipLen (skb : SkBuff) : ℕ := PacketParser.ihl skb.data 0

theorem payloadLen_eq (skb : SkBuff) :
    payloadLen (substr skb.data (ipLen skb) (some 8)) skb.len (ipLen skb) =
      dnsPayloadLen skb (ipLen skb) := by
  rw [payloadLen, readBe16_substr skb.data (by decide), dnsPayloadLen]

theorem record_eq (task : Task) (skb : SkBuff) (ev : DnsEvent) :
    record task (substr skb.data 0 (some 20)) (substr skb.data (ipLen skb) (some 8))
        (Ebpf.copyQname (fun i => skb.byteAt (ipLen skb + 8 + 12 + i))
          (dnsPayloadLen skb (ipLen skb))) ev =
      fillDns task skb (ipLen skb) ev := by
  have haddress : readLe (substr skb.data 0 (some 20)) 12 4 = readLe skb.data 12 4 := by
    simp [readLe, substr, List.drop_take, List.take_take]
  rw [record, haddress, readBe16_substr skb.data (by decide)]
  rfl

/-- The name lies between the DNS header and the end of the data. -/
def NameWithin (skb : SkBuff) : Prop :=
  (copyQname (ipLen skb + 8 + 12) (dnsPayloadLen skb (ipLen skb))).Within skb.byteAt
    skb.data.length

/-- The program makes the record that the model says, and only the name can lie outside. -/
theorem traces_dnsTrace (reserved : Option DnsEvent) (task : Task) (skb : SkBuff) :
    Traces skb (NameWithin skb) (dnsTrace reserved task skb.protocol skb.data.length skb.len)
      (Ebpf.dnsTrace reserved task skb) := by
  have hihl : PacketParser.ihl (substr skb.data 0 (some 20)) 0 = ipLen skb := by
    rw [PacketParser.ihl, getD_substr skb.data (by decide)]
    rfl
  rw [dnsTrace, Ebpf.dnsTrace]
  apply traces_guard
  intro _
  apply traces_guard
  intro hiph
  apply traces_loads (by omega)
  rw [getD_substr skb.data (by decide), Nat.zero_add]
  apply traces_guard
  intro _
  simp only [hihl, show PacketParser.ihl skb.data 0 = ipLen skb from rfl]
  apply traces_guard
  intro hudph
  apply traces_loads (by omega)
  rw [readBe16_substr skb.data (by decide), readBe16_substr skb.data (by decide), Nat.add_zero]
  apply traces_guard
  intro _
  apply traces_guard
  intro hdnsh
  apply traces_loads (by omega)
  rw [readBe16_substr skb.data (by decide)]
  apply traces_guard
  intro _
  cases reserved with
  | none => exact traces_none
  | some ev =>
      refine ⟨?_, ?_⟩
      · rw [payloadLen_eq, run_bind, copyQname, run_copyLabels]
        exact congrArg some (record_eq task skb ev)
      · simp [payloadLen_eq, NameWithin]

/-- How many bytes there are after the DNS header. -/
def present (skb : SkBuff) : ℕ := skb.data.length - (ipLen skb + 8 + 12)

def udpLen (skb : SkBuff) : ℕ := (PacketParser.readBe16 skb.data (ipLen skb + 4)).toNat

/-- The tests that a packet passes before a record is reserved. -/
structure Traced (skb : SkBuff) : Prop where
  type : skb.protocol = kEthTypeIp4 ∨ skb.protocol = kEthTypeIp6
  udp : skb.data.getD 9 0 = kProtoUdp
  ipHeader : 20 ≤ ipLen skb
  port : PacketParser.readBe16 skb.data (ipLen skb) = kDnsPort ∨
    PacketParser.readBe16 skb.data (ipLen skb + 2) = kDnsPort
  dnsHeader : ipLen skb + 8 + 12 ≤ skb.data.length
  question : 1 ≤ PacketParser.readBe16 skb.data (ipLen skb + 8 + 4)

theorem dnsTrace_eq_some_iff {reserved : Option DnsEvent} {task : Task} {skb : SkBuff}
    {raw : DnsEvent} :
    Ebpf.dnsTrace reserved task skb = some raw ↔
      Traced skb ∧ reserved.map (fillDns task skb (ipLen skb)) = some raw := by
  rw [Ebpf.dnsTrace]
  simp only [show PacketParser.ihl skb.data 0 = ipLen skb from rfl]
  constructor
  · intro h
    split_ifs at h with htype hlength hudp hheader hport hdns hquestion
    exact ⟨⟨by tauto, not_not.mp hudp, by omega, by tauto, by omega, UInt16.not_lt.mp hquestion⟩, h⟩
  · rintro ⟨⟨htype, hudp, hheader, hport, hdns, hquestion⟩, h⟩
    rw [if_neg (by tauto), if_neg (by omega), if_neg (not_not.mpr hudp), if_neg (by omega),
      if_neg (by tauto), if_neg (by omega), if_neg (UInt16.not_lt.mpr hquestion), h]

theorem isSome_dnsTrace_iff {reserved : Option DnsEvent} {task : Task} {skb : SkBuff} :
    (Ebpf.dnsTrace reserved task skb).isSome = true ↔ reserved.isSome = true ∧ Traced skb := by
  simp [Option.isSome_iff_exists, dnsTrace_eq_some_iff, and_comm]

/-- The bound is no more than what there is of the question in two cases: there are 512 bytes of it,
or the UDP length covers the DNS header and no more than what is there. -/
theorem dnsPayloadLen_le_present_iff {skb : SkBuff} (h : ipLen skb + 8 + 12 ≤ skb.data.length) :
    dnsPayloadLen skb (ipLen skb) ≤ present skb ↔
      512 ≤ present skb ∨ 20 ≤ udpLen skb ∧ udpLen skb ≤ present skb + 20 := by
  have hlen := skb.data_le
  have hlength : dnsPayloadLen skb (ipLen skb) =
      min 512 (if udpLen skb < 8 + 12 then skb.len - (ipLen skb + 8) else udpLen skb - 8 - 12) :=
    rfl
  rw [hlength, present]
  split <;> omega

/-- The tracer reads nothing beyond the data, and the bound of the name is no more than the bytes
after the DNS header, exactly if for a packet that passes its tests, with a record reserved, there
are 512 bytes after the DNS header or the UDP length covers the DNS header and no more than there
is. -/
theorem tracer_stays_in_packet_iff (reserved : Option DnsEvent) (task : Task) (skb : SkBuff) :
    (dnsTrace reserved task skb.protocol skb.data.length skb.len).Within skb.byteAt
          skb.data.length ∧
        (reserved.isSome = true → Traced skb → dnsPayloadLen skb (ipLen skb) ≤ present skb) ↔
      (reserved.isSome = true → Traced skb →
        512 ≤ present skb ∨ 20 ≤ udpLen skb ∧ udpLen skb ≤ present skb + 20) := by
  rw [(traces_dnsTrace reserved task skb).within, isSome_dnsTrace_iff]
  constructor
  · intro h hreserved htraced
    exact (dnsPayloadLen_le_present_iff htraced.dnsHeader).mp (h.2 hreserved htraced)
  · intro h
    have hbound (hreserved : reserved.isSome = true) (htraced : Traced skb) :
        dnsPayloadLen skb (ipLen skb) ≤ present skb :=
      (dnsPayloadLen_le_present_iff htraced.dnsHeader).mpr (h hreserved htraced)
    refine ⟨fun ⟨hreserved, htraced⟩ => within_copyLabels ?_ _ _ _, hbound⟩
    have hle := hbound hreserved htraced
    have hheader := htraced.dnsHeader
    rw [present] at hle
    omega

/-- A name that starts at the end of the data is read there. -/
theorem not_within_copyQname {memory : ℕ → UInt8} {payload payloadLen bound : ℕ}
    (hpos : 0 < payloadLen) (hend : bound ≤ payload) :
    ¬ (copyQname payload payloadLen).Within memory bound := by
  intro h
  change (copyLabels payload payloadLen (127 + 1) 0 []).Within memory bound at h
  rw [copyLabels, if_pos hpos, within_bind, within_load] at h
  omega

/-- A packet that ends with its DNS header, in which the UDP length announces 40 bytes more. -/
def cutPacket : SkBuff where
  protocol := kEthTypeIp4
  data := [0x45, 0, 0, 80, 0, 0, 0, 0, 64, 17, 0, 0] ++ List.replicate 8 0 ++
    [0x9c, 0x40, 0, 53, 0, 60, 0, 0] ++ [0, 7, 1, 0, 0, 1, 0, 0, 0, 0, 0, 0]
  elsewhere := fun _ => 0
  len := 40
  data_le := by decide

/-- The name of the cut packet is looked for behind its end. -/
theorem name_read_behind_packet :
    dnsPayloadLen cutPacket (ipLen cutPacket) = 40 ∧ present cutPacket = 0 ∧
      ∀ (ev : DnsEvent) (task : Task), (Ebpf.dnsTrace (some ev) task cutPacket).isSome = true ∧
        ¬ (dnsTrace (some ev) task cutPacket.protocol cutPacket.data.length cutPacket.len).Within
          cutPacket.byteAt cutPacket.data.length := by
  have hbound : dnsPayloadLen cutPacket (ipLen cutPacket) = 40 := by decide
  refine ⟨hbound, by decide, fun ev task => ?_⟩
  have hsome : (Ebpf.dnsTrace (some ev) task cutPacket).isSome = true := rfl
  refine ⟨hsome, ?_⟩
  rw [(traces_dnsTrace (some ev) task cutPacket).within]
  intro h
  exact not_within_copyQname (by omega) (by decide) (h hsome)

end Ezcap.TracerAccess
