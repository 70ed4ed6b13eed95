import Ezcap.Model.PacketAccess
import Ezcap.Verification.PacketParser.Noninterference

/-! No access of the frame parser leaves the captured bytes. The offsets come from a length nibble
and from label lengths that the sender chooses; each function below is shown to take its checks
as bounds, and to compute with checked accesses what it computes without. -/

namespace Ezcap.PacketAccess

open StdString Access

section

variable {s : Span} {memory data : Bytes} (h : s.Holds memory data)

include h

theorem checked_readBe16 {i : ℕ} (hi : i + 2 ≤ data.length) :
    (readBe16 s i).checked memory = some (PacketParser.readBe16 data i) := by
  have hhigh := h.checked_get (show i < data.length by omega) 0
  have hlow := h.checked_get (show i + 1 < data.length by omega) 0
  rw [readBe16, checked_bind, hhigh, Option.bind_some, checked_bind, hlow]
  rfl

/-! ## The question name -/

theorem checked_pushLabel {n k : ℕ} (hk : k + n ≤ data.length) (out : Bytes) :
    (pushLabel s n k out).checked memory =
      some (PacketParser.pushLabel out (substr data k (some n))) := by
  induction n generalizing k out with
  | zero => simp [pushLabel, substr, PacketParser.pushLabel]
  | succ n ih =>
      have hlt : k < data.length := by omega
      have hsubstr : substr data k (some (n + 1)) =
          data.getD k 0 :: substr data (k + 1) (some n) := by
        rw [substr, drop_eq_getD_cons hlt, List.take_succ_cons]
        rfl
      rw [pushLabel, checked_bind, h.checked_get hlt 0, Option.bind_some, hsubstr,
        PacketParser.pushLabel]
      split
      · cases PacketParser.pushName out (data.getD k 0) with
        | none => rfl
        | some grown => exact ih (by omega) grown
      · rfl

/-- One turn counts a label and goes on as the loop of the model does, or ends as it does. -/
theorem checked_qnameTurn {st : QnameState} (hi : st.i < data.length) (rounds : ℕ) :
    ∃ result, (qnameTurn s st).checked memory = some result ∧
      result.elim (fun name => PacketParser.qnameLoop data (rounds + 1) st.i st.out = name)
        fun next => next.labels = st.labels + 1 ∧
          PacketParser.qnameLoop data (rounds + 1) st.i st.out =
            PacketParser.qnameLoop data rounds next.i next.out := by
  rw [qnameTurn, h.size, checked_bind, h.checked_get hi 0, Option.bind_some,
    PacketParser.qnameLoop, if_pos hi]
  dsimp only
  split_ifs with hzero hcheck hend
  · exact ⟨_, rfl, rfl⟩
  · exact ⟨_, rfl, rfl⟩
  · exact ⟨_, rfl, rfl⟩
  · cases PacketParser.pushDot st.out with
    | none => exact ⟨_, rfl, rfl⟩
    | some out =>
        have hlabel := checked_pushLabel h
          (show st.i + 1 + (data.getD st.i 0).toNat ≤ data.length by omega) out
        simp only [checked_bind, hlabel, Option.bind_some]
        cases PacketParser.pushLabel out
            (substr data (st.i + 1) (some (data.getD st.i 0).toNat)) with
        | none => exact ⟨_, rfl, rfl⟩
        | some grown => exact ⟨_, rfl, rfl, rfl⟩

/-- The loop needs no more turns than there are labels left to count. -/
theorem checked_qnameLoop {rounds : ℕ} {st : QnameState} (hrounds : st.labels + rounds = 128) :
    (whileLoop (fun s' => decide (s'.i < s.size ∧ s'.labels < 128)) (qnameTurn s) (fun _ => [])
        rounds st).checked memory =
      some (PacketParser.qnameLoop data rounds st.i st.out) := by
  induction rounds generalizing st with
  | zero =>
      have hguard : ¬ (st.i < s.size ∧ st.labels < 128) := by omega
      simp [whileLoop, hguard, PacketParser.qnameLoop]
  | succ rounds ih =>
      by_cases hi : st.i < data.length
      · have hguard : st.i < s.size ∧ st.labels < 128 := ⟨h.size ▸ hi, by omega⟩
        obtain ⟨result, hturn, hresult⟩ := checked_qnameTurn h hi rounds
        rw [whileLoop, if_pos (decide_eq_true hguard), checked_bind, hturn, Option.bind_some]
        cases result with
        | inl name => exact congrArg some hresult.symm
        | inr next =>
            obtain ⟨hlabels, hloop⟩ := hresult
            rw [hloop]
            exact ih (by omega)
      · have hguard : ¬ (st.i < s.size ∧ st.labels < 128) := fun hg => hi (h.size ▸ hg.1)
        rw [whileLoop, if_neg (by simpa using hguard), PacketParser.qnameLoop, if_neg hi]
        rfl

theorem checked_parseDnsQname :
    (parseDnsQname s).checked memory = some (PacketParser.parseDnsQname data) :=
  checked_qnameLoop h rfl

/-! ## The headers -/

theorem checked_parseIpv4 (offset : ℕ) :
    (parseIpv4 s offset).checked memory = some (PacketParser.parseIpv4 data offset) := by
  rw [parseIpv4, h.size, PacketParser.parseIpv4]
  by_cases hshort : data.length < offset + 20
  · rw [if_pos hshort, if_pos hshort]
    rfl
  · rw [if_neg hshort, if_neg hshort, checked_bind,
      h.checked_get (show offset < data.length by omega) 0, Option.bind_some, PacketParser.ihl]
    dsimp only
    by_cases hihl : (data.getD offset 0 &&& 0x0F).toNat * 4 < 20 ∨
        data.length < offset + (data.getD offset 0 &&& 0x0F).toNat * 4
    · rw [if_pos hihl, if_pos hihl]
      rfl
    · rw [if_neg hihl, if_neg hihl, checked_bind, h.checked_getMany (by decide) (by omega),
        Option.bind_some, checked_bind, h.checked_getMany (by decide) (by omega),
        Option.bind_some, checked_bind,
        h.checked_get (show offset + 9 < data.length by omega) 0, Option.bind_some]
      split <;> rfl

theorem checked_parseIpv6 (offset : ℕ) :
    (parseIpv6 s offset).checked memory = some (PacketParser.parseIpv6 data offset) := by
  rw [parseIpv6, h.size, PacketParser.parseIpv6]
  by_cases hshort : data.length < offset + 40
  · rw [if_pos hshort, if_pos hshort]
    rfl
  · rw [if_neg hshort, if_neg hshort, checked_bind,
      h.checked_get (show offset + 6 < data.length by omega) 0, Option.bind_some]
    dsimp only
    by_cases hproto : data.getD (offset + 6) 0 ≠ PacketParser.kProtoTcp ∧
        data.getD (offset + 6) 0 ≠ PacketParser.kProtoUdp
    · rw [if_pos hproto, if_pos hproto]
      rfl
    · rw [if_neg hproto, if_neg hproto, checked_bind, h.checked_getMany (by decide) (by omega),
        Option.bind_some, checked_bind, h.checked_getMany (by decide) (by omega),
        Option.bind_some]
      rfl

theorem checked_parseNetworkHeader :
    (parseNetworkHeader s).checked memory = some (PacketParser.parseNetworkHeader data) := by
  rw [parseNetworkHeader, h.size, PacketParser.parseNetworkHeader]
  by_cases hshort : data.length < PacketParser.kEthHeaderLen
  · rw [if_pos hshort, if_pos hshort]
    rfl
  · have hlen : 14 ≤ data.length := Nat.not_lt.mp hshort
    rw [if_neg hshort, if_neg hshort, checked_bind, checked_readBe16 h (by omega),
      Option.bind_some]
    split
    · exact checked_parseIpv4 h _
    · split
      · exact checked_parseIpv6 h _
      · rfl

theorem checked_parseDnsPayload (metadata : PacketMetadata) :
    (parseDnsPayload s metadata).checked memory =
      some (PacketParser.parseDnsPayload data metadata) := by
  rw [parseDnsPayload, h.size, PacketParser.parseDnsPayload]
  by_cases hlen : data.length ≥ 12
  · have hle : 12 + (data.length - 12) ≤ data.length := by omega
    have hquestion := h.subspan hle
    rw [List.take_of_length_le (by rw [List.length_drop])] at hquestion
    rw [if_pos hlen, if_pos hlen, checked_bind, checked_readBe16 h (by omega), Option.bind_some,
      checked_bind, h.checked_get (show 3 < data.length by omega) 0, Option.bind_some]
    dsimp only
    split
    · rw [checked_bind, h.checked_subspan hle, Option.bind_some, checked_bind,
        checked_parseDnsQname hquestion, Option.bind_some]
      rfl
    · rfl
  · rw [if_neg hlen, if_neg hlen]
    rfl

theorem checked_withPorts {offset : ℕ} (hoffset : offset + 4 ≤ data.length)
    (metadata : PacketMetadata) :
    (withPorts s offset metadata).checked memory =
      some (PacketParser.withPorts data offset metadata) := by
  rw [withPorts, checked_bind, checked_readBe16 h (by omega), Option.bind_some, checked_bind,
    checked_readBe16 h (by omega)]
  rfl

theorem checked_parseTransportHeader {offset : ℕ} (hoffset : offset ≤ data.length)
    (metadata : PacketMetadata) :
    (parseTransportHeader s offset metadata).checked memory =
      some (PacketParser.parseTransportHeader data offset metadata) := by
  rw [parseTransportHeader, h.size, checked_bind, checked_require, if_pos (by simpa using hoffset),
    Option.bind_some, PacketParser.parseTransportHeader]
  by_cases htcp : metadata.transport = .tcp
  · rw [if_pos htcp, if_pos htcp]
    by_cases hshort : data.length - offset < 20
    · rw [if_pos hshort, if_pos hshort]
      rfl
    · rw [if_neg hshort, if_neg hshort, checked_bind, checked_withPorts h (by omega)]
      rfl
  · rw [if_neg htcp, if_neg htcp]
    by_cases hshort : data.length - offset < 8
    · rw [if_pos hshort, if_pos hshort]
      rfl
    · have hle : offset + 8 + (data.length - (offset + 8)) ≤ data.length := by omega
      have hpayload := h.subspan hle
      rw [List.take_of_length_le (by rw [List.length_drop])] at hpayload
      rw [if_neg hshort, if_neg hshort, checked_bind, checked_withPorts h (by omega),
        Option.bind_some, checked_bind, checked_readBe16 h (by omega), Option.bind_some]
      split
      · rw [checked_bind, h.checked_subspan hle, Option.bind_some, checked_bind,
          checked_parseDnsPayload hpayload]
        rfl
      · rfl

theorem checked_parseEthernetFrame :
    (parseEthernetFrame s).checked memory = some (PacketParser.parseEthernetFrame data) := by
  rw [parseEthernetFrame, checked_bind, checked_parseNetworkHeader h, Option.bind_some,
    PacketParser.parseEthernetFrame]
  cases hnet : PacketParser.parseNetworkHeader data with
  | mk metadata offset =>
      cases offset with
      | none => rfl
      | some offset =>
          exact checked_parseTransportHeader h (PacketParser.offset_le_length hnet) metadata

end

theorem within_of_checked {α : Type} {p : Access UInt8 α} {span : Bytes} {a : α}
    (h : p.checked span = some a) : p.Within (span.getD · 0) span.length := by
  apply ((checked_eq_some_iff _).mp h).1
  intro i b hb
  rw [List.getD_eq_getElem?_getD, hb, Option.getD_some]

/-- Every access of the two functions lies in the span. With every index and subspan checked, with
sizes that must not become negative, and with a label loop that is stopped after 128 turns, they
return on every span what they return without the checks. -/
theorem parser_stays_in_span (span : Bytes) :
    ((parseEthernetFrame ⟨0, span.length⟩).Within (span.getD · 0) span.length ∧
      (parseEthernetFrame ⟨0, span.length⟩).checked span =
        some (PacketParser.parseEthernetFrame span)) ∧
    (parseDnsQname ⟨0, span.length⟩).Within (span.getD · 0) span.length ∧
      (parseDnsQname ⟨0, span.length⟩).checked span = some (PacketParser.parseDnsQname span) := by
  have hframe := checked_parseEthernetFrame (Span.holds_whole span)
  have hname := checked_parseDnsQname (Span.holds_whole span)
  exact ⟨⟨within_of_checked hframe, hframe⟩, within_of_checked hname, hname⟩

end Ezcap.PacketAccess
