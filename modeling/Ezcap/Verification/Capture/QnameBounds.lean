import Ezcap.Model.QnameCopy
import Ezcap.Verification.Capture.DnsNames

/-! The bytes that `copy_qname` writes. Its loops keep the output at what the decoder by lists has
written, so that the bounds of the one are those of the other. -/

namespace Ezcap.Ebpf

open StdString DnsName Loop

/-! ## The output -/

/-- Memory with bytes written from its start on. -/
def written (memory : ℕ → UInt8) (bytes : Bytes) : ℕ → UInt8 := fun k => bytes[k]?.getD (memory k)

theorem written_append (memory : ℕ → UInt8) (bytes : Bytes) (byte : UInt8) :
    written memory (bytes ++ [byte]) =
      fun k => if k = bytes.length then byte else written memory bytes k := by
  funext k
  by_cases hk : k = bytes.length
  · simp [written, hk]
  · by_cases hlt : k < bytes.length
    · simp [written, hk, List.getElem?_append_left hlt]
    · have hout : (bytes ++ [byte])[k]? = none := List.getElem?_eq_none (by simp; omega)
      have hout' : bytes[k]? = none := List.getElem?_eq_none (by omega)
      simp [written, hk, hout, hout']

/-- The bytes were written in order, and leave room for the zero byte. -/
structure Written (memory : ℕ → UInt8) (out : Output) (bytes : Bytes) : Prop where
  short : bytes.length ≤ 252
  memory_eq : out.memory = written memory bytes
  writes_eq : out.writes = List.range bytes.length

/-- `o` is the position behind them. -/
def At (memory : ℕ → UInt8) (o : UInt32) (out : Output) (bytes : Bytes) : Prop :=
  o.toNat = bytes.length ∧ Written memory out bytes

section Output

variable {memory : ℕ → UInt8} {o : UInt32} {out : Output} {bytes : Bytes}

theorem At.put (h : At memory o out bytes) (byte : UInt8) :
    out.put o byte =
      { memory := written memory (bytes ++ [byte]), writes := List.range (bytes.length + 1) } := by
  rw [Output.put, h.1, h.2.memory_eq, h.2.writes_eq, written_append, List.range_succ]

theorem At.push (h : At memory o out bytes) (byte : UInt8) (hroom : bytes.length < 252) :
    At memory (o + 1) (out.put o byte) (bytes ++ [byte]) := by
  refine ⟨?_, ⟨?_, by rw [h.put], by rw [h.put, List.length_append, List.length_singleton]⟩⟩
  · rw [UInt32.toNat_add, UInt32.toNat_one, h.1, List.length_append, List.length_singleton]
    omega
  · rw [List.length_append, List.length_singleton]
    exact hroom

theorem At.full_iff (h : At memory o out bytes) :
    o ≥ nameLimit ↔ bytes.length ≥ EZCAP_DNS_NAME_MAX - 1 := by
  rw [ge_iff_le, UInt32.le_iff_toNat_le, h.1]
  rfl

end Output

/-- A loop has come to what the decoder by lists comes to. -/
def Agrees {S : Type} (memory : ℕ → UInt8) (o : S → UInt32) (out : S → Output)
    (name : Except Bytes Bytes) : S ⊕ Output → Prop
  | .inl s => ∃ bytes, name = .ok bytes ∧ At memory (o s) (out s) bytes
  | .inr out => ∃ bytes, name = .error bytes ∧ Written memory out bytes

section Loops

variable {payload : ℕ → UInt8} {payloadLen : UInt32} {memory : ℕ → UInt8} {fuel : ℕ}

/-! ## One label -/

theorem run_labelTurn (payload : ℕ → UInt8) {i o : UInt32} {labelLen : UInt8} {out : Output}
    {bytes : Bytes} (h : At memory o out bytes) (hlen : payloadLen.toNat ≤ 512)
    (hend : i.toNat + labelLen.toNat ≤ payloadLen.toNat) (hfuel : labelLen.toNat < fuel) :
    ∃ result, run (labelTurn payload payloadLen i labelLen) fuel { o := o, out := out } =
        some result ∧
      Agrees memory LabelVars.o LabelVars.out
        (copyLabel payload payloadLen.toNat labelLen.toNat i.toNat bytes) result := by
  -- What is left of the label is copied from behind the bytes that were.
  refine run_total
    (fun s : LabelVars => s.j.toNat ≤ labelLen.toNat ∧ ∃ bytes', At memory s.o s.out bytes' ∧
      copyLabel payload payloadLen.toNat labelLen.toNat i.toNat bytes =
        copyLabel payload payloadLen.toNat (labelLen.toNat - s.j.toNat) (i.toNat + s.j.toNat)
          bytes')
    (fun s => labelLen.toNat - s.j.toNat) ?_ ⟨Nat.zero_le _, bytes, h, rfl⟩ (by simpa using hfuel)
  rintro s ⟨hj, bytes', hat, hrest⟩
  have hmore : s.j < labelLen.toUInt32 ↔ s.j.toNat < labelLen.toNat := by
    rw [UInt32.lt_iff_toNat_lt, UInt8.toNat_toUInt32]
  by_cases hlt : s.j.toNat < labelLen.toNat
  · have hindex : (i + s.j).toNat = i.toNat + s.j.toNat := by
      rw [UInt32.toNat_add]
      omega
    have hinside : ¬ i + s.j ≥ payloadLen := by
      rw [ge_iff_le, UInt32.le_iff_toNat_le, hindex]
      omega
    obtain ⟨m, hm⟩ := Nat.exists_eq_add_of_lt hlt
    rw [show labelLen.toNat - s.j.toNat = m + 1 by omega, copyLabel] at hrest
    rw [labelTurn, if_pos (hmore.mpr hlt)]
    by_cases hfull : s.o ≥ nameLimit
    · rw [if_pos (hat.full_iff.mp hfull)] at hrest
      rw [if_pos hfull]
      exact ⟨_, rfl, bytes', hrest, hat.2⟩
    · have hroom := mt hat.full_iff.mpr hfull
      rw [if_neg hroom, if_neg (by omega)] at hrest
      have hpush := hat.push (payload (i + s.j).toNat) (Nat.lt_of_not_le hroom)
      have hj' : (s.j + 1).toNat = s.j.toNat + 1 := by
        rw [UInt32.toNat_add, UInt32.toNat_one]
        have := labelLen.toNat_lt
        omega
      rw [if_neg hfull, if_neg hinside]
      refine ⟨_, rfl, ⟨hj'.trans_le hlt, _, hpush, ?_⟩, ?_⟩
      · rw [hrest, hindex, hj', show labelLen.toNat - (s.j.toNat + 1) = m by omega, Nat.add_assoc]
      · dsimp only
        omega
  · rw [labelTurn, if_neg (mt hmore.mp hlt)]
    rw [show labelLen.toNat - s.j.toNat = 0 by omega, copyLabel] at hrest
    exact ⟨_, rfl, bytes', hrest, hat⟩

/-! ## The labels -/

/-- The rest of the name is decoded from where the loop is. -/
def QnameInv (payload : ℕ → UInt8) (payloadLen : UInt32) (memory : ℕ → UInt8) (s : QnameVars) :
    Prop :=
  s.i.toNat ≤ payloadLen.toNat ∧ s.hops.toNat ≤ 128 ∧ ∃ bytes, At memory s.o s.out bytes ∧
    copyQname payload payloadLen.toNat =
      copyLabels payload payloadLen.toNat (128 - s.hops.toNat) s.i.toNat bytes

def hopsLeft (s : QnameVars) : ℕ := 128 - s.hops.toNat

/-- A turn from `s` ends, with the invariant or with the name. -/
def Turns (payload : ℕ → UInt8) (payloadLen : UInt32) (memory : ℕ → UInt8) (s : QnameVars)
    (turn : Option (Turn QnameVars Output)) : Prop :=
  ∃ t, turn = some t ∧ t.Keeps (QnameInv payload payloadLen memory) hopsLeft
    (Agrees memory QnameVars.o QnameVars.out (copyQname payload payloadLen.toNat)) s

section Label

variable {s₀ s : QnameVars} {labelLen : UInt8} {bytes : Bytes} (hat : At memory s.o s.out bytes)
  (hlen : payloadLen.toNat ≤ 512) (hend : s.i.toNat + labelLen.toNat ≤ payloadLen.toNat)
  (hfuel : labelLen.toNat < fuel) (hsame : s.hops = s₀.hops) (hhops : s.hops.toNat < 128)

include hat hlen hend hfuel hsame hhops

theorem copyLabelInto_keeps
    (hname : copyQname payload payloadLen.toNat =
      (copyLabel payload payloadLen.toNat labelLen.toNat s.i.toNat bytes).bind
        (copyLabels payload payloadLen.toNat (127 - s.hops.toNat)
          (s.i.toNat + labelLen.toNat))) :
    Turns payload payloadLen memory s₀ (copyLabelInto fuel payload payloadLen labelLen s) := by
  unfold Turns
  obtain ⟨result, hrun, hagrees⟩ := run_labelTurn payload hat hlen hend hfuel
  rw [copyLabelInto, hrun]
  cases result with
  | inl t =>
      obtain ⟨bytes', hcopy, hat'⟩ := hagrees
      rw [hcopy] at hname
      have hi : (s.i + labelLen.toUInt32).toNat = s.i.toNat + labelLen.toNat := by
        rw [UInt32.toNat_add, UInt8.toNat_toUInt32]
        omega
      have hhops' : (s.hops + 1).toNat = s.hops.toNat + 1 := by
        rw [UInt32.toNat_add, UInt32.toNat_one]
        omega
      refine ⟨_, rfl, ⟨by rw [hi]; exact hend, by rw [hhops']; exact hhops, bytes', hat', ?_⟩, ?_⟩
      · rw [hname, hi, hhops', show 128 - (s.hops.toNat + 1) = 127 - s.hops.toNat by omega]
        rfl
      · simp only [hopsLeft, hhops', ← hsame]
        omega
  | inr out =>
      obtain ⟨bytes', hcopy, hwritten⟩ := hagrees
      rw [hcopy] at hname
      exact ⟨_, rfl, bytes', hname, hwritten⟩

theorem separated_keeps
    (hname : copyQname payload payloadLen.toNat =
      (pushSeparator bytes).bind fun out =>
        (copyLabel payload payloadLen.toNat labelLen.toNat s.i.toNat out).bind
          (copyLabels payload payloadLen.toNat (127 - s.hops.toNat)
            (s.i.toNat + labelLen.toNat))) :
    Turns payload payloadLen memory s₀
      (if s.o > 0 then
        if s.o ≥ nameLimit then some (.ret s.out)
        else copyLabelInto fuel payload payloadLen labelLen
          { s with o := s.o + 1, out := s.out.put s.o '.'.toUInt8 }
      else copyLabelInto fuel payload payloadLen labelLen s) := by
  have hfirst : s.o > 0 ↔ bytes.length > 0 := by
    rw [← hat.1]
    exact UInt32.lt_iff_toNat_lt
  by_cases hpos : bytes.length > 0
  · rw [pushSeparator, if_pos hpos, pushQname] at hname
    rw [if_pos (hfirst.mpr hpos)]
    by_cases hfull : s.o ≥ nameLimit
    · rw [if_pos (hat.full_iff.mp hfull)] at hname
      rw [if_pos hfull]
      exact ⟨_, rfl, bytes, hname, hat.2⟩
    · have hroom := mt hat.full_iff.mpr hfull
      rw [if_neg hroom] at hname
      rw [if_neg hfull]
      exact copyLabelInto_keeps (hat.push '.'.toUInt8 (Nat.lt_of_not_le hroom)) hlen hend hfuel
        hsame hhops hname
  · rw [pushSeparator, if_neg hpos] at hname
    rw [if_neg (mt hfirst.mp hpos)]
    exact copyLabelInto_keeps hat hlen hend hfuel hsame hhops hname

end Label

theorem qnameTurn_keeps {s : QnameVars} (hlen : payloadLen.toNat ≤ 512) (hfuel : 63 < fuel)
    (h : QnameInv payload payloadLen memory s) :
    Turns payload payloadLen memory s (qnameTurn fuel payload payloadLen s) := by
  obtain ⟨hi, hhops, bytes, hat, hname⟩ := h
  have hguard : s.i < payloadLen ∧ s.hops < 128 ↔
      s.i.toNat < payloadLen.toNat ∧ s.hops.toNat < 128 := by
    rw [UInt32.lt_iff_toNat_lt, UInt32.lt_iff_toNat_lt]
    rfl
  unfold qnameTurn
  by_cases hcond : s.i.toNat < payloadLen.toNat ∧ s.hops.toNat < 128
  · rw [if_pos (hguard.mpr hcond)]
    rw [show 128 - s.hops.toNat = 127 - s.hops.toNat + 1 by omega, copyLabels, if_pos hcond.1]
      at hname
    dsimp only at hname ⊢
    generalize hlabel : payload s.i.toNat = labelLen at hname ⊢
    by_cases hzero : labelLen = 0
    · rw [if_pos hzero] at hname ⊢
      exact ⟨_, rfl, bytes, hname, hat⟩
    by_cases hcheck : labelLen &&& 0xC0 ≠ 0 ∨ labelLen > 63
    · rw [if_neg hzero, if_pos hcheck] at hname ⊢
      exact ⟨_, rfl, bytes, hname, hat.2⟩
    have h63 : labelLen.toNat ≤ 63 := Nat.le_of_not_lt (mt (length_check_iff labelLen).mpr hcheck)
    have hi' : (s.i + 1).toNat = s.i.toNat + 1 := by
      rw [UInt32.toNat_add, UInt32.toNat_one]
      omega
    have hbehind : s.i + 1 + labelLen.toUInt32 > payloadLen ↔
        s.i.toNat + 1 + labelLen.toNat > payloadLen.toNat := by
      rw [gt_iff_lt, UInt32.lt_iff_toNat_lt, UInt32.toNat_add, hi', UInt8.toNat_toUInt32]
      omega
    rw [if_neg hzero, if_neg hcheck] at hname ⊢
    by_cases htrunc : s.i.toNat + 1 + labelLen.toNat > payloadLen.toNat
    · rw [if_pos htrunc] at hname
      rw [if_pos (hbehind.mpr htrunc)]
      exact ⟨_, rfl, bytes, hname, hat.2⟩
    rw [if_neg htrunc] at hname
    rw [if_neg (mt hbehind.mp htrunc)]
    have hend : (s.i + 1).toNat + labelLen.toNat ≤ payloadLen.toNat := by omega
    rw [← hi'] at hname
    exact separated_keeps (s := { s with i := s.i + 1 }) hat hlen hend (by omega) rfl hcond.2 hname
  · rw [if_neg (mt hguard.mp hcond)]
    refine ⟨_, rfl, bytes, hname.trans ?_, hat⟩
    by_cases hlast : s.i.toNat < payloadLen.toNat
    · rw [show 128 - s.hops.toNat = 0 by omega, copyLabels]
    · exact copyLabels_end fun hlt => absurd hlt hlast

/-- What `copy_qname` returns and leaves of memory, by the name that the decoder by lists finds. -/
def copied (memory : ℕ → UInt8) : Except Bytes Bytes → ℤ × Output
  | .ok bytes => (bytes.length,
      { memory := written memory (bytes ++ [0]), writes := List.range (bytes.length + 1) })
  | .error bytes => (-1, { memory := written memory bytes, writes := List.range bytes.length })

def copiedBytes : Except Bytes Bytes → Bytes
  | .ok bytes => bytes
  | .error bytes => bytes

/-- `copy_qname` ends, with the name of the decoder by lists and never a byte too many. -/
theorem copyQnameInto_eq (payload : ℕ → UInt8) (memory : ℕ → UInt8)
    (hlen : payloadLen.toNat ≤ 512) (hfuel : 128 < fuel) :
    copyQnameInto fuel payload payloadLen memory =
        some (copied memory (copyQname payload payloadLen.toNat)) ∧
      (copiedBytes (copyQname payload payloadLen.toNat)).length ≤ 252 := by
  have hstart : QnameInv payload payloadLen memory { out := { memory } } := by
    refine ⟨Nat.zero_le _, Nat.zero_le _, [], ⟨rfl, by simp, ?_, rfl⟩, rfl⟩
    funext k
    simp [written]
  have hfuel' : 63 < fuel := by omega
  obtain ⟨result, hrun, hagrees⟩ :=
    run_total _ hopsLeft (fun s hs => qnameTurn_keeps hlen hfuel' hs) hstart hfuel
  rw [copyQnameInto, hrun]
  cases result with
  | inl s =>
      obtain ⟨bytes, hname, hat⟩ := hagrees
      have hshort := hat.2.short
      have hreturned : Int.bmod s.o.toNat (2 ^ 32) = bytes.length := by
        rw [hat.1]
        exact Int.bmod_eq_of_le (by omega) (by omega)
      rw [hname]
      refine ⟨?_, hshort⟩
      simp only [Option.map_some, hreturned, hat.put, copied]
  | inr out =>
      obtain ⟨bytes, hname, hwritten⟩ := hagrees
      rw [hname]
      refine ⟨?_, hwritten.short⟩
      rw [Option.map_some, copied, ← hwritten.memory_eq, ← hwritten.writes_eq]

end Loops

/-! ## The record -/

/-- The record holds the output, with the length that goes with what was returned. -/
structure Stores (raw : DnsEvent) (returned : ℤ) (out : Output) : Prop where
  queryLen : raw.queryLen = storedQueryLen returned
  queryName : raw.queryName = (List.range EZCAP_DNS_NAME_MAX).map out.memory

theorem written_of_notMem (memory : ℕ → UInt8) {bytes : Bytes} {k : ℕ}
    (h : k ∉ List.range bytes.length) : written memory bytes k = memory k := by
  rw [List.mem_range, Nat.not_lt] at h
  rw [written, List.getElem?_eq_none h, Option.getD_none]

theorem storedQueryLen_natCast (n : ℕ) : storedQueryLen n = (n + 1).toUInt16 := by
  have hnonneg : (n : ℤ) ≥ 0 := Int.natCast_nonneg n
  have hmod : (((n : ℤ) + 1) % 2 ^ 16).toNat = (n + 1) % 2 ^ 16 := by omega
  rw [storedQueryLen, if_pos hnonneg, UInt16.ofInt, hmod]
  exact UInt16.ofNat_mod_size

theorem toNat_storedQueryLen {n : ℕ} (h : n ≤ 252) : (storedQueryLen n).toNat = n + 1 := by
  rw [storedQueryLen_natCast, show (n + 1).toUInt16.toNat = (n + 1) % 2 ^ 16 from rfl]
  omega

theorem map_range_written {buffer : Bytes} (hbuffer : buffer.length = EZCAP_DNS_NAME_MAX)
    (bytes : Bytes) :
    (List.range EZCAP_DNS_NAME_MAX).map (written (fun k => buffer.getD k 0) bytes) =
      overwriteQname buffer bytes := by
  refine List.ext_getElem ?_ fun k hk hk' => ?_
  · simp [length_overwriteQname hbuffer]
  · rw [List.length_map, List.length_range] at hk
    simp only [List.getElem_map, List.getElem_range, overwriteQname, List.getElem_take, written]
    by_cases hlt : k < bytes.length
    · rw [List.getElem_append_left hlt, List.getElem?_eq_getElem hlt, Option.getD_some]
    · have hrest : bytes.length + (k - bytes.length) = k := by omega
      have hin : k < buffer.length := by omega
      rw [List.getElem_append_right (by omega), List.getElem?_eq_none (by omega),
        Option.getD_none, List.getD_eq_getElem?_getD, List.getElem?_eq_getElem hin,
        Option.getD_some, List.getElem_drop]
      simp only [hrest]

theorem Stores.queryLen_bounds {raw : DnsEvent} {n : ℕ} {out : Output} (h : Stores raw n out)
    (hn : n ≤ 252) : 0 < raw.queryLen ∧ raw.queryLen.toNat = n + 1 ∧
      raw.queryLen.toNat ≤ EZCAP_DNS_NAME_MAX := by
  have hlen : raw.queryLen.toNat = n + 1 := by rw [h.queryLen, toNat_storedQueryLen hn]
  have hmax : EZCAP_DNS_NAME_MAX = 253 := rfl
  refine ⟨?_, hlen, by omega⟩
  rw [UInt16.lt_iff_toNat_lt, hlen]
  exact Nat.succ_pos n

theorem Stores.queryName_normalize {raw : DnsEvent} {n : ℕ} {out : Output} (h : Stores raw n out)
    (hn : n ≤ 252) (hzero : out.memory n = 0) (bootWalltime : ℤ) :
    Ebpf.queryName (normalizeDnsEvent raw bootWalltime) =
      some (untilNul ((List.range n).map out.memory)) := by
  obtain ⟨hpos, hlen, hle⟩ := h.queryLen_bounds hn
  rw [queryName_normalizeDnsEvent, if_pos ⟨hpos, hle⟩, hlen, h.queryName, boundedString,
    ← List.map_take, List.take_range, min_eq_left (hlen ▸ hle), List.range_succ, List.map_append,
    List.map_singleton, hzero, untilNul_append_zero]

/-- The fields that the program stores for a name are those of the output. -/
theorem stores_fields {buffer : Bytes} (hbuffer : buffer.length = EZCAP_DNS_NAME_MAX)
    (name : Except Bytes Bytes) :
    queryLenOf name = storedQueryLen (copied (fun k => (buffer.set 0 0).getD k 0) name).1 ∧
      queryNameOf buffer name = (List.range EZCAP_DNS_NAME_MAX).map
        (copied (fun k => (buffer.set 0 0).getD k 0) name).2.memory := by
  have hcleared : (buffer.set 0 0).length = EZCAP_DNS_NAME_MAX := by rw [List.length_set, hbuffer]
  cases name with
  | ok bytes => exact ⟨(storedQueryLen_natCast _).symm, (map_range_written hcleared _).symm⟩
  | error bytes => exact ⟨rfl, (map_range_written hcleared bytes).symm⟩

/-- The record that the program submits holds what `copy_qname` leaves in its buffer, whose first
byte was cleared before. -/
theorem fillDns_stores (task : Task) (skb : SkBuff) (ihl : ℕ) (ev : DnsEvent) {fuel : ℕ}
    (hfuel : 128 < fuel) :
    ∃ returned out,
      copyQnameInto fuel (fun i => skb.byteAt (ihl + 8 + 12 + i))
          (UInt32.ofNat (dnsPayloadLen skb ihl)) (fun k => (ev.queryName.set 0 0).getD k 0) =
        some (returned, out) ∧
      Stores (fillDns task skb ihl ev) returned out := by
  have h512 : dnsPayloadLen skb ihl ≤ 512 := Nat.min_le_left _ _
  have hlen : (UInt32.ofNat (dnsPayloadLen skb ihl)).toNat = dnsPayloadLen skb ihl :=
    UInt32.toNat_ofNat_of_lt' (Nat.lt_of_le_of_lt h512 (by decide))
  obtain ⟨hcopy, -⟩ := copyQnameInto_eq (fun i => skb.byteAt (ihl + 8 + 12 + i))
    (fun k => (ev.queryName.set 0 0).getD k 0) (hlen.trans_le h512) hfuel
  rw [hlen] at hcopy
  obtain ⟨hqueryLen, hqueryName⟩ := stores_fields ev.queryName_length
    (copyQname (fun i => skb.byteAt (ihl + 8 + 12 + i)) (dnsPayloadLen skb ihl))
  exact ⟨_, _, hcopy, hqueryLen, hqueryName⟩

/-- `copy_qname` ends, writes inside the buffer only and returns -1 or the length of the name that
it has written with its zero byte; the event of the record has the name up to the first zero. -/
theorem copy_qname_stays_in_buffer (payload : ℕ → UInt8) (payloadLen : UInt32)
    (hlen : payloadLen.toNat ≤ 512) (memory : ℕ → UInt8) :
    ∃ returned out,
      (∀ fuel > 128, copyQnameInto fuel payload payloadLen memory = some (returned, out)) ∧
      (∀ k ∈ out.writes, k < EZCAP_DNS_NAME_MAX) ∧
      (∀ k ∉ out.writes, out.memory k = memory k) ∧
      (returned = -1 ∨ ∃ n : ℕ, returned = n ∧ n ≤ EZCAP_DNS_NAME_MAX - 1 ∧
        out.memory n = 0 ∧ out.writes = List.range (n + 1) ∧
        ∀ raw bootWalltime, Stores raw returned out →
          0 < raw.queryLen ∧ raw.queryLen.toNat = n + 1 ∧
            raw.queryLen.toNat ≤ EZCAP_DNS_NAME_MAX ∧
            queryName (normalizeDnsEvent raw bootWalltime) =
              some (untilNul ((List.range n).map out.memory))) := by
  have hmax : EZCAP_DNS_NAME_MAX = 253 := rfl
  obtain ⟨-, hshort⟩ := copyQnameInto_eq payload memory hlen (Nat.lt_succ_self 128)
  refine ⟨(copied memory (copyQname payload payloadLen.toNat)).1,
    (copied memory (copyQname payload payloadLen.toNat)).2,
    fun fuel hfuel => (copyQnameInto_eq payload memory hlen hfuel).1, ?_⟩
  cases hname : copyQname payload payloadLen.toNat with
  | error bytes =>
      rw [hname, copiedBytes] at hshort
      refine ⟨fun k hk => ?_, fun k => written_of_notMem memory, .inl rfl⟩
      have hlt := List.mem_range.mp hk
      omega
  | ok bytes =>
      rw [hname, copiedBytes] at hshort
      have hlength : (bytes ++ [0]).length = bytes.length + 1 := by simp
      have hzero : written memory (bytes ++ [0]) bytes.length = 0 := by simp [written_append]
      refine ⟨fun k hk => ?_, fun k hk => written_of_notMem memory (by rwa [hlength]), .inr
        ⟨bytes.length, rfl, by omega, hzero, rfl, fun raw bootWalltime hstores => ?_⟩⟩
      · have hlt := List.mem_range.mp hk
        omega
      · obtain ⟨hpos, hquery, hle⟩ := hstores.queryLen_bounds hshort
        exact ⟨hpos, hquery, hle, hstores.queryName_normalize hshort hzero bootWalltime⟩

/-- A name of one label, in a buffer that held other bytes. -/
theorem copy_qname_stays_in_buffer_label :
    (5 : UInt32).toNat ≤ 512 ∧
      ∃ returned out,
        (∀ fuel > 128, copyQnameInto fuel (fun i => [3, 119, 119, 119, 0].getD i 0) 5
          (fun _ => 255) = some (returned, out)) ∧
        ∀ k ∈ out.writes, k < EZCAP_DNS_NAME_MAX := by
  obtain ⟨returned, out, hcopy, hwrites, -⟩ := copy_qname_stays_in_buffer
    (fun i => [3, 119, 119, 119, 0].getD i 0) 5 (by decide) (fun _ => 255)
  exact ⟨by decide, returned, out, hcopy, hwrites⟩

end Ezcap.Ebpf
