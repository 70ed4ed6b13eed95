import Ezcap.Library.Format
import Ezcap.Verification.Common.Sha256Blocks

/-! The streaming hash computes the standard's digest, however the message is cut into pieces. -/

namespace Ezcap.Sha256

open StdString Sha256Standard BlockStream

/-- The object, with further bytes still to be taken in, has taken in the message: its buffer and
the bytes are absorbed to what the whole message is. -/
structure Pending (hash : Sha256) (bytes message : Bytes) : Prop where
  absorbed : absorb compress 64 hash.state (hash.buffer.take hash.bufferUsed ++ bytes) =
    absorb compress 64 initial message
  length : hash.buffer.length = 64
  used : hash.bufferUsed < 64

section Update

variable {hash : Sha256} {bytes message : Bytes}

theorem reset_pending : Pending reset [] [] := ⟨rfl, by decide, by decide⟩

/-! ## Updates -/

theorem length_copyToBuffer {buffer bytes : Bytes} {start : ℕ}
    (h : start + bytes.length ≤ buffer.length) :
    (copyToBuffer buffer start bytes).length = buffer.length := by
  simp only [copyToBuffer, List.length_append, List.length_take, List.length_drop]
  omega

theorem take_copyToBuffer {buffer bytes : Bytes} {start : ℕ}
    (h : start + bytes.length ≤ buffer.length) :
    (copyToBuffer buffer start bytes).take (start + bytes.length) = buffer.take start ++ bytes := by
  have hlen : (buffer.take start ++ bytes).length = start + bytes.length := by
    rw [List.length_append, List.length_take]
    omega
  rw [copyToBuffer, List.take_left' hlen]

theorem fillBuffer_pending (h : Pending hash bytes message) :
    Pending (hash.fillBuffer bytes).1 (hash.fillBuffer bytes).2 message ∧
      ((hash.fillBuffer bytes).1.bufferUsed = 0 ∨ (hash.fillBuffer bytes).2 = []) := by
  have hlength := h.length
  have hused := h.used
  unfold fillBuffer
  by_cases hpartial : hash.bufferUsed > 0
  · simp only [if_pos hpartial]
    generalize htake : min (64 - hash.bufferUsed) bytes.length = take
    have hcopied : (bytes.take take).length = take := by
      rw [List.length_take]
      omega
    have hfits : hash.bufferUsed + (bytes.take take).length ≤ hash.buffer.length := by omega
    have hnext := take_copyToBuffer hfits
    have hnextLength := length_copyToBuffer hfits
    rw [hcopied] at hnext
    have habsorbed := h.absorbed
    rw [← List.take_append_drop take bytes, ← List.append_assoc, ← hnext] at habsorbed
    by_cases hfull : hash.bufferUsed + take = 64
    · rw [if_pos hfull, processBlock_eq]
      refine ⟨⟨?_, hnextLength.trans hlength, Nat.succ_pos 63⟩, .inl rfl⟩
      have hwhole := hnextLength.trans hlength
      rw [hfull, List.take_of_length_le hwhole.le, absorb_block_append (by decide) hwhole]
        at habsorbed
      exact habsorbed
    · rw [if_neg hfull]
      refine ⟨⟨habsorbed, hnextLength.trans hlength, ?_⟩, .inr ?_⟩
      · dsimp only
        omega
      · rw [List.drop_eq_nil_iff]
        omega
  · simp only [if_neg hpartial]
    exact ⟨h, .inl (by omega)⟩

theorem wholeBlocks_pending (turns : ℕ) (h : Pending hash bytes message)
    (hempty : hash.bufferUsed = 0) (hturns : bytes.length ≤ turns) :
    Pending (wholeBlocks turns hash bytes).1 (wholeBlocks turns hash bytes).2 message ∧
      (wholeBlocks turns hash bytes).1.bufferUsed = 0 ∧
      (wholeBlocks turns hash bytes).2.length < 64 := by
  induction turns generalizing hash bytes with
  | zero => exact ⟨h, hempty, Nat.lt_of_le_of_lt hturns (by decide)⟩
  | succ turns ih =>
      by_cases hblock : bytes.length ≥ 64
      · rw [wholeBlocks, if_pos hblock]
        have hnext : Pending (hash.processBlock (bytes.take 64)) (bytes.drop 64) message := by
          have habsorbed := h.absorbed
          rw [hempty, List.take_zero, List.nil_append, absorb_of_le (by decide) hblock]
            at habsorbed
          rw [processBlock_eq]
          exact ⟨by rw [hempty]; exact habsorbed, h.length, h.used⟩
        refine ih hnext ?_ ?_
        · rw [processBlock_eq]
          exact hempty
        · rw [List.length_drop]
          omega
      · rw [wholeBlocks, if_neg hblock]
        exact ⟨h, hempty, Nat.lt_of_not_le hblock⟩

theorem tail_pending (h : Pending hash bytes message) (hempty : hash.bufferUsed = 0)
    (hshort : bytes.length < 64) :
    Pending (if bytes.length > 0 then
        { hash with buffer := copyToBuffer hash.buffer 0 bytes, bufferUsed := bytes.length }
      else hash) [] message := by
  have habsorbed := h.absorbed
  rw [hempty, List.take_zero, List.nil_append] at habsorbed
  split_ifs with hpos
  · have hfits : 0 + bytes.length ≤ hash.buffer.length := by
      rw [h.length]
      omega
    have htake := take_copyToBuffer hfits
    rw [Nat.zero_add, List.take_zero, List.nil_append] at htake
    refine ⟨?_, (length_copyToBuffer hfits).trans h.length, hshort⟩
    rw [htake, List.append_nil]
    exact habsorbed
  · have hnil : bytes = [] := List.eq_nil_of_length_eq_zero (by omega)
    exact hnil ▸ h

theorem update_pending (h : Pending hash [] message) (data : Bytes) :
    Pending (hash.update data) [] (message ++ data) := by
  have hstart : Pending { hash with totalBits := hash.totalBits + UInt64.ofNat data.length * 8 }
      data (message ++ data) := by
    refine ⟨?_, h.length, h.used⟩
    have habsorbed := h.absorbed
    rw [List.append_nil] at habsorbed
    dsimp only
    rw [absorb_append (by decide) initial, ← habsorbed, absorb_append (by decide)]
  unfold update
  dsimp only
  obtain ⟨hfill, hempty | hnil⟩ := fillBuffer_pending hstart
  · obtain ⟨hwhole, hempty', hshort⟩ := wholeBlocks_pending _ hfill hempty le_rfl
    exact tail_pending hwhole hempty' hshort
  · rw [hnil] at hfill ⊢
    exact hfill

@[simp] theorem processBlock_totalBits (hash : Sha256) (block : Bytes) :
    (hash.processBlock block).totalBits = hash.totalBits := by
  rw [processBlock_eq]

theorem fillBuffer_totalBits (hash : Sha256) (bytes : Bytes) :
    (hash.fillBuffer bytes).1.totalBits = hash.totalBits := by
  simp only [fillBuffer]
  split_ifs <;> simp only [processBlock_totalBits]

theorem wholeBlocks_totalBits (turns : ℕ) (hash : Sha256) (bytes : Bytes) :
    (wholeBlocks turns hash bytes).1.totalBits = hash.totalBits := by
  induction turns generalizing hash bytes with
  | zero => rfl
  | succ turns ih =>
      rw [wholeBlocks]
      split_ifs
      · rw [ih, processBlock_totalBits]
      · rfl

theorem update_totalBits (hash : Sha256) (data : Bytes) :
    (hash.update data).totalBits = hash.totalBits + UInt64.ofNat data.length * 8 := by
  unfold update
  dsimp only
  split_ifs <;> exact (wholeBlocks_totalBits ..).trans (fillBuffer_totalBits ..)

end Update

/-! ## Digests -/

/-- The object holds the message, with its length in bits. -/
structure Holds (hash : Sha256) (message : Bytes) : Prop where
  pending : Pending hash [] message
  totalBits : hash.totalBits = UInt64.ofNat (8 * message.length)

theorem reset_holds : Holds reset [] := ⟨reset_pending, rfl⟩

section Final

variable {hash : Sha256} {message : Bytes}

theorem Holds.update (h : Holds hash message) (data : Bytes) :
    Holds (hash.update data) (message ++ data) := by
  refine ⟨update_pending h.pending data, ?_⟩
  rw [update_totalBits, h.totalBits, List.length_append, Nat.mul_add, UInt64.ofNat_add,
    Nat.mul_comm 8 data.length, UInt64.ofNat_mul data.length]
  rfl

theorem Holds.foldl_update (h : Holds hash message) (pieces : List Bytes) :
    Holds (pieces.foldl Sha256.update hash) (message ++ pieces.flatten) := by
  induction pieces generalizing hash message with
  | nil => simpa using h
  | cons piece pieces ih =>
      rw [List.foldl_cons, List.flatten_cons, ← List.append_assoc]
      exact ih (h.update piece)

theorem Pending.eq (h : Pending hash [] message) :
    hash.state = (absorb compress 64 initial message).1 ∧
      hash.bufferUsed = message.length % 64 := by
  have hlen : (hash.buffer.take hash.bufferUsed).length = hash.bufferUsed := by
    rw [List.length_take, h.length]
    have hused := h.used
    omega
  have habsorbed := h.absorbed
  rw [List.append_nil, absorb_of_lt (by rw [hlen]; exact h.used)] at habsorbed
  refine ⟨by rw [← habsorbed], ?_⟩
  rw [← length_rest compress (by decide) initial message, ← habsorbed, hlen]

/-- In the padding loop: some of the zeros are there. -/
def Padding (message : Bytes) (hash : Sha256) : Prop :=
  ∃ n ≤ zeros message.length, Pending hash [] (message ++ 0x80 :: List.replicate n 0)

/-- Behind it: all of them. -/
def Padded (message : Bytes) : Sha256 ⊕ Empty → Prop
  | .inl hash => Pending hash [] (message ++ 0x80 :: List.replicate (zeros message.length) 0)
  | .inr _ => False

def zerosLeft (hash : Sha256) : ℕ := (120 - hash.bufferUsed) % 64

theorem zeroTurn_keeps (h : Padding message hash) :
    ∃ t, zeroTurn hash = some t ∧ t.Keeps (Padding message) zerosLeft (Padded message) hash := by
  obtain ⟨n, hn, hpending⟩ := h
  have hused := hpending.eq.2
  rw [List.length_append, List.length_cons, List.length_replicate] at hused
  unfold zeros at hn
  refine ⟨_, rfl, ?_⟩
  by_cases hroom : hash.bufferUsed = 56
  · have hall : n = zeros message.length := by
      unfold zeros
      omega
    rw [hall] at hpending
    rw [if_neg (not_not.mpr hroom)]
    exact hpending
  · have hnext : Pending (hash.update [0]) [] (message ++ 0x80 :: List.replicate (n + 1) 0) := by
      rw [List.replicate_succ', ← List.cons_append, ← List.append_assoc]
      exact update_pending hpending [0]
    have hused' := hnext.eq.2
    rw [List.length_append, List.length_cons, List.length_replicate] at hused'
    rw [if_pos hroom]
    refine ⟨⟨n + 1, ?_, hnext⟩, ?_⟩
    · unfold zeros
      omega
    · unfold zerosLeft
      omega

/-- The padding loop ends with as many zeros as the standard has. -/
theorem run_zeroTurn {fuel : ℕ} (h : Pending hash [] (message ++ [0x80])) (hfuel : 64 ≤ fuel) :
    ∃ hash', Loop.run zeroTurn fuel hash = some (.inl hash') ∧
      Pending hash' [] (message ++ 0x80 :: List.replicate (zeros message.length) 0) := by
  have hleft : zerosLeft hash < fuel := (Nat.mod_lt _ (by decide)).trans_le hfuel
  obtain ⟨result, hrun, hpadded⟩ := Loop.run_total (Padding message) zerosLeft
    (fun _ => zeroTurn_keeps) ⟨0, Nat.zero_le _, h⟩ hleft
  cases result with
  | inl hash' => exact ⟨hash', hrun, hpadded⟩
  | inr r => exact r.elim

theorem lengthBytes_eq (n : ℕ) : lengthBytes (UInt64.ofNat n) = bigEndian 8 n := by
  refine List.map_congr_left fun i hi => ?_
  rw [List.mem_range] at hi
  apply UInt8.toNat_inj.mp
  have hshift : (UInt64.ofNat (56 - i * 8)).toNat % 64 = 8 * (8 - 1 - i) := by
    rw [UInt64.toNat_ofNat_of_lt' (Nat.lt_of_le_of_lt (Nat.sub_le 56 _) (by decide))]
    omega
  have hbits : 2 ^ 64 = 2 ^ (8 * (8 - 1 - i)) * (2 ^ 8 * 2 ^ (8 * i)) := by
    rw [← Nat.pow_add, ← Nat.pow_add]
    congr 1
    omega
  rw [UInt64.toNat_toUInt8, UInt64.toNat_shiftRight, hshift, UInt64.toNat_ofNat',
    Nat.shiftRight_eq_div_pow, UInt8.toNat_ofNat', hbits, Nat.mod_mul_right_div_self,
    Nat.mod_mul_right_mod, pow_mul]
  rfl

/-- A shift by whole bytes drops the digits below. -/
theorem toUInt8_shiftRight (w n : UInt32) {k : ℕ} (hn : n.toNat = 8 * k) (hk : k < 4) :
    (w >>> n).toUInt8 = UInt8.ofNat (w.toNat / 256 ^ k) := by
  have hshift : n.toNat % 32 = 8 * k := by omega
  apply UInt8.toNat_inj.mp
  rw [UInt32.toNat_toUInt8, UInt32.toNat_shiftRight, hshift, Nat.shiftRight_eq_div_pow, pow_mul,
    UInt8.toNat_ofNat']
  rfl

theorem wordBytes_eq (w : UInt32) : wordBytes w = bigEndian 4 w.toNat := by
  have h3 := toUInt8_shiftRight w 24 (k := 3) (by decide) (by decide)
  have h2 := toUInt8_shiftRight w 16 (k := 2) (by decide) (by decide)
  have h1 := toUInt8_shiftRight w 8 (k := 1) (by decide) (by decide)
  have h0 : w.toUInt8 = UInt8.ofNat (w.toNat / 256 ^ 0) := by
    rw [pow_zero, Nat.div_one]
    exact (UInt8.ofNat_uInt32ToNat w).symm
  rw [wordBytes, h3, h2, h1, h0]
  rfl

/-- `final` returns the digest of the message and resets the object. -/
theorem Holds.final {fuel : ℕ} (h : Holds hash message) (hfuel : 64 ≤ fuel) :
    hash.final fuel = some (Sha256Standard.digest message, reset) := by
  obtain ⟨hash', hrun, hpadded⟩ := run_zeroTurn (update_pending h.pending [0x80]) hfuel
  have hbytes : lengthBytes hash.totalBits = bigEndian 8 (8 * message.length) := by
    rw [h.totalBits, lengthBytes_eq]
  have hcounted : Pending { hash' with totalBits := hash.totalBits } []
      (message ++ 0x80 :: List.replicate (zeros message.length) 0) :=
    ⟨hpadded.absorbed, hpadded.length, hpadded.used⟩
  have hlast := (update_pending hcounted (lengthBytes hash.totalBits)).eq.1
  rw [hbytes, List.append_assoc, List.cons_append] at hlast
  rw [Sha256.final, hrun, Option.bind_some]
  dsimp only
  rw [hbytes, hlast, Sha256Standard.digest, pad, funext wordBytes_eq]

end Final

/-! ## Messages and hexadecimal digests -/

/-- The digests of messages that are hashed one after another with one object, each of them in
pieces, and the object after them. -/
def hashMessages (fuel : ℕ) : Sha256 → List (List Bytes) → Option (List Bytes × Sha256)
  | hash, [] => some ([], hash)
  | hash, pieces :: messages =>
      (final fuel (pieces.foldl update hash)).bind fun (digest, hash) =>
        (hashMessages fuel hash messages).map fun (digests, hash) => (digest :: digests, hash)

theorem hashMessages_eq {fuel : ℕ} (hfuel : 64 ≤ fuel) (messages : List (List Bytes)) :
    hashMessages fuel reset messages =
      some (messages.map fun pieces => Sha256Standard.digest pieces.flatten, reset) := by
  induction messages with
  | nil => rfl
  | cons pieces messages ih =>
      have hholds := reset_holds.foldl_update pieces
      rw [List.nil_append] at hholds
      rw [hashMessages, hholds.final hfuel, Option.bind_some]
      dsimp only
      rw [ih]
      rfl

theorem digest_eq {fuel : ℕ} (hfuel : 64 ≤ fuel) (text : Bytes) :
    digest fuel text = some (Sha256Standard.digest text) := by
  rw [digest, (reset_holds.update text).final hfuel]
  rfl

theorem hexDigit_eq (byte : UInt8) :
    [kHex.getD (byte >>> 4).toNat 0, kHex.getD (byte &&& 0x0f).toNat 0] = Format.hexByte byte := by
  have h := forall_byte (p := fun b : UInt8 => decide
    ([kHex.getD (b >>> 4).toNat 0, kHex.getD (b &&& 0x0f).toNat 0] = Format.hexByte b))
    (by decide +kernel) byte
  exact of_decide_eq_true h

theorem hexDigest_eq {fuel : ℕ} (hfuel : 64 ≤ fuel) (text : Bytes) :
    hexDigest fuel text = some ((Sha256Standard.digest text).flatMap Format.hexByte) := by
  rw [hexDigest, digest_eq hfuel, Option.map_some]
  simp only [hexDigit_eq]

theorem length_digest (message : Bytes) : (Sha256Standard.digest message).length = 32 := by
  simp [Sha256Standard.digest, Words.toList, bigEndian]

/-- For messages that are cut into pieces in any way and hashed with one object, `final` writes the
standard's digest each time and leaves the object as it was made; and the hexadecimal digest is the
digest in 64 lower-case digits. The standard stops at 2^61 bytes; from there on both go by the low
64 bits of the length. -/
theorem sha256_of_any_pieces (messages : List (List Bytes)) (fuel : ℕ) (hfuel : 64 ≤ fuel) :
    hashMessages fuel reset messages =
        some (messages.map fun pieces => Sha256Standard.digest pieces.flatten, reset) ∧
      ∀ text : Bytes, ∃ hex, hexDigest fuel text = some hex ∧
        hex = (Sha256Standard.digest text).flatMap Format.hexByte ∧ hex.length = 64 := by
  refine ⟨hashMessages_eq hfuel messages, fun text => ⟨_, hexDigest_eq hfuel text, rfl, ?_⟩⟩
  rw [Format.length_flatMap_hexByte, length_digest]

/-- Two messages with one object, the first in three pieces of which one is empty. -/
theorem sha256_of_any_pieces_reused :
    hashMessages 64 reset [[cstr "a", [], cstr "bc"], [List.replicate 119 0]] =
      some ([Sha256Standard.digest (cstr "abc"), Sha256Standard.digest (List.replicate 119 0)],
        reset) :=
  (sha256_of_any_pieces [[cstr "a", [], cstr "bc"], [List.replicate 119 0]] 64 le_rfl).1

example : hexDigest 64 (cstr "abc") =
    some (cstr "ba7816bf8f01cfea414140de5dae2223b00361a396177a9cb410ff61f20015ad") := by
  decide +kernel

end Ezcap.Sha256
