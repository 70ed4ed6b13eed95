import Ezcap.Library.Base64
import Ezcap.Model.UtilBindings
import Ezcap.Verification.Common.Sha256

/-! What `lezcap.util` makes of a Lua string. The bindings take its length with `strlen`, so they
see it up to its first NUL. -/

namespace Ezcap.Drivers

open StdString Lua

/-! ## The encoder -/

theorem sextet_eq (n bits : UInt32) {k : ℕ} (hbits : bits.toNat = 6 * k) (hk : k ≤ 3) :
    sextet n bits = Base64.symbol (n.toNat / 64 ^ k) := by
  have hshift : bits.toNat % 32 = 6 * k := by omega
  have hmask : (0x3f : UInt32).toNat = 2 ^ 6 - 1 := rfl
  rw [sextet, UInt32.toNat_and, hmask, Nat.and_two_pow_sub_one_eq_mod, UInt32.toNat_shiftRight,
    hshift, Nat.shiftRight_eq_div_pow, pow_mul]
  rfl

theorem toNat_pair (a b : UInt8) :
    ((a.toUInt32 <<< 16) ||| (b.toUInt32 <<< 8)).toNat = a.toNat * 2 ^ 16 + b.toNat * 2 ^ 8 := by
  have h := BigEndian.toNat_join_three a b 0
  rwa [show (0 : UInt8).toUInt32 = 0 from rfl, UInt32.or_zero, UInt8.toNat_zero, Nat.add_zero] at h

theorem toNat_single (a : UInt8) : (a.toUInt32 <<< 16).toNat = a.toNat * 2 ^ 16 := by
  rw [Nat.mul_comm]
  exact BigEndian.toNat_shiftLeft_byte a (by decide)

section Group

variable {n : UInt32} {m : ℕ}

theorem sextets_eq (h : n.toNat = m) :
    [sextet n 18, sextet n 12, sextet n 6, sextet n 0] = Base64.group m := by
  rw [sextet_eq n 18 (k := 3) (by decide) (by decide), sextet_eq n 12 (k := 2) (by decide)
    (by decide), sextet_eq n 6 (k := 1) (by decide) (by decide), sextet_eq n 0 (k := 0) (by decide)
    (by decide), h, pow_zero, Nat.div_one, pow_one, Base64.group]

end Group

/-- The loop encodes the input in front of its index, which comes to its last two bytes. -/
theorem encodeTriples_spec (input : Bytes) {turns i : ℕ} (encoded : Bytes) (hi : i ≤ input.length)
    (hturns : input.length ≤ i + turns) :
    ∃ j out, encodeTriples input turns i encoded = (j, out) ∧ j ≤ input.length ∧
      input.length ≤ j + 2 ∧
      out ++ Base64.encode (input.drop j) = encoded ++ Base64.encode (input.drop i) := by
  induction turns generalizing i encoded with
  | zero => exact ⟨i, encoded, rfl, hi, by omega, rfl⟩
  | succ turns ih =>
      by_cases hmore : i + 2 < input.length
      · rw [encodeTriples, if_pos hmore]
        obtain ⟨j, out, heq, hj, hend, henc⟩ := ih (i := i + 3) _ (by omega) (by omega)
        refine ⟨j, out, heq, hj, hend, henc.trans ?_⟩
        rw [byteAt, byteAt, byteAt, sextets_eq (BigEndian.toNat_join_three _ _ _)]
        rw [drop_eq_getD_cons (show i < input.length by omega),
          drop_eq_getD_cons (show i + 1 < input.length by omega),
          drop_eq_getD_cons (show i + 1 + 1 < input.length by omega), Base64.encode,
          List.append_assoc]
        rfl
      · rw [encodeTriples, if_neg hmore]
        exact ⟨i, encoded, rfl, hi, by omega, rfl⟩

theorem base64Encode_eq (input : Bytes) : base64Encode input = Base64.encode input := by
  obtain ⟨j, out, heq, hj, hend, henc⟩ :=
    encodeTriples_spec input [] (Nat.zero_le _) (Nat.le_add_left input.length 0)
  rw [List.nil_append, List.drop_zero] at henc
  rw [base64Encode, heq, ← henc]
  dsimp only
  by_cases hone : j + 1 = input.length
  · have htail : input.drop j = [input.getD j 0] := by
      rw [drop_eq_getD_cons (by omega), hone, List.drop_length]
    have hsextets := congrArg (List.take 2) (sextets_eq (toNat_single (input.getD j 0)))
    rw [if_pos hone, htail, List.append_assoc, byteAt]
    exact congrArg (fun symbols => out ++ (symbols ++ cstr "==")) hsextets
  rw [if_neg hone]
  by_cases htwo : j + 2 = input.length
  · have htail : input.drop j = [input.getD j 0, input.getD (j + 1) 0] := by
      rw [drop_eq_getD_cons (by omega), drop_eq_getD_cons (by omega), Nat.add_assoc, htwo,
        List.drop_length]
    have hsextets := congrArg (List.take 3)
      (sextets_eq (toNat_pair (input.getD j 0) (input.getD (j + 1) 0)))
    rw [if_pos htwo, htail, List.append_assoc, byteAt, byteAt]
    exact congrArg (fun symbols => out ++ (symbols ++ cstr "=")) hsextets
  · have htail : input.drop j = [] := List.drop_eq_nil_of_le (by omega)
    rw [if_neg htwo, htail, Base64.encode, List.append_nil]

/-! ## The bindings -/

section Bindings

variable (numbers : Numbers) (limit : Option ℕ) (above : Stack) (s : Bytes)

theorem at?_first (value : Value) : at? (above ++ [value]) 1 = some value := by
  simp [at?]

theorem checkString_eq :
    checkString numbers (above ++ [.string s]) 1 (maxStringBytes limit) =
      if (untilNul s).length > maxStringBytes limit then
        .error (cstr "argument.too_long: string exceeds the sandbox limit")
      else .ok (untilNul s) := by
  rw [checkString, at?_first]
  rfl

theorem utilBase64Encode_eq :
    utilBase64Encode numbers limit (above ++ [.string s]) =
      if (untilNul s).length > maxStringBytes limit then
        .error (cstr "argument.too_long: string exceeds the sandbox limit")
      else .ok (Base64.encode (untilNul s)) := by
  rw [utilBase64Encode, checkString_eq]
  split_ifs
  · rfl
  · rw [Except.map, base64Encode_eq]

theorem utilSha256Hex_eq {fuel : ℕ} (hfuel : 64 ≤ fuel) :
    utilSha256Hex fuel numbers limit (above ++ [.string s]) =
      some (if (untilNul s).length > maxStringBytes limit then
        .error (cstr "argument.too_long: string exceeds the sandbox limit")
      else .ok ((Sha256Standard.digest (untilNul s)).flatMap Format.hexByte)) := by
  rw [utilSha256Hex, checkString_eq]
  split_ifs
  · rfl
  · dsimp only
    rw [Sha256.hexDigest_eq hfuel]
    rfl

/-- The bindings see the whole string: what they return for it is its encoding, from which it can
be decoded, and the digest of all of it, and a string above the limit is rejected. -/
structure SeesWhole : Prop where
  encodes : s.length ≤ maxStringBytes limit →
    utilBase64Encode numbers limit (above ++ [.string s]) = .ok (Base64.encode s) ∧
      Base64.decode (Base64.encode s) = some s
  hashes : s.length ≤ maxStringBytes limit → ∀ fuel ≥ 64,
    utilSha256Hex fuel numbers limit (above ++ [.string s]) =
      some (.ok ((Sha256Standard.digest s).flatMap Format.hexByte))
  rejects : maxStringBytes limit < s.length →
    (∃ error, utilBase64Encode numbers limit (above ++ [.string s]) = .error error) ∧
      ∀ fuel ≥ 64, ∃ error,
        utilSha256Hex fuel numbers limit (above ++ [.string s]) = some (.error error)

variable {numbers limit above s}

/-- Within the limit: a string is encoded as a whole exactly if it has no NUL. -/
theorem seesWhole_of_le (hlen : s.length ≤ maxStringBytes limit) :
    SeesWhole numbers limit above s ↔ 0 ∉ s := by
  have hshort : ¬ (untilNul s).length > maxStringBytes limit :=
    Nat.not_lt.mpr ((length_untilNul_le s).trans hlen)
  rw [← untilNul_eq_self_iff]
  constructor
  · intro h
    have henc := (h.encodes hlen).1
    rw [utilBase64Encode_eq, if_neg hshort, Except.ok.injEq] at henc
    exact Base64.encode_injective henc
  · intro hself
    refine ⟨fun _ => ⟨?_, Base64.decode_encode s⟩, fun _ fuel hfuel => ?_, fun hlong => ?_⟩
    · rw [utilBase64Encode_eq, if_neg hshort, hself]
    · rw [utilSha256Hex_eq numbers limit above s hfuel, if_neg hshort, hself]
    · omega

/-- Above the limit: it is rejected exactly if what is in front of its first NUL is above it. -/
theorem seesWhole_of_lt (hlen : maxStringBytes limit < s.length) :
    SeesWhole numbers limit above s ↔ maxStringBytes limit < (untilNul s).length := by
  constructor
  · intro h
    obtain ⟨⟨error, herror⟩, -⟩ := h.rejects hlen
    rw [utilBase64Encode_eq] at herror
    split_ifs at herror with hlong
    exact hlong
  · intro hlong
    have henc := utilBase64Encode_eq numbers limit above s
    rw [if_pos hlong] at henc
    refine ⟨fun hle => absurd hle (by omega), fun hle => absurd hle (by omega), fun _ =>
      ⟨⟨_, henc⟩, fun fuel hfuel => ?_⟩⟩
    have hhash := utilSha256Hex_eq numbers limit above s hfuel
    rw [if_pos hlong] at hhash
    exact ⟨_, hhash⟩

end Bindings

/-- The bindings see the whole string exactly if it has no NUL, or is above the limit already in
front of its first one. -/
theorem util_bindings_see_whole_iff (numbers : Numbers) (limit : Option ℕ) (above : Stack)
    (s : Bytes) :
    SeesWhole numbers limit above s ↔
      (s.length ≤ maxStringBytes limit ∧ 0 ∉ s) ∨
        (maxStringBytes limit < s.length ∧ maxStringBytes limit < (untilNul s).length) := by
  by_cases hlen : s.length ≤ maxStringBytes limit
  · rw [seesWhole_of_le hlen]
    simp [hlen, Nat.not_lt.mpr hlen]
  · rw [seesWhole_of_lt (Nat.lt_of_not_le hlen)]
    simp [hlen, Nat.lt_of_not_le hlen]

/-- The string `"a\0"` is encoded as `"a"` is. -/
theorem nul_cuts_encoding :
    utilBase64Encode { text := fun _ => [], parse := fun _ => none } none [.string [97, 0]] =
        .ok (cstr "YQ==") ∧
      Base64.encode [97, 0] = cstr "YQA=" ∧
      ¬ SeesWhole { text := fun _ => [], parse := fun _ => none } none [] [97, 0] := by
  have hbinding : utilBase64Encode { text := fun _ => [], parse := fun _ => none } none
      [.string [97, 0]] = .ok (cstr "YQ==") := rfl
  have hencoded : Base64.encode [97, 0] = cstr "YQA=" := rfl
  refine ⟨hbinding, hencoded, fun h => ?_⟩
  have hwhole := (h.encodes (by decide)).1
  rw [List.nil_append, hbinding, hencoded, Except.ok.injEq] at hwhole
  exact absurd hwhole (by decide)

end Ezcap.Drivers
