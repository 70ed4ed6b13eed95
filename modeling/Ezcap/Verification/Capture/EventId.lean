import Ezcap.Model.Capture
import Mathlib.Data.List.Nodup

/-! When two event ids are the same. The version and variant bits overwrite four random
bits and two bits of the counter, so ids differ only in what is left of both. -/

namespace Ezcap.EventNormalizer

open StdString

/-! ## The printed form -/

theorem length_group {bytes : Bytes} {i n : ℕ} (h : i + n ≤ bytes.length) :
    ((substr bytes i (some n)).flatMap Format.hexByte).length = 2 * n := by
  rw [Format.length_flatMap_hexByte, substr, List.length_take, List.length_drop]
  omega

theorem formatUuid_inj {s t : Bytes} (hs : s.length = 16) (ht : t.length = 16)
    (h : formatUuid s = formatUuid t) : s = t := by
  have hlen : ∀ i n : ℕ, i + n ≤ 16 →
      ((substr s i (some n)).flatMap Format.hexByte).length =
        ((substr t i (some n)).flatMap Format.hexByte).length := by
    intro i n hi
    rw [length_group (by omega), length_group (by omega)]
  unfold formatUuid at h
  dsimp only at h
  obtain ⟨h, h5⟩ := List.append_inj' h (hlen 10 6 (by omega))
  obtain ⟨h, -⟩ := List.append_inj' h rfl
  obtain ⟨h, h4⟩ := List.append_inj' h (hlen 8 2 (by omega))
  obtain ⟨h, -⟩ := List.append_inj' h rfl
  obtain ⟨h, h3⟩ := List.append_inj' h (hlen 6 2 (by omega))
  obtain ⟨h, -⟩ := List.append_inj' h rfl
  obtain ⟨h, h2⟩ := List.append_inj' h (hlen 4 2 (by omega))
  obtain ⟨h1, -⟩ := List.append_inj' h rfl
  have d16 : s.drop 16 = t.drop 16 := by
    rw [List.drop_of_length_le (by omega), List.drop_of_length_le (by omega)]
  have d10 := drop_eq_of_substr (Format.flatMap_hexByte_inj h5) d16
  have d8 := drop_eq_of_substr (Format.flatMap_hexByte_inj h4) d10
  have d6 := drop_eq_of_substr (Format.flatMap_hexByte_inj h3) d8
  have d4 := drop_eq_of_substr (Format.flatMap_hexByte_inj h2) d6
  exact drop_eq_of_substr (Format.flatMap_hexByte_inj h1) d4

/-! ## The sixteen bytes -/

theorem length_randomBytes (urandom : Option Bytes) : (randomBytes urandom).length = 16 := by
  unfold randomBytes
  split
  · rfl
  · split_ifs with h
    · exact h
    · rfl

theorem length_uuidBytes (urandom : Option Bytes) (seq : UInt64) :
    (uuidBytes urandom seq).length = 16 := by
  simp [uuidBytes, bytesOf64, length_randomBytes]

/-- The random bits that survive: all of the first eight bytes but the high half of byte 6. -/
def SameRandom (u v : Option Bytes) : Prop :=
  (∀ k < 8, k ≠ 6 → (randomBytes u).getD k 0 = (randomBytes v).getD k 0) ∧
    ((randomBytes u).getD 6 0).toNat % 16 = ((randomBytes v).getD 6 0).toNat % 16

/-- The counter bits that survive: all but bits 6 and 7. -/
def SameCounter (m n : UInt64) : Prop :=
  m.toNat % 64 = n.toNat % 64 ∧ m.toNat / 256 = n.toNat / 256

section Bytes

variable (u : Option Bytes) (n : UInt64)

theorem getD_uuidBytes_random {k : ℕ} (hk : k < 8) (h6 : k ≠ 6) :
    (uuidBytes u n).getD k 0 = (randomBytes u).getD k 0 := by
  have hr : k < (randomBytes u).length := by
    rw [length_randomBytes]
    omega
  simp [uuidBytes, List.getElem?_append, hk, hr, Ne.symm h6, show ¬ 8 = k by omega]

theorem getD_uuidBytes_version :
    (uuidBytes u n).getD 6 0 = ((randomBytes u).getD 6 0 &&& 0x0F) ||| 0x40 := by
  simp [uuidBytes, List.getElem?_append, length_randomBytes]

theorem getD_uuidBytes_variant :
    (uuidBytes u n).getD 8 0 = (n.toUInt8 &&& 0x3F) ||| 0x80 := by
  simp [uuidBytes, length_randomBytes, bytesOf64]

theorem toNat_getD_bytesOf64 {k : ℕ} (hk : k < 8) :
    ((bytesOf64 n).getD k 0).toNat = n.toNat / 2 ^ (8 * k) % 256 := by
  have hshift : (8 * k).toUInt64.toNat % 64 = 8 * k := by
    rw [show (8 * k).toUInt64.toNat = 8 * k % 2 ^ 64 from rfl]
    omega
  have hget : (bytesOf64 n).getD k 0 = (n >>> (8 * k).toUInt64).toUInt8 := by
    simp [bytesOf64, hk]
  rw [hget, UInt64.toNat_toUInt8, UInt64.toNat_shiftRight, hshift, Nat.shiftRight_eq_div_pow]

theorem getD_uuidBytes_counter {k : ℕ} (hk : 0 < k) (hk' : k < 8) :
    (uuidBytes u n).getD (8 + k) 0 = (bytesOf64 n).getD k 0 := by
  have h8 : ¬ 8 = 8 + k := by omega
  have h6 : ¬ 6 = 8 + k := by omega
  unfold uuidBytes
  simp only [List.getD_eq_getElem?_getD, List.getElem?_set_ne h8, List.getElem?_set_ne h6]
  rw [List.getElem?_append_right (by simp)]
  simp [length_randomBytes]

end Bytes

private theorem version_bits :
    ∀ n < 256, ((UInt8.ofNat n &&& 0x0F) ||| 0x40).toNat = 64 + n % 16 := by decide +kernel

private theorem variant_bits :
    ∀ n < 256, ((UInt8.ofNat n &&& 0x3F) ||| 0x80).toNat = 128 + n % 64 := by decide +kernel

theorem toNat_version (b : UInt8) : ((b &&& 0x0F) ||| 0x40).toNat = 64 + b.toNat % 16 := by
  simpa using version_bits b.toNat b.toNat_lt

theorem toNat_variant (n : UInt64) :
    ((n.toUInt8 &&& 0x3F) ||| 0x80).toNat = 128 + n.toNat % 64 := by
  have h := variant_bits n.toUInt8.toNat n.toUInt8.toNat_lt
  rw [UInt8.ofNat_toNat, UInt64.toNat_toUInt8] at h
  omega

theorem eq_of_bytes (width : ℕ) {x y : ℕ} (hx : x < 256 ^ width) (hy : y < 256 ^ width)
    (h : ∀ i < width, x / 256 ^ i % 256 = y / 256 ^ i % 256) : x = y := by
  induction width generalizing x y with
  | zero => omega
  | succ width ih =>
      rw [pow_succ'] at hx hy
      have hlow := h 0 (by omega)
      have hhigh : x / 256 = y / 256 := by
        refine ih (Nat.div_lt_of_lt_mul hx) (Nat.div_lt_of_lt_mul hy) fun i hi => ?_
        have hbyte := h (i + 1) (by omega)
        rwa [pow_succ', ← Nat.div_div_eq_div_mul, ← Nat.div_div_eq_div_mul] at hbyte
      rw [pow_zero, Nat.div_one, Nat.div_one] at hlow
      omega

theorem sameCounter_iff (u v : Option Bytes) (m n : UInt64) :
    (∀ k < 8, (uuidBytes u m).getD (8 + k) 0 = (uuidBytes v n).getD (8 + k) 0) ↔
      SameCounter m n := by
  have hm := m.toNat_lt
  have hn := n.toNat_lt
  have hbyte : ∀ k, 0 < k → k < 8 →
      ((uuidBytes u m).getD (8 + k) 0 = (uuidBytes v n).getD (8 + k) 0 ↔
        m.toNat / 2 ^ (8 * k) % 256 = n.toNat / 2 ^ (8 * k) % 256) := by
    intro k hk hk'
    rw [← UInt8.toNat_inj, getD_uuidBytes_counter u m hk hk', getD_uuidBytes_counter v n hk hk',
      toNat_getD_bytesOf64 m hk', toNat_getD_bytesOf64 n hk']
  have hlow : (uuidBytes u m).getD 8 0 = (uuidBytes v n).getD 8 0 ↔
      m.toNat % 64 = n.toNat % 64 := by
    rw [← UInt8.toNat_inj, getD_uuidBytes_variant, getD_uuidBytes_variant, toNat_variant,
      toNat_variant]
    omega
  constructor
  · intro h
    refine ⟨hlow.mp (h 0 (by omega)), eq_of_bytes 7 (by omega) (by omega) fun i hi => ?_⟩
    have hdigit := (hbyte (i + 1) (by omega) (by omega)).mp (h (i + 1) (by omega))
    rwa [show 8 * (i + 1) = 8 + 8 * i by omega, pow_add, ← Nat.div_div_eq_div_mul,
      ← Nat.div_div_eq_div_mul, pow_mul] at hdigit
  · rintro ⟨h64, h256⟩ k hk
    rcases Nat.eq_zero_or_pos k with rfl | hpos
    · exact hlow.mpr h64
    · rw [hbyte k hpos hk, show 8 * k = 8 + 8 * (k - 1) by omega, pow_add,
        ← Nat.div_div_eq_div_mul, ← Nat.div_div_eq_div_mul,
        show (2 : ℕ) ^ 8 = 256 by norm_num, h256]

theorem randomUuid_eq_iff (u v : Option Bytes) (m n : UInt64) :
    randomUuid u m = randomUuid v n ↔ SameRandom u v ∧ SameCounter m n := by
  have hbytes : randomUuid u m = randomUuid v n ↔ uuidBytes u m = uuidBytes v n :=
    ⟨formatUuid_inj (length_uuidBytes u m) (length_uuidBytes v n), congrArg formatUuid⟩
  rw [hbytes, ← sameCounter_iff u v m n]
  have hversion : (uuidBytes u m).getD 6 0 = (uuidBytes v n).getD 6 0 ↔
      ((randomBytes u).getD 6 0).toNat % 16 = ((randomBytes v).getD 6 0).toNat % 16 := by
    rw [← UInt8.toNat_inj, getD_uuidBytes_version, getD_uuidBytes_version, toNat_version,
      toNat_version]
    omega
  constructor
  · intro h
    refine ⟨⟨fun k hk h6 => ?_, hversion.mp (by rw [h])⟩, fun k _ => by rw [h]⟩
    rw [← getD_uuidBytes_random u m hk h6, h, getD_uuidBytes_random v n hk h6]
  · rintro ⟨⟨hrandom, h6⟩, hcounter⟩
    apply ext_getD (length_uuidBytes u m) (length_uuidBytes v n)
    intro k hk
    by_cases hlow : k < 8
    · by_cases hk6 : k = 6
      · rw [hk6]
        exact hversion.mpr h6
      · rw [getD_uuidBytes_random u m hlow hk6, getD_uuidBytes_random v n hlow hk6]
        exact hrandom k hlow hk6
    · rw [show k = 8 + (k - 8) by omega]
      exact hcounter (k - 8) (by omega)

theorem randomUuid_ne_nil (u : Option Bytes) (n : UInt64) : randomUuid u n ≠ [] := by
  have hdash : cstr "-" ≠ [] := by decide
  simp [randomUuid, formatUuid, hdash]

/-! ## Calls in sequence -/

/-- The ids of a sequence of calls, one for each draw from `/dev/urandom`. The counter is static:
every call leaves it one higher for the next. -/
def calls : UInt64 → List (Option Bytes) → List Bytes
  | _, [] => []
  | counter, urandom :: draws => randomUuid urandom counter :: calls (counter + 1) draws

@[simp] theorem length_calls (counter : UInt64) (draws : List (Option Bytes)) :
    (calls counter draws).length = draws.length := by
  induction draws generalizing counter with
  | nil => rfl
  | cons urandom draws ih => simp [calls, ih]

theorem getElem_calls {counter : UInt64} {draws : List (Option Bytes)} {k : ℕ}
    (hk : k < (calls counter draws).length) :
    (calls counter draws)[k] =
      randomUuid (draws.get ⟨k, by simpa using hk⟩) (counter + UInt64.ofNat k) := by
  induction draws generalizing counter k with
  | nil => simp [calls] at hk
  | cons urandom draws ih =>
      cases k with
      | zero => exact congrArg (randomUuid urandom) (UInt64.add_zero counter).symm
      | succ k =>
          simp only [calls, List.getElem_cons_succ, List.get_cons_succ]
          rw [ih, UInt64.ofNat_add, UInt64.add_assoc, UInt64.add_comm 1]
          rfl

/-- Two calls clash if they agree in all the bits that the version and variant bits leave. -/
theorem nodup_calls_iff (draws : List (Option Bytes)) :
    (calls 0 draws).Nodup ↔
      ∀ (k l : ℕ) (hkl : k < l) (hl : l < draws.length),
        ¬ (SameRandom draws[k] draws[l] ∧ SameCounter (UInt64.ofNat k) (UInt64.ofNat l)) := by
  rw [List.Nodup, List.pairwise_iff_getElem]
  simp only [getElem_calls, List.get_eq_getElem, UInt64.zero_add, ne_eq, randomUuid_eq_iff,
    length_calls]
  constructor
  · intro h k l hkl hl
    exact h k l (hkl.trans hl) hl hkl
  · intro h k l _ hl hkl
    exact h k l hkl hl

theorem sameCounter_ofNat_iff {k l : ℕ} (hk : k < 2 ^ 64) (hl : l < 2 ^ 64) :
    SameCounter (UInt64.ofNat k) (UInt64.ofNat l) ↔ k % 64 = l % 64 ∧ k / 256 = l / 256 := by
  rw [SameCounter, UInt64.toNat_ofNat_of_lt' hk, UInt64.toNat_ofNat_of_lt' hl]

/-- Calls at different values of the counter return different strings. -/
def DifferentCallsDiffer (draws : List (Option Bytes)) : Prop :=
  ∀ k l : ℕ, k < draws.length → l < draws.length → UInt64.ofNat k ≠ UInt64.ofNat l →
    (calls 0 draws)[k]? ≠ (calls 0 draws)[l]?

theorem differentCallsDiffer_iff_nodup {draws : List (Option Bytes)}
    (h : draws.length < 2 ^ 64) : DifferentCallsDiffer draws ↔ (calls 0 draws).Nodup := by
  have hcounter : ∀ k l : ℕ, k < draws.length → l < draws.length →
      (UInt64.ofNat k ≠ UInt64.ofNat l ↔ k ≠ l) := by
    intro k l hk hl
    rw [ne_eq, ← UInt64.toNat_inj, UInt64.toNat_ofNat_of_lt' (hk.trans h),
      UInt64.toNat_ofNat_of_lt' (hl.trans h)]
  rw [List.nodup_iff_getElem?_ne_getElem?, length_calls]
  constructor
  · intro hdiffer k l hkl hl
    exact hdiffer k l (by omega) hl ((hcounter k l (by omega) hl).mpr (by omega))
  · intro hnodup k l hk hl hne
    rcases Nat.lt_or_gt_of_ne ((hcounter k l hk hl).mp hne) with hkl | hlk
    · exact hnodup k l hkl hl
    · exact (hnodup l k hlk hk).symm

/-- Ids stay apart exactly when no two calls with the same surviving random bits have counters
that differ in bits 6 and 7 only: these two are overwritten with the variant. -/
theorem different_calls_differ_iff (draws : List (Option Bytes)) (h : draws.length < 2 ^ 64) :
    DifferentCallsDiffer draws ↔
      ∀ (k l : ℕ) (hkl : k < l) (hl : l < draws.length), SameRandom draws[k] draws[l] →
        ¬ (k % 64 = l % 64 ∧ k / 256 = l / 256) := by
  rw [differentCallsDiffer_iff_nodup h, nodup_calls_iff]
  refine forall₄_congr fun k l hkl hl => ?_
  rw [sameCounter_ofNat_iff (by omega) (by omega), not_and]

theorem different_calls_differ_pair :
    DifferentCallsDiffer [none, none] ∧ [(none : Option Bytes), none].length < 2 ^ 64 :=
  ⟨(different_calls_differ_iff [none, none] (by decide)).mpr fun k l hkl hl _ => by
    simp only [List.length_cons, List.length_nil] at hl
    omega, by decide⟩

/-- With `/dev/urandom` unreadable throughout, the sixty-fifth id is the first one again. -/
theorem sixty_fifth_call_repeats :
    (List.replicate 65 (none : Option Bytes)).length < 2 ^ 64 ∧
      (calls 0 (List.replicate 65 none))[0]? = (calls 0 (List.replicate 65 none))[64]? ∧
      ¬ DifferentCallsDiffer (List.replicate 65 none) := by
  have heq : (calls 0 (List.replicate 65 none))[0]? = (calls 0 (List.replicate 65 none))[64]? := by
    decide +kernel
  exact ⟨by decide, heq, fun h => h 0 64 (by decide) (by decide) (by decide) heq⟩

/-- Without random bytes exactly the first sixty-four ids are different. -/
theorem differentCallsDiffer_fallback_iff {n : ℕ} (h : n < 2 ^ 64) :
    DifferentCallsDiffer (List.replicate n none) ↔ n ≤ 64 := by
  rw [differentCallsDiffer_iff_nodup (by simpa using h), nodup_calls_iff]
  have hsame : ∀ u : Option Bytes, SameRandom u u := fun u => ⟨fun _ _ _ => rfl, rfl⟩
  simp only [List.getElem_replicate, hsame, true_and, List.length_replicate]
  constructor
  · intro hclash
    by_contra hn
    exact hclash 0 64 (by omega) (by omega) ⟨rfl, rfl⟩
  · intro hn k l hkl hl hcounter
    rw [sameCounter_ofNat_iff (by omega) (by omega)] at hcounter
    omega

end Ezcap.EventNormalizer
