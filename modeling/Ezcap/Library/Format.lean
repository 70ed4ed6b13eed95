import Ezcap.Library.StdString
import Mathlib.Data.Nat.Digits.Lemmas

/-! The `printf` conversions used for fixed-format text. -/

namespace Format

/-- The lower-case digit of `d` in base 16, also used for base 10. -/
def digit (d : ℕ) : UInt8 :=
  if d < 10 then '0'.toUInt8 + d.toUInt8 else 'a'.toUInt8 + (d - 10).toUInt8

/-- The last `width` base-`b` digits of `n`, most significant first. -/
def fixed (b : ℕ) : ℕ → ℕ → Bytes
  | 0, _ => []
  | width + 1, n => fixed b width (n / b) ++ [digit (n % b)]

/-- The number of base-`b` digits `printf` needs for `n`, at least one. -/
def width (b n : ℕ) : ℕ := max 1 (Nat.digits b n).length

/-- `%d` of a natural number. -/
def decimal (n : ℕ) : Bytes := fixed 10 (width 10 n) n

/-- `%0wd`: zero-padded to at least `w` characters, the sign counted. -/
def decimalPadded (w : ℕ) (n : ℤ) : Bytes :=
  if 0 ≤ n then fixed 10 (max w (width 10 n.natAbs)) n.natAbs
  else '-'.toUInt8 :: fixed 10 (max (w - 1) (width 10 n.natAbs)) n.natAbs

/-- `%x` of a natural number. -/
def hex (n : ℕ) : Bytes := fixed 16 (width 16 n) n

/-- `%02x` of a byte. -/
def hexByte (b : UInt8) : Bytes := fixed 16 2 b.toNat

theorem mem_fixed {b w n : ℕ} {c : UInt8} (hb : 0 < b) (h : c ∈ fixed b w n) :
    ∃ d < b, c = digit d := by
  induction w generalizing n with
  | zero => simp [fixed] at h
  | succ w ih =>
      simp only [fixed, List.mem_append, List.mem_singleton] at h
      rcases h with h | h
      · exact ih h
      · exact ⟨n % b, Nat.mod_lt n hb, h⟩

theorem length_fixed (b w n : ℕ) : (fixed b w n).length = w := by
  induction w generalizing n with
  | zero => rfl
  | succ w ih => simp [fixed, ih]

theorem digit_inj : ∀ d < 16, ∀ e < 16, digit d = digit e → d = e := by decide

/-- The printed digits determine the number up to the digits that were cut off. -/
theorem fixed_inj {b w m n : ℕ} (hb : 0 < b) (h16 : b ≤ 16) (h : fixed b w m = fixed b w n) :
    m % b ^ w = n % b ^ w := by
  induction w generalizing m n with
  | zero => simp [Nat.mod_one]
  | succ w ih =>
      obtain ⟨hhigh, hlow⟩ := List.append_inj' h rfl
      have hdigit : m % b = n % b :=
        digit_inj _ ((Nat.mod_lt m hb).trans_le h16) _ ((Nat.mod_lt n hb).trans_le h16)
          (List.head_eq_of_cons_eq hlow)
      rw [pow_succ', Nat.mod_mul, Nat.mod_mul, hdigit, ih hhigh]

theorem lt_pow_width {b : ℕ} (hb : 1 < b) (n : ℕ) : n < b ^ width b n :=
  (Nat.lt_base_pow_length_digits hb).trans_le
    (Nat.pow_le_pow_right (Nat.zero_lt_of_lt hb) (le_max_right ..))

theorem width_le {b w n : ℕ} (hb : 1 < b) (hw : 0 < w) (h : n < b ^ w) : width b n ≤ w :=
  max_le hw ((Nat.digits_length_le_iff hb _).mpr h)

/-- A number that fits is printed in as many digits as asked for. -/
theorem decimalPadded_of_lt {w n : ℕ} (hw : 0 < w) (h : n < 10 ^ w) :
    decimalPadded w n = fixed 10 w n := by
  rw [decimalPadded, if_pos (Int.natCast_nonneg n), Int.natAbs_natCast,
    max_eq_left (width_le (by decide) hw h)]

theorem decimal_injective : Function.Injective decimal := by
  intro m n h
  have hwidth : width 10 m = width 10 n := by
    simpa [decimal, length_fixed] using congrArg List.length h
  have hm := lt_pow_width (b := 10) (by decide) m
  have hn := lt_pow_width (b := 10) (by decide) n
  rw [decimal, decimal, hwidth] at h
  rw [hwidth] at hm
  simpa [Nat.mod_eq_of_lt hm, Nat.mod_eq_of_lt hn] using fixed_inj (by decide) (by decide) h

theorem hexByte_injective : Function.Injective hexByte := by
  intro a b h
  have hmod := fixed_inj (by decide) le_rfl h
  have ha := a.toNat_lt
  have hb := b.toNat_lt
  exact UInt8.toNat_inj.mp (by omega)

/-- Bytes printed in hexadecimal one after another can be read back. -/
theorem flatMap_hexByte_inj {s t : Bytes} (h : s.flatMap hexByte = t.flatMap hexByte) : s = t := by
  induction s generalizing t with
  | nil =>
      cases t with
      | nil => rfl
      | cons b t => simp [hexByte, fixed] at h
  | cons a s ih =>
      cases t with
      | nil => simp [hexByte, fixed] at h
      | cons b t =>
          simp only [List.flatMap_cons] at h
          obtain ⟨hhead, htail⟩ := List.append_inj h (by simp [hexByte, length_fixed])
          rw [hexByte_injective hhead, ih htail]

theorem length_flatMap_hexByte (s : Bytes) : (s.flatMap hexByte).length = 2 * s.length := by
  induction s with
  | nil => rfl
  | cons a s ih =>
      simp only [List.flatMap_cons, List.length_append, ih, hexByte, length_fixed,
        List.length_cons]
      omega

end Format
