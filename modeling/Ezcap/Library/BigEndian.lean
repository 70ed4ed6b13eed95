import Mathlib.Algebra.Group.Nat.Defs
import Mathlib.Algebra.Order.Ring.Nat

/-! Numbers that are put together from bytes by shifts, the most significant one first. -/

namespace BigEndian

theorem toNat_shiftLeft_byte (b : UInt8) {n : ℕ} (hn : n ≤ 24) :
    (b.toUInt32 <<< UInt32.ofNat n).toNat = 2 ^ n * b.toNat := by
  have hb := b.toNat_lt
  have hshift : (UInt32.ofNat n).toNat % 32 = n := by
    rw [UInt32.toNat_ofNat']
    omega
  have hlt : 2 ^ n * b.toNat < 2 ^ 32 := by
    calc 2 ^ n * b.toNat
      _ < 2 ^ n * 2 ^ 8 := Nat.mul_lt_mul_of_pos_left hb (Nat.two_pow_pos n)
      _ = 2 ^ (n + 8) := (Nat.pow_add 2 n 8).symm
      _ ≤ 2 ^ 32 := Nat.pow_le_pow_right (by decide) (by omega)
  rw [UInt32.toNat_shiftLeft, hshift, UInt8.toNat_toUInt32, Nat.shiftLeft_eq, Nat.mul_comm,
    Nat.mod_eq_of_lt hlt]

/-- Bytes at different places do not overlap, so joining them is an addition. -/
theorem toNat_join_three (b c d : UInt8) :
    ((b.toUInt32 <<< 16) ||| (c.toUInt32 <<< 8) ||| d.toUInt32).toNat =
      b.toNat * 2 ^ 16 + c.toNat * 2 ^ 8 + d.toNat := by
  have hc := c.toNat_lt
  have hd := d.toNat_lt
  have hb : (b.toUInt32 <<< 16).toNat = 2 ^ 16 * b.toNat := toNat_shiftLeft_byte b (by decide)
  have hmiddle : (c.toUInt32 <<< 8).toNat = 2 ^ 8 * c.toNat := toNat_shiftLeft_byte c (by decide)
  have hhigh : 2 ^ 16 * b.toNat ||| 2 ^ 8 * c.toNat = 2 ^ 8 * (2 ^ 8 * b.toNat + c.toNat) := by
    rw [← Nat.two_pow_add_eq_or_of_lt (by omega)]
    omega
  rw [UInt32.toNat_or, UInt32.toNat_or, UInt8.toNat_toUInt32, hb, hmiddle, hhigh,
    ← Nat.two_pow_add_eq_or_of_lt (by omega)]
  omega

theorem toNat_join (a b c d : UInt8) :
    ((a.toUInt32 <<< 24) ||| (b.toUInt32 <<< 16) ||| (c.toUInt32 <<< 8) ||| d.toUInt32).toNat =
      a.toNat * 2 ^ 24 + b.toNat * 2 ^ 16 + c.toNat * 2 ^ 8 + d.toNat := by
  have hb := b.toNat_lt
  have hc := c.toNat_lt
  have hd := d.toNat_lt
  have ha : (a.toUInt32 <<< 24).toNat = 2 ^ 24 * a.toNat := toNat_shiftLeft_byte a (by decide)
  rw [UInt32.or_assoc, UInt32.or_assoc, ← UInt32.or_assoc (b.toUInt32 <<< 16), UInt32.toNat_or,
    ha, toNat_join_three, ← Nat.two_pow_add_eq_or_of_lt (by omega)]
  omega

theorem join_lt (a b c d : UInt8) :
    a.toNat * 2 ^ 24 + b.toNat * 2 ^ 16 + c.toNat * 2 ^ 8 + d.toNat < 2 ^ 32 := by
  have ha := a.toNat_lt
  have hb := b.toNat_lt
  have hc := c.toNat_lt
  have hd := d.toNat_lt
  omega

end BigEndian
