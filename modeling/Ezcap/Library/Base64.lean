import Ezcap.Library.StdString
import Mathlib.Algebra.Order.Ring.Nat

/-! The padded base 64 encoding of RFC 4648. -/

namespace Base64

open StdString

def alphabet : Bytes := cstr "ABCDEFGHIJKLMNOPQRSTUVWXYZabcdefghijklmnopqrstuvwxyz0123456789+/"

/-- The symbol for the low six bits of a number. -/
def symbol (n : ℕ) : UInt8 := alphabet.getD (n % 64) 0

def pad : UInt8 := '='.toUInt8

/-- The four symbols of 24 bits. -/
def group (n : ℕ) : Bytes := [symbol (n / 64 ^ 3), symbol (n / 64 ^ 2), symbol (n / 64), symbol n]

/-- A last group of fewer than 24 bits is filled up with zero bits, and symbols that hold none of
its own bits are padding. -/
def encode : Bytes → Bytes
  | [] => []
  | [a] => (group (a.toNat * 256 ^ 2)).take 2 ++ [pad, pad]
  | [a, b] => (group (a.toNat * 256 ^ 2 + b.toNat * 256)).take 3 ++ [pad]
  | a :: b :: c :: rest =>
      group (a.toNat * 256 ^ 2 + b.toNat * 256 + c.toNat) ++ encode rest

/-! ## Decoding -/

def value (c : UInt8) : Option ℕ := alphabet.findIdx? (· == c)

/-- The three bytes of 24 bits. -/
def ungroup (n : ℕ) : Bytes := [UInt8.ofNat (n / 256 ^ 2), UInt8.ofNat (n / 256), UInt8.ofNat n]

/-- The bytes of four symbols, of which the last one or two may be padding. -/
def decodeGroup (w x y z : UInt8) : Option Bytes :=
  (value w).bind fun w => (value x).bind fun x =>
    if y = pad ∧ z = pad then some ((ungroup (w * 64 ^ 3 + x * 64 ^ 2)).take 1)
    else (value y).bind fun y =>
      if z = pad then some ((ungroup (w * 64 ^ 3 + x * 64 ^ 2 + y * 64)).take 2)
      else (value z).map fun z => ungroup (w * 64 ^ 3 + x * 64 ^ 2 + y * 64 + z)

/-- There is padding in the last group only. -/
def decode : Bytes → Option Bytes
  | [] => some []
  | w :: x :: y :: z :: rest =>
      (decodeGroup w x y z).bind fun bytes =>
        if rest = [] then some bytes
        else if bytes.length = 3 then (decode rest).map (bytes ++ ·)
        else none
  | _ => none

theorem value_symbol (n : ℕ) : value (symbol n) = some (n % 64) := by
  have hall : ∀ k < 64, value (alphabet.getD k 0) = some k := by decide +kernel
  exact hall (n % 64) (Nat.mod_lt n (by decide))

theorem symbol_ne_pad (n : ℕ) : symbol n ≠ pad := by
  have hall : ∀ k < 64, alphabet.getD k 0 ≠ pad := by decide +kernel
  exact hall (n % 64) (Nat.mod_lt n (by decide))

theorem ofNat_eq {n : ℕ} {b : UInt8} (h : n % 256 = b.toNat) : UInt8.ofNat n = b := by
  apply UInt8.toNat_inj.mp
  rw [UInt8.toNat_ofNat', ← h]

theorem decodeGroup_one (a : UInt8) :
    decodeGroup (symbol (a.toNat * 256 ^ 2 / 64 ^ 3)) (symbol (a.toNat * 256 ^ 2 / 64 ^ 2))
      pad pad = some [a] := by
  have ha := a.toNat_lt
  simp only [decodeGroup, value_symbol, Option.bind_some, and_self, if_true, ungroup,
    List.take_succ_cons, List.take_zero]
  rw [ofNat_eq (b := a) (by omega)]

theorem decodeGroup_two (a b : UInt8) :
    decodeGroup (symbol ((a.toNat * 256 ^ 2 + b.toNat * 256) / 64 ^ 3))
      (symbol ((a.toNat * 256 ^ 2 + b.toNat * 256) / 64 ^ 2))
      (symbol ((a.toNat * 256 ^ 2 + b.toNat * 256) / 64)) pad = some [a, b] := by
  have ha := a.toNat_lt
  have hb := b.toNat_lt
  simp only [decodeGroup, value_symbol, Option.bind_some, symbol_ne_pad, false_and, if_false,
    if_true, ungroup, List.take_succ_cons, List.take_zero]
  rw [ofNat_eq (b := a) (by omega), ofNat_eq (b := b) (by omega)]

theorem decodeGroup_three (a b c : UInt8) :
    decodeGroup (symbol ((a.toNat * 256 ^ 2 + b.toNat * 256 + c.toNat) / 64 ^ 3))
      (symbol ((a.toNat * 256 ^ 2 + b.toNat * 256 + c.toNat) / 64 ^ 2))
      (symbol ((a.toNat * 256 ^ 2 + b.toNat * 256 + c.toNat) / 64))
      (symbol (a.toNat * 256 ^ 2 + b.toNat * 256 + c.toNat)) = some [a, b, c] := by
  have ha := a.toNat_lt
  have hb := b.toNat_lt
  have hc := c.toNat_lt
  simp only [decodeGroup, value_symbol, Option.bind_some, symbol_ne_pad, false_and, if_false,
    Option.map_some, ungroup]
  rw [ofNat_eq (b := a) (by omega), ofNat_eq (b := b) (by omega), ofNat_eq (b := c) (by omega)]

theorem decode_encode (s : Bytes) : decode (encode s) = some s := by
  induction s using encode.induct with
  | case1 => rfl
  | case2 a =>
      simp only [encode, group, List.take_succ_cons, List.take_zero, List.cons_append,
        List.nil_append, decode, decodeGroup_one, Option.bind_some, if_true]
  | case3 a b =>
      simp only [encode, group, List.take_succ_cons, List.take_zero, List.cons_append,
        List.nil_append, decode, decodeGroup_two, Option.bind_some, if_true]
  | case4 a b c rest ih =>
      simp only [encode, group, List.cons_append, List.nil_append, decode, decodeGroup_three,
        Option.bind_some]
      split_ifs with hlast
      · cases rest with
        | nil => rfl
        | cons d rest =>
            rw [hlast] at ih
            cases ih
      · rw [ih]
        rfl
      · contradiction

theorem encode_injective : Function.Injective encode := by
  intro s t h
  have hs := decode_encode s
  rw [h, decode_encode] at hs
  exact (Option.some.inj hs).symm

end Base64
