import Ezcap.Library.StdString
import Mathlib.Algebra.Group.Nat.Defs
import Mathlib.Algebra.Order.Ring.Nat

/-! Numbers as little-endian bytes, and a byte memory that holds them. -/

namespace LittleEndian

open StdString

/-- The low `width` bytes of a number. -/
def encode : ℕ → ℕ → Bytes
  | 0, _ => []
  | width + 1, n => UInt8.ofNat n :: encode width (n / 256)

def decode : Bytes → ℕ
  | [] => 0
  | b :: bytes => b.toNat + 256 * decode bytes

@[simp] theorem length_encode (width n : ℕ) : (encode width n).length = width := by
  induction width generalizing n with
  | zero => rfl
  | succ width ih => rw [encode, List.length_cons, ih]

theorem decode_encode (width n : ℕ) : decode (encode width n) = n % 256 ^ width := by
  induction width generalizing n with
  | zero => simp [encode, decode, Nat.mod_one]
  | succ width ih =>
      have hsplit : n % 256 ^ (width + 1) = n % 256 + 256 * (n / 256 % 256 ^ width) := by
        rw [Nat.pow_succ', Nat.mod_mul]
      rw [encode, decode, ih, UInt8.toNat_ofNat', hsplit]

/-- Joining a byte to the bits above it is an addition. -/
theorem or_shiftLeft {low width : ℕ} (h : low < 2 ^ width) (high : ℕ) :
    low ||| high <<< width = low + 2 ^ width * high := by
  rw [Nat.or_comm, ← Nat.shiftLeft_add_eq_or_of_lt h, Nat.shiftLeft_eq, Nat.add_comm,
    Nat.mul_comm]

/-! ## Memory -/

/-- A memory of bytes. -/
abbrev Memory := ℕ → UInt8

def bytesAt (memory : Memory) (address width : ℕ) : Bytes :=
  (List.range width).map fun i => memory (address + i)

def store (memory : Memory) (address : ℕ) (bytes : Bytes) : Memory :=
  fun i => if address ≤ i then (bytes[i - address]?).getD (memory i) else memory i

/-- Places that do not overlap. -/
def Apart (address width address' width' : ℕ) : Prop :=
  address + width ≤ address' ∨ address' + width' ≤ address

section Memory

variable (memory : Memory) {address address' width : ℕ}

theorem bytesAt_store (address : ℕ) (bytes : Bytes) :
    bytesAt (store memory address bytes) address bytes.length = bytes := by
  refine List.ext_getElem (by simp [bytesAt]) fun i hi hi' => ?_
  simp [bytesAt, store, hi']

theorem bytesAt_store_of_disjoint {bytes : Bytes}
    (h : Apart address width address' bytes.length) :
    bytesAt (store memory address' bytes) address width = bytesAt memory address width := by
  refine List.map_congr_left fun i hi => ?_
  rw [List.mem_range] at hi
  unfold store
  split
  · rename_i hle
    have hout : bytes.length ≤ address + i - address' := by
      rcases h with h | h <;> omega
    rw [List.getElem?_eq_none hout, Option.getD_none]
  · rfl

/-- A word of eight bytes. -/
def loadWord (memory : Memory) (address : ℕ) : UInt64 :=
  UInt64.ofNat (decode (bytesAt memory address 8))

def storeWord (memory : Memory) (address : ℕ) (word : UInt64) : Memory :=
  store memory address (encode 8 word.toNat)

@[simp] theorem loadWord_storeWord (address : ℕ) (word : UInt64) :
    loadWord (storeWord memory address word) address = word := by
  have hbytes := bytesAt_store memory address (encode 8 word.toNat)
  rw [length_encode] at hbytes
  have hlt : word.toNat < 256 ^ 8 := Nat.lt_of_lt_of_eq word.toNat_lt (by decide)
  rw [loadWord, storeWord, hbytes, decode_encode, Nat.mod_eq_of_lt hlt, UInt64.ofNat_toNat]

theorem loadWord_store {bytes : Bytes} (h : Apart address 8 address' bytes.length) :
    loadWord (store memory address' bytes) address = loadWord memory address := by
  rw [loadWord, bytesAt_store_of_disjoint memory h, loadWord]

theorem loadWord_storeWord_of_disjoint (word : UInt64) (h : Apart address 8 address' 8) :
    loadWord (storeWord memory address' word) address = loadWord memory address :=
  loadWord_store memory (by rwa [length_encode])

end Memory

end LittleEndian
