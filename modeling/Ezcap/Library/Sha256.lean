import Ezcap.Library.BlockStream
import Ezcap.Library.StdString
import Mathlib.Algebra.Order.Ring.Nat

/-! The Secure Hash Standard's SHA-256, for messages of whole bytes. -/

namespace Sha256Standard

/-! ## Functions and constants -/

def rotr (n : ℕ) (x : UInt32) : UInt32 := ⟨x.toBitVec.rotateRight n⟩

def shr (n : ℕ) (x : UInt32) : UInt32 := ⟨x.toBitVec >>> n⟩

def ch (x y z : UInt32) : UInt32 := (x &&& y) ^^^ (~~~x &&& z)

def maj (x y z : UInt32) : UInt32 := (x &&& y) ^^^ (x &&& z) ^^^ (y &&& z)

def bigSigma0 (x : UInt32) : UInt32 := rotr 2 x ^^^ rotr 13 x ^^^ rotr 22 x

def bigSigma1 (x : UInt32) : UInt32 := rotr 6 x ^^^ rotr 11 x ^^^ rotr 25 x

def smallSigma0 (x : UInt32) : UInt32 := rotr 7 x ^^^ rotr 18 x ^^^ shr 3 x

def smallSigma1 (x : UInt32) : UInt32 := rotr 17 x ^^^ rotr 19 x ^^^ shr 10 x

def constants : List UInt32 :=
  [0x428a2f98, 0x71374491, 0xb5c0fbcf, 0xe9b5dba5, 0x3956c25b, 0x59f111f1, 0x923f82a4, 0xab1c5ed5,
   0xd807aa98, 0x12835b01, 0x243185be, 0x550c7dc3, 0x72be5d74, 0x80deb1fe, 0x9bdc06a7, 0xc19bf174,
   0xe49b69c1, 0xefbe4786, 0x0fc19dc6, 0x240ca1cc, 0x2de92c6f, 0x4a7484aa, 0x5cb0a9dc, 0x76f988da,
   0x983e5152, 0xa831c66d, 0xb00327c8, 0xbf597fc7, 0xc6e00bf3, 0xd5a79147, 0x06ca6351, 0x14292967,
   0x27b70a85, 0x2e1b2138, 0x4d2c6dfc, 0x53380d13, 0x650a7354, 0x766a0abb, 0x81c2c92e, 0x92722c85,
   0xa2bfe8a1, 0xa81a664b, 0xc24b8b70, 0xc76c51a3, 0xd192e819, 0xd6990624, 0xf40e3585, 0x106aa070,
   0x19a4c116, 0x1e376c08, 0x2748774c, 0x34b0bcb5, 0x391c0cb3, 0x4ed8aa4a, 0x5b9cca4f, 0x682e6ff3,
   0x748f82ee, 0x78a5636f, 0x84c87814, 0x8cc70208, 0x90befffa, 0xa4506ceb, 0xbef9a3f7, 0xc67178f2]

/-- Eight words: a hash value, or the working variables of the rounds. -/
structure Words where
  a : UInt32
  b : UInt32
  c : UInt32
  d : UInt32
  e : UInt32
  f : UInt32
  g : UInt32
  h : UInt32
  deriving DecidableEq

def Words.toList (w : Words) : List UInt32 := [w.a, w.b, w.c, w.d, w.e, w.f, w.g, w.h]

def initial : Words :=
  ⟨0x6a09e667, 0xbb67ae85, 0x3c6ef372, 0xa54ff53a, 0x510e527f, 0x9b05688c, 0x1f83d9ab, 0x5be0cd19⟩

/-- The first 64 primes. A composite number below 312 has a divisor below 18. -/
def primes : List ℕ :=
  (List.range 312).filter fun n =>
    decide (2 ≤ n) && (List.range 18).all fun d => d < 2 || d == n || n % d != 0

/-- `bits` are the first 32 bits of the fractional part of the `root`-th root of `n`. -/
def IsFraction (root n : ℕ) (bits : UInt32) : Prop :=
  ∃ whole < 32, (whole * 2 ^ 32 + bits.toNat) ^ root ≤ n * 2 ^ (32 * root) ∧
    n * 2 ^ (32 * root) < (whole * 2 ^ 32 + bits.toNat + 1) ^ root

instance (root n : ℕ) (bits : UInt32) : Decidable (IsFraction root n bits) :=
  inferInstanceAs (Decidable (∃ whole < 32, _))

/-- The round constants come from the cube roots of the first 64 primes. -/
theorem constants_fractions : List.Forall₂ (IsFraction 3) primes constants := by decide +kernel

/-- The initial hash value comes from the square roots of the first eight. -/
theorem initial_fractions : List.Forall₂ (IsFraction 2) (primes.take 8) initial.toList := by
  decide +kernel

/-! ## The hash computation -/

/-- The `i`-th word of a block, most significant byte first. -/
def word (block : Bytes) (i : ℕ) : UInt32 :=
  UInt32.ofNat ((block.getD (4 * i) 0).toNat * 2 ^ 24 + (block.getD (4 * i + 1) 0).toNat * 2 ^ 16 +
    (block.getD (4 * i + 2) 0).toNat * 2 ^ 8 + (block.getD (4 * i + 3) 0).toNat)

/-- The message schedule of a block. -/
def schedule (m : ℕ → UInt32) (t : ℕ) : UInt32 :=
  if t < 16 then m t
  else smallSigma1 (schedule m (t - 2)) + schedule m (t - 7) + smallSigma0 (schedule m (t - 15)) +
    schedule m (t - 16)

def round (k w : UInt32) (v : Words) : Words :=
  let t1 := v.h + bigSigma1 v.e + ch v.e v.f v.g + k + w
  let t2 := bigSigma0 v.a + maj v.a v.b v.c
  ⟨t1 + t2, v.a, v.b, v.c, v.d + t1, v.e, v.f, v.g⟩

/-- The working variables after `t` rounds. -/
def rounds (m : ℕ → UInt32) (v : Words) : ℕ → Words
  | 0 => v
  | t + 1 => round (constants.getD t 0) (schedule m t) (rounds m v t)

def Words.add (v w : Words) : Words :=
  ⟨v.a + w.a, v.b + w.b, v.c + w.c, v.d + w.d, v.e + w.e, v.f + w.f, v.g + w.g, v.h + w.h⟩

/-- The hash value after a further block. -/
def compress (hash : Words) (block : Bytes) : Words := (rounds (word block) hash 64).add hash

/-! ## Preprocessing -/

/-- How many zero bytes follow the byte `0x80`. -/
def zeros (length : ℕ) : ℕ := (119 - length % 64) % 64

/-- In bits, as the standard has it: seven and those bytes are the smallest number of zeros with
which a message of that length and a one leave room for the length in the last block. -/
theorem zeros_minimal (length : ℕ) :
    (8 * length + 1 + (7 + 8 * zeros length)) % 512 = 448 ∧
      ∀ k, (8 * length + 1 + k) % 512 = 448 → 7 + 8 * zeros length ≤ k := by
  unfold zeros
  constructor
  · omega
  · intro k hk
    omega

/-- A number in `width` bytes, most significant first. -/
def bigEndian (width n : ℕ) : Bytes :=
  (List.range width).map fun i => UInt8.ofNat (n / 256 ^ (width - 1 - i))

def pad (message : Bytes) : Bytes :=
  message ++ 0x80 :: (List.replicate (zeros message.length) 0 ++ bigEndian 8 (8 * message.length))

theorem length_pad_mod (message : Bytes) : (pad message).length % 64 = 0 := by
  simp only [pad, bigEndian, List.length_append, List.length_cons, List.length_replicate,
    List.length_map, List.length_range, zeros]
  omega

/-- The digest of a message. -/
def digest (message : Bytes) : Bytes :=
  (BlockStream.absorb compress 64 initial (pad message)).1.toList.flatMap fun w =>
    bigEndian 4 w.toNat

end Sha256Standard
