import Ezcap.Library.Control
import Ezcap.Library.Sha256

/-! The streaming hash, from `sha256.cpp`, and the check of script pins, from
`manifest_hash.cpp`. -/

namespace Ezcap

open StdString Sha256Standard

/-- `state_` is kept as eight words with names. -/
structure Sha256 where
  state : Words
  totalBits : UInt64
  buffer : Bytes
  bufferUsed : ℕ
  deriving DecidableEq

namespace Sha256

def kRoundConstants : List UInt32 :=
  [0x428a2f98, 0x71374491, 0xb5c0fbcf, 0xe9b5dba5, 0x3956c25b,
   0x59f111f1, 0x923f82a4, 0xab1c5ed5, 0xd807aa98, 0x12835b01,
   0x243185be, 0x550c7dc3, 0x72be5d74, 0x80deb1fe, 0x9bdc06a7,
   0xc19bf174, 0xe49b69c1, 0xefbe4786, 0x0fc19dc6, 0x240ca1cc,
   0x2de92c6f, 0x4a7484aa, 0x5cb0a9dc, 0x76f988da, 0x983e5152,
   0xa831c66d, 0xb00327c8, 0xbf597fc7, 0xc6e00bf3, 0xd5a79147,
   0x06ca6351, 0x14292967, 0x27b70a85, 0x2e1b2138, 0x4d2c6dfc,
   0x53380d13, 0x650a7354, 0x766a0abb, 0x81c2c92e, 0x92722c85,
   0xa2bfe8a1, 0xa81a664b, 0xc24b8b70, 0xc76c51a3, 0xd192e819,
   0xd6990624, 0xf40e3585, 0x106aa070, 0x19a4c116, 0x1e376c08,
   0x2748774c, 0x34b0bcb5, 0x391c0cb3, 0x4ed8aa4a, 0x5b9cca4f,
   0x682e6ff3, 0x748f82ee, 0x78a5636f, 0x84c87814, 0x8cc70208,
   0x90befffa, 0xa4506ceb, 0xbef9a3f7, 0xc67178f2]

def rotateRight (value bits : UInt32) : UInt32 := (value >>> bits) ||| (value <<< (32 - bits))

/-- The object after `reset`, which is also the one that the constructor makes. -/
def reset : Sha256 where
  state :=
    ⟨0x6a09e667, 0xbb67ae85, 0x3c6ef372, 0xa54ff53a, 0x510e527f, 0x9b05688c, 0x1f83d9ab, 0x5be0cd19⟩
  totalBits := 0
  buffer := List.replicate 64 0
  bufferUsed := 0

/-! ## Blocks -/

/-- `w[i]` for the first sixteen. -/
def blockWord (block : Bytes) (i : ℕ) : UInt32 :=
  ((block.getD (i * 4) 0).toUInt32 <<< 24) ||| ((block.getD (i * 4 + 1) 0).toUInt32 <<< 16) |||
    ((block.getD (i * 4 + 2) 0).toUInt32 <<< 8) ||| (block.getD (i * 4 + 3) 0).toUInt32

/-- `w[i]` for the others, from those before it. -/
def scheduleWord (w : List UInt32) (i : ℕ) : UInt32 :=
  let w15 := w.getD (i - 15) 0
  let w2 := w.getD (i - 2) 0
  let s0 := rotateRight w15 7 ^^^ rotateRight w15 18 ^^^ (w15 >>> 3)
  let s1 := rotateRight w2 17 ^^^ rotateRight w2 19 ^^^ (w2 >>> 10)
  w.getD (i - 16) 0 + s0 + w.getD (i - 7) 0 + s1

/-- The array `w`, filled from its start. -/
def messageSchedule (block : Bytes) : List UInt32 :=
  (List.range' 16 48).foldl (fun w i => w ++ [scheduleWord w i])
    ((List.range 16).map (blockWord block))

/-- A turn of the loop over the working variables. -/
def round (w : List UInt32) (v : Words) (i : ℕ) : Words :=
  let s1 := rotateRight v.e 6 ^^^ rotateRight v.e 11 ^^^ rotateRight v.e 25
  let ch := (v.e &&& v.f) ^^^ (~~~v.e &&& v.g)
  let temp1 := v.h + s1 + ch + kRoundConstants.getD i 0 + w.getD i 0
  let s0 := rotateRight v.a 2 ^^^ rotateRight v.a 13 ^^^ rotateRight v.a 22
  let maj := (v.a &&& v.b) ^^^ (v.a &&& v.c) ^^^ (v.b &&& v.c)
  let temp2 := s0 + maj
  { h := v.g, g := v.f, f := v.e, e := v.d + temp1, d := v.c, c := v.b, b := v.a,
    a := temp1 + temp2 }

def processBlock (hash : Sha256) (block : Bytes) : Sha256 :=
  let w := messageSchedule block
  let v := (List.range 64).foldl (round w) hash.state
  { hash with
    state :=
      { a := hash.state.a + v.a, b := hash.state.b + v.b, c := hash.state.c + v.c,
        d := hash.state.d + v.d, e := hash.state.e + v.e, f := hash.state.f + v.f,
        g := hash.state.g + v.g, h := hash.state.h + v.h } }

/-! ## Updates -/

/-- `memcpy(buffer_ + at, bytes, size)`. -/
def copyToBuffer (buffer : Bytes) (start : ℕ) (bytes : Bytes) : Bytes :=
  buffer.take start ++ bytes ++ buffer.drop (start + bytes.length)

/-- The first part of `update`: the partial buffer is filled. What is left of the data is returned
with the object. -/
def fillBuffer (hash : Sha256) (bytes : Bytes) : Sha256 × Bytes :=
  if hash.bufferUsed > 0 then
    let need := 64 - hash.bufferUsed
    let take := min need bytes.length
    let hash := { hash with
      buffer := copyToBuffer hash.buffer hash.bufferUsed (bytes.take take)
      bufferUsed := hash.bufferUsed + take }
    let bytes := bytes.drop take
    if hash.bufferUsed = 64 then ({ hash.processBlock hash.buffer with bufferUsed := 0 }, bytes)
    else (hash, bytes)
  else (hash, bytes)

/-- The loop over whole blocks. Each turn takes 64 bytes, so there are no more turns than bytes. -/
def wholeBlocks : ℕ → Sha256 → Bytes → Sha256 × Bytes
  | 0, hash, bytes => (hash, bytes)
  | turns + 1, hash, bytes =>
      if bytes.length ≥ 64 then
        wholeBlocks turns (hash.processBlock (bytes.take 64)) (bytes.drop 64)
      else (hash, bytes)

def update (hash : Sha256) (data : Bytes) : Sha256 :=
  let hash := { hash with totalBits := hash.totalBits + UInt64.ofNat data.length * 8 }
  let (hash, bytes) := hash.fillBuffer data
  let (hash, bytes) := wholeBlocks bytes.length hash bytes
  if bytes.length > 0 then
    { hash with buffer := copyToBuffer hash.buffer 0 bytes, bufferUsed := bytes.length }
  else hash

/-! ## The digest -/

/-- A turn of the loop that pads with zero bytes. -/
def zeroTurn (hash : Sha256) : Option (Loop.Turn Sha256 Empty) :=
  some (if hash.bufferUsed ≠ 56 then .next (hash.update [0]) else .leave hash)

def lengthBytes (bits : UInt64) : Bytes :=
  (List.range 8).map fun i => (bits >>> UInt64.ofNat (56 - i * 8)).toUInt8

def wordBytes (w : UInt32) : Bytes :=
  [(w >>> 24).toUInt8, (w >>> 16).toUInt8, (w >>> 8).toUInt8, w.toUInt8]

/-- `final`: the digest and the object after it. -/
def final (fuel : ℕ) (hash : Sha256) : Option (Bytes × Sha256) :=
  let bits := hash.totalBits
  (Loop.run zeroTurn fuel (hash.update [0x80])).bind fun
    | .inl hash =>
        let hash := { hash with totalBits := bits }.update (lengthBytes bits)
        some (hash.state.toList.flatMap wordBytes, reset)
    | .inr r => r.elim

def digest (fuel : ℕ) (text : Bytes) : Option Bytes :=
  (final fuel (reset.update text)).map Prod.fst

def kHex : Bytes := cstr "0123456789abcdef"

def hexDigest (fuel : ℕ) (text : Bytes) : Option Bytes :=
  (digest fuel text).map fun raw =>
    raw.flatMap fun (byte : UInt8) =>
      [kHex.getD (byte >>> 4).toNat 0, kHex.getD (byte &&& 0x0f).toNat 0]

end Sha256

end Ezcap
