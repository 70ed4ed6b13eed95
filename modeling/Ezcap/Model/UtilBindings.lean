import Ezcap.Library.Lua
import Ezcap.Model.Sha256

/-! `lezcap.util.sha256_hex` and `lezcap.util.base64_encode`, from `lezcap.cpp`. A function that
returns a string answers `ok`, one that returns nil and a message answers `error`. -/

namespace Ezcap.Drivers

open StdString Lua

/-- `max_string_bytes` of the host's limits, or the default where there is no host. -/
def maxStringBytes (limit : Option ℕ) : ℕ := limit.getD (8 * 1024)

/-- `check_string`: the length is taken up to the first NUL. -/
def checkString (numbers : Numbers) (stack : Stack) (index : ℤ) (maxBytes : ℕ) :
    Except Bytes Bytes :=
  match (at? stack index).bind (tostring numbers) with
  | none => .error (cstr "argument.type: expected a string")
  | some (raw, _) =>
      if (untilNul raw).length > maxBytes then
        .error (cstr "argument.too_long: string exceeds the sandbox limit")
      else .ok (untilNul raw)

/-- `util_sha256_hex`, with the fuel of the hash. -/
def utilSha256Hex (fuel : ℕ) (numbers : Numbers) (limit : Option ℕ) (stack : Stack) :
    Option (Except Bytes Bytes) :=
  match checkString numbers stack 1 (maxStringBytes limit) with
  | .error error => some (.error error)
  | .ok input => (Sha256.hexDigest fuel input).map .ok

def kAlphabet : Bytes := cstr "ABCDEFGHIJKLMNOPQRSTUVWXYZabcdefghijklmnopqrstuvwxyz0123456789+/"

/-- `kAlphabet[(n >> bits) & 0x3f]`. -/
def sextet (n bits : UInt32) : UInt8 := kAlphabet.getD ((n >>> bits) &&& 0x3f).toNat 0

def byteAt (input : Bytes) (i : ℕ) : UInt32 := (input.getD i 0).toUInt32

/-- The loop over three bytes at a time: the index behind them, and what is encoded. There are no
more turns than bytes. -/
def encodeTriples (input : Bytes) : ℕ → ℕ → Bytes → ℕ × Bytes
  | 0, i, encoded => (i, encoded)
  | turns + 1, i, encoded =>
      if i + 2 < input.length then
        let triple :=
          (byteAt input i <<< 16) ||| (byteAt input (i + 1) <<< 8) ||| byteAt input (i + 2)
        encodeTriples input turns (i + 3)
          (encoded ++ [sextet triple 18, sextet triple 12, sextet triple 6, sextet triple 0])
      else (i, encoded)

/-- The body of `util_base64_encode`. -/
def base64Encode (input : Bytes) : Bytes :=
  let (i, encoded) := encodeTriples input input.length 0 []
  if i + 1 = input.length then
    let pair := byteAt input i <<< 16
    encoded ++ [sextet pair 18, sextet pair 12] ++ cstr "=="
  else if i + 2 = input.length then
    let pair := (byteAt input i <<< 16) ||| (byteAt input (i + 1) <<< 8)
    encoded ++ [sextet pair 18, sextet pair 12, sextet pair 6] ++ cstr "="
  else encoded

def utilBase64Encode (numbers : Numbers) (limit : Option ℕ) (stack : Stack) :
    Except Bytes Bytes :=
  (checkString numbers stack 1 (maxStringBytes limit)).map base64Encode

end Ezcap.Drivers
