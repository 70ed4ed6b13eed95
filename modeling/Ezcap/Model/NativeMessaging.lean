import Ezcap.Library.Transfer
import Ezcap.Model.NativeHost

/-! The frames between the browser and the native host, from `message_writer.cpp` and
`message_reader.cpp`: four bytes of length and then the text, over descriptors that may move any
part of what a call asks for. -/

namespace Ezcap.NativeHost

open StdString Transfer

namespace MessageWriter

/-- The four bytes of the length, lowest first. -/
def lengthBytes (length : UInt32) : Bytes :=
  [(length &&& 0xFF).toUInt8, ((length >>> 8) &&& 0xFF).toUInt8,
   ((length >>> 16) &&& 0xFF).toUInt8, ((length >>> 24) &&& 0xFF).toUInt8]

def frame (payload : Bytes) : Bytes := lengthBytes (UInt32.ofNat payload.length) ++ payload

def write (answers : List Answer) (payload : Bytes) : Written UInt8 :=
  if writable payload then writeAll answers (frame payload) else ⟨[], some false, answers⟩

/-- One call after another: what they return, and all that they have written. -/
def writeEach : List Answer → List Bytes → List (Option Bool) × Bytes
  | _, [] => ([], [])
  | answers, payload :: payloads =>
      let written := write answers payload
      let later := writeEach written.answers payloads
      (written.result :: later.1, written.output ++ later.2)

end MessageWriter

namespace MessageReader

def lengthOf (prefix0 prefix1 prefix2 prefix3 : UInt8) : UInt32 :=
  prefix0.toUInt32 ||| prefix1.toUInt32 <<< 8 ||| prefix2.toUInt32 <<< 16 |||
    prefix3.toUInt32 <<< 24

/-- How many bytes follow a first byte. -/
def extraOf (c : UInt8) : Option ℕ :=
  if c < 0x80 then some 0
  else if c &&& 0xE0 = 0xC0 then some 1
  else if c &&& 0xF0 = 0xE0 then some 2
  else if c &&& 0xF8 = 0xF0 then some 3
  else none

def continues (cc : UInt8) : Bool := cc &&& 0xC0 = 0x80

/-- The loop that checks the text from some position on. -/
def scanLoop : ℕ → Bytes → Bool
  | _, [] => true
  | 0, _ :: _ => false
  | fuel + 1, c :: rest =>
      match extraOf c with
      | none => false
      | some extra =>
          if rest.length < extra then false
          else (rest.take extra).all continues && scanLoop fuel (rest.drop extra)

/-- Every turn of the loop passes a byte at least, so the length is fuel enough. -/
def scan (text : Bytes) : Bool := scanLoop text.length text

/-- What a call returns, what it leaves in the stream, and the answers that are left. -/
structure Received where
  result : Option (Except Bytes Bytes)
  stream : Bytes
  answers : List Answer

/-- The rest of `read`, after the length. -/
def readPayload (length : UInt32) (answers : List Answer) (stream : Bytes) : Received :=
  if length = 0 then ⟨some (.error (cstr "invalid_framing")), stream, answers⟩
  else if length.toNat > kMaxMessageBytes then
    ⟨some (.error (cstr "message_too_large")), stream, answers⟩
  else
    let body := readExact answers length.toNat stream
    let result :=
      match body.result with
      | none => none
      | some false => some (.error (cstr "eof"))
      | some true =>
          some (if scan body.data then .ok body.data else .error (cstr "invalid_json"))
    ⟨result, body.stream, body.answers⟩

/-- A loop that read all of the prefix has read four bytes, so the last case is the end. -/
def read (answers : List Answer) (stream : Bytes) : Received :=
  let head := readExact answers 4 stream
  match head.result, head.data with
  | some true, [prefix0, prefix1, prefix2, prefix3] =>
      readPayload (lengthOf prefix0 prefix1 prefix2 prefix3) head.answers head.stream
  | none, _ => ⟨none, head.stream, head.answers⟩
  | _, _ => ⟨some (.error (cstr "eof")), head.stream, head.answers⟩

/-- One call after another. -/
def readEach : ℕ → List Answer → Bytes → List (Option (Except Bytes Bytes))
  | 0, _, _ => []
  | calls + 1, answers, stream =>
      let received := read answers stream
      received.result :: readEach calls received.answers received.stream

end MessageReader

end Ezcap.NativeHost
