import Ezcap.Library.JavaScript

/-! The messages that the extension takes from the native host, from `native-messaging.ts` and
`event-model.ts`, up to the events that `background.ts` stores. The warning on a forbidden field
is left out. -/

namespace Ezcap.Extension

open StdString JavaScript

def protocolVersion : ℚ := 1
def eventSchemaVersion : ℚ := 1

/-! ## Messages -/

/-- The message, if it has the shape of one that the host sends. -/
def decodeMessage (raw : Value) : Except Thrown (Option Json) :=
  if typeOf raw ≠ .object ∨ isNull raw then .ok none
  else
    (get raw (cstr "protocol_version")).bind fun version =>
    if numberOf version ≠ some protocolVersion then .ok none
    else
      (get raw (cstr "kind")).bind fun kind =>
      (get raw (cstr "payload")).bind fun payload =>
      if typeOf kind ≠ .string ∨ typeOf payload ≠ .object then .ok none
      else if textOf kind = some (cstr "request") then .ok none
      else if textOf kind = some (cstr "response") ∨ textOf kind = some (cstr "event") ∨
          textOf kind = some (cstr "error") then .ok raw
      else .ok none

/-! ## Events -/

def forbiddenFields : List Bytes :=
  [cstr "payload", cstr "body", cstr "cookies", cstr "authorization", cstr "password",
    cstr "api_key"]

/-- The loop over the forbidden fields, which ends at the first that is there. -/
def hasForbiddenField (event : Value) : List Bytes → Except Thrown Bool
  | [] => .ok false
  | field :: fields =>
      (isIn field event).bind fun found =>
      if found then .ok true else hasForbiddenField event fields

/-- A beginning of the text with one character for each test. -/
def startsWith : List (UInt8 → Bool) → Bytes → Bool
  | [], _ => true
  | _ :: _, [] => false
  | test :: tests, c :: s => test c && startsWith tests s

def digit (c : UInt8) : Bool := '0'.toUInt8 ≤ c && c ≤ '9'.toUInt8

/-- The expression `^\d{4}-\d{2}-\d{2}T`. -/
def datePattern : List (UInt8 → Bool) :=
  [digit, digit, digit, digit, (· == '-'.toUInt8), digit, digit, (· == '-'.toUInt8), digit, digit,
    (· == 'T'.toUInt8)]

/-- The event, if it is one; a returned `null` is `none`. -/
def validateEvent (candidate : Value) : Except Thrown (Option Json) :=
  if typeOf candidate ≠ .object ∨ isNull candidate then .ok none
  else
    (hasForbiddenField candidate forbiddenFields).bind fun forbidden =>
    if forbidden then .ok none
    else
      (get candidate (cstr "schema_version")).bind fun schemaVersion =>
      if numberOf schemaVersion ≠ some eventSchemaVersion then .ok none
      else
        (get candidate (cstr "event_id")).bind fun eventId =>
        if typeOf eventId ≠ .string ∨ textOf eventId = some [] then .ok none
        else
          (get candidate (cstr "event_type")).bind fun eventType =>
          if typeOf eventType ≠ .string then .ok none
          else
            (get candidate (cstr "timestamp")).bind fun timestamp =>
            if typeOf timestamp ≠ .string ∨ ¬ (textOf timestamp).any (startsWith datePattern) then
              .ok none
            else
              (get candidate (cstr "confidence")).bind fun confidence =>
              if typeOf confidence ≠ .number ∨ (numberOf confidence).any (· < 0) ∨
                  (numberOf confidence).any (· > 1) then .ok none
              else
                (get candidate (cstr "privacy")).bind fun privacy =>
                if typeOf privacy = .undefined then .ok none
                else
                  (get privacy (cstr "metadata_only")).bind fun metadataOnly =>
                  if booleanOf metadataOnly ≠ some true then .ok none else .ok candidate

/-- The event that is stored for a message; only messages of this kind have a handler. -/
def handleMessage (raw : Value) : Except Thrown (Option Json) :=
  (decodeMessage raw).bind fun message =>
    match message with
    | none => .ok none
    | some message =>
        (get (some message) (cstr "kind")).bind fun kind =>
        if textOf kind = some (cstr "event") then
          (get (some message) (cstr "payload")).bind validateEvent
        else .ok none

end Ezcap.Extension
