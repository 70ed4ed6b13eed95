import Ezcap.Library.InPlace
import Ezcap.Model.Bindings

/-! Driver manifests and their parser, from `manifest.hpp` and `manifest.cpp`. The parser writes
into the object that it is given, one member of the document after the other. -/

namespace Ezcap.Manifests

open StdString InPlace
open Drivers (Capability)

structure DriverManifest where
  name : Bytes := []
  version : Bytes := []
  scriptPath : Bytes := []
  description : Bytes := []
  capabilities : Finset Capability := ∅
  eventTypes : List Bytes := []
  maxEndpoints : UInt32 := 8
  maxSubscriptions : UInt32 := 16
  scriptSha256 : Bytes := []
  deriving DecidableEq

def kMaxManifestFieldLength : ℕ := 512

def kMaxManifestEventTypes : ℕ := 16

/-! ## Texts -/

def validName (name : Bytes) : Bool :=
  name != [] && decide (name.length ≤ 64) && name.all fun c => isalnum c || c == '-'.toUInt8

def validVersion (version : Bytes) : Bool := DottedNumber.scan 3 version 0 []

def validScript (path : Bytes) : Bool := path != [] && decide (path.length ≤ 4096)

def validSha256Hex (hash : Bytes) : Bool :=
  decide (hash.length = 64) &&
    hash.all fun c => isdigit c || ('a'.toUInt8 ≤ c && c ≤ 'f'.toUInt8)

def capabilityFromName (name : Bytes) : Option Capability :=
  if name = cstr "events" then some .events
  else if name = cstr "capture" then some .capture
  else if name = cstr "dns" then some .dns
  else if name = cstr "process" then some .process
  else if name = cstr "policy" then some .policy
  else if name = cstr "endpoint" then some .endpoint
  else if name = cstr "spec" then some .spec
  else if name = cstr "log" then some .log
  else if name = cstr "util" then some .util
  else if name = cstr "status" then some .status
  else none

/-! ## Members -/

/-- A member that has to be a string. It is written before it is checked. -/
def requiredString (doc : Json) (key : String) (set : DriverManifest → Bytes → DriverManifest)
    (valid : Bytes → Bool) (message : String) : Step DriverManifest Bytes := fun out =>
  match (doc.field? (cstr key)).bind Json.string? with
  | none => (out, cstr "manifest." ++ cstr key ++ cstr " is required")
  | some value => (set out value, if valid value then none else cstr message)

def boundedString (doc : Json) (key : String) (set : DriverManifest → Bytes → DriverManifest) :
    Step DriverManifest Bytes := fun out =>
  match doc.field? (cstr key) with
  | none => (out, none)
  | some value =>
      match value.string? with
      | none => (out, cstr key ++ cstr " must be a string")
      | some text =>
          (set out text,
            if text.length > kMaxManifestFieldLength then cstr key ++ cstr " exceeds maximum length"
            else none)

/-- The hash that the object holds by now, whether or not the document has one. -/
def checkSha256 : Step DriverManifest Bytes := fun out =>
  if out.scriptSha256 ≠ [] ∧ validSha256Hex out.scriptSha256 = false then
    (out, cstr "manifest.script_sha256 must be 64 lowercase hex characters")
  else (out, none)

def insertCapability (entry : Json) : Step DriverManifest Bytes := fun out =>
  match entry.string? with
  | none => (out, cstr "manifest.capabilities entries must be strings")
  | some name =>
      match capabilityFromName name with
      | none =>
          (out, cstr "manifest.capabilities contains unknown capability '" ++ name ++ cstr "'")
      | some capability => ({ out with capabilities := insert capability out.capabilities }, none)

def pushEventType (entry : Json) : Step DriverManifest Bytes := fun out =>
  match entry.string? with
  | none => (out, cstr "manifest.event_types entries must be strings")
  | some typeName =>
      if typeName.length > 32 then
        (out, cstr "manifest.event_types entry exceeds maximum length")
      else ({ out with eventTypes := out.eventTypes ++ [typeName] }, none)

/-- A member that may be an array, and the step for each of its entries. -/
def optionalArray (doc : Json) (key : String) (maxEntries : ℕ) (tooMany : String)
    (push : Json → Step DriverManifest Bytes) : Step DriverManifest Bytes := fun out =>
  match doc.field? (cstr key) with
  | none => (out, none)
  | some value =>
      match value.array? with
      | none => (out, cstr "manifest." ++ cstr key ++ cstr " must be an array")
      | some entries =>
          if entries.length > maxEntries then (out, cstr tooMany)
          else run (entries.map push) out

def declaredLimit (doc : Json) (key : String) (set : DriverManifest → UInt32 → DriverManifest) :
    Step DriverManifest Bytes := fun out =>
  match doc.field? (cstr key) with
  | none => (out, none)
  | some value =>
      match value.unsigned? with
      | none => (out, cstr "manifest." ++ cstr key ++ cstr " must be a number in [0, 64]")
      | some n =>
          if n > 64 then (out, cstr "manifest." ++ cstr key ++ cstr " must be a number in [0, 64]")
          else (set out (UInt32.ofNat n), none)

/-! ## Parser -/

def readName (doc : Json) : Step DriverManifest Bytes :=
  requiredString doc "name" (fun out name => { out with name }) validName
    "manifest.name must match [a-zA-Z0-9-]\x7b1,64\x7d"

def readVersion (doc : Json) : Step DriverManifest Bytes :=
  requiredString doc "version" (fun out version => { out with version }) validVersion
    "manifest.version must be numeric x.y[.z]"

def readScript (doc : Json) : Step DriverManifest Bytes :=
  requiredString doc "script" (fun out scriptPath => { out with scriptPath }) validScript
    "manifest.script must be a non-empty path"

def readDescription (doc : Json) : Step DriverManifest Bytes :=
  boundedString doc "description" fun out description => { out with description }

def readSha256 (doc : Json) : Step DriverManifest Bytes :=
  boundedString doc "script_sha256" fun out scriptSha256 => { out with scriptSha256 }

def readCapabilities (doc : Json) : Step DriverManifest Bytes :=
  optionalArray doc "capabilities" 16 "manifest.capabilities has too many entries"
    insertCapability

def readEventTypes (doc : Json) : Step DriverManifest Bytes :=
  optionalArray doc "event_types" kMaxManifestEventTypes
    "manifest.event_types exceeds the subscription limit" pushEventType

def readMaxEndpoints (doc : Json) : Step DriverManifest Bytes :=
  declaredLimit doc "max_endpoints" fun out maxEndpoints => { out with maxEndpoints }

def readMaxSubscriptions (doc : Json) : Step DriverManifest Bytes :=
  declaredLimit doc "max_subscriptions" fun out maxSubscriptions => { out with maxSubscriptions }

/-- The members in the order in which they are read, after the name. -/
def readRest (doc : Json) : List (Step DriverManifest Bytes) :=
  [readVersion doc, readScript doc, readDescription doc, readSha256 doc, checkSha256,
    readCapabilities doc, readEventTypes doc, readMaxEndpoints doc, readMaxSubscriptions doc]

/-- `DriverManifest::parse`. -/
def parse (lib : JsonLib) (text : Bytes) : Step DriverManifest Bytes := fun out =>
  match lib.parse text with
  | none => (out, cstr "manifest is not valid JSON")
  | some doc =>
      if doc.isObject then run (readName doc :: readRest doc) out
      else (out, cstr "manifest must be a JSON object")

end Ezcap.Manifests
