import Ezcap.Library.DottedNumber
import Ezcap.Library.Json

/-! Endpoint descriptors and their validation, from `descriptor.cpp`. -/

namespace Ezcap.Specgen

open StdString

/-- A failed check answers with its message. -/
def require (condition : Bool) (message : String) : Except Bytes Unit :=
  if condition then .ok () else .error (cstr message)

/-! ## Texts -/

def matchesPatternLength (value : Bytes) (maxLen : ℕ) (allowUpper : Bool) : Bool :=
  value != [] && decide (value.length ≤ maxLen) &&
    (value.all fun c => isalnum c || c == '_'.toUInt8 || c == '-'.toUInt8) &&
    (allowUpper || value.all fun c => !isupper c)

def validVersion (version : Bytes) : Bool := DottedNumber.scan 2 version 0 []

def readItems (key : Bytes) (maxItemLen : ℕ) : List Json → Except Bytes (List Bytes)
  | [] => .ok []
  | entry :: entries =>
      match entry.string? with
      | none => .error (key ++ cstr " entries must be strings")
      | some item =>
          if item.length > maxItemLen then .error (key ++ cstr " entry exceeds maximum length")
          else (readItems key maxItemLen entries).map (item :: ·)

def validStringList (parent : Json) (key : Bytes) (maxItems maxItemLen : ℕ) :
    Except Bytes (List Bytes) :=
  match parent.field? key with
  | none => .ok []
  | some value =>
      match value.array? with
      | none => .error (key ++ cstr " must be an array")
      | some entries =>
          if entries.length > maxItems then .error (key ++ cstr " exceeds the item limit")
          else readItems key maxItemLen entries

/-! ## Shapes -/

def kMaxSchemaDepth : ℕ := 8
def kMaxSchemaProperties : ℕ := 64
def kMaxSchemaEnumItems : ℕ := 64

def kSchemaKeys : List Bytes :=
  [cstr "type", cstr "description", cstr "properties", cstr "items", cstr "required", cstr "enum"]

def kTypes : List Bytes :=
  [cstr "object", cstr "array", cstr "string", cstr "number", cstr "integer", cstr "boolean",
    cstr "null"]

def validPropertyName (name : Bytes) : Bool :=
  name != [] && decide (name.length ≤ 64) && name.all fun c => isalnum c || c == '_'.toUInt8

/-- A string, a number, a boolean or null. -/
def isScalar : Json → Bool
  | .array _ | .object _ => false
  | _ => true

/-- The check of a member, if there is one. -/
def checkField (doc : Json) (key : String) (check : Json → Except Bytes Unit) :
    Except Bytes Unit :=
  match doc.field? (cstr key) with
  | none => .ok ()
  | some value => check value

def checkType (doc : Json) : Except Bytes Unit :=
  match (doc.field? (cstr "type")).bind Json.string? with
  | none => .error (cstr "request/response schema requires a type")
  | some type => require (kTypes.contains type) "request/response schema has unknown type"

/-- `check` is that of the shapes one level down. -/
def checkProperties (check : Json → Except Bytes Unit) (props : Json) : Except Bytes Unit :=
  match props.object? with
  | none => .error (cstr "schema properties must be a bounded object")
  | some members =>
      if members.length > kMaxSchemaProperties then
        .error (cstr "schema properties must be a bounded object")
      else
        members.forM fun (name, sub) =>
          (require (validPropertyName name) "schema property name is invalid").bind fun _ =>
            check sub

def checkRequired (required : Json) : Except Bytes Unit :=
  match required.array? with
  | none => .error (cstr "schema required must be a bounded array")
  | some entries =>
      (require (entries.length ≤ kMaxSchemaProperties)
        "schema required must be a bounded array").bind fun _ =>
      require (entries.all fun entry => entry.string?.any fun s => decide (s.length ≤ 64))
        "schema required entries must be bounded strings"

def checkEnum (enumeration : Json) : Except Bytes Unit :=
  match enumeration.array? with
  | none => .error (cstr "schema enum must be a bounded array")
  | some entries =>
      (require (entries.length ≤ kMaxSchemaEnumItems)
        "schema enum must be a bounded array").bind fun _ =>
      require (entries.all isScalar) "schema enum entries must be scalars"

/-- `valid_schema_subset` at depth `kMaxSchemaDepth + 1 - levels`. -/
def validSchemaSubset : ℕ → Json → Except Bytes Unit
  | 0, _ => .error (cstr "request/response schema exceeds maximum depth")
  | levels + 1, doc =>
      match doc.object? with
      | none => .error (cstr "request/response schema must be an object")
      | some fields =>
          (require (fields.all fun f => kSchemaKeys.contains f.1)
            "request/response schema contains unsupported key").bind fun _ =>
          (checkType doc).bind fun _ =>
          (checkField doc "description" fun text =>
            require (text.string?.any fun s => decide (s.length ≤ 512))
              "schema description must be a bounded string").bind fun _ =>
          (checkField doc "properties" (checkProperties (validSchemaSubset levels))).bind fun _ =>
          (checkField doc "items" (validSchemaSubset levels)).bind fun _ =>
          (checkField doc "required" checkRequired).bind fun _ =>
          checkField doc "enum" checkEnum

/-! ## Descriptors -/

structure EndpointDescriptor where
  name : Bytes
  ns : Bytes
  version : Bytes
  /-- `operation`, `stream` or `event`. -/
  kind : Bytes
  summary : Bytes
  description : Bytes := []
  request : Json := .null
  response : Json := .null
  metadataOnly : Bool := true
  attribution : List Bytes := []
  confidence : Bytes := []
  privacy : List Bytes := []

def kDescriptorKeys : List Bytes :=
  [cstr "name", cstr "namespace", cstr "version", cstr "kind", cstr "summary",
    cstr "description", cstr "request", cstr "response", cstr "metadata_only",
    cstr "attribution", cstr "confidence", cstr "privacy"]

/-- A required text that passes its check. -/
def requireText (doc : Json) (key : String) (check : Bytes → Bool) (message : String) :
    Except Bytes Unit :=
  match (doc.field? (cstr key)).bind Json.string? with
  | none => .error (cstr "descriptor." ++ cstr key ++ cstr " is required")
  | some value => require (check value) message

def requireMetadataOnly (doc : Json) : Except Bytes Unit :=
  match (doc.field? (cstr "metadata_only")).bind Json.bool? with
  | none => .error (cstr "descriptor.metadata_only is required")
  | some flag => require flag "descriptor.metadata_only must be true"

/-- The check of a member, if there is one that is not null. -/
def checkNullable (doc : Json) (key : String) (check : Json → Except Bytes Unit) :
    Except Bytes Unit :=
  checkField doc key fun
    | .null => .ok ()
    | value => check value

def validateEndpointDescriptor (doc : Json) : Except Bytes Unit :=
  match doc.object? with
  | none => .error (cstr "descriptor must be a JSON object")
  | some fields =>
      (requireText doc "name" (matchesPatternLength · 64 true)
        "descriptor.name must match [a-zA-Z0-9_-]\x7b1,64\x7d").bind fun _ =>
      (requireText doc "namespace" (matchesPatternLength · 64 false)
        "descriptor.namespace must match [a-z0-9-]\x7b1,64\x7d").bind fun _ =>
      (requireText doc "version" validVersion
        "descriptor.version must be numeric x.y[.z]").bind fun _ =>
      (requireText doc "kind"
        (fun kind => [cstr "operation", cstr "stream", cstr "event"].contains kind)
        "descriptor.kind must be operation, stream, or event").bind fun _ =>
      (requireText doc "summary" (fun summary => summary != [] && decide (summary.length ≤ 256))
        "descriptor.summary must be 1..256 characters").bind fun _ =>
      (requireMetadataOnly doc).bind fun _ =>
      (require (fields.all fun f => kDescriptorKeys.contains f.1)
        "descriptor contains unknown field").bind fun _ =>
      (checkNullable doc "description" fun text =>
        require (text.string?.any fun s => decide (s.length ≤ 2048))
          "descriptor.description must be a bounded string").bind fun _ =>
      (checkNullable doc "confidence" fun text =>
        require (text.string?.any fun s => decide (s.length ≤ 256))
          "descriptor.confidence must be a bounded string").bind fun _ =>
      (validStringList doc (cstr "attribution") 16 512).bind fun _ =>
      (validStringList doc (cstr "privacy") 16 512).bind fun _ =>
      (checkNullable doc "request" (validSchemaSubset (kMaxSchemaDepth + 1))).bind fun _ =>
      checkNullable doc "response" (validSchemaSubset (kMaxSchemaDepth + 1))

/-- The text under a key, empty if there is none. -/
def textOf (doc : Json) (key : String) : Bytes :=
  ((doc.field? (cstr key)).bind Json.string?).getD []

/-- The object under a key, null if there is none. -/
def shapeOf (doc : Json) (key : String) : Json :=
  ((doc.field? (cstr key)).filter Json.isObject).getD .null

/-- The texts in the array under a key. -/
def textsOf (doc : Json) (key : String) : List Bytes :=
  (((doc.field? (cstr key)).bind Json.array?).getD []).filterMap Json.string?

def parseEndpointDescriptor (doc : Json) : Except Bytes EndpointDescriptor :=
  (validateEndpointDescriptor doc).map fun _ =>
    { name := textOf doc "name"
      ns := textOf doc "namespace"
      version := textOf doc "version"
      kind := textOf doc "kind"
      summary := textOf doc "summary"
      description := textOf doc "description"
      request := shapeOf doc "request"
      response := shapeOf doc "response"
      attribution := textsOf doc "attribution"
      confidence := textOf doc "confidence"
      privacy := textsOf doc "privacy" }

end Ezcap.Specgen
