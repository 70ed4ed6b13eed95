import Ezcap.Library.DottedNumber
import Ezcap.Library.JsonConditions
import Ezcap.Library.JsonSchema

/-! The formats of driver manifests and endpoint descriptors that the protocol publishes, from
`manifest.schema.json` and `endpoint.schema.json`. How the length of a text is measured is `size`:
the schemas count characters. -/

namespace Ezcap.Protocol

open StdString Json

/-- `^[0-9]+\.[0-9]+(\.[0-9]+)?$`. -/
def IsVersion (s : Bytes) : Prop :=
  DottedNumber.AllDigits (DottedNumber.groups s) ∧
    2 ≤ (DottedNumber.groups s).length ∧ (DottedNumber.groups s).length ≤ 3

section Size

variable (size : Bytes → ℕ)

/-- A text with a `maxLength`. -/
def ShortText (maxLength : ℕ) (value : Json) : Prop := IsString (size · ≤ maxLength) value

omit size in
theorem ShortText.inCharacters {maxLength : ℕ} {value : Json}
    (h : ShortText List.length maxLength value) : ShortText JsonSchema.characters maxLength value :=
  h.imp fun s hs => (JsonSchema.characters_le s).trans hs

/-! ## Shapes -/

def shapeKeys : List Bytes :=
  [cstr "type", cstr "description", cstr "properties", cstr "items", cstr "required", cstr "enum"]

def shapeTypes : List Bytes :=
  [cstr "object", cstr "array", cstr "string", cstr "number", cstr "integer", cstr "boolean",
    cstr "null"]

/-- `^[a-zA-Z0-9_]{1,64}$`. -/
def IsPropertyName (s : Bytes) : Prop :=
  1 ≤ s.length ∧ s.length ≤ 64 ∧ ∀ c ∈ s, isalnum c = true ∨ c = '_'.toUInt8

/-- The value is a string, a number, a boolean or null. -/
def IsScalar : Json → Prop
  | .array _ | .object _ => False
  | _ => True

/-- `$defs/schemaSubset` without the shapes one level down. -/
structure IsShape (doc : Json) : Prop where
  closed : doc.Closed shapeKeys
  type : doc.Required (cstr "type") (IsString (· ∈ shapeTypes))
  description : doc.Allowed (cstr "description") (ShortText size 512)
  properties : doc.Allowed (cstr "properties") fun value => ∃ members, value = .object members ∧
    members.length ≤ 64 ∧ ∀ f ∈ members, IsPropertyName f.1
  required : doc.Allowed (cstr "required") (IsArray fun entries =>
    entries.length ≤ 64 ∧ ∀ entry ∈ entries, ShortText size 64 entry)
  enum : doc.Allowed (cstr "enum") (IsArray fun entries =>
    entries.length ≤ 64 ∧ ∀ entry ∈ entries, IsScalar entry)

/-- A shape one level down: that of a property, or that of the items. -/
inductive Below (doc : Json) : Json → Prop
  | property {members : List (Bytes × Json)} {name : Bytes} {sub : Json}
      (h : doc.field? (cstr "properties") = some (.object members)) (hmem : (name, sub) ∈ members) :
      Below doc sub
  | items {sub : Json} (h : doc.field? (cstr "items") = some sub) : Below doc sub

/-- `$defs/schemaSubset`, where the shapes nest at most `n` levels deep. -/
inductive Generated : ℕ → Json → Prop
  | leaf {n : ℕ} {doc : Json} (h : IsShape size doc) (hbelow : ∀ sub, ¬ Below doc sub) :
      Generated n doc
  | nest {n : ℕ} {doc : Json} (h : IsShape size doc)
      (hbelow : ∀ sub, Below doc sub → Generated n sub) : Generated (n + 1) doc

/-! ## Endpoints -/

def endpointKeys : List Bytes :=
  [cstr "name", cstr "namespace", cstr "version", cstr "kind", cstr "summary",
    cstr "description", cstr "request", cstr "response", cstr "metadata_only",
    cstr "attribution", cstr "confidence", cstr "privacy"]

/-- `^[a-zA-Z0-9_-]{1,64}$`. -/
def IsEndpointName (s : Bytes) : Prop :=
  1 ≤ s.length ∧ s.length ≤ 64 ∧
    ∀ c ∈ s, isalnum c = true ∨ c = '_'.toUInt8 ∨ c = '-'.toUInt8

/-- `^[a-z0-9-]{1,64}$`. -/
def IsNamespace (s : Bytes) : Prop :=
  1 ≤ s.length ∧ s.length ≤ 64 ∧
    ∀ c ∈ s, isalnum c = true ∧ isupper c = false ∨ c = '-'.toUInt8

def endpointKinds : List Bytes := [cstr "operation", cstr "stream", cstr "event"]

/-- The shapes of a request or a response nest to any depth. -/
def IsShapeTree (value : Json) : Prop := ∃ n, Generated size n value

/-- `endpoint.schema.json`. -/
structure IsEndpoint (doc : Json) : Prop where
  closed : doc.Closed endpointKeys
  name : doc.Required (cstr "name") (IsString IsEndpointName)
  ns : doc.Required (cstr "namespace") (IsString IsNamespace)
  version : doc.Required (cstr "version") (IsString IsVersion)
  kind : doc.Required (cstr "kind") (IsString (· ∈ endpointKinds))
  summary : doc.Required (cstr "summary") (ShortText size 256)
  description : doc.Allowed (cstr "description") (ShortText size 2048)
  request : doc.Allowed (cstr "request") (IsShapeTree size)
  response : doc.Allowed (cstr "response") (IsShapeTree size)
  metadataOnly : doc.Required (cstr "metadata_only") (· = .bool true)
  attribution : doc.Allowed (cstr "attribution") (IsArray (∀ entry ∈ ·, ShortText size 512 entry))
  confidence : doc.Allowed (cstr "confidence") (ShortText size 256)
  privacy : doc.Allowed (cstr "privacy") (IsArray (∀ entry ∈ ·, ShortText size 512 entry))

/-! ## Manifests -/

def manifestKeys : List Bytes :=
  [cstr "name", cstr "version", cstr "script", cstr "description", cstr "script_sha256",
    cstr "capabilities", cstr "event_types", cstr "max_endpoints", cstr "max_subscriptions"]

/-- `^[a-zA-Z0-9-]{1,64}$`. -/
def IsDriverName (s : Bytes) : Prop :=
  1 ≤ s.length ∧ s.length ≤ 64 ∧ ∀ c ∈ s, isalnum c = true ∨ c = '-'.toUInt8

/-- `^[0-9a-f]{64}$`. -/
def IsSha256 (s : Bytes) : Prop :=
  s.length = 64 ∧ ∀ c ∈ s, isdigit c = true ∨ 'a'.toUInt8 ≤ c ∧ c ≤ 'f'.toUInt8

def capabilityNames : List Bytes :=
  [cstr "events", cstr "capture", cstr "dns", cstr "process", cstr "policy", cstr "endpoint",
    cstr "spec", cstr "log", cstr "util", cstr "status"]

/-- An integer from 0 to 64. -/
def IsLimit (value : Json) : Prop := ∃ i, value.integral? = some i ∧ 0 ≤ i ∧ i ≤ 64

/-- `manifest.schema.json`. -/
structure IsManifest (doc : Json) : Prop where
  closed : doc.Closed manifestKeys
  name : doc.Required (cstr "name") (IsString IsDriverName)
  version : doc.Required (cstr "version") (IsString IsVersion)
  script : doc.Required (cstr "script") (IsString fun s => 1 ≤ size s ∧ size s ≤ 4096)
  description : doc.Allowed (cstr "description") (ShortText size 512)
  scriptSha256 : doc.Allowed (cstr "script_sha256") (IsString IsSha256)
  capabilities : doc.Allowed (cstr "capabilities") (IsArray fun entries =>
    entries.length ≤ 16 ∧ (∀ entry ∈ entries, IsString (· ∈ capabilityNames) entry) ∧ entries.Nodup)
  eventTypes : doc.Allowed (cstr "event_types") (IsArray fun entries =>
    entries.length ≤ 16 ∧ ∀ entry ∈ entries, ShortText size 32 entry)
  maxEndpoints : doc.Allowed (cstr "max_endpoints") IsLimit
  maxSubscriptions : doc.Allowed (cstr "max_subscriptions") IsLimit

end Size

end Ezcap.Protocol
