import Ezcap.Library.JsonMembers
import Ezcap.Model.Descriptor
import Ezcap.Model.Ipc

/-! Spec generation, from `specgen.cpp` and `emitters.cpp`. -/

namespace Ezcap.Specgen

open StdString Ipc
open JsonReference (assign assignAll)

inductive Format where
  | openApi31
  | asyncApi2
  | jsonSchema
  deriving DecidableEq, Repr

structure GenerationContext where
  source : Bytes
  generatorVersion : Bytes
  schemaVersion : UInt32 := 1

/-! ## Order -/

/-- The comparator of `sort_endpoints`. -/
def precedes (a b : EndpointDescriptor) : Bool :=
  if a.ns ≠ b.ns then decide (a.ns < b.ns)
  else if a.name ≠ b.name then decide (a.name < b.name)
  else decide (a.version < b.version)

/-- What is assumed of `std::sort`: it returns some sorted permutation. -/
structure Sorts (sort : List EndpointDescriptor → List EndpointDescriptor) : Prop where
  perm : ∀ endpoints, (sort endpoints).Perm endpoints
  sorted : ∀ endpoints, (sort endpoints).Pairwise fun a b => precedes b a = false

/-! ## Names -/

def pathOf (endpoint : EndpointDescriptor) : Bytes :=
  cstr "/" ++ endpoint.ns ++ cstr "/" ++ endpoint.name ++ cstr "/v" ++ endpoint.version

def operationIdOf (endpoint : EndpointDescriptor) : Bytes :=
  endpoint.ns ++ cstr "." ++ endpoint.name

def baseName (endpoint : EndpointDescriptor) : Bytes := endpoint.ns ++ cstr "_" ++ endpoint.name

def requestName (endpoint : EndpointDescriptor) : Bytes := baseName endpoint ++ cstr "_request"

def responseName (endpoint : EndpointDescriptor) : Bytes := baseName endpoint ++ cstr "_response"

def channelOf (endpoint : EndpointDescriptor) : Bytes :=
  endpoint.ns ++ cstr "/" ++ endpoint.name ++ cstr "/v" ++ endpoint.version

/-! ## Parts of the documents -/

/-- `apply_privacy_annotations`. -/
def privacyAnnotations (endpoint : EndpointDescriptor) : List (Bytes × Json) :=
  fieldIf (endpoint.attribution != []) (cstr "x-ezcap-attribution")
    (.array (endpoint.attribution.map .string)) ++
  textField (cstr "x-ezcap-confidence") endpoint.confidence ++
  fieldIf (endpoint.privacy != []) (cstr "x-ezcap-privacy")
    (.array (endpoint.privacy.map .string)) ++
  [(cstr "x-ezcap-metadata-only", .bool true)]

def kGenerated : Json := .string (cstr "synthetic; contains no observed data")

def kExample : Json := .string (cstr "synthetic placeholder; not observed data")

def infoJson (title : String) (summary : List (Bytes × Json)) (context : GenerationContext) :
    Json :=
  .mkObject <|
    [(cstr "title", .string (cstr title)), (cstr "version", .string context.generatorVersion)] ++
    summary ++
    [(cstr "x-ezcap-source", .string context.source),
     (cstr "x-ezcap-schema-version", .unsigned context.schemaVersion.toNat),
     (cstr "x-ezcap-generated", kGenerated)]

/-- `{"$ref": …}`. -/
def refJson (place : String) (name : Bytes) : Json :=
  .mkObject [(cstr "$ref", .string (cstr place ++ name))]

/-- `{"application/json": {"schema": {"$ref": …}}}`. -/
def contentJson (name : Bytes) : Json :=
  .mkObject [(cstr "application/json",
    .mkObject [(cstr "schema", refJson "#/components/schemas/" name)])]

/-! ## OpenAPI -/

def requestBodyJson (endpoint : EndpointDescriptor) : Json :=
  .mkObject [(cstr "required", .bool true), (cstr "content", contentJson (requestName endpoint))]

def responsesJson (endpoint : EndpointDescriptor) : Json :=
  if endpoint.response.isObject then
    .mkObject [(cstr "200", .mkObject [(cstr "description", .string (cstr "Success")),
      (cstr "content", contentJson (responseName endpoint))])]
  else
    .mkObject [(cstr "204", .mkObject [(cstr "description", .string (cstr "No content"))])]

/-- The members of an operation; an event is marked as one. -/
def operationFields (endpoint : EndpointDescriptor) : List (Bytes × Json) :=
  [(cstr "operationId", .string (operationIdOf endpoint)),
   (cstr "summary", .string endpoint.summary)] ++
  textField (cstr "description") endpoint.description ++
  [(cstr "x-ezcap-example", kExample)] ++
  privacyAnnotations endpoint ++
  fieldIf endpoint.request.isObject (cstr "requestBody") (requestBodyJson endpoint) ++
  [(cstr "responses", responsesJson endpoint)] ++
  fieldIf (endpoint.kind == cstr "event") (cstr "x-ezcap-kind") (.string (cstr "event"))

def markerJson (endpoint : EndpointDescriptor) : Json :=
  .mkObject <|
    [(cstr "summary", .string (endpoint.summary ++ cstr " (stream; see AsyncAPI spec)")),
     (cstr "x-ezcap-kind", .string (cstr "stream"))] ++
    privacyAnnotations endpoint

/-- The shapes that an endpoint adds to the components. -/
def schemaFields (endpoint : EndpointDescriptor) : List (Bytes × Json) :=
  fieldIf endpoint.request.isObject (requestName endpoint) endpoint.request ++
  fieldIf endpoint.response.isObject (responseName endpoint) endpoint.response

/-- The endpoint is an operation or an event, and not a stream. -/
def isCall (endpoint : EndpointDescriptor) : Bool :=
  endpoint.kind == cstr "operation" || endpoint.kind == cstr "event"

structure OpenApi where
  paths : List (Bytes × Json) := []
  schemas : List (Bytes × Json) := []
  seenOps : List Bytes := []

/-- `paths[path]`, as the members of an object. -/
def membersAt (fields : List (Bytes × Json)) (key : Bytes) : List (Bytes × Json) :=
  (((Json.object fields).field? key).bind Json.object?).getD []

def OpenApi.add (api : OpenApi) (endpoint : EndpointDescriptor) : OpenApi :=
  let path := pathOf endpoint
  let schemas := assignAll (schemaFields endpoint) api.schemas
  if isCall endpoint then
    let item := if path ∈ api.seenOps then membersAt api.paths path else []
    { paths :=
        assign path (.object (assign (cstr "post") (.mkObject (operationFields endpoint)) item))
          api.paths
      schemas
      seenOps := path :: api.seenOps }
  else if path ++ cstr "#stream" ∈ api.seenOps then { api with schemas }
  else
    { paths := assign path (.mkObject [(cstr "get", markerJson endpoint)]) api.paths
      schemas
      seenOps := (path ++ cstr "#stream") :: api.seenOps }

variable (sort : List EndpointDescriptor → List EndpointDescriptor)

def emitOpenApi31 (endpoints : List EndpointDescriptor) (context : GenerationContext) : Json :=
  let api := (sort endpoints).foldl OpenApi.add {}
  .mkObject <|
    [(cstr "openapi", .string (cstr "3.1.0")),
     (cstr "info", infoJson "ezcap generated API"
       [(cstr "summary", .string (cstr "Generated from ezcap endpoint descriptors"))] context),
     (cstr "paths", .object api.paths)] ++
    fieldIf (!api.schemas.isEmpty) (cstr "components")
      (.mkObject [(cstr "schemas", .object api.schemas)])

/-! ## AsyncAPI -/

def messageJson (endpoint : EndpointDescriptor) : Json :=
  .mkObject <|
    [(cstr "name", .string (operationIdOf endpoint)), (cstr "title", .string endpoint.summary)] ++
    textField (cstr "description") endpoint.description ++
    [(cstr "x-ezcap-example", kExample)] ++
    fieldIf endpoint.response.isObject (cstr "payload") endpoint.response ++
    privacyAnnotations endpoint

def channelJson (endpoint : EndpointDescriptor) : Json :=
  .mkObject <|
    [(cstr "publish", .mkObject
      [(cstr "message", refJson "#/components/messages/" (baseName endpoint))])] ++
    textField (cstr "x-ezcap-confidence") endpoint.confidence

structure AsyncApi where
  channels : List (Bytes × Json) := []
  messages : List (Bytes × Json) := []

def AsyncApi.add (api : AsyncApi) (endpoint : EndpointDescriptor) : AsyncApi :=
  if endpoint.kind = cstr "operation" then api
  else
    { channels := assign (channelOf endpoint) (channelJson endpoint) api.channels
      messages := assign (baseName endpoint) (messageJson endpoint) api.messages }

def emitAsyncApi2 (endpoints : List EndpointDescriptor) (context : GenerationContext) : Json :=
  let api := (sort endpoints).foldl AsyncApi.add {}
  .mkObject <|
    [(cstr "asyncapi", .string (cstr "2.6.0")),
     (cstr "info", infoJson "ezcap generated event API" [] context),
     (cstr "channels", .object api.channels)] ++
    fieldIf (!api.messages.isEmpty) (cstr "components")
      (.mkObject [(cstr "messages", .object api.messages)])

/-! ## JSON Schema -/

def entryJson (endpoint : EndpointDescriptor) : Json :=
  .mkObject <|
    [(cstr "title", .string endpoint.summary)] ++
    textField (cstr "description") endpoint.description ++
    fieldIf endpoint.request.isObject (cstr "x-ezcap-request") endpoint.request ++
    fieldIf endpoint.response.isObject (cstr "x-ezcap-response") endpoint.response ++
    privacyAnnotations endpoint

def emitJsonSchema (endpoints : List EndpointDescriptor) (context : GenerationContext) : Json :=
  let defs := assignAll ((sort endpoints).map fun endpoint =>
    (baseName endpoint, entryJson endpoint)) []
  .mkObject <|
    [(cstr "$schema", .string (cstr "https://json-schema.org/draft/2020-12/schema")),
     (cstr "title", .string (cstr "ezcap endpoint schema bundle")),
     (cstr "x-ezcap-source", .string context.source),
     (cstr "x-ezcap-generator-version", .string context.generatorVersion),
     (cstr "x-ezcap-schema-version", .unsigned context.schemaVersion.toNat),
     (cstr "x-ezcap-generated", kGenerated),
     (cstr "type", .string (cstr "object"))] ++
    fieldIf (!defs.isEmpty) (cstr "$defs") (.object defs)

/-! ## Generation -/

def emit (format : Format) (endpoints : List EndpointDescriptor) (context : GenerationContext) :
    Json :=
  match format with
  | .openApi31 => emitOpenApi31 sort endpoints context
  | .asyncApi2 => emitAsyncApi2 sort endpoints context
  | .jsonSchema => emitJsonSchema sort endpoints context

/-- Two endpoints under one namespace, name and version. -/
def Collide (a b : EndpointDescriptor) : Prop :=
  a.ns = b.ns ∧ a.name = b.name ∧ a.version = b.version

instance (a b : EndpointDescriptor) : Decidable (Collide a b) :=
  inferInstanceAs (Decidable (_ ∧ _ ∧ _))

def checkEndpoints (endpoints : List EndpointDescriptor) : Except Bytes Unit :=
  if endpoints.length > 256 then .error (cstr "too many endpoints for one spec")
  else if endpoints.Pairwise fun a b => ¬ Collide a b then .ok ()
  else .error (cstr "duplicate endpoint (namespace, name, version)")

/-- The generated text or an error; `none` is the exception that `pretty`, which is `dump(2)`,
throws on text that is not UTF-8. -/
def generate (pretty : Json → Option Bytes) (format : Format)
    (endpoints : List EndpointDescriptor) (context : GenerationContext) :
    Option (Except Bytes Bytes) :=
  match checkEndpoints endpoints with
  | .error error => some (.error error)
  | .ok () => (pretty (emit sort format endpoints context)).map fun text =>
      .ok (text ++ cstr "\n")

end Ezcap.Specgen
