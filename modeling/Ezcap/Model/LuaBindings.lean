import Ezcap.Library.Binary64
import Ezcap.Library.JsonMembers
import Ezcap.Library.Lua
import Ezcap.Model.Bindings
import Ezcap.Model.Event

/-! How the functions of `lezcap.cpp` read their Lua tables. A fault is a call that does not
return. -/

namespace Ezcap.Drivers

open StdString Lua
open JsonReference (assign)

/-! ## Values -/

/-- The body of the loop over an object: the key is read first, and a number is then spelled out in
its place. -/
def convertMember (numbers : Numbers)
    (convert : Stack → ℤ → Except Fault (Stack × Except Bytes Json)) :
    Stack → Except Fault (Stack × Except Bytes (Bytes × Json))
  | value :: key :: rest =>
      match tostring numbers key with
      | none => .ok (value :: key :: rest, .error (cstr "table keys must be strings"))
      | some (text, key) =>
          (convert (value :: key :: rest) (-1)).map fun converted =>
            (converted.1, converted.2.map fun item => (untilNul text, item))
  | _ => .error .undefined

/-- `json_from_lua` at depth `17 - levels`. -/
def jsonFromLua (numbers : Numbers) (fuel : ℕ) :
    ℕ → Stack → ℤ → Except Fault (Stack × Except Bytes Json)
  | 0, stack, _ => .ok (stack, .error (cstr "value nesting exceeds the descriptor limit"))
  | levels + 1, stack, index =>
      match at? stack index with
      | some .nil => .ok (stack, .ok .null)
      | some (.boolean b) => .ok (stack, .ok (.bool b))
      | some (.number q) => .ok (stack, .ok (.float q))
      | some (.string s) =>
          if (untilNul s).length > 8 * 1024 then
            .ok (stack, .error (cstr "string exceeds the sandbox limit"))
          else .ok (stack, .ok (.string (untilNul s)))
      | some (.table _) =>
          match next (.nil :: stack) index with
          | .error fault => .error fault
          | .ok (stack, false) => .ok (stack, .ok (.object []))
          | .ok (stack, true) =>
              if (at? stack (-2)).any Value.isNumber then
                (traverse (fun items item => items ++ [item]) index
                  (fun stack => jsonFromLua numbers fuel levels stack (-1)) fuel
                  (.nil :: stack.drop 2) []).map fun done => (done.1, done.2.map .array)
              else
                (traverse (fun fields field => assign field.1 field.2 fields) index
                  (convertMember numbers (jsonFromLua numbers fuel levels)) fuel
                  (.nil :: stack.drop 2) []).map fun done => (done.1, done.2.map .object)
      | _ => .ok (stack, .error (cstr "unsupported value type in descriptor"))

/-- The descriptor that `schema_subset_from_lua` has validated. -/
def probe (request : Json) : Json :=
  .mkObject
    [(cstr "name", .string (cstr "probe")), (cstr "namespace", .string (cstr "probe")),
     (cstr "version", .string (cstr "1.0")), (cstr "kind", .string (cstr "operation")),
     (cstr "summary", .string (cstr "probe")), (cstr "metadata_only", .bool true),
     (cstr "request", request)]

def schemaSubsetFromLua (numbers : Numbers) (fuel levels : ℕ) (stack : Stack) (index : ℤ) :
    Except Fault (Stack × Except Bytes Json) :=
  if (at? stack index).any Value.isTable then
    (jsonFromLua numbers fuel levels stack index).map fun converted =>
      (converted.1, converted.2.bind fun out =>
        (Specgen.validateEndpointDescriptor (probe out)).map fun _ => out)
  else .ok (stack, .error (cstr "schema must be a table"))

/-! ## Fields -/

section Fields

variable (numbers : Numbers) (entries : List (Key × Value))

/-- `opt_table_string`, with the text that it stores if the field is there. -/
def optTableString (key : String) (maxBytes : ℕ) : Except Bytes (Option Bytes) :=
  match get entries (.string (cstr key)) with
  | .nil => .ok none
  | value =>
      match tostring numbers value with
      | none => .error (cstr "argument.type: " ++ cstr key ++ cstr " must be a string")
      | some (raw, _) =>
          if (untilNul raw).length > maxBytes then
            .error (cstr "argument.too_long: " ++ cstr key ++ cstr " exceeds the sandbox limit")
          else .ok (some (untilNul raw))

/-- A document that is being built, with the string that its fields are read into. -/
structure Draft where
  doc : List (Bytes × Json) := []
  value : Bytes := []

def kRequired : List String := ["name", "namespace", "version", "kind", "summary"]

def readRequired : List String → Draft → Except Bytes Draft
  | [], draft => .ok draft
  | key :: keys, draft =>
      match optTableString numbers entries key 256 with
      | .error error => .error error
      | .ok none => .error (cstr "argument.missing: " ++ cstr key ++ cstr " is required")
      | .ok (some value) =>
          readRequired keys { doc := assign (cstr key) (.string value) draft.doc, value }

/-- An absent field leaves the string as it was. -/
def readOptional (key : String) (maxBytes : ℕ) (draft : Draft) : Except Bytes Draft :=
  (optTableString numbers entries key maxBytes).map fun got =>
    let value := got.getD draft.value
    if value = [] then { draft with value }
    else { doc := assign (cstr key) (.string value) draft.doc, value := [] }

def readTexts : Except Bytes (List (Bytes × Json)) :=
  (readRequired numbers entries kRequired {}).bind fun draft =>
  (readOptional numbers entries "description" 2048 draft).bind fun draft =>
  (readOptional numbers entries "confidence" 256 draft).bind fun draft =>
  let flag := get entries (.string (cstr "metadata_only"))
  if !flag.isNil && !flag.toboolean then
    .error (cstr "policy.violation: metadata_only cannot be false")
  else .ok (assign (cstr "metadata_only") (.bool true) draft.doc)

variable (fuel : ℕ) (stack : Stack)

def readSchema (key : String) (doc : List (Bytes × Json)) :
    Except Fault (Except Bytes (List (Bytes × Json))) :=
  match get entries (.string (cstr key)) with
  | .nil => .ok (.ok doc)
  | value =>
      (schemaSubsetFromLua numbers fuel 17 (value :: stack) (-1)).map fun converted =>
        match converted.2 with
        | .error error => .error (cstr "argument.schema: " ++ error)
        | .ok schema => .ok (assign (cstr key) schema doc)

def readList (key : String) (doc : List (Bytes × Json)) :
    Except Fault (Except Bytes (List (Bytes × Json))) :=
  match get entries (.string (cstr key)) with
  | .nil => .ok (.ok doc)
  | .table fields =>
      (jsonFromLua numbers fuel 16 (.table fields :: stack) (-1)).map fun converted =>
        match converted.2 with
        | .error error =>
            .error (cstr "argument.type: " ++
              if error = [] then cstr key ++ cstr " must be an array" else error)
        | .ok list => .ok (assign (cstr key) list doc)
  | _ => .ok (.error (cstr "argument.type: " ++ cstr key ++ cstr " must be an array"))

/-- A step that may fail is taken if the one before has not failed. -/
def thenRead {α β : Type} (result : Except Fault (Except Bytes α))
    (step : α → Except Fault (Except Bytes β)) : Except Fault (Except Bytes β) :=
  match result with
  | .error fault => .error fault
  | .ok (.error error) => .ok (.error error)
  | .ok (.ok a) => step a

/-- The document that `endpoint_declare` builds. -/
def describe : Except Fault (Except Bytes Json) :=
  thenRead (.ok (readTexts numbers entries)) fun doc =>
  thenRead (readSchema numbers entries fuel stack "request" doc) fun doc =>
  thenRead (readSchema numbers entries fuel stack "response" doc) fun doc =>
  thenRead (readList numbers entries fuel stack "attribution" doc) fun doc =>
  thenRead (readList numbers entries fuel stack "privacy" doc) fun doc => .ok (.ok (.object doc))

end Fields

/-! ## Functions -/

/-- `lezcap.endpoint.declare` on the arguments that are on the stack. -/
def DriverHostState.endpointDeclareLua (numbers : Numbers) (fuel : ℕ)
    (limits : DriverResourceLimits) (host : DriverHostState) (stack : Stack) :
    Except Fault (DriverHostState × Option Bytes) :=
  match at? stack 1 with
  | some (.table entries) =>
      if host.endpoints.length ≥ limits.maxEndpoints.toNat then
        .ok (host, cstr "limit.endpoints: endpoint limit reached")
      else (describe numbers entries fuel stack).map (host.endpointDeclare limits)
  | _ => .ok (host, cstr "argument.type: descriptor must be a table")

/-- The loop of `spec_generate` over the last `count` of its `total` endpoints. -/
def readEndpoints (numbers : Numbers) (entries : List (Key × Value)) (fuel total : ℕ)
    (stack : Stack) : ℕ → Except Fault (Except Bytes (List Specgen.EndpointDescriptor))
  | 0 => .ok (.ok [])
  | count + 1 =>
      match get entries (.number (total - count : ℕ)) with
      | .table fields =>
          match jsonFromLua numbers fuel 17 (.table fields :: stack) (-1) with
          | .error fault => .error fault
          | .ok (_, .error error) =>
              .ok (.error (cstr "argument.invalid: " ++
                if error = [] then cstr "endpoints must be tables" else error))
          | .ok (_, .ok doc) =>
              match Specgen.parseEndpointDescriptor doc with
              | .error error => .ok (.error (cstr "argument.invalid: " ++ error))
              | .ok descriptor =>
                  (readEndpoints numbers entries fuel total stack count).map
                    (·.map (descriptor :: ·))
      | _ => .ok (.error (cstr "argument.invalid: endpoints must be tables"))

/-- The endpoints that `lezcap.spec.generate` reads from its second argument. -/
def specEndpoints (numbers : Numbers) (fuel : ℕ) (stack : Stack) :
    Except Fault (Except Bytes (List Specgen.EndpointDescriptor)) :=
  match at? stack 2 with
  | some (.table entries) =>
      let count := objlen entries
      if count > 256 then .ok (.error (cstr "limit.endpoints: too many endpoints"))
      else readEndpoints numbers entries fuel count stack count
  | _ => .ok (.error (cstr "argument.type: endpoints must be a table"))

/-- The name under a key, if there is one that is not empty and that is known. -/
def readName {α : Type} (numbers : Numbers) (entries : List (Key × Value)) (key : String)
    (maxBytes : ℕ) (fromName : Bytes → Option α) : Except Bytes Bytes :=
  (optTableString numbers entries key maxBytes).bind fun got =>
    let value := got.getD []
    if value ≠ [] ∧ (fromName value).isNone then
      .error (cstr "argument.invalid: unknown " ++ cstr key)
    else .ok value

def readConfidence (numbers : Numbers) (entries : List (Key × Value)) : Except Bytes UInt32 :=
  match get entries (.string (cstr "min_confidence")) with
  | .nil => .ok 0
  | value =>
      match tonumber numbers value with
      | none => .error (cstr "argument.type: min_confidence must be a number in [0, 1]")
      | some confidence =>
          if confidence < 0 ∨ confidence > 1 then
            .error (cstr "argument.range: min_confidence must be in [0, 1]")
          else .ok (UInt32.ofNat (Binary64.round (confidence * 1000)).floor.toNat)

/-- The filter that `capture_register_filter` reads. -/
def readFilter (numbers : Numbers) (entries : List (Key × Value)) : Except Bytes CaptureFilter :=
  (readName numbers entries "event_type" 32 eventTypeFromName).bind fun eventType =>
  (readName numbers entries "transport" 8 transportFromName).bind fun transport =>
  (readConfidence numbers entries).map fun minConfidencePermille =>
    { eventType, transport, minConfidencePermille }

/-- `lezcap.capture.register_filter` on the arguments that are on the stack. -/
def DriverHostState.captureRegisterFilterLua (numbers : Numbers) (limits : DriverResourceLimits)
    (host : DriverHostState) (stack : Stack) : DriverHostState × Option Bytes :=
  match at? stack 1 with
  | some (.table entries) => host.captureRegisterFilter limits (readFilter numbers entries)
  | _ => (host, cstr "argument.type: filter must be a table")

/-- What the event on the stack is dumped to. The exception of `dump` is a fault. -/
def eventText (numbers : Numbers) (lib : JsonLib) (fuel : ℕ) (stack : Stack) :
    Except Fault (Except Bytes Bytes) :=
  match jsonFromLua numbers fuel 17 stack 1 with
  | .error fault => .error fault
  | .ok (_, .error error) => .ok (.error error)
  | .ok (_, .ok doc) =>
      match lib.dump doc with
      | none => .error (.raised (cstr "C++ exception"))
      | some text => .ok (.ok text)

/-- What a call of `lezcap.event.emit` leaves, its answer, and what it hands to the sink. -/
structure Emitted where
  host : DriverHostState
  answer : Except Fault (Option Bytes)
  forwarded : List Bytes := []

/-- `lezcap.event.emit` on the arguments that are on the stack. The rate is checked and the call
counted before the event is converted. -/
def DriverHostState.eventEmitLua (numbers : Numbers) (lib : JsonLib) (fuel : ℕ) (sink : Bool)
    (limits : DriverResourceLimits) (host : DriverHostState) (nowMs : ℤ) (stack : Stack) :
    Emitted :=
  match at? stack 1 with
  | some (.table _) =>
      match eventText numbers lib fuel stack with
      | .ok text =>
          let emitted := host.eventEmit limits nowMs text
          { host := emitted.1
            answer := .ok emitted.2
            forwarded :=
              match sink, emitted.2, text with
              | true, none, .ok text => [text]
              | _, _, _ => [] }
      | .error fault =>
          let counted := host.eventEmit limits nowMs (.error [])
          { host := counted.1
            answer :=
              if counted.2 = some (cstr "limit.rate: event rate limit reached") then .ok counted.2
              else .error fault }
  | _ => { host, answer := .ok (some (cstr "argument.type: event must be a table")) }

end Ezcap.Drivers
