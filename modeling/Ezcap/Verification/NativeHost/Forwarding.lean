import Ezcap.Model.Relay
import Ezcap.Verification.NativeHost.Replies
import Ezcap.Verification.NativeHost.Requests

/-! Whether the daemon gets the request that the browser made. The host leaves out params that
it does not like instead of refusing the request, and it sends a frame of exactly the limit, which
the daemon refuses if the newline is late. -/

namespace Ezcap.NativeHost

open StdString Ipc Relay

variable {lib : JsonLib} {round : ℚ → ℚ}

/-! ## The params -/

/-- Params that both sides accept. -/
def isParams (params : Json) : Bool := params.object?.any fun fields => decide (fields.length ≤ 8)

theorem isParams_iff {params : Json} :
    isParams params = true ↔ ∃ fields, params = .object fields ∧ fields.length ≤ 8 := by
  cases params <;> simp [isParams, Json.object?]

/-- The host sends the text of the params, or leaves them out. -/
theorem paramsText_ok {payload : Json} {text : Bytes}
    (h : (paramsText lib payload).answer = some text) :
    (∃ params, payload.field? (cstr "params") = some params ∧ isParams params = true ∧
      lib.dump params = some text) ∨
    text = [] ∧ ∀ params, payload.field? (cstr "params") = some params →
      isParams params = false := by
  unfold paramsText at h
  cases hfield : payload.field? (cstr "params") with
  | none =>
      simp only [hfield, Option.bind_none] at h
      cases h
      exact .inr ⟨rfl, nofun⟩
  | some params =>
      simp only [hfield, Option.bind_some] at h
      cases params with
      | object fields =>
          simp only [Json.object?] at h
          split_ifs at h with hsize
          · exact .inl ⟨_, rfl, by simp [isParams, Json.object?, hsize], h⟩
          · cases h
            exact .inr ⟨rfl, by simp [isParams, Json.object?, hsize]⟩
      | _ =>
          cases h
          exact .inr ⟨rfl, by simp [isParams, Json.object?]⟩

/-- The params of a request, none if their text is empty. -/
def params? (lib : JsonLib) (request : Request) : Option Json :=
  if request.paramsJson = [] then none else lib.parse request.paramsJson

theorem readParams_reread {request : Request} (hround : lib.RoundTrip round)
    (h : request.paramsJson = [] ∨ ∃ params, isParams params = true ∧
      lib.parse request.paramsJson = some params ∧ params.reread round = params ∧
      lib.dump params = some request.paramsJson) :
    readParams lib ((requestJson lib request).reread round) = .ok request.paramsJson := by
  unfold readParams
  rw [Json.field?_reread]
  rcases h with hnil | ⟨params, hparams, hparse, hreread, hdump⟩
  · have hfield : (requestJson lib request).field? (cstr "params") = none :=
      field?_requestJson_eq_none.mpr (by simp [requestFields, fieldIf, hnil])
    simp [hfield, hnil]
  · have hne : request.paramsJson ≠ [] :=
      hround.dump_ne_nil (hround.isWellFormed_of_parse hparse) hdump
    have hfield : (requestJson lib request).field? (cstr "params") = some params :=
      field?_requestJson.mpr (by simp [requestFields, fieldIf, hne, hparse])
    obtain ⟨fields, rfl, hsize⟩ := isParams_iff.mp hparams
    simp [hfield, hreread, Json.object?, Nat.not_lt.mpr hsize, hdump]

theorem hasForbiddenField_requestJson (request : Request) :
    hasForbiddenField ((requestJson lib request).reread round) = false := by
  have hallowed : ∀ f ∈ Ipc.kForbidden,
      f ∉ [cstr "protocol_version", cstr "operation", cstr "request_id", cstr "params"] := by
    decide
  refine List.any_eq_false.mpr fun f hf => ?_
  have hnone : (requestJson lib request).field? f = none := by
    refine field?_requestJson_eq_none.mpr fun hmem => hallowed f hf ?_
    unfold requestFields fieldIf at hmem
    split at hmem
    · simpa using hmem
    · simp only [List.append_nil, List.map_cons, List.map_nil] at hmem
      exact List.mem_append_left [_] hmem
  simp [hnone]

theorem checkVersion_requestJson (request : Request) :
    checkVersion ((requestJson lib request).reread round) = .ok () := by
  have hfield : (requestJson lib request).field? (cstr "protocol_version") =
      some (.unsigned kProtocolVersion.toNat) :=
    field?_requestJson.mpr (by simp [requestFields])
  rw [checkVersion, Json.field?_reread, hfield]
  simp [Json.reread, Json.integer?, kProtocolVersion]

/-- The daemon reads a request of the host as it was sent. -/
theorem parseRequest_of_requestFrame (hround : lib.RoundTrip round) {request : Request}
    {frame : Bytes} (hframe : (requestFrame lib request).answer = some (some (frame ++ cstr "\n")))
    (hid : request.requestId ≠ [] ∧ request.requestId.length ≤ 64)
    (hparams : readParams lib ((requestJson lib request).reread round) = .ok request.paramsJson) :
    parseRequest lib frame kMaxRequestBytes = .ok request := by
  refine parseRequest_eq_ok.mpr
    ⟨(requestFrame_eq_some hframe).2, _, parse_requestFrame hround hframe, ?_⟩
  refine ⟨?_, hasForbiddenField_requestJson request, checkVersion_requestJson request, ?_, ?_,
    hparams⟩
  · rw [Json.isObject_reread]
    rfl
  · exact readOperation_eq_ok.mpr ⟨_, string_reread (operationName request.operation)
      (by simp [requestFields]), operationFromName_operationName _⟩
  · exact readRequestId_eq_ok.mpr ⟨string_reread request.requestId (by simp [requestFields]), hid⟩

/-! ## The whole way -/

/-- A member of the browser's request. -/
def requestField (doc : Json) (key : Bytes) : Option Json :=
  (doc.field? (cstr "payload")).bind (·.field? key)

/-- The daemon gets the browser's request `doc` in the frame: whatever the chunks, it splits out
the one frame and accepts it, with the operation, the id and the params of the request. -/
structure Received (lib : JsonLib) (doc : Json) (frame : Bytes) : Prop where
  framed : ∀ cut, Server.IsCut (frame ++ cstr "\n") cut → Server.served cut = ([frame], false)
  accepted : ∃ request, parseRequest lib frame kMaxRequestBytes = .ok request ∧
    (requestField doc (cstr "operation")).bind Json.string? =
      some (operationName request.operation) ∧
    (requestField doc (cstr "request_id")).bind Json.string? = some request.requestId ∧
    requestField doc (cstr "params") = params? lib request

/-- The request that is sent for a message, and that the daemon reads: its params are those of the
payload, as far as both sides accept them. -/
theorem exists_request_of_sentAs (hround : lib.RoundTrip round) {payload : Json}
    {message : Message} {frame : Bytes} (hchecked : Checked payload message)
    (hsent : SentAs lib message frame) (hpayload : payload.isWellFormed = true)
    (hundone : ∀ params written, payload.field? (cstr "params") = some params →
      lib.dump params = some written → lib.parse written = some params) :
    ∃ request, (requestFrame lib request).answer = some (some (frame ++ cstr "\n")) ∧
      parseRequest lib frame kMaxRequestBytes = .ok request ∧
      operationName request.operation = message.operation ∧
      request.requestId = message.requestId ∧
      params? lib request = (payload.field? (cstr "params")).filter isParams := by
  obtain ⟨operation, request, hoperation, hrequest, hframe⟩ := hsent
  obtain ⟨rfl, hid, htext⟩ := buildRequest_ok hrequest
  rw [hchecked.payload_eq] at htext
  have hlength : request.requestId ≠ [] ∧ request.requestId.length ≤ 64 :=
    hid ▸ ⟨hchecked.requestId_ne, hchecked.length_le⟩
  refine ⟨request, hframe, ?_, operationName_of_operationFromName hoperation, hid, ?_⟩
  all_goals rcases paramsText_ok htext with ⟨params, hfield, hparams, hdump⟩ | ⟨hnil, hnone⟩
  · have hparse := hundone params _ hfield hdump
    have hreread := hround.parse_dump (Json.isWellFormed_field? hpayload hfield) hdump
    refine parseRequest_of_requestFrame hround hframe hlength (readParams_reread hround (.inr
      ⟨params, hparams, hparse, Option.some.inj (hreread.symm.trans hparse), hdump⟩))
  · exact parseRequest_of_requestFrame hround hframe hlength (readParams_reread hround (.inl hnil))
  · have hne := hround.dump_ne_nil (Json.isWellFormed_field? hpayload hfield) hdump
    rw [params?, if_neg hne, hundone params _ hfield hdump, hfield, Option.filter_some,
      if_pos hparams]
  · rw [params?, if_pos hnil, eq_comm, Option.filter_eq_none_iff]
    intro params hfield
    simp [hnone params hfield]

/-- The frame of a forwarded message names an operation of the allowlist. The daemon gets the
request exactly when the frame is shorter than the limit and the params, if there are any, are an
object of at most eight members. -/
theorem forwarded_request_received_iff (hround : lib.RoundTrip round) {env : Env}
    {text frame : Bytes} {doc : Json} {message : Message} (hdoc : lib.parse text = some doc)
    (hforwards : Forwards lib env doc message) (hsent : SentAs lib message frame)
    (hundone : ∀ params written, requestField doc (cstr "params") = some params →
      lib.dump params = some written → lib.parse written = some params) :
    (∃ name ∈ kAllowedOperations, name ≠ cstr "shutdown" ∧
      (lib.parse frame).bind (·.field? (cstr "operation")) = some (.string name)) ∧
    (Received lib doc frame ↔ frame.length ≠ kMaxRequestBytes ∧
      ∀ params, requestField doc (cstr "params") = some params →
        ∃ fields, params = .object fields ∧ fields.length ≤ 8) := by
  obtain ⟨-, payload, hpayload, hchecked⟩ := validate_ok hforwards.valid
  have hfield (key : Bytes) : requestField doc key = payload.field? key := by
    rw [requestField, hpayload, Option.bind_some]
  simp only [hfield] at hundone ⊢
  obtain ⟨request, hframe, hparse, hoperation, hid, hparams⟩ :=
    exists_request_of_sentAs hround hchecked hsent
      (Json.isWellFormed_field? (hround.isWellFormed_of_parse hdoc) hpayload) hundone
  obtain ⟨hdump, hlength⟩ := requestFrame_eq_some hframe
  have hserved := Server.served_line_iff (hround.newline_notMem hdump) hlength
  constructor
  · have hallowed : message.operation ∈ kAllowedOperations := by
      simpa [operationAllowed] using hchecked.allowed
    have hshutdown : ∀ name ∈ kAllowedOperations, name ≠ cstr "shutdown" := by decide
    have hname : (requestJson lib request).field? (cstr "operation") =
        some (.string message.operation) :=
      field?_requestJson.mpr (by simp [requestFields, hoperation])
    refine ⟨message.operation, hallowed, hshutdown _ hallowed, ?_⟩
    rw [parse_requestFrame hround hframe, Option.bind_some, Json.field?_reread, hname,
      Option.map_some, Json.reread_string]
  · constructor
    · rintro ⟨hframed, request', hparse', -, -, hparams'⟩
      refine ⟨hserved.mp hframed, fun params hsome => ?_⟩
      obtain rfl := Except.ok.inj (hparse.symm.trans hparse')
      rw [hfield, hparams] at hparams'
      exact isParams_iff.mp ((Option.filter_eq_some_iff.mp (hparams'.symm.trans hsome)).2)
    · rintro ⟨hne, hobject⟩
      refine ⟨hserved.mpr hne, request, hparse, ?_, ?_, ?_⟩
      · rw [hfield, hoperation, hchecked.operation]
      · rw [hfield, hid, hchecked.requestId]
      · rw [hfield, hparams]
        cases hsome : payload.field? (cstr "params") with
        | none => rfl
        | some params =>
            rw [Option.filter_some, if_pos (isParams_iff.mpr (hobject params hsome))]

/-! ## One message -/

/-- A message that sets the policy. -/
def policyMessage (params : Json) : Message where
  operation := cstr "set_policy"
  requestId := cstr "1"
  payload := .object
    [(cstr "operation", .string (cstr "set_policy")), (cstr "params", params),
      (cstr "request_id", .string (cstr "1"))]

def policyDoc (params : Json) : Json :=
  .object
    [(cstr "kind", .string (cstr "request")), (cstr "payload", (policyMessage params).payload),
     (cstr "protocol_version", .unsigned 1)]

theorem forwards_policyDoc {params : Json} {frame : Bytes}
    (h : SentAs JsonReference.lib (policyMessage params) frame) :
    Forwards JsonReference.lib { poll := .timeout } (policyDoc params) (policyMessage params) where
  valid := by rfl
  connected := rfl
  frame := by
    obtain ⟨operation, request, hoperation, hrequest, hframe⟩ := h
    exact ⟨operation, request, _, hoperation, hrequest, hframe⟩
  sent := rfl

def oneParam : Json := .object [(cstr "metadata_only", .bool true)]

def oneParamFrame : Bytes :=
  cstr "\x7b\"operation\":\"set_policy\",\"params\":\x7b\"metadata_only\":true\x7d,"
    ++ cstr "\"protocol_version\":1,\"request_id\":\"1\"\x7d"

/-- A request with one parameter is received. -/
theorem request_with_param_received :
    SentAs JsonReference.lib (policyMessage oneParam) oneParamFrame ∧
      Received JsonReference.lib (policyDoc oneParam) oneParamFrame := by
  have hsent : SentAs JsonReference.lib (policyMessage oneParam) oneParamFrame :=
    ⟨.setPolicy, ⟨.setPolicy, cstr "1", cstr "\x7b\"metadata_only\":true\x7d"⟩, by decide +kernel,
      by decide +kernel, by decide +kernel⟩
  have hparse : JsonReference.lib.parse (JsonReference.render (policyDoc oneParam)) =
      some (policyDoc oneParam) :=
    JsonReference.parse_render (by decide +kernel) (by decide +kernel)
  refine ⟨hsent, (forwarded_request_received_iff JsonReference.lib_roundTrip hparse
    (forwards_policyDoc hsent) hsent ?_).2.mpr ⟨by decide, ?_⟩⟩
  · rintro params written hparams hdump
    cases hparams
    exact JsonReference.lib_roundTrip.parse_dump (by decide +kernel) hdump
  · rintro params hparams
    cases hparams
    exact ⟨_, rfl, by decide⟩

def nineParams : Json := .object ((List.range 9).map fun i => (Format.decimal i, .null))

def noParamsFrame : Bytes :=
  cstr "\x7b\"operation\":\"set_policy\",\"protocol_version\":1,\"request_id\":\"1\"\x7d"

/-- A request with nine parameters is forwarded, and accepted without any. -/
theorem request_loses_params :
    JsonReference.lib.parse (JsonReference.render (policyDoc nineParams)) =
        some (policyDoc nineParams) ∧
      Forwards JsonReference.lib { poll := .timeout } (policyDoc nineParams)
        (policyMessage nineParams) ∧
      SentAs JsonReference.lib (policyMessage nineParams) noParamsFrame ∧
      parseRequest JsonReference.lib noParamsFrame kMaxRequestBytes =
        .ok ⟨.setPolicy, cstr "1", []⟩ ∧
      ¬ Received JsonReference.lib (policyDoc nineParams) noParamsFrame := by
  have hsent : SentAs JsonReference.lib (policyMessage nineParams) noParamsFrame :=
    ⟨.setPolicy, ⟨.setPolicy, cstr "1", []⟩, by decide +kernel, by decide +kernel,
      by decide +kernel⟩
  have hparse : parseRequest JsonReference.lib noParamsFrame kMaxRequestBytes =
      .ok ⟨.setPolicy, cstr "1", []⟩ := by decide +kernel
  refine ⟨JsonReference.parse_render (by decide +kernel) (by decide +kernel),
    forwards_policyDoc hsent, hsent, hparse, ?_⟩
  rintro ⟨-, request, hrequest, -, -, hparams⟩
  obtain rfl := Except.ok.inj (hparse.symm.trans hrequest)
  cases hparams

end Ezcap.NativeHost
