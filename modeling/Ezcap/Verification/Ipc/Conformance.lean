import Ezcap.Library.JsonRoundTrip
import Ezcap.Model.Protocol
import Ezcap.Verification.Ipc.Requests

/-! Which of the requests that are accepted conform to the published schema. The version, the
operation and the id are checked as the schema has them; that there is nothing else, and what the
params hold, is not checked. -/

namespace Ezcap.Ipc

open StdString Protocol JsonSchema

variable {lib : JsonLib} {round : ℚ → ℚ} {doc : Json} {request : Request}

/-! ## The members that are checked -/

theorem checkVersion_eq_ok (h : checkVersion doc = .ok ()) :
    ∃ value, doc.field? (cstr "protocol_version") = some value ∧ value.integer? = some 1 := by
  unfold checkVersion at h
  split at h
  · cases h
  · rename_i version hversion
    obtain ⟨value, hvalue, hinteger⟩ := Option.bind_eq_some_iff.mp hversion
    split_ifs at h with hone
    exact ⟨value, hvalue, by rw [hinteger, hone]; rfl⟩

/-- Read as a 64-bit number, only one is one. -/
theorem integral?_of_integer? {value : Json} (hvalue : value.isWellFormed = true)
    (h : value.integer? = some 1) : value.integral? = some 1 := by
  cases value with
  | integer i => exact h
  | unsigned n =>
      rw [Json.isWellFormed_unsigned] at hvalue
      rw [Json.integer?, Option.some.injEq] at h
      have hone : n = 1 := by
        rw [Int.bmod_def] at h
        split_ifs at h <;> omega
      rw [hone]
      rfl
  | _ => cases h

/-- The names that the schema lists. -/
def operationNames : List Bytes :=
  [cstr "hello", cstr "get_status", cstr "subscribe", cstr "unsubscribe", cstr "set_policy",
    cstr "get_policy", cstr "shutdown"]

theorem mem_operationNames {name : Bytes} {operation : Operation}
    (h : operationFromName name = some operation) : name ∈ operationNames := by
  unfold operationFromName at h
  split_ifs at h
  all_goals subst name; simp [operationNames]

section Accepted

variable (hdoc : doc.isWellFormed = true) (htext : doc.isText = true)
  (h : Accepted lib doc request)

include h

include hdoc in
theorem Accepted.conforms_version :
    ∃ value, doc.field? (cstr "protocol_version") = some value ∧
      (JsonSchema.integer (some 1) none none).conforms value = true := by
  obtain ⟨value, hvalue, hinteger⟩ := checkVersion_eq_ok h.version
  have hone := integral?_of_integer? (Json.isWellFormed_field? hdoc hvalue) hinteger
  exact ⟨value, hvalue, by rw [conforms, hone]; rfl⟩

theorem Accepted.conforms_operation :
    ∃ value, doc.field? (cstr "operation") = some value ∧
      (JsonSchema.string (some operationNames) none none).conforms value = true := by
  obtain ⟨name, hname, hoperation⟩ := readOperation_eq_ok.mp h.operation
  obtain ⟨value, hvalue, hstring⟩ := Option.bind_eq_some_iff.mp hname
  refine ⟨value, hvalue, ?_⟩
  simp [conforms, hstring, mem_operationNames hoperation]

include htext in
theorem Accepted.conforms_requestId :
    ∃ value, doc.field? (cstr "request_id") = some value ∧
      (JsonSchema.string none (some 1) (some 64)).conforms value = true := by
  obtain ⟨hid, hne, hlength⟩ := readRequestId_eq_ok.mp h.requestId
  obtain ⟨value, hvalue, hstring⟩ := Option.bind_eq_some_iff.mp hid
  have hvalid := Json.valid_string? (Json.isText_field? htext hvalue) hstring
  have hmin := one_le_characters hvalid hne
  have hmax := (characters_le request.requestId).trans hlength
  exact ⟨value, hvalue, by simp [conforms, hstring, hmin, hmax]⟩

end Accepted

/-! ## The others -/

/-- All keys that the schema lists for a request. -/
def requestKeys : List Bytes :=
  [cstr "protocol_version", cstr "operation", cstr "request_id", cstr "params"]

/-- What is not checked: that there is no other member, and what the params hold. -/
structure Unchecked (doc : Json) : Prop where
  closed : ∀ key, (doc.field? key).isSome → key ∈ requestKeys
  params : ∀ params, doc.field? (cstr "params") = some params → paramsSchema.conforms params = true

theorem unchecked_of_conforms (h : daemonRequestSchema.conforms doc = true) : Unchecked doc where
  closed key hkey := by
    obtain ⟨value, hvalue⟩ := Option.isSome_iff_exists.mp hkey
    exact mem_of_conformsMember (conformsMember_of_field? h hvalue)
  params params hparams := by
    have hmember := conformsMember_of_field? h hparams
    simpa [conformsMember] using hmember

theorem any_of_field? {fields : List (Bytes × Json)} {key : Bytes} {value : Json}
    (h : (Json.object fields).field? key = some value) : fields.any (·.1 == key) = true :=
  List.any_eq_true.mpr ⟨(key, value), Json.mem_of_field? h, beq_self_eq_true key⟩

theorem Accepted.conforms (hdoc : doc.isWellFormed = true) (htext : doc.isText = true)
    (h : Accepted lib doc request) (hunchecked : Unchecked doc) :
    daemonRequestSchema.conforms doc = true := by
  obtain ⟨version, hversion, hversionConforms⟩ := h.conforms_version hdoc
  obtain ⟨operation, hoperation, hoperationConforms⟩ := h.conforms_operation
  obtain ⟨requestId, hrequestId, hrequestIdConforms⟩ := h.conforms_requestId htext
  have hobject := h.isObject
  cases doc with
  | object fields =>
      simp only [daemonRequestSchema, JsonSchema.conforms, Json.object?, Option.all_none,
        Bool.and_true, Bool.and_eq_true, List.all_eq_true]
      constructor
      · intro key hkey
        simp only [List.mem_cons, List.not_mem_nil, or_false] at hkey
        rcases hkey with rfl | rfl | rfl
        · exact any_of_field? hversion
        · exact any_of_field? hoperation
        · exact any_of_field? hrequestId
      · intro f hf
        obtain ⟨key, value⟩ := f
        have hfield := Json.field?_of_mem hdoc hf
        have hkey := hunchecked.closed key (by rw [hfield]; rfl)
        simp only [requestKeys, List.mem_cons, List.not_mem_nil, or_false] at hkey
        rcases hkey with rfl | rfl | rfl | rfl
        · obtain rfl := Option.some.inj (hversion.symm.trans hfield)
          simpa [conformsMember] using hversionConforms
        · obtain rfl := Option.some.inj (hoperation.symm.trans hfield)
          simpa [conformsMember, operationNames] using hoperationConforms
        · obtain rfl := Option.some.inj (hrequestId.symm.trans hfield)
          simpa [conformsMember] using hrequestIdConforms
        · simpa [conformsMember] using hunchecked.params value hfield
  | _ => cases hobject

/-- The schema lists none of the forbidden keys, at any depth. -/
theorem not_mem_keys_of_forbidden : ∀ key ∈ kForbidden, key ∉ daemonRequestSchema.keys :=
  forall_mem_of_all (by decide +kernel)

/-! ## Rejections -/

/-- A failure comes with a message. -/
def Reports {α : Type} (result : Except IpcError α) : Prop :=
  ∀ error, result = .error error → error.message ≠ []

section Reports

variable {α β : Type} {result : Except IpcError α}

theorem reports_ok (a : α) : Reports (.ok a : Except IpcError α) := by
  intro error h
  cases h

theorem reports_error {error : IpcError} (h : error.message ≠ []) :
    Reports (.error error : Except IpcError α) := by
  intro error' herror
  cases herror
  exact h

theorem Reports.bind (h : Reports result) {f : α → Except IpcError β} (hf : ∀ a, Reports (f a)) :
    Reports (result.bind f) := by
  cases result with
  | error e => exact reports_error (h e rfl)
  | ok a => exact hf a

theorem Reports.map (h : Reports result) (f : α → β) : Reports (result.map f) := by
  cases result with
  | error e => exact reports_error (h e rfl)
  | ok a => exact reports_ok (f a)

end Reports

theorem reports_readRequest (doc : Json) : Reports (readRequest lib doc) := by
  have hversion : Reports (checkVersion doc) := by
    unfold checkVersion
    split
    · exact reports_error (by decide)
    · split_ifs
      · exact reports_ok ()
      · exact reports_error (by decide)
  have hoperation : Reports (readOperation doc) := by
    unfold readOperation
    split
    · exact reports_error (by decide)
    · split
      · exact reports_error (by decide)
      · exact reports_ok _
  have hid : Reports (readRequestId doc) := by
    unfold readRequestId
    split
    · exact reports_error (by decide)
    · split_ifs
      · exact reports_error (by decide)
      · exact reports_ok _
  have hparams : Reports (readParams lib doc) := by
    unfold readParams
    split
    · exact reports_ok []
    · split
      · exact reports_error (by decide)
      · split_ifs
        · exact reports_error (by decide)
        · split
          · exact reports_error (by decide)
          · exact reports_ok _
  exact hversion.bind fun _ => hoperation.bind fun _ => hid.bind fun _ => hparams.map _

theorem reports_parseRequest (frame : Bytes) (maxBytes : ℕ) :
    Reports (parseRequest lib frame maxBytes) := by
  unfold parseRequest
  split_ifs
  · exact reports_error (by decide)
  · split
    · exact reports_error (by decide)
    · split_ifs
      · exact reports_error (by decide)
      · exact reports_readRequest _
      · exact reports_error (by decide)

/-- A request that is accepted conforms to the schema, and has no forbidden key at any depth,
exactly when it has no other members than the listed ones and its params conform; one that is
rejected is rejected with a message. -/
theorem accepted_request_conforms_iff (hlib : lib.Lawful) (hround : lib.RoundTrip round)
    (frame : Bytes) (maxBytes : ℕ) :
    (∀ doc request, lib.parse frame = some doc →
      parseRequest lib frame maxBytes = .ok request →
        ((daemonRequestSchema.conforms doc = true ∧ ∀ key ∈ kForbidden, ¬ doc.HasKey key) ↔
          Unchecked doc)) ∧
      ∀ error, parseRequest lib frame maxBytes = .error error → error.message ≠ [] := by
  refine ⟨fun doc request hdoc hrequest => ⟨fun h => unchecked_of_conforms h.1, ?_⟩,
    reports_parseRequest frame maxBytes⟩
  intro hunchecked
  obtain ⟨-, doc', hdoc', haccepted⟩ := parseRequest_eq_ok.mp hrequest
  obtain rfl : doc = doc' := Option.some.inj (hdoc.symm.trans hdoc')
  have hconforms := haccepted.conforms (hround.isWellFormed_of_parse hdoc)
    (hlib.isText_of_parse hdoc) hunchecked
  exact ⟨hconforms, fun key hkey hhas =>
    not_mem_keys_of_forbidden key hkey (mem_keys_of_hasKey hhas hconforms)⟩

def helloFrame : Bytes :=
  cstr "\x7b\"protocol_version\":1,\"operation\":\"hello\",\"request_id\":\"0\"\x7d"

theorem accepted_request_conforms_hello :
    ∃ doc request, JsonReference.lib.parse helloFrame = some doc ∧
      parseRequest JsonReference.lib helloFrame kMaxRequestBytes = .ok request ∧
      ((daemonRequestSchema.conforms doc = true ∧ ∀ key ∈ kForbidden, ¬ doc.HasKey key) ↔
        Unchecked doc) := by
  obtain ⟨doc, hdoc⟩ : ∃ doc, JsonReference.lib.parse helloFrame = some doc :=
    Option.isSome_iff_exists.mp (by decide +kernel)
  have hrequest : parseRequest JsonReference.lib helloFrame kMaxRequestBytes =
      .ok { operation := .hello, requestId := cstr "0" } := by decide +kernel
  exact ⟨doc, _, hdoc, hrequest, (accepted_request_conforms_iff JsonReference.lib_lawful
    JsonReference.lib_roundTrip helloFrame kMaxRequestBytes).1 doc _ hdoc hrequest⟩

/-- A request with a member of its own and a password in its params. -/
def passwordFrame : Bytes :=
  cstr "\x7b\"protocol_version\":1,\"operation\":\"hello\",\"request_id\":\"0\"," ++
    cstr "\"token\":\"t\",\"params\":\x7b\"password\":\"p\"\x7d\x7d"

/-- It is accepted, although it does not conform and has a forbidden key. -/
theorem password_request_accepted :
    ∃ doc request, JsonReference.lib.parse passwordFrame = some doc ∧
      parseRequest JsonReference.lib passwordFrame kMaxRequestBytes = .ok request ∧
      daemonRequestSchema.conforms doc = false ∧ (doc.field? (cstr "token")).isSome ∧
      doc.HasKey (cstr "password") := by
  obtain ⟨doc, hdoc⟩ : ∃ doc, JsonReference.lib.parse passwordFrame = some doc :=
    Option.isSome_iff_exists.mp (by decide +kernel)
  have hrequest : parseRequest JsonReference.lib passwordFrame kMaxRequestBytes =
      .ok { operation := .hello, requestId := cstr "0",
            paramsJson := cstr "\x7b\"password\":\"p\"\x7d" } := by decide +kernel
  have hconforms : (JsonReference.lib.parse passwordFrame).map daemonRequestSchema.conforms =
      some false := by decide +kernel
  have htoken : ((JsonReference.lib.parse passwordFrame).bind
      (·.field? (cstr "token"))).isSome = true := by decide +kernel
  have hpassword : (((JsonReference.lib.parse passwordFrame).bind
      (·.field? (cstr "params"))).bind (·.field? (cstr "password"))).isSome = true := by
    decide +kernel
  rw [hdoc] at hconforms htoken hpassword
  obtain ⟨value, hvalue⟩ := Option.isSome_iff_exists.mp hpassword
  obtain ⟨params, hparams, hmember⟩ := Option.bind_eq_some_iff.mp hvalue
  exact ⟨doc, _, hdoc, hrequest, Option.some.inj hconforms, htoken,
    (Json.hasKey_of_field? hmember).of_field? hparams⟩

end Ezcap.Ipc
