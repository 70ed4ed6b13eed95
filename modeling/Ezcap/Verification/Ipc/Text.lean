import Ezcap.Library.Text
import Ezcap.Verification.Ipc.Requests

/-! Which events the encoder accepts: those whose variable texts are well-formed UTF-8.
Everything else it writes is a literal, a number or a formatted text. -/

namespace Ezcap.Ipc

open StdString Utf8

@[simp] theorem valid_toRfc3339 (tp : ℤ) : Valid (toRfc3339 tp) := by
  simp only [toRfc3339, List.append_assoc, (Format.valid_decimalPadded _ _).append_iff,
    (valid_cstr _).append_iff, valid_cstr]

@[simp] theorem valid_eventTypeName (t : EventType) : Valid (eventTypeName t) := by
  cases t <;> exact valid_cstr _

@[simp] theorem valid_eventSourceName (s : EventSource) : Valid (eventSourceName s) := by
  cases s <;> exact valid_cstr _

@[simp] theorem valid_transportName (t : Transport) : Valid (transportName t) := by
  cases t <;> exact valid_cstr _

@[simp] theorem valid_directionName (d : Direction) : Valid (directionName d) := by
  cases d <;> exact valid_cstr _

@[simp] theorem valid_errorCodeName (c : ErrorCode) : Valid (errorCodeName c) := by
  cases c <;> exact valid_cstr _

/-! ## Members -/

/-- Keys and values of the members are text. -/
def IsText (fields : List (Bytes × Json)) : Prop :=
  ∀ f ∈ fields, Valid f.1 ∧ f.2.isText = true

theorem isText_mkObject_iff (fields : List (Bytes × Json)) :
    (Json.mkObject fields).isText = true ↔ IsText fields := Json.isText_mkObject fields

@[simp] theorem isText_nil : IsText [] := by simp [IsText]

@[simp] theorem isText_cons (key : String) (value : Json) (fields : List (Bytes × Json)) :
    IsText ((cstr key, value) :: fields) ↔ value.isText = true ∧ IsText fields := by
  simp [IsText]

@[simp] theorem isText_append (fields more : List (Bytes × Json)) :
    IsText (fields ++ more) ↔ IsText fields ∧ IsText more := by
  simp only [IsText, List.forall_mem_append]

@[simp] theorem isText_fieldIf (condition : Bool) (key : String) (value : Json) :
    IsText (fieldIf condition (cstr key) value) ↔ (condition = true → value.isText = true) := by
  cases condition <;> simp [fieldIf]

@[simp] theorem isText_fieldOf {α : Type} (key : String) (encode : α → Json) (value : Option α) :
    IsText (fieldOf (cstr key) encode value) ↔ ∀ v ∈ value, (encode v).isText = true := by
  cases value <;> simp [fieldOf]

/-- An optional text that is left out when empty is no obstacle when it is empty. -/
@[simp] theorem isText_textField (key : String) (value : Bytes) :
    IsText (textField (cstr key) value) ↔ Valid value := by
  cases value <;> simp [textField]

/-! ## Events -/

structure NetworkText (network : NetworkInfo) : Prop where
  localAddress : Valid network.localAddress
  remoteAddress : Valid network.remoteAddress
  dnsQueryName : Valid network.dnsQueryName
  interface : Valid network.interface

structure BrowserText (browser : BrowserInfo) : Prop where
  url : Valid browser.url
  title : Valid browser.title
  navigationId : Valid browser.navigationId

/-- The variable texts of an event are well-formed UTF-8. -/
structure EventText (event : Event) : Prop where
  eventId : Valid event.eventId
  correlationId : Valid event.correlationId
  process : ∀ p ∈ event.process, Valid p.name
  network : ∀ n ∈ event.network, NetworkText n
  browser : ∀ b ∈ event.browser, BrowserText b
  status : event.type = .status → ∀ s ∈ event.backendStatuses, Valid s.detail
  error : event.type = .error → Valid event.errorCode ∧ Valid event.errorMessage

theorem isText_processJson (process : ProcessInfo) :
    (processJson process).isText = true ↔ Valid process.name := by
  simp [processJson, isText_mkObject_iff]

theorem isText_networkJson (network : NetworkInfo) :
    (networkJson network).isText = true ↔ NetworkText network := by
  simp only [networkJson, isText_mkObject_iff, isText_append, isText_cons, isText_fieldIf,
    isText_fieldOf, isText_textField, isText_nil, Json.isText_string, Json.isText_unsigned,
    valid_transportName, valid_directionName, valid_eventSourceName, implies_true, true_and,
    and_true]
  constructor
  · rintro ⟨⟨⟨hlocal, hremote⟩, hname⟩, hinterface⟩
    exact ⟨hlocal, hremote, hname, hinterface⟩
  · rintro ⟨hlocal, hremote, hname, hinterface⟩
    exact ⟨⟨⟨hlocal, hremote⟩, hname⟩, hinterface⟩

theorem isText_browserJson (browser : BrowserInfo) :
    (browserJson browser).isText = true ↔ BrowserText browser := by
  simp only [browserJson, isText_mkObject_iff, isText_append, isText_cons, isText_fieldIf,
    isText_textField, isText_nil, Json.isText_string, Json.isText_unsigned, true_and, and_true]
  have hid : (((browser.navigationId != []) = true) → Valid browser.navigationId) ↔
      Valid browser.navigationId := by
    cases browser.navigationId <;> simp
  rw [hid]
  constructor
  · rintro ⟨⟨hurl, htitle⟩, hnavigation⟩
    exact ⟨hurl, htitle, hnavigation⟩
  · rintro ⟨hurl, htitle, hnavigation⟩
    exact ⟨⟨hurl, htitle⟩, hnavigation⟩

theorem isText_privacyJson (privacy : PrivacyInfo) : (privacyJson privacy).isText = true := by
  have hnames : ∀ name ∈ redactionNames privacy.redactions, name.isText = true := by
    simp only [redactionNames, List.forall_mem_append]
    refine ⟨⟨⟨⟨?_, ?_⟩, ?_⟩, ?_⟩, ?_⟩ <;> split_ifs <;> simp
  simpa [privacyJson, isText_mkObject_iff] using fun _ => hnames

theorem isText_backendJson (backend : BackendStatus) :
    (backendJson backend).isText = true ↔ Valid backend.detail := by
  simp only [backendJson, isText_mkObject_iff]
  split <;> simp

theorem isText_eventJson (event : Event) :
    (eventJson event).isText = true ↔ EventText event := by
  simp only [eventJson, isText_mkObject_iff, isText_append, isText_cons, isText_fieldIf,
    isText_textField, isText_nil, isText_fieldOf, isText_processJson, isText_networkJson,
    isText_browserJson, isText_privacyJson, Json.isText_string, Json.isText_unsigned,
    Json.isText_float, Json.isText_array, List.forall_mem_map, isText_backendJson,
    valid_eventTypeName,
    valid_toRfc3339, valid_eventSourceName, valid_cstr, true_and, and_true]
  have hstatus : ((event.type == .status && !event.backendStatuses.isEmpty) = true →
      ∀ s ∈ event.backendStatuses, Valid s.detail) ↔
      (event.type = .status → ∀ s ∈ event.backendStatuses, Valid s.detail) := by
    cases event.backendStatuses <;> simp
  rw [hstatus, beq_iff_eq]
  constructor
  · rintro ⟨⟨⟨⟨⟨⟨hid, hcorrelation⟩, hprocess⟩, hnetwork⟩, hbrowser⟩, hstatus⟩, herror⟩
    exact ⟨hid, hcorrelation, hprocess, hnetwork, hbrowser, hstatus, herror⟩
  · rintro ⟨hid, hcorrelation, hprocess, hnetwork, hbrowser, hstatus, herror⟩
    exact ⟨⟨⟨⟨⟨⟨hid, hcorrelation⟩, hprocess⟩, hnetwork⟩, hbrowser⟩, hstatus⟩, herror⟩

theorem encodeEvent_isSome {lib : JsonLib} (h : lib.Lawful) (event : Event) :
    (encodeEvent lib event).isSome = true ↔ EventText event := by
  rw [encodeEvent, h.dump_isSome, isText_eventJson]

/-! ## Requests and responses -/

theorem valid_requestId {lib : JsonLib} (h : lib.Lawful) {frame : Bytes} {maxBytes : ℕ}
    {request : Request} (hparse : parseRequest lib frame maxBytes = .ok request) :
    Valid request.requestId := by
  obtain ⟨-, doc, hdoc, haccepted⟩ := parseRequest_eq_ok.mp hparse
  obtain ⟨hvalue, -⟩ := readRequestId_eq_ok.mp haccepted.requestId
  obtain ⟨field, hfield, hstring⟩ := Option.bind_eq_some_iff.mp hvalue
  exact Json.valid_string? (Json.isText_field? (h.isText_of_parse hdoc) hfield) hstring

/-- A failure has a message that is text. -/
def ErrorText {α : Type} (x : Except IpcError α) : Prop := ∀ e, x = .error e → Valid e.message

theorem errorText_ok {α : Type} (a : α) : ErrorText (.ok a) := nofun

theorem errorText_error {α : Type} (code : ErrorCode) (message : String) :
    ErrorText (.error ⟨code, cstr message⟩ : Except IpcError α) := by
  rintro _ ⟨⟩
  exact valid_cstr message

theorem ErrorText.bind {α β : Type} {x : Except IpcError α} {f : α → Except IpcError β}
    (hx : ErrorText x) (hf : ∀ a, ErrorText (f a)) : ErrorText (x.bind f) := by
  cases x with
  | error e =>
      rintro _ ⟨⟩
      exact hx e rfl
  | ok a => exact hf a

theorem errorText_readRequest (lib : JsonLib) (doc : Json) : ErrorText (readRequest lib doc) := by
  have hversion : ErrorText (checkVersion doc) := by
    unfold checkVersion
    split
    · exact errorText_error _ _
    · split
      · exact errorText_ok _
      · exact errorText_error _ _
  have hoperation : ErrorText (readOperation doc) := by
    unfold readOperation
    split
    · exact errorText_error _ _
    · split
      · exact errorText_error _ _
      · exact errorText_ok _
  have hid : ErrorText (readRequestId doc) := by
    unfold readRequestId
    split
    · exact errorText_error _ _
    · split
      · exact errorText_error _ _
      · exact errorText_ok _
  have hparams : ErrorText (readParams lib doc) := by
    unfold readParams
    split
    · exact errorText_ok _
    · split
      · exact errorText_error _ _
      · split
        · exact errorText_error _ _
        · split
          · exact errorText_error _ _
          · exact errorText_ok _
  refine hversion.bind fun _ => hoperation.bind fun operation => hid.bind fun requestId => ?_
  exact hparams.bind fun paramsJson => errorText_ok _

theorem errorText_parseRequest (lib : JsonLib) (frame : Bytes) (maxBytes : ℕ) :
    ErrorText (parseRequest lib frame maxBytes) := by
  unfold parseRequest
  split
  · exact errorText_error _ _
  · split
    · exact errorText_error _ _
    · split
      · split
        · exact errorText_error _ _
        · exact errorText_readRequest lib _
      · exact errorText_error _ _

/-- A response is encoded when its id and, in a failure, its message are text. -/
theorem encodeResponse_isSome {lib : JsonLib} (h : lib.Lawful) {response : Response}
    (hid : Valid response.requestId) (herror : response.ok = false → Valid response.error.message) :
    (encodeResponse lib response).isSome = true := by
  have hresult : (responseResult lib response).isText = true := by
    unfold responseResult
    split
    · simp
    · cases hparse : lib.parse response.resultJson with
      | none => simp
      | some doc => exact h.isText_of_parse hparse
  rw [encodeResponse, h.dump_isSome, responseJson, isText_mkObject_iff]
  cases hok : response.ok with
  | true => simp [hid, hresult]
  | false => simp [hid, herror hok, isText_mkObject_iff]

theorem encodeError_isSome {lib : JsonLib} (h : lib.Lawful) {requestId : Bytes} {error : IpcError}
    (hid : Valid requestId) (herror : Valid error.message) :
    (encodeError lib requestId error).isSome = true :=
  encodeResponse_isSome h hid fun _ => herror

end Ezcap.Ipc
