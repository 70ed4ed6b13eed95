import Ezcap.Library.JsonText
import Ezcap.Verification.Ipc.Members
import Ezcap.Verification.Ipc.Text

/-! What an encoded response or event reads back as. -/

namespace Ezcap.Ipc

open StdString

variable {lib : JsonLib} {round : ℚ → ℚ}

/-! ## Responses -/

section Response

variable {response : Response} {encoded : Bytes}

/-- The members of an encoded response. -/
def responseFields (lib : JsonLib) (response : Response) : List (Bytes × Json) :=
  [(cstr "request_id", .string response.requestId), (cstr "ok", .bool response.ok),
   if response.ok then (cstr "result", responseResult lib response)
   else (cstr "error", .mkObject
     [(cstr "code", .string (errorCodeName response.error.code)),
      (cstr "message", .string response.error.message)])]

theorem nodup_responseFields (lib : JsonLib) (response : Response) :
    ((responseFields lib response).map Prod.fst).Nodup := by
  unfold responseFields
  split <;> simp

theorem field?_responseJson {key : Bytes} {value : Json} :
    (responseJson lib response).field? key = some value ↔
      (key, value) ∈ responseFields lib response :=
  Json.field?_mkObject_eq_some (nodup_responseFields lib response)

section RoundTrip

variable (hround : lib.RoundTrip round)

include hround

theorem isWellFormed_responseResult (response : Response) :
    (responseResult lib response).isWellFormed = true := by
  have hempty : (Json.object []).isWellFormed = true := by simp
  unfold responseResult
  split
  · exact hempty
  · cases hparse : lib.parse response.resultJson with
    | none => exact hempty
    | some doc => exact hround.isWellFormed_of_parse hparse

theorem isWellFormed_responseJson (response : Response) :
    (responseJson lib response).isWellFormed = true := by
  refine Json.isWellFormed_mkObject (nodup_responseFields lib response) ?_
  cases hok : response.ok with
  | true => simp [isWellFormed_responseResult hround]
  | false =>
      simp only [Bool.false_eq_true, if_false, List.forall_mem_cons, Json.isWellFormed_string,
        Json.isWellFormed_bool, List.not_mem_nil, false_implies, implies_true, and_true, true_and]
      exact Json.isWellFormed_mkObject (by simp) (by simp)

theorem parse_encodeResponse (h : encodeResponse lib response = some encoded) :
    lib.parse encoded = some ((responseJson lib response).reread round) :=
  hround.parse_dump (isWellFormed_responseJson hround response) h

theorem ok_encodeResponse (h : encodeResponse lib response = some encoded) :
    ∃ doc, lib.parse encoded = some doc ∧ doc.isObject = true ∧
      doc.field? (cstr "ok") = some (.bool response.ok) := by
  have hfield : (responseJson lib response).field? (cstr "ok") = some (.bool response.ok) :=
    field?_responseJson.mpr (by simp [responseFields])
  refine ⟨_, parse_encodeResponse hround h, ?_, ?_⟩
  · rw [Json.isObject_reread]
    rfl
  · rw [Json.field?_reread, hfield, Option.map_some, Json.reread_bool]

theorem result_encodeResponse {result : Json} (hok : response.ok = true)
    (hresult : result.isWellFormed = true) (hdump : lib.dump result = some response.resultJson)
    (h : encodeResponse lib response = some encoded) :
    (lib.parse encoded).bind (·.field? (cstr "result")) =
      some ((result.reread round).reread round) := by
  have hfield : (responseJson lib response).field? (cstr "result") =
      some (result.reread round) := by
    rw [field?_responseJson, responseFields, if_pos hok, responseResult,
      if_neg (hround.dump_ne_nil hresult hdump), hround.parse_dump hresult hdump]
    simp
  rw [parse_encodeResponse hround h, Option.bind_some, Json.field?_reread, hfield, Option.map_some]

end RoundTrip

end Response

/-! ## Events -/

/-- Well-formed members under some of the `keys`, in their order. -/
structure Assigned (keys : List Bytes) (fields : List (Bytes × Json)) : Prop where
  keys : (fields.map Prod.fst).Sublist keys
  values : ∀ f ∈ fields, f.2.isWellFormed = true

section Assigned

variable {keys keys' : List Bytes} {fields fields' : List (Bytes × Json)}

theorem Assigned.isWellFormed (h : Assigned keys fields) (hkeys : keys.Nodup) :
    (Json.mkObject fields).isWellFormed = true :=
  Json.isWellFormed_mkObject (hkeys.sublist h.keys) h.values

theorem Assigned.append (h : Assigned keys fields) (h' : Assigned keys' fields') :
    Assigned (keys ++ keys') (fields ++ fields') where
  keys := Listed.append h.keys h'.keys
  values := List.forall_mem_append.mpr ⟨h.values, h'.values⟩

theorem assigned_all (h : ∀ f ∈ fields, f.2.isWellFormed = true) :
    Assigned (fields.map Prod.fst) fields :=
  ⟨listed_all fields, h⟩

theorem assigned_fieldIf {condition : Bool} (key : Bytes) {value : Json}
    (h : value.isWellFormed = true) : Assigned [key] (fieldIf condition key value) := by
  refine ⟨listed_fieldIf condition key value, ?_⟩
  cases condition with
  | true => simpa [fieldIf] using h
  | false => simp [fieldIf]

theorem assigned_textField (key value : Bytes) : Assigned [key] (textField key value) :=
  assigned_fieldIf key (Json.isWellFormed_string value)

theorem assigned_fieldOf {α : Type} (key : Bytes) {encode : α → Json} {value : Option α}
    (h : ∀ a, (encode a).isWellFormed = true) : Assigned [key] (fieldOf key encode value) := by
  refine ⟨listed_fieldOf key encode value, ?_⟩
  cases value with
  | none => simp [fieldOf]
  | some a => simpa [fieldOf] using h a

end Assigned

theorem isWellFormed_word {n w : ℕ} (h : n < 2 ^ w) (hw : w ≤ 64) :
    (Json.unsigned n).isWellFormed = true :=
  (Json.isWellFormed_unsigned n).mpr (h.trans_le (Nat.pow_le_pow_right Nat.two_pos hw))

theorem isWellFormed_processJson (process : ProcessInfo) :
    (processJson process).isWellFormed = true := by
  unfold processJson
  refine Assigned.isWellFormed (.append (.append (assigned_all ?_) (assigned_textField _ _))
    (assigned_fieldOf _ fun uid => isWellFormed_word uid.toNat_lt (by decide))) ?_
  · simpa using isWellFormed_word process.pid.toNat_lt (by decide)
  · simp

theorem isWellFormed_networkJson (network : NetworkInfo) :
    (networkJson network).isWellFormed = true := by
  unfold networkJson
  have hport (port : UInt16) : (Json.unsigned port.toNat).isWellFormed = true :=
    isWellFormed_word port.toNat_lt (by decide)
  have hcode (code : UInt8) : (Json.unsigned code.toNat).isWellFormed = true :=
    isWellFormed_word code.toNat_lt (by decide)
  refine Assigned.isWellFormed (.append (.append (.append (.append (.append (.append (.append
    (.append (.append (assigned_all ?_) (assigned_fieldIf _ (by simp)))
    (assigned_textField _ _)) (assigned_fieldIf _ (hport _)))
    (assigned_textField _ _)) (assigned_fieldIf _ (hport _)))
    (assigned_textField _ _)) (assigned_fieldOf _ hcode))
    (assigned_textField _ _)) (assigned_all ?_)) ?_
  all_goals simp

theorem isWellFormed_browserJson (browser : BrowserInfo) :
    (browserJson browser).isWellFormed = true := by
  unfold browserJson
  refine Assigned.isWellFormed (.append (.append (.append (assigned_all ?_)
    (assigned_textField _ _)) (assigned_textField _ _)) (assigned_fieldIf _ ?_)) ?_
  · simpa using ⟨browser.tabId.toNat_lt, browser.windowId.toNat_lt⟩
  · refine Json.isWellFormed_mkObject (by simp) ?_
    simpa using browser.frameId.toNat_lt
  · simp

theorem isWellFormed_privacyJson (privacy : PrivacyInfo) :
    (privacyJson privacy).isWellFormed = true := by
  have hnames : ∀ name ∈ redactionNames privacy.redactions, name.isWellFormed = true := by
    simp only [redactionNames, List.forall_mem_append]
    refine ⟨⟨⟨⟨?_, ?_⟩, ?_⟩, ?_⟩, ?_⟩ <;> split_ifs <;> simp
  unfold privacyJson
  refine Assigned.isWellFormed (.append (assigned_all ?_) (assigned_fieldIf _ ?_)) ?_
  · simp
  · simpa using hnames
  · simp

theorem isWellFormed_backendJson (backend : BackendStatus) :
    (backendJson backend).isWellFormed = true := by
  unfold backendJson
  refine Assigned.isWellFormed (.append (assigned_all ?_) (assigned_textField _ _)) ?_
  all_goals simp

theorem eventJson_assigned (event : Event) :
    ∃ keys fields, eventJson event = .mkObject fields ∧ Assigned keys fields ∧ keys.Nodup ∧
      cstr "ok" ∉ keys ∧ (cstr "event_type", .string (eventTypeName event.type)) ∈ fields := by
  refine ⟨_, _, rfl, .append (.append (.append (.append (.append (.append (.append
    (assigned_all ?_) (assigned_textField _ _)) (assigned_fieldOf _ isWellFormed_processJson))
    (assigned_fieldOf _ isWellFormed_networkJson)) (assigned_fieldOf _ isWellFormed_browserJson))
    (assigned_all ?_)) (assigned_fieldIf _ ?_)) (assigned_fieldIf _ ?_), by simp, by simp,
    by simp⟩
  · simpa using isWellFormed_word event.schemaVersion.toNat_lt (by decide)
  · simpa using isWellFormed_privacyJson event.privacy
  · refine Json.isWellFormed_mkObject (by simp) ?_
    simpa using fun backend _ => isWellFormed_backendJson backend
  · exact Json.isWellFormed_mkObject (by simp) (by simp)

section Event

variable {event : Event} {encoded : Bytes} (hround : lib.RoundTrip round)
  (h : encodeEvent lib event = some encoded)

include hround h

/-- An encoded event reads back as an object that has a type and is no response. -/
theorem parse_encodeEvent :
    ∃ doc, lib.parse encoded = some doc ∧ doc.field? (cstr "ok") = none ∧
      doc.field? (cstr "event_type") = some (.string (eventTypeName event.type)) := by
  obtain ⟨keys, fields, hfields, hassigned, hkeys, hnot, htype⟩ := eventJson_assigned event
  have hnodup := hkeys.sublist hassigned.keys
  have hok : cstr "ok" ∉ fields.map Prod.fst := fun hmem => hnot (hassigned.keys.subset hmem)
  refine ⟨_, hround.parse_dump (hfields ▸ hassigned.isWellFormed hkeys) h, ?_, ?_⟩
  · rw [hfields, Json.field?_reread, Json.field?_mkObject_eq_none.mpr hok, Option.map_none]
  · rw [hfields, Json.field?_reread, (Json.field?_mkObject_eq_some hnodup).mpr htype,
      Option.map_some, Json.reread_string]

end Event

end Ezcap.Ipc
