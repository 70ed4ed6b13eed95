import Ezcap.Model.Extension
import Ezcap.Library.Control

/-! The events that the extension stores, and the message on which its listener throws: an event
that passes every other check and has `null` for its privacy. -/

namespace Ezcap.Extension

open StdString JavaScript

/-! ## Events -/

/-- What is checked before the privacy. -/
structure Plausible (event : Json) : Prop where
  isObject : IsObject event
  allowed : ∀ field ∈ forbiddenFields, event.field? field = none
  schemaVersion : numberOf (event.field? (cstr "schema_version")) = some 1
  eventId : ∃ id, event.field? (cstr "event_id") = some (.string id) ∧ id ≠ []
  eventType : ∃ name, event.field? (cstr "event_type") = some (.string name)
  timestamp : ∃ time, event.field? (cstr "timestamp") = some (.string time) ∧
    startsWith datePattern time = true
  confidence : ∃ q, numberOf (event.field? (cstr "confidence")) = some q ∧ 0 ≤ q ∧ q ≤ 1

/-- What a stored event has. -/
structure IsEvent (event : Json) : Prop extends Plausible event where
  privacy : ∃ privacy, event.field? (cstr "privacy") = some privacy ∧
    privacy.field? (cstr "metadata_only") = some (.bool true)

theorem hasForbiddenField_eq {event : Json} (h : IsObject event) (fields : List Bytes) :
    hasForbiddenField (some event) fields =
      .ok (fields.any fun field => (event.field? field).isSome) := by
  induction fields with
  | nil => rfl
  | cons field fields ih =>
      rw [hasForbiddenField, isIn_of_isObject h, List.any_cons]
      cases hfound : (event.field? field).isSome with
      | true => rfl
      | false => simpa [Except.bind] using ih

section Checks

variable {value : Value}

theorem text_rejected_iff {p : Bytes → Prop} {rejected : Prop}
    (h : ∀ s, value = some (.string s) → (rejected ↔ ¬ p s)) :
    (typeOf value ≠ .string ∨ rejected) ↔ ¬ ∃ s, value = some (.string s) ∧ p s := by
  by_cases hstring : typeOf value = .string
  · obtain ⟨s, rfl⟩ := typeOf_eq_string_iff.mp hstring
    simp [hstring, h s rfl]
  · have hnone : ∀ s, value ≠ some (.string s) :=
      fun s hs => hstring (typeOf_eq_string_iff.mpr ⟨s, hs⟩)
    simp [hstring, hnone]

theorem eventId_rejected_iff :
    (typeOf value ≠ .string ∨ textOf value = some []) ↔
      ¬ ∃ id, value = some (.string id) ∧ id ≠ [] := by
  apply text_rejected_iff
  rintro id rfl
  simp [textOf, Json.string?]

theorem timestamp_rejected_iff :
    (typeOf value ≠ .string ∨ ¬ (textOf value).any (startsWith datePattern) = true) ↔
      ¬ ∃ time, value = some (.string time) ∧ startsWith datePattern time = true := by
  apply text_rejected_iff
  rintro time rfl
  simp [textOf, Json.string?]

theorem confidence_rejected_iff :
    (typeOf value ≠ .number ∨ (numberOf value).any (· < 0) = true ∨
        (numberOf value).any (· > 1) = true) ↔
      ¬ ∃ q, numberOf value = some q ∧ 0 ≤ q ∧ q ≤ 1 := by
  by_cases hnumber : typeOf value = .number
  · obtain ⟨q, hq⟩ := typeOf_eq_number_iff.mp hnumber
    simp only [hnumber, hq, ne_eq, not_true_eq_false, false_or, Option.any_some,
      decide_eq_true_eq, Option.some.injEq, exists_eq_left', not_and_or, Rat.not_le]
  · have hnone : ∀ q, numberOf value ≠ some q :=
      fun q hq => hnumber (typeOf_eq_number_iff.mpr ⟨q, hq⟩)
    simp [hnumber, hnone]

end Checks

/-- The last check. -/
def checkPrivacy (event : Json) : Except Thrown (Option Json) :=
  if typeOf (event.field? (cstr "privacy")) = .undefined then .ok none
  else
    (get (event.field? (cstr "privacy")) (cstr "metadata_only")).bind fun metadataOnly =>
    if booleanOf metadataOnly ≠ some true then .ok none else .ok (some event)

theorem validateEvent_cases (event : Json) :
    (¬ Plausible event ∧ validateEvent (some event) = .ok none) ∨
      (Plausible event ∧ validateEvent (some event) = checkPrivacy event) := by
  by_cases hobject : IsObject event
  · have hany : (forbiddenFields.any fun field => (event.field? field).isSome) = true ↔
        ¬ ∀ field ∈ forbiddenFields, event.field? field = none := by
      simp [List.any_eq_true, Option.isSome_iff_ne_none]
    simp only [validateEvent, if_neg (not_isObject_iff.not_left.mpr hobject),
      hasForbiddenField_eq hobject, get_of_isObject hobject, Except.bind, eventSchemaVersion]
    by_cases hallowed : ∀ field ∈ forbiddenFields, event.field? field = none
    case neg => exact .inl ⟨fun h => hallowed h.allowed, if_pos (hany.mpr hallowed)⟩
    rw [if_neg (hany.not_left.mpr hallowed)]
    by_cases hversion : numberOf (event.field? (cstr "schema_version")) = some 1
    case neg => exact .inl ⟨fun h => hversion h.schemaVersion, if_pos hversion⟩
    rw [if_neg (not_not.mpr hversion)]
    by_cases hid : ∃ id, event.field? (cstr "event_id") = some (.string id) ∧ id ≠ []
    case neg => exact .inl ⟨fun h => hid h.eventId, if_pos (eventId_rejected_iff.mpr hid)⟩
    rw [if_neg (eventId_rejected_iff.not_left.mpr hid)]
    by_cases htype : ∃ name, event.field? (cstr "event_type") = some (.string name)
    case neg =>
      exact .inl ⟨fun h => htype h.eventType, if_pos (typeOf_eq_string_iff.not.mpr htype)⟩
    rw [if_neg (not_not.mpr (typeOf_eq_string_iff.mpr htype))]
    by_cases htime : ∃ time, event.field? (cstr "timestamp") = some (.string time) ∧
        startsWith datePattern time = true
    case neg => exact .inl ⟨fun h => htime h.timestamp, if_pos (timestamp_rejected_iff.mpr htime)⟩
    rw [if_neg (timestamp_rejected_iff.not_left.mpr htime)]
    by_cases hconfidence : ∃ q, numberOf (event.field? (cstr "confidence")) = some q ∧
        0 ≤ q ∧ q ≤ 1
    case neg =>
      exact .inl ⟨fun h => hconfidence h.confidence,
        if_pos (confidence_rejected_iff.mpr hconfidence)⟩
    rw [if_neg (confidence_rejected_iff.not_left.mpr hconfidence)]
    exact .inr ⟨⟨hobject, hallowed, hversion, hid, htype, htime, hconfidence⟩, rfl⟩
  · rw [validateEvent, if_pos (not_isObject_iff.mpr hobject)]
    exact .inl ⟨fun h => hobject h.isObject, rfl⟩

/-- Reading the privacy throws when it is `null`, and an event is returned when it says so. -/
theorem checkPrivacy_cases (event : Json) :
    (event.field? (cstr "privacy") = some .null ∧ checkPrivacy event = .error .typeError) ∨
    event.field? (cstr "privacy") ≠ some .null ∧
      (checkPrivacy event = .ok none ∨
        checkPrivacy event = .ok (some event) ∧
          ∃ privacy, event.field? (cstr "privacy") = some privacy ∧
            privacy.field? (cstr "metadata_only") = some (.bool true)) := by
  rw [checkPrivacy]
  cases event.field? (cstr "privacy") with
  | none => exact .inr ⟨by simp, .inl rfl⟩
  | some privacy =>
      by_cases hnull : privacy = .null
      · subst hnull
        exact .inl ⟨rfl, rfl⟩
      · have hdefined : typeOf (some privacy) ≠ .undefined := by
          rw [ne_eq, typeOf_eq_undefined_iff]
          exact Option.some_ne_none privacy
        refine .inr ⟨by simpa using hnull, ?_⟩
        rw [if_neg hdefined, get_of_ne_null hnull]
        simp only [Except.bind]
        by_cases honly : booleanOf (privacy.field? (cstr "metadata_only")) = some true
        · exact .inr ⟨if_neg (not_not.mpr honly), privacy, rfl, booleanOf_eq_some_iff.mp honly⟩
        · exact .inl (if_pos honly)

theorem validateEvent_eq_error_iff (event : Json) :
    validateEvent (some event) = .error .typeError ↔
      Plausible event ∧ event.field? (cstr "privacy") = some .null := by
  rcases validateEvent_cases event with ⟨hnot, hresult⟩ | ⟨hchecks, hresult⟩
  · rw [hresult]
    exact ⟨nofun, fun h => absurd h.1 hnot⟩
  · rw [hresult]
    rcases checkPrivacy_cases event with ⟨hnull, hthrown⟩ | ⟨hne, hnone | ⟨hsome, -⟩⟩
    · exact ⟨fun _ => ⟨hchecks, hnull⟩, fun _ => hthrown⟩
    · rw [hnone]
      exact ⟨nofun, fun h => absurd h.2 hne⟩
    · rw [hsome]
      exact ⟨nofun, fun h => absurd h.2 hne⟩

theorem isEvent_of_validateEvent {event event' : Json}
    (h : validateEvent (some event) = .ok (some event')) : IsEvent event' := by
  rcases validateEvent_cases event with ⟨-, hresult⟩ | ⟨hchecks, hresult⟩
  · rw [hresult] at h
    cases h
  · rw [hresult] at h
    rcases checkPrivacy_cases event with ⟨-, hthrown⟩ | ⟨-, hnone | ⟨hsome, hprivacy⟩⟩
    · rw [hthrown] at h
      cases h
    · rw [hnone] at h
      cases h
    · rw [hsome] at h
      cases h
      exact ⟨hchecks, hprivacy⟩

/-! ## Messages -/

/-- A message of the kind `event` with this payload. -/
structure CarriesEvent (raw payload : Json) : Prop where
  isObject : IsObject raw
  version : numberOf (raw.field? (cstr "protocol_version")) = some 1
  kind : raw.field? (cstr "kind") = some (.string (cstr "event"))
  carries : raw.field? (cstr "payload") = some payload
  payloadType : typeOf (some payload) = .object

theorem decodeMessage_of_isObject {raw : Json} (h : IsObject raw) :
    decodeMessage (some raw) =
      if numberOf (raw.field? (cstr "protocol_version")) ≠ some protocolVersion then .ok none
      else if typeOf (raw.field? (cstr "kind")) ≠ .string ∨
          typeOf (raw.field? (cstr "payload")) ≠ .object then .ok none
      else if textOf (raw.field? (cstr "kind")) = some (cstr "request") then .ok none
      else if textOf (raw.field? (cstr "kind")) = some (cstr "response") ∨
          textOf (raw.field? (cstr "kind")) = some (cstr "event") ∨
          textOf (raw.field? (cstr "kind")) = some (cstr "error") then .ok (some raw)
      else .ok none := by
  simp only [decodeMessage, if_neg (not_isObject_iff.not_left.mpr h), get_of_isObject h,
    Except.bind]

theorem CarriesEvent.decodeMessage {raw payload : Json} (h : CarriesEvent raw payload) :
    decodeMessage (some raw) = .ok (some raw) := by
  have htext : textOf (some (.string (cstr "event"))) = some (cstr "event") := rfl
  have htypes : ¬ (typeOf (some (.string (cstr "event"))) ≠ .string ∨
      typeOf (some payload) ≠ .object) := by
    rw [not_or, not_not, not_not]
    exact ⟨rfl, h.payloadType⟩
  rw [decodeMessage_of_isObject h.isObject, h.kind, h.carries, protocolVersion,
    if_neg (not_not.mpr h.version), if_neg htypes, htext, if_neg (by decide),
    if_pos (.inr (.inl rfl))]

theorem decodeMessage_cases (raw : Json) :
    decodeMessage (some raw) = .ok none ∨
      decodeMessage (some raw) = .ok (some raw) ∧ IsObject raw ∧
        numberOf (raw.field? (cstr "protocol_version")) = some 1 ∧
        typeOf (raw.field? (cstr "payload")) = .object := by
  by_cases hobject : IsObject raw
  · rw [decodeMessage_of_isObject hobject]
    split_ifs with hversion htypes hrequest hkind
    · exact .inl rfl
    · exact .inl rfl
    · exact .inl rfl
    · rw [not_or, not_not, not_not] at htypes
      exact .inr ⟨rfl, hobject, not_not.mp hversion, htypes.2⟩
    · exact .inl rfl
  · rw [decodeMessage, if_pos (not_isObject_iff.mpr hobject)]
    exact .inl rfl

/-- The listener checks the payload of an event message, and ignores everything else. -/
theorem handleMessage_cases (raw : Json) :
    (∃ payload, CarriesEvent raw payload ∧
      handleMessage (some raw) = validateEvent (some payload)) ∨
    (¬ (∃ payload, CarriesEvent raw payload) ∧ handleMessage (some raw) = .ok none) := by
  rcases decodeMessage_cases raw with hnone | ⟨hsome, hobject, hversion, hpayload⟩
  · right
    refine ⟨fun ⟨payload, h⟩ => ?_, by rw [handleMessage, hnone]; rfl⟩
    cases hnone.symm.trans h.decodeMessage
  · have hhandle : handleMessage (some raw) =
        if textOf (raw.field? (cstr "kind")) = some (cstr "event") then
          validateEvent (raw.field? (cstr "payload"))
        else .ok none := by
      simp only [handleMessage, hsome, Except.bind, get_of_isObject hobject]
    by_cases hkind : textOf (raw.field? (cstr "kind")) = some (cstr "event")
    · rw [hhandle, if_pos hkind]
      cases hcarries : raw.field? (cstr "payload") with
      | none =>
          rw [hcarries] at hpayload
          cases hpayload
      | some payload =>
          rw [hcarries] at hpayload
          exact .inl ⟨payload, ⟨hobject, hversion, textOf_eq_some_iff.mp hkind, hcarries, hpayload⟩,
            rfl⟩
    · rw [hhandle, if_neg hkind]
      exact .inr ⟨fun ⟨payload, h⟩ => hkind (textOf_eq_some_iff.mpr h.kind), rfl⟩

/-- The listener throws exactly on an event that passes every check before the privacy and has
`null` for it; and every event that it stores has been checked. -/
theorem event_validation_throws_iff (raw : Json) :
    (handleMessage (some raw) = .error .typeError ↔
      ∃ event, CarriesEvent raw event ∧ Plausible event ∧
        event.field? (cstr "privacy") = some .null) ∧
    ∀ event, handleMessage (some raw) = .ok (some event) → IsEvent event := by
  rcases handleMessage_cases raw with ⟨payload, hcarries, hhandle⟩ | ⟨hnone, hhandle⟩
  · rw [hhandle, validateEvent_eq_error_iff]
    refine ⟨⟨fun h => ⟨payload, hcarries, h⟩, ?_⟩, fun event h => isEvent_of_validateEvent h⟩
    intro h
    obtain ⟨event, hevent, hbad⟩ := h
    obtain rfl : event = payload := Option.some.inj (hevent.carries.symm.trans hcarries.carries)
    exact hbad
  · rw [hhandle]
    refine ⟨⟨nofun, ?_⟩, nofun⟩
    intro h
    obtain ⟨event, hevent, -⟩ := h
    exact absurd ⟨event, hevent⟩ hnone

/-- An event message with `null` for the privacy of its event. -/
def nullPrivacyMessage : Json :=
  .mkObject
    [(cstr "protocol_version", .unsigned 1), (cstr "kind", .string (cstr "event")),
     (cstr "payload", .mkObject
       [(cstr "schema_version", .unsigned 1), (cstr "event_id", .string (cstr "e")),
        (cstr "event_type", .string (cstr "dns")),
        (cstr "timestamp", .string (cstr "2026-01-01T00:00:00Z")),
        (cstr "confidence", .unsigned 1), (cstr "privacy", .null)])]

theorem null_privacy_throws : handleMessage (some nullPrivacyMessage) = .error .typeError :=
  rfl

end Ezcap.Extension
