import Ezcap.Verification.Drivers.LuaValues
import Ezcap.Verification.Specgen.Conformance

/-! What `lezcap.endpoint.declare` stores of the table that it is given. The string that the fields
are read into still holds the summary where the description is read, and a table within the table is
designated from the top of the stack. -/

namespace Ezcap.Drivers

open StdString Lua Specgen
open JsonReference (assign field?_assign)

variable {numbers : Numbers} {entries : List (Key × Value)} {fuel : ℕ} {stack : Stack}

/-! ## Tables within the table -/

theorem thenRead_eq_ok_iff {α β : Type} {result : Except Fault (Except Bytes α)}
    {step : α → Except Fault (Except Bytes β)} {b : β} :
    thenRead result step = .ok (.ok b) ↔ ∃ a, result = .ok (.ok a) ∧ step a = .ok (.ok b) := by
  cases result with
  | error fault => simp [thenRead]
  | ok result => cases result <;> simp [thenRead]

theorem readSchema_eq_ok_iff {key : String} {doc doc' : List (Bytes × Json)} :
    readSchema numbers entries fuel stack key doc = .ok (.ok doc') ↔
      get entries (.string (cstr key)) = .nil ∧ doc' = doc := by
  rw [readSchema]
  cases get entries (.string (cstr key)) with
  | nil => simp [eq_comm]
  | _ => simp [schemaSubsetFromLua, jsonFromLua_top, item, Value.isTable, Except.map]

theorem readList_eq_ok_iff {key : String} {doc doc' : List (Bytes × Json)} :
    readList numbers entries fuel stack key doc = .ok (.ok doc') ↔
      get entries (.string (cstr key)) = .nil ∧ doc' = doc := by
  rw [readList]
  cases get entries (.string (cstr key)) with
  | nil => simp [eq_comm]
  | _ => simp [jsonFromLua_top, item, Except.map]

/-- The fields that hold tables. -/
def tableKeys : List String := ["request", "response", "attribution", "privacy"]

theorem describe_eq_ok_iff {doc : Json} :
    describe numbers entries fuel stack = .ok (.ok doc) ↔
      ∃ fields, readTexts numbers entries = .ok fields ∧
        (∀ key ∈ tableKeys, get entries (.string (cstr key)) = .nil) ∧ doc = .object fields := by
  simp only [describe, thenRead_eq_ok_iff, readSchema_eq_ok_iff, readList_eq_ok_iff, tableKeys,
    List.forall_mem_cons, List.not_mem_nil, Except.ok.injEq]
  constructor
  · rintro ⟨fields, hfields, _, ⟨hrequest, rfl⟩, _, ⟨hresponse, rfl⟩, _, ⟨hattribution, rfl⟩, _,
      ⟨hprivacy, rfl⟩, rfl⟩
    exact ⟨_, hfields, ⟨hrequest, hresponse, hattribution, hprivacy, nofun⟩, rfl⟩
  · rintro ⟨fields, hfields, ⟨hrequest, hresponse, hattribution, hprivacy, -⟩, rfl⟩
    exact ⟨fields, hfields, fields, ⟨hrequest, rfl⟩, fields, ⟨hresponse, rfl⟩, fields,
      ⟨hattribution, rfl⟩, fields, ⟨hprivacy, rfl⟩, rfl⟩

/-! ## Texts -/

/-- What a run of the loop has read, and what it leaves in the string. -/
theorem readRequired_eq_ok {keys : List String} {draft draft' : Draft}
    (h : readRequired numbers entries keys draft = .ok draft') :
    (∀ key ∈ keys, ∃ text, fieldText numbers entries key = some text ∧
        (Json.object draft'.doc).field? (cstr key) = some (.string text)) ∧
      (∀ k, (∀ key ∈ keys, k ≠ cstr key) →
        (Json.object draft'.doc).field? k = (Json.object draft.doc).field? k) ∧
      ∀ key ∈ keys.getLast?, fieldText numbers entries key = some draft'.value := by
  induction keys generalizing draft with
  | nil =>
      cases h
      exact ⟨nofun, fun _ _ => rfl, nofun⟩
  | cons key keys ih =>
      rw [readRequired] at h
      split at h
      · cases h
      · cases h
      · rename_i value hvalue
        have hfield := (optTableString_eq_ok hvalue).symm
        obtain ⟨htexts, hkept, hlast⟩ := ih h
        refine ⟨fun key' hkey' => ?_, fun k hk => ?_, fun last hmem => ?_⟩
        · by_cases hlater : key' ∈ keys
          · exact htexts key' hlater
          · obtain rfl : key' = key := by simpa [hlater] using hkey'
            refine ⟨value, hfield, ?_⟩
            have hnew : ∀ other ∈ keys, cstr key' ≠ cstr other := fun other hother heq =>
              hlater (by rwa [cstr_inj.mp heq])
            rw [hkept _ hnew, field?_assign, if_pos rfl]
        · rw [List.forall_mem_cons] at hk
          rw [hkept k hk.2, field?_assign, if_neg hk.1]
        · cases keys with
          | nil =>
              cases hmem
              cases h
              exact hfield
          | cons next keys => exact hlast last (by simpa using hmem)

/-- A field that is absent gives what is left in the string. -/
theorem readOptional_eq_ok {key : String} {maxBytes : ℕ} {draft draft' : Draft}
    (h : readOptional numbers entries key maxBytes draft = .ok draft')
    (hnew : (Json.object draft.doc).field? (cstr key) = none) :
    textOf (.object draft'.doc) key = (fieldText numbers entries key).getD draft.value ∧
      (∀ k ≠ cstr key, (Json.object draft'.doc).field? k = (Json.object draft.doc).field? k) ∧
      draft'.value = [] := by
  obtain ⟨got, hgot, hdraft⟩ := Except.map_eq_ok_iff.mp h
  rw [← optTableString_eq_ok hgot]
  dsimp only at hdraft
  split at hdraft
  · rename_i hempty
    subst hdraft
    exact ⟨by simp [textOf, hnew, hempty], fun _ _ => rfl, hempty⟩
  · subst hdraft
    exact ⟨by simp [textOf, field?_assign, Json.string?], fun k hk => by simp [field?_assign, hk],
      rfl⟩

/-- What is stored of the table. -/
structure Stored (numbers : Numbers) (entries : List (Key × Value)) (d : EndpointDescriptor) :
    Prop where
  name : fieldText numbers entries "name" = some d.name
  ns : fieldText numbers entries "namespace" = some d.ns
  version : fieldText numbers entries "version" = some d.version
  kind : fieldText numbers entries "kind" = some d.kind
  summary : fieldText numbers entries "summary" = some d.summary
  summary_ne : d.summary ≠ []
  description : d.description = (fieldText numbers entries "description").getD d.summary
  confidence : d.confidence = (fieldText numbers entries "confidence").getD []
  tables : ∀ key ∈ tableKeys, get entries (.string (cstr key)) = .nil
  request : d.request = .null
  response : d.response = .null
  attribution : d.attribution = []
  privacy : d.privacy = []
  metadataOnly : d.metadataOnly = true

theorem readTexts_parts {fields : List (Bytes × Json)}
    (h : readTexts numbers entries = .ok fields) :
    ∃ required described draft,
      readRequired numbers entries kRequired {} = .ok required ∧
      readOptional numbers entries "description" 2048 required = .ok described ∧
      readOptional numbers entries "confidence" 256 described = .ok draft ∧
      ∀ k ≠ cstr "metadata_only",
        (Json.object fields).field? k = (Json.object draft.doc).field? k := by
  obtain ⟨required, hrequired, h₁⟩ := Except.bind_eq_ok_iff.mp h
  obtain ⟨described, hdescribed, h₂⟩ := Except.bind_eq_ok_iff.mp h₁
  obtain ⟨draft, hdraft, h₃⟩ := Except.bind_eq_ok_iff.mp h₂
  refine ⟨required, described, draft, hrequired, hdescribed, hdraft, fun k hk => ?_⟩
  dsimp only at h₃
  split at h₃
  · cases h₃
  · rw [← Except.ok.inj h₃, field?_assign, if_neg hk]

theorem readTexts_eq_ok {fields : List (Bytes × Json)}
    (h : readTexts numbers entries = .ok fields) :
    (∀ key ∈ kRequired, ∃ text, fieldText numbers entries key = some text ∧
        (Json.object fields).field? (cstr key) = some (.string text)) ∧
      (∃ summary, fieldText numbers entries "summary" = some summary ∧
        textOf (.object fields) "description" =
          (fieldText numbers entries "description").getD summary) ∧
      textOf (.object fields) "confidence" = (fieldText numbers entries "confidence").getD [] ∧
      ∀ key ∈ tableKeys, (Json.object fields).field? (cstr key) = none := by
  obtain ⟨required, described, draft, hrequired, hdescribed, hdraft, hfields⟩ := readTexts_parts h
  obtain ⟨htexts, hkept, hlast⟩ := readRequired_eq_ok hrequired
  have hdescriptionNew : (Json.object required.doc).field? (cstr "description") = none :=
    hkept _ (by simp [kRequired])
  obtain ⟨hdescription, hkept', hvalue⟩ := readOptional_eq_ok hdescribed hdescriptionNew
  have hconfidenceNew : (Json.object described.doc).field? (cstr "confidence") = none := by
    rw [hkept' _ (by simp)]
    exact hkept _ (by simp [kRequired])
  obtain ⟨hconfidence, hkept'', -⟩ := readOptional_eq_ok hdraft hconfidenceNew
  have hother {k : Bytes} (hk : k ≠ cstr "metadata_only") (hk' : k ≠ cstr "description")
      (hk'' : k ≠ cstr "confidence") :
      (Json.object fields).field? k = (Json.object required.doc).field? k := by
    rw [hfields k hk, hkept'' k hk'', hkept' k hk']
  refine ⟨fun key hkey => ?_, ⟨required.value, hlast "summary" rfl, ?_⟩, ?_, fun key hkey => ?_⟩
  · obtain ⟨text, htext, hfield⟩ := htexts key hkey
    refine ⟨text, htext, ?_⟩
    rw [← hfield]
    simp only [kRequired, List.mem_cons, List.not_mem_nil, or_false] at hkey
    rcases hkey with rfl | rfl | rfl | rfl | rfl <;>
      exact hother (by simp) (by simp) (by simp)
  · rw [← hdescription, textOf, textOf, hfields _ (by simp), hkept'' _ (by simp)]
  · rw [← hvalue, ← hconfidence, textOf, textOf, hfields _ (by simp)]
  · simp only [tableKeys, List.mem_cons, List.not_mem_nil, or_false] at hkey
    rcases hkey with rfl | rfl | rfl | rfl <;>
      exact (hother (by simp) (by simp) (by simp)).trans (hkept _ (by simp [kRequired]))

theorem stored_of_readTexts {fields : List (Bytes × Json)} {d : EndpointDescriptor}
    (h : readTexts numbers entries = .ok fields)
    (htables : ∀ key ∈ tableKeys, get entries (.string (cstr key)) = .nil)
    (hd : parseEndpointDescriptor (.object fields) = .ok d) : Stored numbers entries d := by
  obtain ⟨htexts, ⟨summary, hsummary, hdescription⟩, hconfidence, hnone⟩ := readTexts_eq_ok h
  obtain ⟨_, hvalid, rfl⟩ := Except.map_eq_ok_iff.mp hd
  have htext {key : String} (hkey : key ∈ kRequired) :
      fieldText numbers entries key = some (textOf (.object fields) key) := by
    obtain ⟨text, htext, hfield⟩ := htexts key hkey
    rw [htext, textOf, hfield]
    rfl
  have hsummaryText : textOf (.object fields) "summary" = summary :=
    Option.some.inj ((htext (by simp [kRequired])).symm.trans hsummary)
  have hsummaryNe := (textOf_of_required (validateEndpointDescriptor_iff.mp hvalid).summary).1
  have hempty {key : String} (hkey : key ∈ tableKeys) :
      shapeOf (.object fields) key = .null ∧ textsOf (.object fields) key = [] := by
    rw [shapeOf, textsOf, hnone key hkey]
    exact ⟨rfl, rfl⟩
  exact
    { name := htext (by simp [kRequired])
      ns := htext (by simp [kRequired])
      version := htext (by simp [kRequired])
      kind := htext (by simp [kRequired])
      summary := htext (by simp [kRequired])
      summary_ne := hsummaryNe
      description := by rw [hsummaryText, hdescription]
      confidence := hconfidence
      tables := htables
      request := (hempty (by simp [tableKeys])).1
      response := (hempty (by simp [tableKeys])).1
      attribution := (hempty (by simp [tableKeys])).2
      privacy := (hempty (by simp [tableKeys])).2
      metadataOnly := rfl }

/-! ## Declarations -/

section Declaration

variable {limits : DriverResourceLimits} {host host' : DriverHostState}

/-- An accepted table has its texts read, and a descriptor made of them. -/
theorem endpointDeclareLua_eq_none_iff (hstack : at? stack 1 = some (.table entries)) :
    host.endpointDeclareLua numbers fuel limits stack = .ok (host', none) ↔
      host.endpoints.length < limits.maxEndpoints.toNat ∧
      (∀ key ∈ tableKeys, get entries (.string (cstr key)) = .nil) ∧
      ∃ fields d, readTexts numbers entries = .ok fields ∧
        parseEndpointDescriptor (.object fields) = .ok d ∧
        host' = { host with endpoints := host.endpoints ++ [d] } := by
  rw [DriverHostState.endpointDeclareLua, hstack]
  dsimp only
  by_cases hlimit : host.endpoints.length ≥ limits.maxEndpoints.toNat
  · rw [if_pos hlimit]
    exact iff_of_false (by simp) fun h => absurd h.1 (Nat.not_lt.mpr hlimit)
  · rw [if_neg hlimit, Except.map_eq_ok_iff]
    constructor
    · rintro ⟨described, hdescribed, hdeclare⟩
      rw [DriverHostState.endpointDeclare.eq_def, if_neg hlimit] at hdeclare
      cases described with
      | error error => cases hdeclare
      | ok doc =>
          obtain ⟨fields, hfields, htables, rfl⟩ := describe_eq_ok_iff.mp hdescribed
          dsimp only at hdeclare
          cases hparse : parseEndpointDescriptor (.object fields) with
          | error error => simp [hparse] at hdeclare
          | ok d =>
              rw [hparse] at hdeclare
              cases hdeclare
              exact ⟨Nat.not_le.mp hlimit, htables, fields, d, hfields, hparse, rfl⟩
    · rintro ⟨-, htables, fields, d, hfields, hparse, rfl⟩
      refine ⟨.ok (.object fields), describe_eq_ok_iff.mpr ⟨fields, hfields, htables, rfl⟩, ?_⟩
      rw [DriverHostState.endpointDeclare.eq_def, if_neg hlimit]
      simp only [hparse]

theorem endpointDeclareLua_eq_some {error : Bytes}
    (h : host.endpointDeclareLua numbers fuel limits stack = .ok (host', some error)) :
    host' = host := by
  rw [DriverHostState.endpointDeclareLua] at h
  split at h
  · split at h
    · cases h
      rfl
    · obtain ⟨described, -, hdeclare⟩ := Except.map_eq_ok_iff.mp h
      rw [DriverHostState.endpointDeclare.eq_def] at hdeclare
      split at hdeclare
      · cases hdeclare
        rfl
      · split at hdeclare
        · cases hdeclare
          rfl
        · split at hdeclare
          · cases hdeclare
            rfl
          · cases hdeclare
  · cases h
    rfl

theorem readTexts_congr {entries' : List (Key × Value)}
    (h : ∀ key ∈ kDescriptorKeys, get entries' (.string key) = get entries (.string key)) :
    readTexts numbers entries' = readTexts numbers entries := by
  simp only [kDescriptorKeys, List.forall_mem_cons] at h
  obtain ⟨hname, hns, hversion, hkind, hsummary, hdescription, -, -, honly, -, hconfidence, -⟩ := h
  simp only [readTexts, readRequired, kRequired, readOptional, optTableString, hname, hns, hversion,
    hkind, hsummary, hdescription, honly, hconfidence]

end Declaration

/-- A list with a table in it is not read. -/
theorem specEndpoints_undefined {fields : List (Key × Value)}
    (h : at? stack 2 = some (.table [(.number 1, .table fields)])) :
    specEndpoints numbers fuel stack = .error .undefined := by
  have hlength : objlen [(.number 1, .table fields)] = 1 := rfl
  have hfirst : Lua.get [(.number 1, .table fields)] (.number (1 - 0 : ℕ)) = .table fields := rfl
  simp only [specEndpoints, h, hlength, Nat.not_ofNat_lt_one, gt_iff_lt, if_false, readEndpoints,
    hfirst, jsonFromLua_top, item, Except.map]

/-! ## What the table says -/

/-- A text field that is absent is empty. -/
def TextIs (value : Value) (s : Bytes) : Prop := value = .nil ∧ s = [] ∨ value = .string s

/-- A table field that is absent is null. -/
def TreeIs (value : Value) (j : Json) : Prop :=
  value = .nil ∧ j = .null ∨ ∃ n, Represents n value j

/-- A list field that is absent is empty. -/
def ListIs (value : Value) (items : List Bytes) : Prop :=
  value = .nil ∧ items = [] ∨ ∃ n, Represents n value (.array (items.map .string))

/-- Each field of the descriptor is the field of that name in the table. -/
structure Declared (entries : List (Key × Value)) (d : EndpointDescriptor) : Prop where
  name : get entries (.string (cstr "name")) = .string d.name
  ns : get entries (.string (cstr "namespace")) = .string d.ns
  version : get entries (.string (cstr "version")) = .string d.version
  kind : get entries (.string (cstr "kind")) = .string d.kind
  summary : get entries (.string (cstr "summary")) = .string d.summary
  description : TextIs (get entries (.string (cstr "description"))) d.description
  confidence : TextIs (get entries (.string (cstr "confidence"))) d.confidence
  request : TreeIs (get entries (.string (cstr "request"))) d.request
  response : TreeIs (get entries (.string (cstr "response"))) d.response
  attribution : ListIs (get entries (.string (cstr "attribution"))) d.attribution
  privacy : ListIs (get entries (.string (cstr "privacy"))) d.privacy
  metadataOnly : get entries (.string (cstr "metadata_only")) = .nil ∨
    get entries (.string (cstr "metadata_only")) = .boolean d.metadataOnly

/-- A string without a NUL. -/
def IsText (value : Value) : Prop := ∃ s, value = .string s ∧ 0 ∉ s

/-- The fields with a text are strings without a NUL, there is a description, and `metadata_only` is
true if it is there. -/
structure Spelled (entries : List (Key × Value)) : Prop where
  required : ∀ key ∈ kRequired, IsText (get entries (.string (cstr key)))
  description : IsText (get entries (.string (cstr "description")))
  confidence : get entries (.string (cstr "confidence")) = .nil ∨
    IsText (get entries (.string (cstr "confidence")))
  metadataOnly : get entries (.string (cstr "metadata_only")) = .nil ∨
    get entries (.string (cstr "metadata_only")) = .boolean true

theorem fieldText_of_string {key : String} {s : Bytes}
    (h : get entries (.string (cstr key)) = .string s) :
    fieldText numbers entries key = some (untilNul s) := by
  rw [fieldText, h]
  rfl

theorem fieldText_of_nil {key : String} (h : get entries (.string (cstr key)) = .nil) :
    fieldText numbers entries key = none := by
  rw [fieldText, h]
  rfl

theorem eq_string_iff_isText {key : String} {text : Bytes}
    (h : fieldText numbers entries key = some text) :
    get entries (.string (cstr key)) = .string text ↔
      IsText (get entries (.string (cstr key))) := by
  constructor
  · intro hvalue
    rw [fieldText_of_string hvalue] at h
    exact ⟨text, hvalue, untilNul_eq_self_iff.mp (Option.some.inj h)⟩
  · rintro ⟨s, hvalue, hnul⟩
    rw [fieldText_of_string hvalue, untilNul_eq_self_iff.mpr hnul] at h
    rw [hvalue, Option.some.inj h]

theorem isText_of_textIs {key : String} {text default : Bytes}
    (htext : text = (fieldText numbers entries key).getD default)
    (hvalue : get entries (.string (cstr key)) = .string text) :
    IsText (get entries (.string (cstr key))) := by
  rw [fieldText_of_string hvalue] at htext
  exact ⟨text, hvalue, untilNul_eq_self_iff.mp htext.symm⟩

theorem textIs_of_isText {key : String} {text default : Bytes}
    (htext : text = (fieldText numbers entries key).getD default)
    (h : IsText (get entries (.string (cstr key)))) :
    TextIs (get entries (.string (cstr key))) text := by
  obtain ⟨s, hvalue, hnul⟩ := h
  rw [fieldText_of_string hvalue, untilNul_eq_self_iff.mpr hnul] at htext
  exact .inr (hvalue.trans (congrArg _ htext.symm))

section Stored

variable {d : EndpointDescriptor} (h : Stored numbers entries d)

include h

/-- A table that is stored as it says has a description: an absent one is stored as the summary,
which is not empty. -/
theorem Stored.spelled (hdeclared : Declared entries d) : Spelled entries where
  required := by
    simp only [kRequired, List.forall_mem_cons, List.not_mem_nil, false_imp_iff, implies_true,
      and_true]
    exact ⟨(eq_string_iff_isText h.name).mp hdeclared.name,
      (eq_string_iff_isText h.ns).mp hdeclared.ns,
      (eq_string_iff_isText h.version).mp hdeclared.version,
      (eq_string_iff_isText h.kind).mp hdeclared.kind,
      (eq_string_iff_isText h.summary).mp hdeclared.summary⟩
  description := by
    rcases hdeclared.description with ⟨hnil, hempty⟩ | hvalue
    · have hdescription := h.description
      rw [fieldText_of_nil hnil, hempty] at hdescription
      exact absurd hdescription.symm h.summary_ne
    · exact isText_of_textIs h.description hvalue
  confidence := by
    rcases hdeclared.confidence with ⟨hnil, -⟩ | hvalue
    · exact .inl hnil
    · exact .inr (isText_of_textIs h.confidence hvalue)
  metadataOnly := h.metadataOnly ▸ hdeclared.metadataOnly

theorem Stored.declared (hspelled : Spelled entries) : Declared entries d where
  name := (eq_string_iff_isText h.name).mpr (hspelled.required _ (by simp [kRequired]))
  ns := (eq_string_iff_isText h.ns).mpr (hspelled.required _ (by simp [kRequired]))
  version := (eq_string_iff_isText h.version).mpr (hspelled.required _ (by simp [kRequired]))
  kind := (eq_string_iff_isText h.kind).mpr (hspelled.required _ (by simp [kRequired]))
  summary := (eq_string_iff_isText h.summary).mpr (hspelled.required _ (by simp [kRequired]))
  description := textIs_of_isText h.description hspelled.description
  confidence := by
    rcases hspelled.confidence with hnil | htext
    · refine .inl ⟨hnil, ?_⟩
      rw [h.confidence, fieldText_of_nil hnil]
      rfl
    · exact textIs_of_isText h.confidence htext
  request := .inl ⟨h.tables _ (by simp [tableKeys]), h.request⟩
  response := .inl ⟨h.tables _ (by simp [tableKeys]), h.response⟩
  attribution := .inl ⟨h.tables _ (by simp [tableKeys]), h.attribution⟩
  privacy := .inl ⟨h.tables _ (by simp [tableKeys]), h.privacy⟩
  metadataOnly := h.metadataOnly.symm ▸ hspelled.metadataOnly

end Stored

/-- The table with `metadata_only` set. -/
def marked (entries : List (Key × Value)) : List (Key × Value) :=
  entries.filter (fun e => e.1 ≠ .string (cstr "metadata_only")) ++
    [(.string (cstr "metadata_only"), .boolean true)]

/-- An accepted table is stored as it says exactly if it is spelled out. Fields that no descriptor
has are not looked at, and no accepted table is read by `lezcap.spec.generate`. A table that is
refused leaves the host as it was. -/
theorem endpoint_declare_stores_iff {limits : DriverResourceLimits} {host : DriverHostState}
    (hstack : at? stack 1 = some (.table entries)) :
    (∀ host', host.endpointDeclareLua numbers fuel limits stack = .ok (host', none) →
      ∃ d, host'.endpoints = host.endpoints ++ [d] ∧
        (Declared entries d ↔ Spelled entries) ∧
        (∀ entries' stack', at? stack' 1 = some (.table entries') →
          (∀ key ∈ kDescriptorKeys, get entries' (.string key) = get entries (.string key)) →
          host.endpointDeclareLua numbers fuel limits stack' = .ok (host', none)) ∧
        ∀ fuel' stack', at? stack' 2 = some (.table [(.number 1, .table (marked entries))]) →
          specEndpoints numbers fuel' stack' = .error .undefined) ∧
    ∀ host' error, host.endpointDeclareLua numbers fuel limits stack = .ok (host', some error) →
      host' = host := by
  refine ⟨fun host' h => ?_, fun host' error => endpointDeclareLua_eq_some⟩
  obtain ⟨hlimit, htables, fields, d, hfields, hparse, rfl⟩ :=
    (endpointDeclareLua_eq_none_iff hstack).mp h
  have hstored := stored_of_readTexts hfields htables hparse
  refine ⟨d, rfl, ⟨hstored.spelled, hstored.declared⟩, ?_, fun _ _ => specEndpoints_undefined⟩
  intro entries' stack' hstack' hsame
  refine (endpointDeclareLua_eq_none_iff hstack').mpr
    ⟨hlimit, fun key hkey => ?_, fields, d, (readTexts_congr hsame).trans hfields, hparse, rfl⟩
  have hmem : cstr key ∈ kDescriptorKeys := by
    simp only [tableKeys, List.mem_cons, List.not_mem_nil, or_false] at hkey
    rcases hkey with rfl | rfl | rfl | rfl <;> simp [kDescriptorKeys]
  rw [hsame _ hmem]
  exact htables key hkey

/-- A table with a summary and without a description. -/
def flowsTable : List (Key × Value) :=
  [(.string (cstr "name"), .string (cstr "flows")),
   (.string (cstr "namespace"), .string (cstr "net")),
   (.string (cstr "version"), .string (cstr "1.0")),
   (.string (cstr "kind"), .string (cstr "stream")),
   (.string (cstr "summary"), .string (cstr "Flows"))]

theorem endpoint_declare_stores_flows :
    ∃ host' d, ({} : DriverHostState).endpointDeclareLua wholeNumbers 0 {} [.table flowsTable] =
        .ok (host', none) ∧
      host'.endpoints = [d] ∧ (Declared flowsTable d ↔ Spelled flowsTable) := by
  have haccepted : (({} : DriverHostState).endpointDeclareLua wholeNumbers 0 {}
      [.table flowsTable]).map Prod.snd = .ok none := by decide +kernel
  obtain ⟨⟨host', _⟩, hdeclare, rfl⟩ := Except.map_eq_ok_iff.mp haccepted
  obtain ⟨d, hd, hdeclared, -⟩ := (endpoint_declare_stores_iff rfl).1 host' hdeclare
  exact ⟨host', d, hdeclare, hd, hdeclared⟩

/-- Its summary is stored as its description. A field of its own does not matter, and a list with
the table in it cannot be read. -/
theorem summary_stored_as_description :
    get flowsTable (.string (cstr "description")) = .nil ∧
    (({} : DriverHostState).endpointDeclareLua wholeNumbers 0 {} [.table flowsTable]).map
        (fun r => (r.1.endpoints.map (·.description), r.2)) = .ok ([cstr "Flows"], none) ∧
    (({} : DriverHostState).endpointDeclareLua wholeNumbers 0 {}
        [.table ((.string (cstr "owner"), .boolean true) :: flowsTable)]).map Prod.snd = .ok none ∧
    specEndpoints wholeNumbers 2
        [.table [(.number 1, .table (marked flowsTable))], .string (cstr "openapi-3.1")] =
      .error .undefined :=
  ⟨rfl, by decide +kernel, by decide +kernel, specEndpoints_undefined rfl⟩

end Ezcap.Drivers
