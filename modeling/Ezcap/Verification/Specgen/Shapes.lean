import Ezcap.Verification.Specgen.AsyncApi
import Ezcap.Verification.Specgen.OpenApi

/-! Whether the generated documents keep the shapes of every endpoint. -/

namespace Ezcap.Specgen

open StdString Ipc
open JsonReference (assign assignAll)

/-! ## JSON Schema -/

/-- The members of `$defs`. -/
def defsOf (doc : Json) : List (Bytes × Json) :=
  ((doc.field? (cstr "$defs")).bind Json.object?).getD []

/-- There is an entry for every endpoint, with its shapes. -/
structure KeepsJsonSchema (endpoints : List EndpointDescriptor) (doc : Json) : Prop where
  entries : (defsOf doc).length = endpoints.length
  shapes : ∀ e ∈ endpoints, ∃ entry, doc.at? [cstr "$defs", baseName e] = some entry ∧
    entry.field? (cstr "x-ezcap-request") = shape? e.request ∧
    entry.field? (cstr "x-ezcap-response") = shape? e.response

theorem request_entryJson (e : EndpointDescriptor) :
    (entryJson e).field? (cstr "x-ezcap-request") = shape? e.request := by
  have hfield := field?_fieldIf (cstr "x-ezcap-request")
    ((listed_all [(cstr "title", Json.string e.summary)]).append
      (listed_textField (cstr "description") e.description))
    ((listed_fieldIf e.response.isObject (cstr "x-ezcap-response") e.response).append
      (listed_privacyAnnotations e)) (by simp) e.request.isObject e.request
  rwa [← List.append_assoc] at hfield

theorem response_entryJson (e : EndpointDescriptor) :
    (entryJson e).field? (cstr "x-ezcap-response") = shape? e.response :=
  field?_fieldIf (cstr "x-ezcap-response")
    (((listed_all _).append (listed_textField _ _)).append (listed_fieldIf _ _ _))
    (listed_privacyAnnotations e) (by simp) _ _

section JsonSchema

variable {sort : List EndpointDescriptor → List EndpointDescriptor} (hsort : Sorts sort)
  {endpoints : List EndpointDescriptor} (context : GenerationContext)

theorem field?_defs (sort : List EndpointDescriptor → List EndpointDescriptor)
    (endpoints : List EndpointDescriptor) :
    (emitJsonSchema sort endpoints context).field? (cstr "$defs") =
      if !(assignAll ((sort endpoints).map fun e => (baseName e, entryJson e)) []).isEmpty then
        some (.object (assignAll ((sort endpoints).map fun e => (baseName e, entryJson e)) []))
      else none := by
  have hnil : Listed [] ([] : List (Bytes × Json)) := List.Sublist.refl []
  unfold emitJsonSchema
  dsimp only
  rw [← List.append_nil (_ ++ fieldIf _ _ _)]
  exact field?_fieldIf (cstr "$defs") (listed_all _) hnil (by simp) _ _

theorem defsOf_emitJsonSchema (sort : List EndpointDescriptor → List EndpointDescriptor)
    (endpoints : List EndpointDescriptor) :
    defsOf (emitJsonSchema sort endpoints context) =
      assignAll ((sort endpoints).map fun e => (baseName e, entryJson e)) [] := by
  rw [defsOf, field?_defs]
  cases assignAll ((sort endpoints).map fun e => (baseName e, entryJson e)) [] with
  | nil => rfl
  | cons f fields => rfl

theorem at?_defs (sort : List EndpointDescriptor → List EndpointDescriptor)
    (endpoints : List EndpointDescriptor) (name : Bytes) :
    (emitJsonSchema sort endpoints context).at? [cstr "$defs", name] =
      (Json.object (assignAll ((sort endpoints).map fun e =>
        (baseName e, entryJson e)) [])).field? name := by
  rw [Json.at?, field?_defs]
  cases assignAll ((sort endpoints).map fun e => (baseName e, entryJson e)) [] with
  | nil => rfl
  | cons f fields => simp [Json.at?]

include hsort

theorem keepsJsonSchema_iff :
    KeepsJsonSchema endpoints (emitJsonSchema sort endpoints context) ↔
      (endpoints.map baseName).Nodup := by
  have hperm := hsort.perm endpoints
  have hkeys : (((sort endpoints).map fun e => (baseName e, entryJson e)).map Prod.fst).Nodup ↔
      (endpoints.map baseName).Nodup := by
    rw [List.map_map]
    exact (hperm.map baseName).nodup_iff
  have hdefs := defsOf_emitJsonSchema context sort endpoints
  constructor
  · intro h
    have hlength := h.entries
    rw [hdefs, ← hperm.length_eq] at hlength
    exact hkeys.mp (JsonReference.length_assignAll_iff.mp (by simpa using hlength))
  · intro h
    constructor
    · have hlength := JsonReference.length_assignAll_iff.mpr (hkeys.mpr h)
      rw [hdefs, hlength, List.length_map, hperm.length_eq]
    · intro e he
      refine ⟨entryJson e, ?_, request_entryJson e, response_entryJson e⟩
      rw [at?_defs]
      refine JsonReference.field?_assignAll_map (hperm.mem_iff.mpr he) ?_
      intro e' he' hname
      exact List.inj_on_of_nodup_map h (hperm.mem_iff.mp he') he hname

end JsonSchema

/-! ## Every format -/

/-- The document keeps every endpoint's own shapes. -/
def Keeps (format : Format) (endpoints : List EndpointDescriptor) (doc : Json) : Prop :=
  match format with
  | .openApi31 => KeepsOpenApi endpoints doc
  | .asyncApi2 => KeepsAsyncApi endpoints doc
  | .jsonSchema => KeepsJsonSchema endpoints doc

/-- The names of the format tell the endpoints apart, as far as their shapes differ. -/
def Separate (format : Format) (endpoints : List EndpointDescriptor) : Prop :=
  match format with
  | .openApi31 => SeparateOpenApi endpoints
  | .asyncApi2 => SeparateAsyncApi endpoints
  | .jsonSchema => (endpoints.map baseName).Nodup

theorem keeps_iff {sort : List EndpointDescriptor → List EndpointDescriptor} (hsort : Sorts sort)
    {endpoints : List EndpointDescriptor} (context : GenerationContext)
    (hplain : ∀ e ∈ endpoints, Plain e)
    (hdistinct : endpoints.Pairwise fun a b => ¬ Collide a b) (format : Format) :
    Keeps format endpoints (emit sort format endpoints context) ↔ Separate format endpoints := by
  cases format with
  | openApi31 => exact keepsOpenApi_iff hsort context hplain hdistinct
  | asyncApi2 => exact keepsAsyncApi_iff hsort context hplain hdistinct
  | jsonSchema => exact keepsJsonSchema_iff hsort context

/-! ## Events -/

def typeShape (type : String) : Json := .mkObject [(cstr "type", .string (cstr type))]

/-- An event with a response of one type, as it is registered. -/
def eventDescriptor (ns name version type : String) : Json :=
  .mkObject
    [(cstr "name", .string (cstr name)), (cstr "namespace", .string (cstr ns)),
     (cstr "version", .string (cstr version)), (cstr "kind", .string (cstr "event")),
     (cstr "summary", .string (cstr "Flow")), (cstr "metadata_only", .bool true),
     (cstr "response", typeShape type)]

def eventEndpoint (ns name version type : String) : EndpointDescriptor where
  name := cstr name
  ns := cstr ns
  version := cstr version
  kind := cstr "event"
  summary := cstr "Flow"
  response := typeShape type

theorem validated_eventEndpoint {ns name version type : String}
    (h : validateEndpointDescriptor (eventDescriptor ns name version type) = .ok ()) :
    Validated (eventEndpoint ns name version type) := by
  refine ⟨eventDescriptor ns name version type, ?_⟩
  rw [parseEndpointDescriptor, h]
  rfl

theorem isChannel_of_event {e : EndpointDescriptor} (h : e.kind = cstr "event") :
    isChannel e = true := by
  rw [isChannel, h]
  decide +kernel

/-- Events of different names are kept in every format. -/
theorem separate_events {endpoints : List EndpointDescriptor}
    (hevent : ∀ e ∈ endpoints, e.kind = cstr "event" ∧ e.request = .null)
    (hnames : (endpoints.map baseName).Nodup) (format : Format) :
    Separate format endpoints := by
  have hsame {a b : EndpointDescriptor} (ha : a ∈ endpoints) (hb : b ∈ endpoints)
      (hname : baseName a = baseName b) : a = b := List.inj_on_of_nodup_map hnames ha hb hname
  cases format with
  | openApi31 =>
      constructor
      · intro a ha b hb hname _ _
        rw [hsame ha hb hname]
      · intro a ha b hb hname _ _
        rw [hsame ha hb hname]
      · intro a ha b hb _ _ hns hname
        exact hsame ha hb (by rw [baseName, baseName, hns, hname])
  | asyncApi2 =>
      constructor
      · intro a ha b hb _ _ hname
        rw [hsame ha hb hname]
      · intro a ha schema hschema
        rcases hschema with hrequest | hresponse
        · rw [(hevent a ha).2] at hrequest
          cases hrequest
        · exact ⟨a, ha, isChannel_of_event (hevent a ha).1, rfl, hresponse⟩
  | jsonSchema => exact hnames

/-- Events that share a name are kept in no format unless they have the same response. -/
theorem not_separate_events {endpoints : List EndpointDescriptor} {a b : EndpointDescriptor}
    (ha : a ∈ endpoints) (hb : b ∈ endpoints) (hkinda : a.kind = cstr "event")
    (hkindb : b.kind = cstr "event") (hname : baseName a = baseName b)
    (hshapea : a.response.isObject = true) (hshapeb : b.response.isObject = true)
    (hresponse : a.response ≠ b.response) (format : Format) : ¬ Separate format endpoints := by
  cases format with
  | openApi31 => exact fun h => hresponse (h.response a ha b hb hname hshapea hshapeb)
  | asyncApi2 =>
      intro h
      have hshape := h.response a ha b hb (isChannel_of_event hkinda)
        (isChannel_of_event hkindb) hname
      rw [shape?, shape?, if_pos hshapea, if_pos hshapeb] at hshape
      exact hresponse (Option.some.inj hshape)
  | jsonSchema =>
      intro h
      have hsame : a = b := List.inj_on_of_nodup_map h ha hb hname
      exact hresponse (congrArg EndpointDescriptor.response hsame)

/-- Endpoints that are accepted and whose shapes no format keeps. -/
def Lost (endpoints : List EndpointDescriptor) : Prop :=
  (∀ e ∈ endpoints, Validated e) ∧ checkEndpoints endpoints = .ok () ∧
    ∀ format context, ¬ Keeps format endpoints
      (emit (List.mergeSort · fun a b => !precedes b a) format endpoints context)

theorem lost_of_baseName_eq {a b : EndpointDescriptor} (ha : Validated a) (hb : Validated b)
    (haccepted : checkEndpoints [a, b] = .ok ()) (hkinda : a.kind = cstr "event")
    (hkindb : b.kind = cstr "event") (hname : baseName a = baseName b)
    (hshapea : a.response.isObject = true) (hshapeb : b.response.isObject = true)
    (hresponse : a.response ≠ b.response) : Lost [a, b] := by
  have hvalidated : ∀ e ∈ [a, b], Validated e := by
    rintro e (_ | ⟨_, _ | ⟨_, ⟨⟩⟩⟩)
    · exact ha
    · exact hb
  refine ⟨hvalidated, haccepted, fun format context hkeeps => ?_⟩
  have hseparate := (keeps_iff sorts_mergeSort context (fun e he => (hvalidated e he).plain)
    (distinct_of_checkEndpoints haccepted) format).mp hkeeps
  exact not_separate_events (by simp) (by simp) hkinda hkindb hname hshapea hshapeb hresponse
    format hseparate

theorem typeShape_ne : typeShape "string" ≠ typeShape "integer" := by
  intro h
  have htype := congrArg (fun shape => (shape.field? (cstr "type")).bind Json.string?) h
  revert htype
  decide +kernel

/-- What is generated of validated endpoints keeps their shapes exactly if the names of the format
tell the endpoints apart. -/
theorem generated_shapes_kept_iff {sort : List EndpointDescriptor → List EndpointDescriptor}
    (hsort : Sorts sort) (format : Format) (context : GenerationContext)
    {endpoints : List EndpointDescriptor} (hvalidated : ∀ e ∈ endpoints, Validated e)
    (haccepted : checkEndpoints endpoints = .ok ()) :
    Keeps format endpoints (emit sort format endpoints context) ↔ Separate format endpoints :=
  keeps_iff hsort context (fun e he => (hvalidated e he).plain)
    (distinct_of_checkEndpoints haccepted) format

/-- Two events of different names. -/
theorem event_shapes_kept :
    let endpoints := [eventEndpoint "ezcap" "flow" "1.0" "string",
      eventEndpoint "ezcap" "dns" "1.0" "integer"]
    checkEndpoints endpoints = .ok () ∧ ∀ format context, Keeps format endpoints
      (emit (List.mergeSort · fun a b => !precedes b a) format endpoints context) := by
  have haccepted : checkEndpoints [eventEndpoint "ezcap" "flow" "1.0" "string",
      eventEndpoint "ezcap" "dns" "1.0" "integer"] = .ok () := by decide +kernel
  refine ⟨haccepted, fun format context => ?_⟩
  refine (generated_shapes_kept_iff sorts_mergeSort format context ?_ haccepted).mpr
    (separate_events ?_ (by decide +kernel) format)
  · rintro e (_ | ⟨_, _ | ⟨_, ⟨⟩⟩⟩)
    · exact validated_eventEndpoint (by decide +kernel)
    · exact validated_eventEndpoint (by decide +kernel)
  · rintro e (_ | ⟨_, _ | ⟨_, ⟨⟩⟩⟩)
    · exact ⟨rfl, rfl⟩
    · exact ⟨rfl, rfl⟩

/-- Two versions of an event share a name, and so do two events whose namespaces and names have the
underscore in different places. -/
theorem event_shapes_lost :
    Lost [eventEndpoint "ezcap" "flow" "1.0" "string",
        eventEndpoint "ezcap" "flow" "1.1" "integer"] ∧
      Lost [eventEndpoint "a_b" "c" "1.0" "string", eventEndpoint "a" "b_c" "1.0" "integer"] :=
  ⟨lost_of_baseName_eq (validated_eventEndpoint (by decide +kernel))
      (validated_eventEndpoint (by decide +kernel)) (by decide +kernel) rfl rfl rfl rfl rfl
      typeShape_ne,
    lost_of_baseName_eq (validated_eventEndpoint (by decide +kernel))
      (validated_eventEndpoint (by decide +kernel)) (by decide +kernel) rfl rfl
      (by decide +kernel) rfl rfl typeShape_ne⟩

end Ezcap.Specgen
