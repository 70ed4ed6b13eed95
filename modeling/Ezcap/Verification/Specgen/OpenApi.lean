import Ezcap.Verification.Specgen.Order
import Ezcap.Verification.Specgen.References

/-! The shapes in the OpenAPI document. They are filed under names without the version, in which
moreover an underscore joins two parts that may have underscores of their own. -/

namespace Ezcap.Specgen

open StdString Ipc
open JsonReference (assign assignAll)

def requestRefPath : List Bytes :=
  [cstr "requestBody", cstr "content", cstr "application/json", cstr "schema", cstr "$ref"]

def responseRefPath : List Bytes :=
  [cstr "responses", cstr "200", cstr "content", cstr "application/json", cstr "schema",
    cstr "$ref"]

/-- The operation ids in a document. -/
def operationIds (doc : Json) : List Json :=
  (((doc.field? (cstr "paths")).bind Json.object?).getD []).filterMap fun item =>
    item.2.at? [cstr "post", cstr "operationId"]

/-- The shapes of every endpoint stand under its own names, the references of its operation lead to
them, and no operation id repeats. -/
structure KeepsOpenApi (endpoints : List EndpointDescriptor) (doc : Json) : Prop where
  request : ∀ e ∈ endpoints, e.request.isObject = true →
    doc.at? [cstr "components", cstr "schemas", requestName e] = some e.request
  response : ∀ e ∈ endpoints, e.response.isObject = true →
    doc.at? [cstr "components", cstr "schemas", responseName e] = some e.response
  refs : ∀ e ∈ endpoints, isCall e = true → ∃ operation,
    doc.at? [cstr "paths", pathOf e, cstr "post"] = some operation ∧
      (operation.at? requestRefPath).bind (resolve doc) = shape? e.request ∧
      (operation.at? responseRefPath).bind (resolve doc) = shape? e.response
  operationIds : (operationIds doc).Nodup

theorem at?_contentJson (name : Bytes) :
    (contentJson name).at? [cstr "application/json", cstr "schema", cstr "$ref"] =
      some (.string (cstr "#/components/schemas/" ++ name)) := by
  have hjson : (contentJson name).field? (cstr "application/json") =
      some (.mkObject [(cstr "schema", refJson "#/components/schemas/" name)]) :=
    (listed_all _).field?_of_mem (by simp) (by simp)
  have hschema : (Json.mkObject [(cstr "schema", refJson "#/components/schemas/" name)]).field?
      (cstr "schema") = some (refJson "#/components/schemas/" name) :=
    (listed_all _).field?_of_mem (by simp) (by simp)
  rw [Json.at?_cons hjson, Json.at?_cons hschema, Json.at?_cons (field?_refJson _ _), Json.at?_nil]

section Operation

variable (e : EndpointDescriptor)

theorem listed_operation : Listed
    ([cstr "operationId", cstr "summary"] ++ [cstr "description"] ++ [cstr "x-ezcap-example"] ++
      ([cstr "x-ezcap-attribution"] ++ [cstr "x-ezcap-confidence"] ++ [cstr "x-ezcap-privacy"] ++
        [cstr "x-ezcap-metadata-only"]))
    ([(cstr "operationId", .string (operationIdOf e)), (cstr "summary", .string e.summary)] ++
      textField (cstr "description") e.description ++ [(cstr "x-ezcap-example", kExample)] ++
      privacyAnnotations e) :=
  (((listed_all _).append (listed_textField _ _)).append (listed_all _)).append
    (listed_privacyAnnotations e)

theorem listed_responses : Listed ([cstr "responses"] ++ [cstr "x-ezcap-kind"])
    ([(cstr "responses", responsesJson e)] ++
      fieldIf (e.kind == cstr "event") (cstr "x-ezcap-kind") (.string (cstr "event"))) :=
  (listed_all _).append (listed_fieldIf _ _ _)

theorem listed_operationFields : Listed
    ([cstr "operationId", cstr "summary"] ++ [cstr "description"] ++ [cstr "x-ezcap-example"] ++
      ([cstr "x-ezcap-attribution"] ++ [cstr "x-ezcap-confidence"] ++ [cstr "x-ezcap-privacy"] ++
        [cstr "x-ezcap-metadata-only"]) ++ [cstr "requestBody"] ++
      ([cstr "responses"] ++ [cstr "x-ezcap-kind"])) (operationFields e) := by
  have hfields := ((listed_operation e).append (listed_fieldIf e.request.isObject
    (cstr "requestBody") (requestBodyJson e))).append (listed_responses e)
  rwa [← List.append_assoc _ [(cstr "responses", responsesJson e)]] at hfields

theorem field?_operationId :
    (Json.mkObject (operationFields e)).field? (cstr "operationId") =
      some (.string (operationIdOf e)) :=
  (listed_operationFields e).field?_of_mem (by simp) (by simp [operationFields])

theorem at?_requestRefPath :
    (Json.mkObject (operationFields e)).at? requestRefPath =
      if e.request.isObject then
        some (.string (cstr "#/components/schemas/" ++ requestName e)) else none := by
  have hbody := field?_fieldIf (cstr "requestBody") (listed_operation e) (listed_responses e)
    (by simp) e.request.isObject (requestBodyJson e)
  rw [← List.append_assoc] at hbody
  change (Json.mkObject (operationFields e)).field? _ = _ at hbody
  rw [requestRefPath, Json.at?, hbody]
  split
  · have hcontent : (requestBodyJson e).field? (cstr "content") =
        some (contentJson (requestName e)) :=
      (listed_all _).field?_of_mem (by simp) (by simp)
    rw [Option.bind_some, Json.at?_cons hcontent, at?_contentJson]
  · rfl

theorem at?_responseRefPath :
    (Json.mkObject (operationFields e)).at? responseRefPath =
      if e.response.isObject then
        some (.string (cstr "#/components/schemas/" ++ responseName e)) else none := by
  have hresponses : (Json.mkObject (operationFields e)).field? (cstr "responses") =
      some (responsesJson e) :=
    (listed_operationFields e).field?_of_mem (by simp) (by simp [operationFields])
  rw [responseRefPath, Json.at?_cons hresponses, responsesJson]
  split
  · have hsuccess (success : Json) :
        (Json.mkObject [(cstr "200", success)]).field? (cstr "200") = some success :=
      (listed_all _).field?_of_mem (by simp) (by simp)
    have hcontent : (Json.mkObject [(cstr "description", .string (cstr "Success")),
        (cstr "content", contentJson (responseName e))]).field? (cstr "content") =
        some (contentJson (responseName e)) :=
      (listed_all _).field?_of_mem (by simp) (by simp)
    rw [Json.at?_cons (hsuccess _), Json.at?_cons hcontent, at?_contentJson]
  · refine Json.at?_cons_none ((listed_all _).field?_none ?_) _
    simp

end Operation

/-- What stands under the path of an endpoint. -/
def itemJson (e : EndpointDescriptor) : Json :=
  if isCall e then .object [(cstr "post", .mkObject (operationFields e))]
  else .mkObject [(cstr "get", markerJson e)]

section Loop

variable {endpoints : List EndpointDescriptor}

theorem schemas_add (api : OpenApi) (e : EndpointDescriptor) :
    (api.add e).schemas = assignAll (schemaFields e) api.schemas := by
  unfold OpenApi.add
  dsimp only
  split_ifs <;> rfl

theorem schemas_foldl (api : OpenApi) (endpoints : List EndpointDescriptor) :
    (endpoints.foldl OpenApi.add api).schemas =
      assignAll (endpoints.flatMap schemaFields) api.schemas := by
  induction endpoints generalizing api with
  | nil => rfl
  | cons e endpoints ih =>
      rw [List.foldl_cons, ih, schemas_add, List.flatMap_cons, JsonReference.assignAll_append]

theorem mem_seenOps_add {api : OpenApi} {e : EndpointDescriptor} {path : Bytes}
    (h : path ∈ (api.add e).seenOps) :
    path ∈ api.seenOps ∨ path = pathOf e ∨ path = pathOf e ++ cstr "#stream" := by
  unfold OpenApi.add at h
  dsimp only at h
  split at h
  · exact (List.mem_cons.mp h).elim (fun hpath => .inr (.inl hpath)) .inl
  · split at h
    · exact .inl h
    · exact (List.mem_cons.mp h).elim (fun hpath => .inr (.inr hpath)) .inl

theorem mem_seenOps {path : Bytes} (h : path ∈ (endpoints.foldl OpenApi.add {}).seenOps) :
    ∃ e ∈ endpoints, path = pathOf e ∨ path = pathOf e ++ cstr "#stream" := by
  induction endpoints using List.reverseRecOn with
  | nil => cases h
  | append_singleton endpoints e ih =>
      rw [List.foldl_concat] at h
      rcases mem_seenOps_add h with hmem | hpath
      · obtain ⟨e', he', hpath⟩ := ih hmem
        exact ⟨e', List.mem_append_left _ he', hpath⟩
      · exact ⟨e, by simp, hpath⟩

/-- Every endpoint has a path of its own, so nothing under it is there before. -/
theorem paths_foldl (hplain : ∀ e ∈ endpoints, Plain e)
    (hdistinct : endpoints.Pairwise fun a b => ¬ Collide a b) :
    (endpoints.foldl OpenApi.add {}).paths =
      assignAll (endpoints.map fun e => (pathOf e, itemJson e)) [] := by
  induction endpoints using List.reverseRecOn with
  | nil => rfl
  | append_singleton endpoints e ih =>
      have he := hplain e (by simp)
      have hbefore (e' : EndpointDescriptor) (he' : e' ∈ endpoints) : Plain e' :=
        hplain e' (List.mem_append_left _ he')
      obtain ⟨hfirst, -, hother⟩ := List.pairwise_append.mp hdistinct
      have hpath (e' : EndpointDescriptor) (he' : e' ∈ endpoints) : pathOf e ≠ pathOf e' := by
        intro hsame
        exact hother e' he' e (by simp) ((pathOf_inj he (hbefore e' he')).mp hsame).symm
      specialize ih hbefore hfirst
      have hmembers : membersAt (endpoints.foldl OpenApi.add {}).paths (pathOf e) = [] := by
        rw [membersAt, ih]
        cases hfield : (Json.object (assignAll (endpoints.map fun e => (pathOf e, itemJson e))
          [])).field? (pathOf e) with
        | none => rfl
        | some value =>
            obtain ⟨e', he', hsame, -⟩ := JsonReference.exists_of_field?_assignAll_map hfield
            exact absurd hsame.symm (hpath e' he')
      have hstream : pathOf e ++ cstr "#stream" ∉ (endpoints.foldl OpenApi.add {}).seenOps := by
        intro hmem
        obtain ⟨e', he', hsame | hsame⟩ := mem_seenOps hmem
        · exact (hbefore e' he').pathOf_ne hsame.symm
        · exact hpath e' he' (List.append_cancel_right hsame)
      rw [List.foldl_concat, List.map_append, JsonReference.assignAll_append, ← ih, OpenApi.add]
      cases hcall : isCall e with
      | true =>
          simp only [hmembers, ite_self, if_true, List.map_cons, List.map_nil, itemJson, hcall]
          rfl
      | false =>
          simp only [Bool.false_eq_true, if_false, hstream, List.map_cons, List.map_nil, itemJson,
            hcall]
          rfl

end Loop

/-- Endpoints that share a name have the same shapes, and no two operations or events share their
namespace and name. -/
structure SeparateOpenApi (endpoints : List EndpointDescriptor) : Prop where
  request : ∀ a ∈ endpoints, ∀ b ∈ endpoints, baseName a = baseName b →
    a.request.isObject = true → b.request.isObject = true → a.request = b.request
  response : ∀ a ∈ endpoints, ∀ b ∈ endpoints, baseName a = baseName b →
    a.response.isObject = true → b.response.isObject = true → a.response = b.response
  operationId : ∀ a ∈ endpoints, ∀ b ∈ endpoints, isCall a = true → isCall b = true →
    a.ns = b.ns → a.name = b.name → a = b

section OpenApi

variable {sort : List EndpointDescriptor → List EndpointDescriptor} (hsort : Sorts sort)
  {endpoints : List EndpointDescriptor} (context : GenerationContext)

theorem component_emitOpenApi31 (name : Bytes) :
    (emitOpenApi31 sort endpoints context).at? [cstr "components", cstr "schemas", name] =
      (Json.object (assignAll ((sort endpoints).flatMap schemaFields) [])).field? name := by
  unfold emitOpenApi31
  dsimp only
  rw [at?_components (listed_all _) (by simp), schemas_foldl]
  simp [Json.at?]

include hsort

theorem component_of_mem {e : EndpointDescriptor} {name : Bytes} {value : Json}
    (he : e ∈ endpoints) (hmem : (name, value) ∈ schemaFields e)
    (hvalue : ∀ e' ∈ endpoints, ∀ v, (name, v) ∈ schemaFields e' → v = value) :
    (emitOpenApi31 sort endpoints context).at? [cstr "components", cstr "schemas", name] =
      some value := by
  rw [component_emitOpenApi31]
  refine JsonReference.field?_assignAll ?_ ?_
  · refine List.mem_map.mpr ⟨(name, value), List.mem_flatMap.mpr ⟨e, ?_, hmem⟩, rfl⟩
    exact (hsort.perm endpoints).mem_iff.mpr he
  · intro v hv
    obtain ⟨e', he', hmem'⟩ := List.mem_flatMap.mp hv
    exact hvalue e' ((hsort.perm endpoints).mem_iff.mp he') v hmem'

theorem request_of_separate (h : SeparateOpenApi endpoints) {e : EndpointDescriptor}
    (he : e ∈ endpoints) (hobject : e.request.isObject = true) :
    (emitOpenApi31 sort endpoints context).at?
      [cstr "components", cstr "schemas", requestName e] = some e.request := by
  refine component_of_mem hsort context he (by simp [schemaFields, fieldIf, hobject]) ?_
  intro e' he' v hv
  rcases List.mem_append.mp hv with hv | hv
  · obtain ⟨hobject', hsame⟩ := mem_fieldIf.mp hv
    obtain ⟨hname, rfl⟩ := Prod.mk.inj hsame
    exact h.request e' he' e he (requestName_inj.mp hname.symm) hobject' hobject
  · obtain ⟨-, hsame⟩ := mem_fieldIf.mp hv
    exact absurd (Prod.mk.inj hsame).1 requestName_ne_responseName

theorem response_of_separate (h : SeparateOpenApi endpoints) {e : EndpointDescriptor}
    (he : e ∈ endpoints) (hobject : e.response.isObject = true) :
    (emitOpenApi31 sort endpoints context).at?
      [cstr "components", cstr "schemas", responseName e] = some e.response := by
  refine component_of_mem hsort context he (by simp [schemaFields, fieldIf, hobject]) ?_
  intro e' he' v hv
  rcases List.mem_append.mp hv with hv | hv
  · obtain ⟨-, hsame⟩ := mem_fieldIf.mp hv
    exact absurd (Prod.mk.inj hsame).1.symm requestName_ne_responseName
  · obtain ⟨hobject', hsame⟩ := mem_fieldIf.mp hv
    obtain ⟨hname, rfl⟩ := Prod.mk.inj hsame
    exact h.response e' he' e he (responseName_inj.mp hname.symm) hobject' hobject

variable (hplain : ∀ e ∈ endpoints, Plain e)
  (hdistinct : endpoints.Pairwise fun a b => ¬ Collide a b)

include hplain hdistinct

theorem paths_emitOpenApi31 :
    ∃ paths, (emitOpenApi31 sort endpoints context).field? (cstr "paths") = some (.object paths) ∧
      paths = assignAll ((sort endpoints).map fun e => (pathOf e, itemJson e)) [] ∧
      paths.Perm ((sort endpoints).map fun e => (pathOf e, itemJson e)) := by
  have hperm := hsort.perm endpoints
  have hsorted (e : EndpointDescriptor) (he : e ∈ sort endpoints) : Plain e :=
    hplain e (hperm.mem_iff.mp he)
  have hpairwise : (sort endpoints).Pairwise fun a b => ¬ Collide a b :=
    (hperm.pairwise_iff fun hab hba => hab hba.symm).mpr hdistinct
  have hpaths := paths_foldl hsorted hpairwise
  refine ⟨_, ?_, hpaths, ?_⟩
  · refine ((listed_all _).append (listed_fieldIf _ _ _)).field?_of_mem (by simp) ?_
    simp
  · rw [hpaths]
    have hkeys : (((sort endpoints).map fun e => (pathOf e, itemJson e)).map Prod.fst).Nodup := by
      rw [List.map_map]
      refine List.pairwise_map.mpr (hpairwise.imp_of_mem ?_)
      intro a b ha hb hne hsame
      exact hne ((pathOf_inj (hsorted a ha) (hsorted b hb)).mp hsame)
    simpa using @JsonReference.assignAll_perm [] _ hkeys (by simp)

theorem operation_emitOpenApi31 {e : EndpointDescriptor} (he : e ∈ endpoints)
    (hcall : isCall e = true) :
    (emitOpenApi31 sort endpoints context).at? [cstr "paths", pathOf e, cstr "post"] =
      some (.mkObject (operationFields e)) := by
  obtain ⟨_, hfield, rfl, -⟩ := paths_emitOpenApi31 hsort context hplain hdistinct
  have hmem := (hsort.perm endpoints).mem_iff.mpr he
  have hitem : (Json.object (assignAll ((sort endpoints).map fun e => (pathOf e, itemJson e))
      [])).field? (pathOf e) = some (itemJson e) := by
    refine JsonReference.field?_assignAll_map hmem ?_
    intro e' he' hpath
    have hendpoint := (hsort.perm endpoints).mem_iff.mp he'
    exact eq_of_collide hdistinct hendpoint he
      ((pathOf_inj (hplain e' hendpoint) (hplain e he)).mp hpath)
  have hpost : (itemJson e).field? (cstr "post") = some (.mkObject (operationFields e)) := by
    simp [itemJson, hcall, Json.field?]
  rw [Json.at?_cons hfield, Json.at?_cons hitem, Json.at?_cons hpost, Json.at?_nil]

/-- Operations and events give their ids, streams none. -/
theorem operationIds_emitOpenApi31 :
    (operationIds (emitOpenApi31 sort endpoints context)).Perm
      ((sort endpoints).filterMap fun e =>
        if isCall e then some (.string (operationIdOf e)) else none) := by
  obtain ⟨paths, hfield, -, hperm⟩ := paths_emitOpenApi31 hsort context hplain hdistinct
  rw [operationIds, hfield]
  refine (hperm.filterMap _).trans (.of_eq ?_)
  rw [List.filterMap_map]
  congr 1
  funext e
  cases hcall : isCall e with
  | true =>
      have hpost : (itemJson e).field? (cstr "post") = some (.mkObject (operationFields e)) := by
        simp [itemJson, hcall, Json.field?]
      simp only [Function.comp_apply, if_true]
      rw [Json.at?_cons hpost, Json.at?_cons (field?_operationId e), Json.at?_nil]
  | false =>
      have hpost : (itemJson e).field? (cstr "post") = none := by
        rw [itemJson, hcall]
        exact (listed_all _).field?_none (by simp)
      simp only [Function.comp_apply, Bool.false_eq_true, if_false]
      exact Json.at?_cons_none hpost _

theorem nodup_operationIds_iff :
    (operationIds (emitOpenApi31 sort endpoints context)).Nodup ↔
      ∀ a ∈ endpoints, ∀ b ∈ endpoints, isCall a = true → isCall b = true →
        a.ns = b.ns → a.name = b.name → a = b := by
  have hperm := operationIds_emitOpenApi31 hsort context hplain hdistinct
  have hids := hperm.trans ((hsort.perm endpoints).filterMap _)
  rw [hids.nodup_iff, List.Nodup, List.pairwise_filterMap]
  constructor
  · intro h a ha b hb hcalla hcallb hns hname
    by_contra hne
    have hsymm : Std.Symm fun a b : EndpointDescriptor =>
        ∀ x, (if isCall a then some (Json.string (operationIdOf a)) else none) = some x →
          ∀ y, (if isCall b then some (Json.string (operationIdOf b)) else none) = some y →
            x ≠ y :=
      ⟨fun _ _ hab x hx y hy hxy => hab y hy x hx hxy.symm⟩
    refine h.forall ha hb hne _ (if_pos hcalla) _ (if_pos hcallb) ?_
    rw [(operationIdOf_inj (hplain a ha) (hplain b hb)).mpr ⟨hns, hname⟩]
  · intro h
    refine hdistinct.imp_of_mem ?_
    rintro a b ha hb hcollide x hx y hy rfl
    obtain ⟨hcalla, hida⟩ := Option.ite_none_right_eq_some.mp hx
    obtain ⟨hcallb, hidb⟩ := Option.ite_none_right_eq_some.mp hy
    have hid := Json.string.inj ((Option.some.inj hida).trans (Option.some.inj hidb).symm)
    obtain ⟨hns, hname⟩ := (operationIdOf_inj (hplain a ha) (hplain b hb)).mp hid
    obtain rfl := h a ha b hb hcalla hcallb hns hname
    exact hcollide ⟨rfl, rfl, rfl⟩

theorem keepsOpenApi_iff :
    KeepsOpenApi endpoints (emitOpenApi31 sort endpoints context) ↔ SeparateOpenApi endpoints := by
  constructor
  · intro h
    refine ⟨?_, ?_, (nodup_operationIds_iff hsort context hplain hdistinct).mp h.operationIds⟩
    · intro a ha b hb hname hobject hobject'
      have hplace := h.request a ha hobject
      rw [requestName_inj.mpr hname, h.request b hb hobject'] at hplace
      exact (Option.some.inj hplace).symm
    · intro a ha b hb hname hobject hobject'
      have hplace := h.response a ha hobject
      rw [responseName_inj.mpr hname, h.response b hb hobject'] at hplace
      exact (Option.some.inj hplace).symm
  · intro h
    refine ⟨fun e he => request_of_separate hsort context h he,
      fun e he => response_of_separate hsort context h he, ?_,
      (nodup_operationIds_iff hsort context hplain hdistinct).mpr h.operationId⟩
    intro e he hcall
    refine ⟨_, operation_emitOpenApi31 hsort context hplain hdistinct he hcall, ?_, ?_⟩
    · rw [at?_requestRefPath, shape?]
      split
      · rename_i hobject
        rw [Option.bind_some, resolve_schema _ (hplain e he).slash_notMem_requestName,
          request_of_separate hsort context h he hobject]
      · rfl
    · rw [at?_responseRefPath, shape?]
      split
      · rename_i hobject
        rw [Option.bind_some, resolve_schema _ (hplain e he).slash_notMem_responseName,
          response_of_separate hsort context h he hobject]
      · rfl

end OpenApi

end Ezcap.Specgen
