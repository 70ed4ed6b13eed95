import Ezcap.Verification.Specgen.Order
import Ezcap.Verification.Specgen.References

/-! The shapes in the AsyncAPI document, which has messages for streams and events only. -/

namespace Ezcap.Specgen

open StdString Ipc
open JsonReference (assign assignAll)

/-- The endpoint is a stream or an event. -/
def isChannel (e : EndpointDescriptor) : Bool := e.kind != cstr "operation"

/-- The shapes of every endpoint stand in the message under its name, and the message of its channel
carries its response. -/
structure KeepsAsyncApi (endpoints : List EndpointDescriptor) (doc : Json) : Prop where
  shapes : ∀ e ∈ endpoints, ∀ schema,
    shape? e.request = some schema ∨ shape? e.response = some schema →
    doc.at? [cstr "components", cstr "messages", baseName e, cstr "payload"] = some schema
  channels : ∀ e ∈ endpoints, isChannel e = true → ∃ message,
    (doc.at? [cstr "channels", channelOf e, cstr "publish", cstr "message", cstr "$ref"]).bind
        (resolve doc) = some message ∧
      message.field? (cstr "payload") = shape? e.response

/-- Streams and events that share a name have the same response, which is every shape of an
endpoint of that name. -/
structure SeparateAsyncApi (endpoints : List EndpointDescriptor) : Prop where
  response : ∀ a ∈ endpoints, ∀ b ∈ endpoints, isChannel a = true → isChannel b = true →
    baseName a = baseName b → shape? a.response = shape? b.response
  shapes : ∀ a ∈ endpoints, ∀ schema,
    shape? a.request = some schema ∨ shape? a.response = some schema →
    ∃ b ∈ endpoints, isChannel b = true ∧ baseName b = baseName a ∧
      shape? b.response = some schema

theorem payload_messageJson (e : EndpointDescriptor) :
    (messageJson e).field? (cstr "payload") = shape? e.response :=
  field?_fieldIf (cstr "payload")
    (((listed_all _).append (listed_textField _ _)).append (listed_all _))
    (listed_privacyAnnotations e) (by simp) _ _

theorem ref_channelJson (e : EndpointDescriptor) :
    (channelJson e).at? [cstr "publish", cstr "message", cstr "$ref"] =
      some (.string (cstr "#/components/messages/" ++ baseName e)) := by
  have hpublish : (channelJson e).field? (cstr "publish") = some (.mkObject
      [(cstr "message", refJson "#/components/messages/" (baseName e))]) :=
    ((listed_all _).append (listed_textField _ _)).field?_of_mem (by simp) (by simp)
  have hmessage : (Json.mkObject
      [(cstr "message", refJson "#/components/messages/" (baseName e))]).field? (cstr "message") =
      some (refJson "#/components/messages/" (baseName e)) :=
    (listed_all _).field?_of_mem (by simp) (by simp)
  rw [Json.at?_cons hpublish, Json.at?_cons hmessage, Json.at?_cons (field?_refJson _ _),
    Json.at?_nil]

theorem asyncApi_foldl (api : AsyncApi) (endpoints : List EndpointDescriptor) :
    endpoints.foldl AsyncApi.add api =
      { channels := assignAll
          ((endpoints.filter isChannel).map fun e => (channelOf e, channelJson e)) api.channels
        messages := assignAll
          ((endpoints.filter isChannel).map fun e => (baseName e, messageJson e))
          api.messages } := by
  induction endpoints generalizing api with
  | nil => rfl
  | cons e endpoints ih =>
      rw [List.foldl_cons, ih, AsyncApi.add]
      by_cases hkind : e.kind = cstr "operation"
      · have hchannel : ¬ isChannel e = true := by simp [isChannel, hkind]
        rw [if_pos hkind, List.filter_cons_of_neg hchannel]
      · have hchannel : isChannel e = true := by simp [isChannel, hkind]
        rw [if_neg hkind, List.filter_cons_of_pos hchannel, List.map_cons, List.map_cons,
          JsonReference.assignAll_cons, JsonReference.assignAll_cons]

section AsyncApi

variable {sort : List EndpointDescriptor → List EndpointDescriptor} (hsort : Sorts sort)
  {endpoints : List EndpointDescriptor} (context : GenerationContext)

theorem component_emitAsyncApi2 (name : Bytes) (rest : List Bytes) :
    (emitAsyncApi2 sort endpoints context).at?
        (cstr "components" :: cstr "messages" :: name :: rest) =
      (Json.object (assignAll (((sort endpoints).filter isChannel).map fun e =>
        (baseName e, messageJson e)) [])).at? (name :: rest) := by
  unfold emitAsyncApi2
  dsimp only
  rw [at?_components (listed_all _) (by simp), asyncApi_foldl]

include hsort

theorem mem_channels {e : EndpointDescriptor} :
    e ∈ (sort endpoints).filter isChannel ↔ e ∈ endpoints ∧ isChannel e = true := by
  rw [List.mem_filter, (hsort.perm endpoints).mem_iff]

theorem exists_of_message {name : Bytes} {message : Json}
    (h : (Json.object (assignAll (((sort endpoints).filter isChannel).map fun e =>
      (baseName e, messageJson e)) [])).field? name = some message) :
    ∃ e ∈ endpoints, isChannel e = true ∧ baseName e = name ∧ messageJson e = message := by
  obtain ⟨e, he, hname, hmessage⟩ := JsonReference.exists_of_field?_assignAll_map h
  obtain ⟨hendpoint, hchannel⟩ := (mem_channels hsort).mp he
  exact ⟨e, hendpoint, hchannel, hname, hmessage⟩

theorem exists_message {e : EndpointDescriptor} (he : e ∈ endpoints)
    (hchannel : isChannel e = true) :
    ∃ e' ∈ endpoints, isChannel e' = true ∧ baseName e' = baseName e ∧
      (emitAsyncApi2 sort endpoints context).at?
        [cstr "components", cstr "messages", baseName e] = some (messageJson e') := by
  have hmem := (mem_channels hsort).mpr ⟨he, hchannel⟩
  obtain ⟨e', he', hname, hmessage⟩ :=
    JsonReference.exists_field?_assignAll_map messageJson hmem
  obtain ⟨hendpoint, hchannel'⟩ := (mem_channels hsort).mp he'
  refine ⟨e', hendpoint, hchannel', hname, ?_⟩
  rw [component_emitAsyncApi2, Json.at?_cons hmessage, Json.at?_nil]

variable (hplain : ∀ e ∈ endpoints, Plain e)
  (hdistinct : endpoints.Pairwise fun a b => ¬ Collide a b)

include hplain hdistinct

theorem ref_emitAsyncApi2 {e : EndpointDescriptor} (he : e ∈ endpoints)
    (hchannel : isChannel e = true) :
    (emitAsyncApi2 sort endpoints context).at?
        [cstr "channels", channelOf e, cstr "publish", cstr "message", cstr "$ref"] =
      some (.string (cstr "#/components/messages/" ++ baseName e)) := by
  have hchannels : (emitAsyncApi2 sort endpoints context).field? (cstr "channels") =
      some (.object (assignAll (((sort endpoints).filter isChannel).map fun e =>
        (channelOf e, channelJson e)) [])) := by
    unfold emitAsyncApi2
    dsimp only
    rw [asyncApi_foldl]
    exact ((listed_all _).append (listed_fieldIf _ _ _)).field?_of_mem (by simp) (by simp)
  have hfield : (Json.object (assignAll (((sort endpoints).filter isChannel).map fun e =>
      (channelOf e, channelJson e)) [])).field? (channelOf e) = some (channelJson e) := by
    refine JsonReference.field?_assignAll_map ((mem_channels hsort).mpr ⟨he, hchannel⟩) ?_
    intro e' he' hname
    have hendpoint := ((mem_channels hsort).mp he').1
    exact eq_of_collide hdistinct hendpoint he
      ((channelOf_inj (hplain e' hendpoint) (hplain e he)).mp hname)
  rw [Json.at?_cons hchannels, Json.at?_cons hfield, ref_channelJson]

theorem resolve_emitAsyncApi2 {e : EndpointDescriptor} (he : e ∈ endpoints)
    (hchannel : isChannel e = true) :
    ((emitAsyncApi2 sort endpoints context).at?
        [cstr "channels", channelOf e, cstr "publish", cstr "message", cstr "$ref"]).bind
      (resolve (emitAsyncApi2 sort endpoints context)) =
    (emitAsyncApi2 sort endpoints context).at?
      [cstr "components", cstr "messages", baseName e] := by
  rw [ref_emitAsyncApi2 hsort context hplain hdistinct he hchannel, Option.bind_some,
    resolve_message _ (hplain e he).slash_notMem_baseName]

theorem keepsAsyncApi_iff :
    KeepsAsyncApi endpoints (emitAsyncApi2 sort endpoints context) ↔
      SeparateAsyncApi endpoints := by
  have hresolve {e : EndpointDescriptor} (he : e ∈ endpoints) (hchannel : isChannel e = true) :=
    resolve_emitAsyncApi2 hsort context hplain hdistinct he hchannel
  constructor
  · intro h
    constructor
    · intro a ha b hb hchannela hchannelb hname
      obtain ⟨message, hmessage, hpayload⟩ := h.channels a ha hchannela
      obtain ⟨message', hmessage', hpayload'⟩ := h.channels b hb hchannelb
      rw [hresolve ha hchannela, hname, ← hresolve hb hchannelb, hmessage'] at hmessage
      obtain rfl := Option.some.inj hmessage
      rw [← hpayload, ← hpayload']
    · intro a ha schema hschema
      have hplace := h.shapes a ha schema hschema
      rw [component_emitAsyncApi2, Json.at?] at hplace
      obtain ⟨message, hmessage, hpayload⟩ := Option.bind_eq_some_iff.mp hplace
      obtain ⟨b, hb, hchannel, hname, rfl⟩ := exists_of_message hsort hmessage
      refine ⟨b, hb, hchannel, hname, ?_⟩
      rw [← payload_messageJson, ← hpayload]
      simp [Json.at?]
  · intro h
    constructor
    · intro e he schema hschema
      obtain ⟨b, hb, hchannel, hname, hresponse⟩ := h.shapes e he schema hschema
      obtain ⟨e', he', hchannel', hname', hmessage⟩ := exists_message hsort context hb hchannel
      have hpayload : (messageJson e').field? (cstr "payload") = some schema := by
        rw [payload_messageJson, h.response e' he' b hb hchannel' hchannel hname', hresponse]
      rw [← hname]
      refine (Json.at?_append _ [cstr "components", cstr "messages", baseName b]
        [cstr "payload"]).trans ?_
      rw [hmessage, Option.bind_some, Json.at?_cons hpayload, Json.at?_nil]
    · intro e he hchannel
      obtain ⟨e', he', hchannel', hname, hmessage⟩ := exists_message hsort context he hchannel
      refine ⟨messageJson e', by rw [hresolve he hchannel, hmessage], ?_⟩
      rw [payload_messageJson, h.response e' he' e he hchannel' hchannel hname]

end AsyncApi

end Ezcap.Specgen
