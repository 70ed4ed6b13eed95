import Ezcap.Verification.Ipc.Members
import Ezcap.Verification.Specgen.Names

/-! Reading a generated document: where a reference leads, and what stands among the components. -/

namespace Ezcap.Specgen

open StdString Ipc Lines

/-- The value that a reference into the document names. -/
def resolve (doc : Json) : Json → Option Json
  | .string ref =>
      match split '/'.toUInt8 ref with
      | (root :: keys, last) => if root = cstr "#" then doc.at? (keys ++ [last]) else none
      | ([], _) => none
  | _ => none

theorem resolve_ref (doc : Json) {place : String} (keys : List Bytes) {name : Bytes}
    (hplace : cstr place = join '/'.toUInt8 (cstr "#" :: keys))
    (hkeys : ∀ key ∈ cstr "#" :: keys, '/'.toUInt8 ∉ key) (hname : '/'.toUInt8 ∉ name) :
    resolve doc (.string (cstr place ++ name)) = doc.at? (keys ++ [name]) := by
  rw [resolve, hplace, split_join hkeys, split_of_notMem hname]
  simp

theorem resolve_schema (doc : Json) {name : Bytes} (hname : '/'.toUInt8 ∉ name) :
    resolve doc (.string (cstr "#/components/schemas/" ++ name)) =
      doc.at? [cstr "components", cstr "schemas", name] :=
  resolve_ref doc [cstr "components", cstr "schemas"] (by decide)
    (by decide) hname

theorem resolve_message (doc : Json) {name : Bytes} (hname : '/'.toUInt8 ∉ name) :
    resolve doc (.string (cstr "#/components/messages/" ++ name)) =
      doc.at? [cstr "components", cstr "messages", name] :=
  resolve_ref doc [cstr "components", cstr "messages"] (by decide)
    (by decide) hname

/-- The shape, if there is one. -/
def shape? (schema : Json) : Option Json := if schema.isObject then some schema else none

theorem field?_refJson (place : String) (name : Bytes) :
    (refJson place name).field? (cstr "$ref") = some (.string (cstr place ++ name)) :=
  (listed_all _).field?_of_mem (by simp) (by simp)

theorem at?_components {keys : List Bytes} {fields : List (Bytes × Json)} (h : Listed keys fields)
    (hkeys : (keys ++ [cstr "components"]).Nodup) (members : List (Bytes × Json))
    (place name : Bytes) (rest : List Bytes) :
    (Json.mkObject (fields ++ fieldIf (!members.isEmpty) (cstr "components")
        (.mkObject [(place, .object members)]))).at? (cstr "components" :: place :: name :: rest) =
      (Json.object members).at? (name :: rest) := by
  have hnil : Listed [] ([] : List (Bytes × Json)) := List.Sublist.refl []
  have hfield := field?_fieldIf (cstr "components") h hnil (by simpa using hkeys)
    (!members.isEmpty) (.mkObject [(place, .object members)])
  rw [List.append_nil] at hfield
  cases members with
  | nil => rw [Json.at?_cons_none hfield, Json.at?_cons_none rfl]
  | cons f members =>
      have hplace : (Json.mkObject [(place, .object (f :: members))]).field? place =
          some (.object (f :: members)) :=
        (listed_all _).field?_of_mem (by simp) (by simp)
      rw [Json.at?_cons hfield, Json.at?_cons hplace]

theorem listed_privacyAnnotations (e : EndpointDescriptor) : Listed
    ([cstr "x-ezcap-attribution"] ++ [cstr "x-ezcap-confidence"] ++ [cstr "x-ezcap-privacy"] ++
      [cstr "x-ezcap-metadata-only"]) (privacyAnnotations e) :=
  (((listed_fieldIf _ _ _).append (listed_textField _ _)).append (listed_fieldIf _ _ _)).append
    (listed_all _)

end Ezcap.Specgen
