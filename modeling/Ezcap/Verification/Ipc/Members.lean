import Ezcap.Model.Ipc

/-! Objects of which some members are assigned only under a condition. -/

namespace Ezcap.Ipc

variable {keys keys' : List Bytes} {fields fields' : List (Bytes × Json)} {key : Bytes}
  {value : Json}

/-- The members stand under some of the `keys`, in their order. -/
def Listed (keys : List Bytes) (fields : List (Bytes × Json)) : Prop :=
  (fields.map Prod.fst).Sublist keys

theorem listed_all (fields : List (Bytes × Json)) : Listed (fields.map Prod.fst) fields :=
  List.Sublist.refl _

theorem Listed.append (h : Listed keys fields) (h' : Listed keys' fields') :
    Listed (keys ++ keys') (fields ++ fields') := by
  rw [Listed, List.map_append]
  exact List.Sublist.append h h'

theorem mem_fieldIf {condition : Bool} {f : Bytes × Json} :
    f ∈ fieldIf condition key value ↔ condition = true ∧ f = (key, value) := by
  cases condition <;> simp [fieldIf]

theorem listed_fieldIf (condition : Bool) (key : Bytes) (value : Json) :
    Listed [key] (fieldIf condition key value) := by
  cases condition with
  | true => exact List.Sublist.refl _
  | false => exact List.nil_sublist _

theorem listed_textField (key value : Bytes) : Listed [key] (textField key value) :=
  listed_fieldIf _ key _

theorem listed_fieldOf {α : Type} (key : Bytes) (encode : α → Json) (value : Option α) :
    Listed [key] (fieldOf key encode value) := by
  cases value with
  | none => exact List.nil_sublist _
  | some a => exact List.Sublist.refl _

theorem Listed.field?_of_mem (h : Listed keys fields) (hkeys : keys.Nodup)
    (hmem : (key, value) ∈ fields) : (Json.mkObject fields).field? key = some value :=
  (Json.field?_mkObject_eq_some (hkeys.sublist h)).mpr hmem

theorem Listed.field?_none (h : Listed keys fields) (hkey : key ∉ keys) :
    (Json.mkObject fields).field? key = none :=
  Json.field?_mkObject_eq_none.mpr fun hmem => hkey (List.Sublist.subset h hmem)

theorem field?_fieldIf (key : Bytes) (h : Listed keys fields) (h' : Listed keys' fields')
    (hkeys : (keys ++ [key] ++ keys').Nodup) (condition : Bool) (value : Json) :
    (Json.mkObject (fields ++ fieldIf condition key value ++ fields')).field? key =
      if condition then some value else none := by
  cases condition with
  | true =>
      refine ((h.append (listed_fieldIf true key value)).append h').field?_of_mem hkeys ?_
      simp [fieldIf]
  | false =>
      rw [List.append_assoc, List.singleton_append, List.nodup_middle, List.nodup_cons] at hkeys
      simp only [fieldIf, Bool.false_eq_true, if_false, List.append_nil]
      exact (h.append h').field?_none hkeys.1

end Ezcap.Ipc
