import Ezcap.Library.Json

/-! Conditions on JSON values, as the keywords of a schema state them. -/

namespace Json

/-- An object with members under these keys only. -/
def Closed (doc : Json) (keys : List Bytes) : Prop :=
  ∃ fields, doc = object fields ∧ ∀ f ∈ fields, f.1 ∈ keys

/-- The member is there and meets the condition. -/
def Required (doc : Json) (key : Bytes) (p : Json → Prop) : Prop :=
  ∃ value, doc.field? key = some value ∧ p value

/-- The member meets the condition, if it is there. -/
def Allowed (doc : Json) (key : Bytes) (p : Json → Prop) : Prop :=
  ∀ value, doc.field? key = some value → p value

def IsString (p : Bytes → Prop) (value : Json) : Prop := ∃ s, value = string s ∧ p s

def IsArray (p : List Json → Prop) (value : Json) : Prop := ∃ xs, value = array xs ∧ p xs

variable {doc value : Json} {key : Bytes} {keys : List Bytes} {p q : Json → Prop}
  {r r' : Bytes → Prop}

theorem IsString.imp (h : IsString r value) (hr : ∀ s, r s → r' s) : IsString r' value := by
  obtain ⟨s, hs, hp⟩ := h
  exact ⟨s, hs, hr s hp⟩

theorem Allowed.imp (h : doc.Allowed key p) (hp : ∀ value, p value → q value) :
    doc.Allowed key q := fun value hvalue => hp value (h value hvalue)

theorem Required.imp (h : doc.Required key p) (hp : ∀ value, p value → q value) :
    doc.Required key q := by
  obtain ⟨value, hvalue, hmeets⟩ := h
  exact ⟨value, hvalue, hp value hmeets⟩

/-- A closed object has nothing under a key that is not listed. -/
theorem Closed.field?_eq_none (h : doc.Closed keys) (hkey : key ∉ keys) :
    doc.field? key = none := by
  obtain ⟨fields, rfl, hkeys⟩ := h
  cases hfield : (object fields).field? key with
  | none => rfl
  | some value => exact absurd (hkeys _ (mem_of_field? hfield)) hkey

end Json
