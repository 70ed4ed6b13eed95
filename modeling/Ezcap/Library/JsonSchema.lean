import Ezcap.Library.Json

/-! The part of JSON Schema, draft 07, that describes closed formats: every object lists the
members it may have. -/

namespace Json

/-- The integer that a number stands for: a fraction of zero does not count. -/
def integral? : Json → Option ℤ
  | integer i => some i
  | unsigned n => some n
  | float q => if q.den = 1 then some q.num else none
  | _ => none

/-- The key occurs in the value, at any depth. -/
inductive HasKey (key : Bytes) : Json → Prop
  | member {value : Json} {fields : List (Bytes × Json)} (h : (key, value) ∈ fields) :
      HasKey key (object fields)
  | inMember {name : Bytes} {value : Json} {fields : List (Bytes × Json)}
      (h : (name, value) ∈ fields) (hkey : HasKey key value) : HasKey key (object fields)
  | inElement {x : Json} {xs : List Json} (h : x ∈ xs) (hkey : HasKey key x) :
      HasKey key (array xs)

theorem hasKey_of_field? {doc value : Json} {key : Bytes} (h : doc.field? key = some value) :
    doc.HasKey key := by
  cases doc with
  | object fields => exact .member (mem_of_field? h)
  | _ => cases h

theorem HasKey.of_field? {doc value : Json} {key name : Bytes} (hkey : value.HasKey key)
    (h : doc.field? name = some value) : doc.HasKey key := by
  cases doc with
  | object fields => exact .inMember (mem_of_field? h) hkey
  | _ => cases h

end Json

/-- A schema; `none` is a keyword that is not there. -/
inductive JsonSchema where
  | boolean
  | integer (const minimum maximum : Option ℤ)
  | string (enum : Option (List Bytes)) (minLength maxLength : Option ℕ)
  | array (maxItems : Option ℕ) (items : JsonSchema)
  /-- An object with `additionalProperties` false. -/
  | object (required : List Bytes) (maxProperties : Option ℕ)
      (properties : List (Bytes × JsonSchema))

namespace JsonSchema

/-- The length of a string in characters: the bytes that continue one are not counted. -/
def characters (s : Bytes) : ℕ := s.countP fun b => b &&& 0xC0 != 0x80

mutual

def conforms : JsonSchema → Json → Bool
  | boolean, doc => doc.bool?.isSome
  | integer const minimum maximum, doc =>
      match doc.integral? with
      | none => false
      | some i => const.all (i == ·) && minimum.all (· ≤ i) && maximum.all (i ≤ ·)
  | string enum minLength maxLength, doc =>
      match doc.string? with
      | none => false
      | some s =>
          enum.all (·.contains s) && minLength.all (· ≤ characters s) &&
            maxLength.all (characters s ≤ ·)
  | array maxItems items, doc =>
      match doc.array? with
      | none => false
      | some xs => maxItems.all (xs.length ≤ ·) && xs.all fun x => items.conforms x
  | object required maxProperties properties, doc =>
      match doc.object? with
      | none => false
      | some fields =>
          required.all (fun key => fields.any (·.1 == key)) &&
            maxProperties.all (fields.length ≤ ·) &&
            fields.all fun f => conformsMember properties f.1 f.2

/-- The value of a member conforms to the schema of its key, and there is one. -/
def conformsMember : List (Bytes × JsonSchema) → Bytes → Json → Bool
  | [], _, _ => false
  | (key, schema) :: properties, name, value =>
      if name = key then schema.conforms value else conformsMember properties name value

end

theorem exists_of_conformsMember {properties : List (Bytes × JsonSchema)} {key : Bytes}
    {value : Json} (h : conformsMember properties key value = true) :
    ∃ schema, (key, schema) ∈ properties ∧ schema.conforms value = true := by
  induction properties with
  | nil => simp [conformsMember] at h
  | cons property properties ih =>
      obtain ⟨name, schema⟩ := property
      rw [conformsMember] at h
      split_ifs at h with hkey
      · exact ⟨schema, by simp [hkey], h⟩
      · obtain ⟨schema', hmem, hconforms⟩ := ih h
        exact ⟨schema', List.mem_cons_of_mem _ hmem, hconforms⟩

theorem mem_of_conformsMember {properties : List (Bytes × JsonSchema)} {key : Bytes} {value : Json}
    (h : conformsMember properties key value = true) : key ∈ properties.map Prod.fst := by
  obtain ⟨schema, hmem, -⟩ := exists_of_conformsMember h
  exact List.mem_map.mpr ⟨_, hmem, rfl⟩

section Object

variable {required : List Bytes} {maxProperties : Option ℕ}
  {properties : List (Bytes × JsonSchema)} {doc value : Json} {key : Bytes}
  (h : (object required maxProperties properties).conforms doc = true)

include h

theorem conformsMember_of_field? (hfield : doc.field? key = some value) :
    conformsMember properties key value = true := by
  rw [conforms] at h
  cases doc with
  | object fields =>
      simp only [Json.object?, Bool.and_eq_true, List.all_eq_true] at h
      exact h.2 _ (Json.mem_of_field? hfield)
  | _ => simp [Json.object?] at h

theorem field?_eq_none (hkey : key ∉ properties.map Prod.fst) : doc.field? key = none := by
  cases hfield : doc.field? key with
  | none => rfl
  | some value => exact absurd (mem_of_conformsMember (conformsMember_of_field? h hfield)) hkey

end Object

/-! ## Keys at any depth -/

mutual

/-- The keys that a schema lists, at any depth. -/
def keys : JsonSchema → List Bytes
  | array _ items => items.keys
  | object _ _ properties => keysOf properties
  | _ => []

def keysOf : List (Bytes × JsonSchema) → List Bytes
  | [] => []
  | (key, schema) :: properties => key :: (schema.keys ++ keysOf properties)

end

theorem mem_keysOf {properties : List (Bytes × JsonSchema)} {name : Bytes} {schema : JsonSchema}
    (h : (name, schema) ∈ properties) :
    name ∈ keysOf properties ∧ ∀ key ∈ schema.keys, key ∈ keysOf properties := by
  induction properties with
  | nil => cases h
  | cons property properties ih =>
      rw [keysOf]
      rcases List.mem_cons.mp h with rfl | h
      · exact ⟨by simp, fun key hkey => by simp [hkey]⟩
      · exact ⟨by simp [(ih h).1], fun key hkey => by simp [(ih h).2 key hkey]⟩

theorem exists_object_of_conforms {schema : JsonSchema} {fields : List (Bytes × Json)}
    (h : schema.conforms (.object fields) = true) :
    ∃ required maxProperties properties, schema = object required maxProperties properties ∧
      ∀ f ∈ fields, conformsMember properties f.1 f.2 = true := by
  cases schema with
  | object required maxProperties properties =>
      simp only [conforms, Json.object?, Bool.and_eq_true, List.all_eq_true] at h
      exact ⟨_, _, _, rfl, h.2⟩
  | _ => simp [conforms, Json.bool?, Json.integral?, Json.string?, Json.array?] at h

theorem exists_array_of_conforms {schema : JsonSchema} {xs : List Json}
    (h : schema.conforms (.array xs) = true) :
    ∃ maxItems items, schema = array maxItems items ∧ ∀ x ∈ xs, items.conforms x = true := by
  cases schema with
  | array maxItems items =>
      simp only [conforms, Json.array?, Bool.and_eq_true, List.all_eq_true] at h
      exact ⟨_, _, rfl, h.2⟩
  | _ => simp [conforms, Json.bool?, Json.integral?, Json.string?, Json.object?] at h

/-- A value that conforms has no key that its schema does not list. -/
theorem mem_keys_of_hasKey {schema : JsonSchema} {doc : Json} {key : Bytes}
    (hkey : doc.HasKey key) (h : schema.conforms doc = true) : key ∈ schema.keys := by
  induction hkey generalizing schema with
  | member hmem =>
      obtain ⟨_, _, properties, rfl, hmembers⟩ := exists_object_of_conforms h
      obtain ⟨_, hproperty, -⟩ := exists_of_conformsMember (hmembers _ hmem)
      rw [keys]
      exact (mem_keysOf hproperty).1
  | inMember hmem _ ih =>
      obtain ⟨_, _, properties, rfl, hmembers⟩ := exists_object_of_conforms h
      obtain ⟨_, hproperty, hconforms⟩ := exists_of_conformsMember (hmembers _ hmem)
      rw [keys]
      exact (mem_keysOf hproperty).2 _ (ih hconforms)
  | inElement hmem _ ih =>
      obtain ⟨_, items, rfl, hitems⟩ := exists_array_of_conforms h
      rw [keys]
      exact ih (hitems _ hmem)

/-! ## Lengths in characters -/

theorem characters_le (s : Bytes) : characters s ≤ s.length := List.countP_le_length

/-- A well-formed text begins with a character. -/
theorem one_le_characters {s : Bytes} (hs : Utf8.Valid s) (hne : s ≠ []) : 1 ≤ characters s := by
  cases s with
  | nil => exact absurd rfl hne
  | cons a s =>
      obtain ⟨owed, hlead, -⟩ := Option.bind_eq_some_iff.mp hs
      have hall := StdString.forall_byte
        (p := fun a => (Utf8.lead a).isNone || a &&& 0xC0 != 0x80) (by decide +kernel) a
      rw [Utf8.step] at hlead
      simp only [hlead, Option.isNone_some, Bool.false_or] at hall
      exact List.countP_pos_iff.mpr ⟨a, by simp, hall⟩

end JsonSchema
