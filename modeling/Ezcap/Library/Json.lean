import Ezcap.Library.Utf8
import Mathlib.Algebra.Group.Nat.Defs
import Mathlib.Data.List.Sort
import Mathlib.Data.Rat.Defs

/-! JSON values with the accessors of `nlohmann::json`, and the interface of its
parser and serializer. Objects are association lists in key order. -/

/-- A JSON value. `integer` and `unsigned` are the two integral number types of the
library: the parser reads a non-negative literal as `unsigned`. -/
inductive Json where
  | null
  | bool (b : Bool)
  | integer (i : ℤ)
  | unsigned (n : ℕ)
  | float (q : ℚ)
  | string (s : Bytes)
  | array (xs : List Json)
  | object (fields : List (Bytes × Json))

namespace Json

def isObject : Json → Bool
  | object _ => true
  | _ => false

/-- `is_string` together with `get<std::string>`. -/
def string? : Json → Option Bytes
  | string s => some s
  | _ => none

/-- `is_boolean` together with `get<bool>`. -/
def bool? : Json → Option Bool
  | bool b => some b
  | _ => none

/-- `is_array` together with the elements. -/
def array? : Json → Option (List Json)
  | array xs => some xs
  | _ => none

/-- `is_object` together with the members. -/
def object? : Json → Option (List (Bytes × Json))
  | object fields => some fields
  | _ => none

/-- `is_number_integer` together with `get<std::int64_t>`. -/
def integer? : Json → Option ℤ
  | integer i => some i
  | unsigned n => some (Int.bmod n (2 ^ 64))
  | _ => none

/-- `is_number_unsigned` together with `get<std::uint64_t>`. -/
def unsigned? : Json → Option ℕ
  | unsigned n => some n
  | _ => none

/-- `contains(key)` together with `at(key)`; a value that is no object contains nothing. -/
def field? (doc : Json) (key : Bytes) : Option Json :=
  match doc with
  | object fields => (fields.find? fun f => f.1 == key).map Prod.snd
  | _ => none

/-- An object assigned one member after another, under pairwise different keys. -/
def mkObject (fields : List (Bytes × Json)) : Json :=
  object (fields.insertionSort fun f g => f.1 ≤ g.1)

theorem string?_eq_some_iff {value : Json} {s : Bytes} :
    value.string? = some s ↔ value = string s := by
  cases value <;> simp [string?]

theorem bool?_eq_some_iff {value : Json} {b : Bool} : value.bool? = some b ↔ value = bool b := by
  cases value <;> simp [bool?]

theorem unsigned?_eq_some_iff {value : Json} {n : ℕ} :
    value.unsigned? = some n ↔ value = unsigned n := by
  cases value <;> simp [unsigned?]

theorem mem_of_field? {fields : List (Bytes × Json)} {key : Bytes} {value : Json}
    (h : (object fields).field? key = some value) : (key, value) ∈ fields := by
  obtain ⟨f, hf, rfl⟩ := Option.map_eq_some_iff.mp h
  have hkey : f.1 = key := by simpa using List.find?_some hf
  exact hkey ▸ List.mem_of_find?_eq_some hf

theorem field?_eq_some_iff {fields : List (Bytes × Json)} {key : Bytes} {value : Json}
    (hkeys : (fields.map Prod.fst).Nodup) :
    (object fields).field? key = some value ↔ (key, value) ∈ fields := by
  refine ⟨mem_of_field?, fun hmem => ?_⟩
  rw [field?, Option.map_eq_some_iff]
  cases hf : fields.find? fun f => f.1 == key with
  | none =>
      have hnone := List.find?_eq_none.mp hf (key, value) hmem
      simp at hnone
  | some f =>
      have hkey : f.1 = key := by simpa using List.find?_some hf
      have hmem' := List.mem_of_find?_eq_some hf
      exact ⟨f, rfl, by rw [List.inj_on_of_nodup_map hkeys hmem' hmem hkey]⟩

theorem field?_mkObject_eq_some {fields : List (Bytes × Json)} {key : Bytes} {value : Json}
    (hkeys : (fields.map Prod.fst).Nodup) :
    (mkObject fields).field? key = some value ↔ (key, value) ∈ fields := by
  have hperm := fields.perm_insertionSort fun f g => f.1 ≤ g.1
  rw [mkObject, field?_eq_some_iff ((hperm.map Prod.fst).nodup_iff.mpr hkeys), hperm.mem_iff]

theorem field?_mkObject_eq_none {fields : List (Bytes × Json)} {key : Bytes} :
    (mkObject fields).field? key = none ↔ key ∉ fields.map Prod.fst := by
  have hperm := fields.perm_insertionSort fun f g => f.1 ≤ g.1
  rw [mkObject, field?, Option.map_eq_none_iff, List.find?_eq_none, List.mem_map]
  constructor
  · rintro h ⟨f, hf, hkey⟩
    exact h f (hperm.mem_iff.mpr hf) (by simpa using hkey)
  · intro h f hf hkey
    exact h ⟨f, hperm.mem_iff.mp hf, by simpa using hkey⟩

/-! ## Text -/

mutual

/-- Every string and every key of the value is well-formed UTF-8. -/
def isText : Json → Bool
  | string s => decide (Utf8.Valid s)
  | array xs => isTextList xs
  | object fields => isTextFields fields
  | _ => true

def isTextList : List Json → Bool
  | [] => true
  | x :: xs => x.isText && isTextList xs

def isTextFields : List (Bytes × Json) → Bool
  | [] => true
  | (key, value) :: fields => decide (Utf8.Valid key) && value.isText && isTextFields fields

end

@[simp] theorem isText_null : null.isText = true := rfl
@[simp] theorem isText_bool (b : Bool) : (bool b).isText = true := rfl
@[simp] theorem isText_integer (i : ℤ) : (integer i).isText = true := rfl
@[simp] theorem isText_unsigned (n : ℕ) : (unsigned n).isText = true := rfl
@[simp] theorem isText_float (q : ℚ) : (float q).isText = true := rfl

@[simp] theorem isText_string (s : Bytes) : (string s).isText = true ↔ Utf8.Valid s :=
  decide_eq_true_iff

@[simp] theorem isText_array (xs : List Json) :
    (array xs).isText = true ↔ ∀ x ∈ xs, x.isText = true := by
  change isTextList xs = true ↔ _
  induction xs with
  | nil => simp [isTextList]
  | cons x xs ih => simp [isTextList, ih]

@[simp] theorem isText_object (fields : List (Bytes × Json)) :
    (object fields).isText = true ↔
      ∀ f ∈ fields, Utf8.Valid f.1 ∧ f.2.isText = true := by
  change isTextFields fields = true ↔ _
  induction fields with
  | nil => simp [isTextFields]
  | cons f fields ih =>
      obtain ⟨key, value⟩ := f
      simp [isTextFields, ih, and_assoc]

theorem isText_mkObject (fields : List (Bytes × Json)) :
    (mkObject fields).isText = true ↔
      ∀ f ∈ fields, Utf8.Valid f.1 ∧ f.2.isText = true := by
  simp [mkObject, List.mem_insertionSort]

theorem isText_field? {doc value : Json} {key : Bytes} (hd : doc.isText = true)
    (h : doc.field? key = some value) : value.isText = true := by
  cases doc with
  | object fields => exact ((isText_object fields).mp hd _ (mem_of_field? h)).2
  | _ => cases h

theorem valid_string? {doc : Json} {s : Bytes} (hd : doc.isText = true)
    (h : doc.string? = some s) : Utf8.Valid s := by
  cases doc with
  | string t =>
      cases h
      simpa using hd
  | _ => simp [string?] at h

end Json

/-- The two entry points of `nlohmann::json` that the source relies on: `parse` with
exceptions off, where `none` is a discarded value, and `dump`, where `none` is the
exception it throws. -/
structure JsonLib where
  parse : Bytes → Option Json
  dump : Json → Option Bytes

/-- The documented behaviour of the library on text: the parser rejects input that is
not UTF-8, and the serializer throws exactly on a string that is not UTF-8. -/
structure JsonLib.Lawful (lib : JsonLib) : Prop where
  isText_of_parse : ∀ {text : Bytes} {doc : Json}, lib.parse text = some doc → doc.isText = true
  dump_isSome : ∀ doc : Json, (lib.dump doc).isSome = doc.isText
