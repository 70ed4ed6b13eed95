import Ezcap.Library.Json
import Mathlib.Algebra.Group.Int.Defs

/-! What is left of a JSON value that is written as text and read back. -/

namespace Json

/-- Induction over a value: an array by its elements, an object by the values of its members. -/
@[elab_as_elim]
theorem induction {motive : Json → Prop} (null : motive null) (bool : ∀ b, motive (bool b))
    (integer : ∀ i, motive (integer i)) (unsigned : ∀ n, motive (unsigned n))
    (float : ∀ q, motive (float q)) (string : ∀ s, motive (string s))
    (array : ∀ xs, (∀ x ∈ xs, motive x) → motive (array xs))
    (object : ∀ fields, (∀ f ∈ fields, motive f.2) → motive (object fields)) (doc : Json) :
    motive doc :=
  @Json.rec motive (fun xs => ∀ x ∈ xs, motive x) (fun fields => ∀ f ∈ fields, motive f.2)
    (fun f => motive f.2) null bool integer unsigned float string array object
    (by simp) (by simp +contextual) (by simp) (by simp +contextual) (fun _ _ h => h) doc

/-! ## Values of the library -/

mutual

/-- Numbers are in the range of their type and members in the order of their keys. -/
def isWellFormed : Json → Bool
  | integer i => decide (-2 ^ 63 ≤ i ∧ i < 2 ^ 63)
  | unsigned n => decide (n < 2 ^ 64)
  | array xs => isWellFormedList xs
  | object fields => decide (fields.Pairwise fun f g => f.1 < g.1) && isWellFormedFields fields
  | _ => true

def isWellFormedList : List Json → Bool
  | [] => true
  | x :: xs => x.isWellFormed && isWellFormedList xs

def isWellFormedFields : List (Bytes × Json) → Bool
  | [] => true
  | (_, value) :: fields => value.isWellFormed && isWellFormedFields fields

end

@[simp] theorem isWellFormed_null : null.isWellFormed = true := rfl
@[simp] theorem isWellFormed_bool (b : Bool) : (bool b).isWellFormed = true := rfl
@[simp] theorem isWellFormed_float (q : ℚ) : (float q).isWellFormed = true := rfl
@[simp] theorem isWellFormed_string (s : Bytes) : (string s).isWellFormed = true := rfl

@[simp] theorem isWellFormed_integer (i : ℤ) :
    (integer i).isWellFormed = true ↔ -2 ^ 63 ≤ i ∧ i < 2 ^ 63 :=
  decide_eq_true_iff

@[simp] theorem isWellFormed_unsigned (n : ℕ) :
    (unsigned n).isWellFormed = true ↔ n < 2 ^ 64 :=
  decide_eq_true_iff

@[simp] theorem isWellFormed_array (xs : List Json) :
    (array xs).isWellFormed = true ↔ ∀ x ∈ xs, x.isWellFormed = true := by
  change isWellFormedList xs = true ↔ _
  induction xs with
  | nil => simp [isWellFormedList]
  | cons x xs ih => simp [isWellFormedList, ih]

theorem isWellFormedFields_iff (fields : List (Bytes × Json)) :
    isWellFormedFields fields = true ↔ ∀ f ∈ fields, f.2.isWellFormed = true := by
  induction fields with
  | nil => simp [isWellFormedFields]
  | cons f fields ih =>
      obtain ⟨key, value⟩ := f
      simp [isWellFormedFields, ih]

@[simp] theorem isWellFormed_object (fields : List (Bytes × Json)) :
    (object fields).isWellFormed = true ↔
      fields.Pairwise (fun f g => f.1 < g.1) ∧ ∀ f ∈ fields, f.2.isWellFormed = true := by
  have hobject : (object fields).isWellFormed =
      (decide (fields.Pairwise fun f g => f.1 < g.1) && isWellFormedFields fields) := rfl
  rw [hobject, Bool.and_eq_true, decide_eq_true_iff, isWellFormedFields_iff]

theorem isWellFormed_mkObject {fields : List (Bytes × Json)} (hkeys : (fields.map Prod.fst).Nodup)
    (h : ∀ f ∈ fields, f.2.isWellFormed = true) : (mkObject fields).isWellFormed = true := by
  have hperm := fields.perm_insertionSort fun f g => f.1 ≤ g.1
  have hsorted := fields.pairwise_insertionSort fun f g => f.1 ≤ g.1
  have hdistinct := List.pairwise_map.mp ((hperm.map Prod.fst).nodup_iff.mpr hkeys)
  rw [mkObject, isWellFormed_object]
  refine ⟨(hsorted.and hdistinct).imp fun hle => Std.lt_of_le_of_ne hle.1 hle.2, ?_⟩
  intro f hf
  exact h f (hperm.mem_iff.mp hf)

theorem isWellFormed_field? {doc value : Json} {key : Bytes} (hd : doc.isWellFormed = true)
    (h : doc.field? key = some value) : value.isWellFormed = true := by
  cases doc with
  | object fields => exact ((isWellFormed_object fields).mp hd).2 _ (mem_of_field? h)
  | _ => cases h

theorem field?_of_mem {fields : List (Bytes × Json)} {key : Bytes} {value : Json}
    (hd : (object fields).isWellFormed = true) (h : (key, value) ∈ fields) :
    (object fields).field? key = some value := by
  have hsorted := ((isWellFormed_object fields).mp hd).1
  have hkeys : (fields.map Prod.fst).Nodup := by
    apply List.pairwise_map.mpr
    apply hsorted.imp
    intro f g hlt heq
    rw [heq] at hlt
    exact List.lt_irrefl _ hlt
  exact (field?_eq_some_iff hkeys).mpr h

/-! ## Reading back -/

mutual

/-- The value read back: a non-negative integer comes back as an unsigned one, and `round` is
what becomes of a float. -/
def reread (round : ℚ → ℚ) : Json → Json
  | null => null
  | bool b => bool b
  | integer i => if i < 0 then integer i else unsigned i.toNat
  | unsigned n => unsigned n
  | float q => float (round q)
  | string s => string s
  | array xs => array (rereadList round xs)
  | object fields => object (rereadFields round fields)

def rereadList (round : ℚ → ℚ) : List Json → List Json
  | [] => []
  | x :: xs => x.reread round :: rereadList round xs

def rereadFields (round : ℚ → ℚ) : List (Bytes × Json) → List (Bytes × Json)
  | [] => []
  | (key, value) :: fields => (key, value.reread round) :: rereadFields round fields

end

section Reread

variable (round : ℚ → ℚ)

theorem rereadList_eq_map (xs : List Json) : rereadList round xs = xs.map (reread round) := by
  induction xs with
  | nil => simp [rereadList]
  | cons x xs ih => simp [rereadList, ih]

theorem rereadFields_eq_map (fields : List (Bytes × Json)) :
    rereadFields round fields = fields.map fun f => (f.1, f.2.reread round) := by
  induction fields with
  | nil => simp [rereadFields]
  | cons f fields ih => simp [rereadFields, ih]

@[simp] theorem reread_string (s : Bytes) : (string s).reread round = string s := rfl

@[simp] theorem reread_bool (b : Bool) : (bool b).reread round = bool b := rfl

@[simp] theorem reread_array (xs : List Json) :
    (array xs).reread round = array (xs.map (reread round)) := by
  rw [← rereadList_eq_map]
  rfl

@[simp] theorem reread_object (fields : List (Bytes × Json)) :
    (object fields).reread round = object (fields.map fun f => (f.1, f.2.reread round)) := by
  rw [← rereadFields_eq_map]
  rfl

@[simp] theorem isObject_reread (doc : Json) : (doc.reread round).isObject = doc.isObject := by
  cases doc with
  | integer i =>
      rw [reread]
      split <;> rfl
  | _ => simp [reread, isObject]

@[simp] theorem field?_reread (doc : Json) (key : Bytes) :
    (doc.reread round).field? key = (doc.field? key).map (reread round) := by
  cases doc with
  | object fields =>
      rw [reread_object, field?, field?, List.find?_map, Option.map_map, Option.map_map]
      rfl
  | integer i =>
      rw [reread]
      split <;> rfl
  | _ => simp [reread, field?]

end Reread

end Json

/-- The documented behaviour of the library on its own output: it is one line of text, and reads
back as the value that was written. Every value the parser makes is well formed, and it makes
none of the empty text. -/
structure JsonLib.RoundTrip (lib : JsonLib) (round : ℚ → ℚ) : Prop where
  isWellFormed_of_parse :
    ∀ {text : Bytes} {doc : Json}, lib.parse text = some doc → doc.isWellFormed = true
  parse_dump : ∀ {doc : Json} {text : Bytes}, doc.isWellFormed = true →
    lib.dump doc = some text → lib.parse text = some (doc.reread round)
  newline_notMem : ∀ {doc : Json} {text : Bytes},
    lib.dump doc = some text → '\n'.toUInt8 ∉ text
  parse_nil : lib.parse [] = none

theorem JsonLib.RoundTrip.dump_ne_nil {lib : JsonLib} {round : ℚ → ℚ} (h : lib.RoundTrip round)
    {doc : Json} {text : Bytes} (hdoc : doc.isWellFormed = true)
    (hdump : lib.dump doc = some text) : text ≠ [] := by
  rintro rfl
  cases h.parse_nil.symm.trans (h.parse_dump hdoc hdump)
