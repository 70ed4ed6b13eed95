import Ezcap.Library.Json

/-! JSON values in a script. An expression over them may also be `undefined`; reading a property
of that or of `null` throws, and `typeof` calls `null` an object. -/

namespace JavaScript

inductive Thrown where
  | typeError
  deriving DecidableEq, Repr

/-- The value of an expression; `none` is `undefined`. -/
abbrev Value := Option Json

inductive TypeName where
  | undefined
  | boolean
  | number
  | string
  | object
  deriving DecidableEq, Repr

def typeOf : Value → TypeName
  | none => .undefined
  | some .null => .object
  | some (.bool _) => .boolean
  | some (.integer _) | some (.unsigned _) | some (.float _) => .number
  | some (.string _) => .string
  | some (.array _) | some (.object _) => .object

def isNull : Value → Bool
  | some .null => true
  | _ => false

/-- `value.key`, for a key that no built-in prototype has. -/
def get (value : Value) (key : Bytes) : Except Thrown Value :=
  match value with
  | none | some .null => .error .typeError
  | some doc => .ok (doc.field? key)

/-- `key in value`. -/
def isIn (key : Bytes) (value : Value) : Except Thrown Bool :=
  match value with
  | some (.array xs) => .ok ((Json.array xs).field? key).isSome
  | some (.object fields) => .ok ((Json.object fields).field? key).isSome
  | _ => .error .typeError

def numberOf : Value → Option ℚ
  | some (.integer i) => some i
  | some (.unsigned n) => some n
  | some (.float q) => some q
  | _ => none

def textOf (value : Value) : Option Bytes := value.bind Json.string?

def booleanOf (value : Value) : Option Bool := value.bind Json.bool?

/-! ## Types -/

theorem typeOf_eq_string_iff {value : Value} :
    typeOf value = .string ↔ ∃ s, value = some (.string s) := by
  cases value with
  | none => simp [typeOf]
  | some doc => cases doc <;> simp [typeOf]

theorem typeOf_eq_number_iff {value : Value} :
    typeOf value = .number ↔ ∃ q, numberOf value = some q := by
  cases value with
  | none => simp [typeOf, numberOf]
  | some doc => cases doc <;> simp [typeOf, numberOf]

theorem typeOf_eq_undefined_iff {value : Value} : typeOf value = .undefined ↔ value = none := by
  cases value with
  | none => simp [typeOf]
  | some doc => cases doc <;> simp [typeOf]

theorem textOf_eq_some_iff {value : Value} {s : Bytes} :
    textOf value = some s ↔ value = some (.string s) := by
  cases value with
  | none => simp [textOf]
  | some doc => cases doc <;> simp [textOf, Json.string?]

theorem booleanOf_eq_some_iff {value : Value} {b : Bool} :
    booleanOf value = some b ↔ value = some (.bool b) := by
  cases value with
  | none => simp [booleanOf]
  | some doc => cases doc <;> simp [booleanOf, Json.bool?]

theorem get_of_ne_null {doc : Json} (h : doc ≠ .null) (key : Bytes) :
    get (some doc) key = .ok (doc.field? key) := by
  cases doc with
  | null => exact absurd rfl h
  | _ => rfl

/-! ## Objects -/

/-- What passes `typeof value === 'object' && value !== null`. -/
def IsObject (doc : Json) : Prop := typeOf (some doc) = .object ∧ isNull (some doc) = false

theorem not_isObject_iff {doc : Json} :
    (typeOf (some doc) ≠ .object ∨ isNull (some doc) = true) ↔ ¬ IsObject doc := by
  rw [IsObject, not_and_or, Bool.not_eq_false]

theorem get_of_isObject {doc : Json} (h : IsObject doc) (key : Bytes) :
    get (some doc) key = .ok (doc.field? key) := by
  apply get_of_ne_null
  rintro rfl
  cases h.2

theorem isIn_of_isObject {doc : Json} (h : IsObject doc) (key : Bytes) :
    isIn key (some doc) = .ok (doc.field? key).isSome := by
  cases doc with
  | null => cases h.2
  | array xs => rfl
  | object fields => rfl
  | _ => cases h.1

end JavaScript
