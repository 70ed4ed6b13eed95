import Ezcap.Library.Control
import Ezcap.Model.Descriptor
import Ezcap.Model.DriverProtocol
import Mathlib.Logic.Relation

/-! The check of a request or a response accepts the grammar of shapes, nested to its depth. -/

namespace Ezcap.Specgen

open StdString Json Protocol

/-! ## Single checks -/

section Checks

variable {doc value : Json} {key : String} {message : String}

theorem require_eq_ok_iff {condition : Bool} :
    require condition message = .ok () ↔ condition = true := by
  cases condition <;> simp [require]

theorem checkField_eq_ok_iff {check : Json → Except Bytes Unit} :
    checkField doc key check = .ok () ↔ doc.Allowed (cstr key) (check · = .ok ()) := by
  rw [checkField, Allowed]
  cases doc.field? (cstr key) <;> simp

theorem string?_any_iff {p : Bytes → Bool} :
    value.string?.any p = true ↔ IsString (p · = true) value := by
  cases value <;> simp [string?, IsString]

theorem forM_eq_ok_iff {α : Type} {f : α → Except Bytes Unit} {xs : List α} :
    xs.forM f = .ok () ↔ ∀ x ∈ xs, f x = .ok () := by
  induction xs with
  | nil => simp [pure, Except.pure]
  | cons x xs ih =>
      have hbind : (x :: xs).forM f = (f x).bind fun _ => xs.forM f := rfl
      rw [hbind, Except.check_bind_eq_ok_iff, List.forall_mem_cons, ih]

theorem shortText_iff {n : ℕ} :
    (value.string?.any fun s => decide (s.length ≤ n)) = true ↔
      ShortText List.length n value := by
  rw [string?_any_iff, ShortText]
  simp only [decide_eq_true_eq]

theorem checkType_eq_ok_iff :
    checkType doc = .ok () ↔ doc.Required (cstr "type") (IsString (· ∈ shapeTypes)) := by
  rw [checkType, Required]
  cases doc.field? (cstr "type") with
  | none => simp
  | some value =>
      cases value with
      | string type =>
          simp only [Option.bind_some, string?, require_eq_ok_iff, List.contains_iff_mem]
          simp [IsString, kTypes, shapeTypes]
      | _ => simp [string?, IsString]

theorem validPropertyName_iff {name : Bytes} :
    validPropertyName name = true ↔ IsPropertyName name := by
  simp only [validPropertyName, IsPropertyName, Bool.and_eq_true, bne_iff_ne, decide_eq_true_eq,
    List.all_eq_true, Bool.or_eq_true, beq_iff_eq, and_assoc, Nat.one_le_iff_ne_zero, ne_eq,
    List.length_eq_zero_iff]

theorem checkProperties_eq_ok_iff {check : Json → Except Bytes Unit} :
    checkProperties check value = .ok () ↔
      ∃ members, value = .object members ∧ members.length ≤ 64 ∧
        ∀ f ∈ members, IsPropertyName f.1 ∧ check f.2 = .ok () := by
  cases value with
  | object members =>
      simp only [checkProperties, object?]
      by_cases hlong : members.length > kMaxSchemaProperties
      · rw [if_pos hlong]
        refine iff_of_false (fun h => by cases h) ?_
        rintro ⟨_, ⟨⟩, hshort, -⟩
        exact absurd hlong (Nat.not_lt.mpr hshort)
      · rw [if_neg hlong, forM_eq_ok_iff]
        simp only [Except.check_bind_eq_ok_iff, require_eq_ok_iff, validPropertyName_iff]
        have hshort : members.length ≤ 64 := Nat.not_lt.mp hlong
        simp [hshort]
  | _ => simp [checkProperties, object?]

theorem checkRequired_eq_ok_iff :
    checkRequired value = .ok () ↔
      IsArray (fun entries => entries.length ≤ 64 ∧
        ∀ entry ∈ entries, ShortText List.length 64 entry) value := by
  cases value with
  | array entries =>
      have hlength : decide (entries.length ≤ kMaxSchemaProperties) = true ↔
          entries.length ≤ 64 := decide_eq_true_iff
      simp only [checkRequired, array?, Except.check_bind_eq_ok_iff, require_eq_ok_iff, hlength,
        List.all_eq_true, shortText_iff]
      simp [IsArray]
  | _ => simp [checkRequired, array?, IsArray]

theorem isScalar_iff : isScalar value = true ↔ IsScalar value := by
  cases value <;> simp [isScalar, IsScalar]

theorem checkEnum_eq_ok_iff :
    checkEnum value = .ok () ↔
      IsArray (fun entries => entries.length ≤ 64 ∧ ∀ entry ∈ entries, IsScalar entry) value := by
  cases value with
  | array entries =>
      have hlength : decide (entries.length ≤ kMaxSchemaEnumItems) = true ↔
          entries.length ≤ 64 := decide_eq_true_iff
      simp only [checkEnum, array?, Except.check_bind_eq_ok_iff, require_eq_ok_iff, hlength,
        List.all_eq_true, isScalar_iff]
      simp [IsArray]
  | _ => simp [checkEnum, array?, IsArray]

end Checks

/-! ## Shapes -/

/-- The check of a value is that of the value itself and of the shapes one level down. -/
theorem validSchemaSubset_succ_iff {levels : ℕ} {doc : Json} :
    validSchemaSubset (levels + 1) doc = .ok () ↔
      IsShape List.length doc ∧ ∀ sub, Below doc sub → validSchemaSubset levels sub = .ok () := by
  cases doc with
  | object fields =>
      have hkeys : (fields.all fun f => kSchemaKeys.contains f.1) = true ↔
          (Json.object fields).Closed shapeKeys := by
        simp [Closed, kSchemaKeys, shapeKeys]
      simp only [validSchemaSubset, object?, Except.check_bind_eq_ok_iff, require_eq_ok_iff, hkeys,
        checkType_eq_ok_iff, checkField_eq_ok_iff, shortText_iff, checkProperties_eq_ok_iff,
        checkRequired_eq_ok_iff, checkEnum_eq_ok_iff]
      constructor
      · rintro ⟨hclosed, htype, hdescription, hproperties, hitems, hrequired, henum⟩
        refine ⟨⟨hclosed, htype, hdescription, ?_, hrequired, henum⟩, ?_⟩
        · refine hproperties.imp ?_
          rintro value ⟨members, rfl, hlength, hmembers⟩
          exact ⟨members, rfl, hlength, fun f hf => (hmembers f hf).1⟩
        · intro sub hsub
          cases hsub with
          | property hfield hmem =>
              obtain ⟨_, ⟨⟩, -, hmembers⟩ := hproperties _ hfield
              exact (hmembers _ hmem).2
          | items hfield => exact hitems _ hfield
      · rintro ⟨h, hbelow⟩
        refine ⟨h.closed, h.type, h.description, ?_, fun sub hsub => hbelow sub (.items hsub),
          h.required, h.enum⟩
        intro value hvalue
        obtain ⟨members, rfl, hlength, hnames⟩ := h.properties value hvalue
        exact ⟨members, rfl, hlength, fun f hf => ⟨hnames f hf, hbelow _ (.property hvalue hf)⟩⟩
  | _ =>
      refine iff_of_false (fun h => by cases h) ?_
      rintro ⟨h, -⟩
      obtain ⟨_, hobject, -⟩ := h.closed
      cases hobject

/-- The check accepts exactly the shapes that nest to its depth. -/
theorem validSchemaSubset_iff_generated {n : ℕ} {doc : Json} :
    validSchemaSubset (n + 1) doc = .ok () ↔ Generated List.length n doc := by
  induction n generalizing doc with
  | zero =>
      rw [validSchemaSubset_succ_iff]
      constructor
      · rintro ⟨hshape, hbelow⟩
        exact .leaf hshape fun sub hsub => nomatch hbelow sub hsub
      · intro h
        cases h with
        | leaf hshape hbelow => exact ⟨hshape, fun sub hsub => absurd hsub (hbelow sub)⟩
  | succ n ih =>
      rw [validSchemaSubset_succ_iff]
      simp only [ih]
      constructor
      · rintro ⟨hshape, hbelow⟩
        exact .nest hshape hbelow
      · intro h
        cases h with
        | leaf hshape hbelow => exact ⟨hshape, fun sub hsub => absurd hsub (hbelow sub)⟩
        | nest hshape hbelow => exact ⟨hshape, hbelow⟩

theorem isShape_of_below {size : Bytes → ℕ} {n : ℕ} {doc sub : Json}
    (h : Generated size n doc) (hsub : Relation.ReflTransGen Below doc sub) :
    IsShape size sub := by
  induction hsub using Relation.ReflTransGen.head_induction_on generalizing n with
  | refl => cases h <;> assumption
  | head hbelow _ ih =>
      cases h with
      | leaf _ hnone => exact absurd hbelow (hnone _)
      | nest _ hall => exact ih (hall _ hbelow)

/-- The check of a request or a response accepts exactly the shapes that nest at most eight levels
deep, and no position of one has a reference. -/
theorem schema_subset_exact (doc : Json) :
    (validSchemaSubset (kMaxSchemaDepth + 1) doc = .ok () ↔ Generated List.length 8 doc) ∧
    (validSchemaSubset (kMaxSchemaDepth + 1) doc = .ok () →
      ∀ sub, Relation.ReflTransGen Below doc sub → sub.field? (cstr "$ref") = none) := by
  refine ⟨validSchemaSubset_iff_generated, fun h sub hsub => ?_⟩
  have hshape := isShape_of_below (validSchemaSubset_iff_generated.mp h) hsub
  exact hshape.closed.field?_eq_none (by decide)

end Ezcap.Specgen
