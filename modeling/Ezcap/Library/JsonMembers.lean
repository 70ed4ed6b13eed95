import Ezcap.Library.JsonRoundTrip
import Mathlib.Data.Finset.Card

/-! Objects whose members are assigned one after another under keys that may repeat, and values
inside a document. -/

namespace Json

/-- The value under a path of keys. -/
def at? (doc : Json) : List Bytes → Option Json
  | [] => some doc
  | key :: keys => (doc.field? key).bind (·.at? keys)

@[simp] theorem at?_nil (doc : Json) : doc.at? [] = some doc := rfl

theorem at?_cons {doc value : Json} {key : Bytes} (h : doc.field? key = some value)
    (keys : List Bytes) : doc.at? (key :: keys) = value.at? keys := by
  rw [at?, h, Option.bind_some]

theorem at?_cons_none {doc : Json} {key : Bytes} (h : doc.field? key = none)
    (keys : List Bytes) : doc.at? (key :: keys) = none := by
  rw [at?, h, Option.bind_none]

@[simp] theorem at?_singleton (doc : Json) (key : Bytes) : doc.at? [key] = doc.field? key := by
  simp [at?]

theorem at?_append (doc : Json) (keys more : List Bytes) :
    doc.at? (keys ++ more) = (doc.at? keys).bind (·.at? more) := by
  induction keys generalizing doc with
  | nil => rfl
  | cons key keys ih =>
      rw [List.cons_append, at?, at?, Option.bind_assoc]
      simp only [ih]

end Json

namespace JsonReference

variable {fields : List (Bytes × Json)} {key : Bytes}

/-! ## One member -/

theorem field?_assign (key : Bytes) (value : Json) (fields : List (Bytes × Json)) (k : Bytes) :
    (Json.object (assign key value fields)).field? k =
      if k = key then some value else (Json.object fields).field? k := by
  simp only [Json.field?]
  by_cases hk : k = key
  · rw [if_pos hk, hk]
    induction fields with
    | nil => simp [assign]
    | cons f fields ih =>
        rw [assign]
        split_ifs with hf hlt
        · simp
        · simp
        · simpa [hf] using ih
  · rw [if_neg hk]
    have hkey : (key == k) = false := beq_false_of_ne (Ne.symm hk)
    induction fields with
    | nil => simp [assign, hkey]
    | cons f fields ih =>
        rw [assign]
        split_ifs with hf hlt
        · simp [hf, hkey]
        · simp [hkey]
        · by_cases hfk : f.1 = k
          · simp [hfk]
          · simpa [hfk] using ih

theorem assign_perm (value : Json) (h : key ∉ fields.map Prod.fst) :
    (assign key value fields).Perm ((key, value) :: fields) := by
  induction fields with
  | nil => exact .refl _
  | cons f fields ih =>
      simp only [List.map_cons, List.mem_cons, not_or] at h
      rw [assign, if_neg (Ne.symm h.1)]
      split
      · exact .refl _
      · exact ((ih h.2).cons f).trans (.swap _ _ _)

theorem mem_keys_assign (key : Bytes) (value : Json) (fields : List (Bytes × Json)) (k : Bytes) :
    k ∈ (assign key value fields).map Prod.fst ↔ k = key ∨ k ∈ fields.map Prod.fst := by
  induction fields with
  | nil => simp [assign]
  | cons f fields ih =>
      rw [assign]
      split_ifs with hf hlt
      · simp [hf]
      · simp
      · simp only [List.map_cons, List.mem_cons, ih]
        tauto

/-! ## One member after another -/

/-- An object assigned the members one after another. -/
def assignAll (members fields : List (Bytes × Json)) : List (Bytes × Json) :=
  members.foldl (fun fields f => assign f.1 f.2 fields) fields

variable {members : List (Bytes × Json)}

@[simp] theorem assignAll_nil (fields : List (Bytes × Json)) : assignAll [] fields = fields := rfl

@[simp] theorem assignAll_cons (f : Bytes × Json) (members fields : List (Bytes × Json)) :
    assignAll (f :: members) fields = assignAll members (assign f.1 f.2 fields) := rfl

theorem assignAll_append (members later fields : List (Bytes × Json)) :
    assignAll (members ++ later) fields = assignAll later (assignAll members fields) :=
  List.foldl_append

theorem mem_of_field?_assignAll {value : Json}
    (h : (Json.object (assignAll members fields)).field? key = some value) :
    (key, value) ∈ members ∨ (Json.object fields).field? key = some value := by
  induction members generalizing fields with
  | nil => exact .inr h
  | cons f members ih =>
      rcases ih h with hmem | hfield
      · exact .inl (List.mem_cons_of_mem _ hmem)
      · rw [field?_assign] at hfield
        split_ifs at hfield with hkey
        · obtain rfl := Option.some.inj hfield
          exact .inl (by simp [hkey])
        · exact .inr hfield

theorem field?_assignAll_isSome
    (h : key ∈ members.map Prod.fst ∨ ((Json.object fields).field? key).isSome = true) :
    ((Json.object (assignAll members fields)).field? key).isSome = true := by
  induction members generalizing fields with
  | nil => simpa using h
  | cons f members ih =>
      refine ih ?_
      rw [field?_assign]
      by_cases hkey : key = f.1
      · simp [hkey]
      · rw [if_neg hkey]
        simpa [hkey] using h

/-- A key under which nothing but one value is assigned has that value. -/
theorem field?_assignAll {value : Json} (hmem : key ∈ members.map Prod.fst)
    (hvalue : ∀ v, (key, v) ∈ members → v = value) :
    (Json.object (assignAll members [])).field? key = some value := by
  have hsome : ((Json.object (assignAll members [])).field? key).isSome = true :=
    field?_assignAll_isSome (.inl hmem)
  obtain ⟨v, hv⟩ := Option.isSome_iff_exists.mp hsome
  rcases mem_of_field?_assignAll hv with h | h
  · rw [hv, hvalue v h]
  · cases h

section Map

variable {α : Type*} {entries : List α} {name : α → Bytes} {value : α → Json}

/-- What stands in an object that is filled from a list comes of an entry of the list. -/
theorem exists_of_field?_assignAll_map {v : Json}
    (h : (Json.object (assignAll (entries.map fun a => (name a, value a)) [])).field? key =
      some v) : ∃ a ∈ entries, name a = key ∧ value a = v := by
  rcases mem_of_field?_assignAll h with hmem | hnil
  · obtain ⟨a, ha, hsame⟩ := List.mem_map.mp hmem
    exact ⟨a, ha, Prod.mk.inj hsame⟩
  · cases hnil

/-- Under the name of an entry stands that entry or another one of the name. -/
theorem exists_field?_assignAll_map (value : α → Json) {a : α} (ha : a ∈ entries) :
    ∃ b ∈ entries, name b = name a ∧
      (Json.object (assignAll (entries.map fun a => (name a, value a)) [])).field? (name a) =
        some (value b) := by
  have hmem : name a ∈ (entries.map fun a => (name a, value a)).map Prod.fst := by
    rw [List.map_map]
    exact List.mem_map_of_mem ha
  have hsome : ((Json.object (assignAll (entries.map fun a => (name a, value a)) [])).field?
      (name a)).isSome = true := field?_assignAll_isSome (.inl hmem)
  obtain ⟨v, hv⟩ := Option.isSome_iff_exists.mp hsome
  obtain ⟨b, hb, hname, rfl⟩ := exists_of_field?_assignAll_map hv
  exact ⟨b, hb, hname, hv⟩

theorem field?_assignAll_map {a : α} (ha : a ∈ entries)
    (hname : ∀ b ∈ entries, name b = name a → b = a) :
    (Json.object (assignAll (entries.map fun a => (name a, value a)) [])).field? (name a) =
      some (value a) := by
  obtain ⟨b, hb, hsame, hfield⟩ := exists_field?_assignAll_map value ha
  rw [hfield, hname b hb hsame]

end Map

theorem assignAll_perm (hkeys : (members.map Prod.fst).Nodup)
    (hfresh : ∀ k ∈ members.map Prod.fst, k ∉ fields.map Prod.fst) :
    (assignAll members fields).Perm (members ++ fields) := by
  induction members generalizing fields with
  | nil => exact .refl _
  | cons f members ih =>
      obtain ⟨hf, hnodup⟩ := List.nodup_cons.mp hkeys
      have hassign := assign_perm f.2 (hfresh f.1 (by simp))
      refine (ih hnodup ?_).trans ((hassign.append_left members).trans List.perm_middle)
      intro k hk hmem
      rcases (mem_keys_assign _ _ _ _).mp hmem with rfl | hmem
      · exact hf hk
      · exact hfresh k (by simp [hk]) hmem

theorem mem_keys_assignAll (members fields : List (Bytes × Json)) (k : Bytes) :
    k ∈ (assignAll members fields).map Prod.fst ↔
      k ∈ members.map Prod.fst ∨ k ∈ fields.map Prod.fst := by
  induction members generalizing fields with
  | nil => simp
  | cons f members ih =>
      rw [assignAll_cons, ih, mem_keys_assign, List.map_cons, List.mem_cons]
      tauto

theorem nodup_keys_assignAll (members : List (Bytes × Json))
    (h : fields.Pairwise fun f g => f.1 < g.1) :
    ((assignAll members fields).map Prod.fst).Nodup := by
  induction members generalizing fields with
  | nil => exact List.pairwise_map.mpr (h.imp fun hlt => Std.ne_of_lt hlt)
  | cons f members ih => exact ih (pairwise_assign f.1 f.2 h)

theorem length_assignAll_iff :
    (assignAll members []).length = members.length ↔ (members.map Prod.fst).Nodup := by
  constructor
  · intro h
    have hsame : ((assignAll members []).map Prod.fst).toFinset =
        (members.map Prod.fst).toFinset := by
      ext k
      simp only [List.mem_toFinset, mem_keys_assignAll, List.map_nil, List.not_mem_nil, or_false]
    have hcard := List.toFinset_card_of_nodup
      (@nodup_keys_assignAll [] members List.Pairwise.nil)
    rw [hsame, List.length_map, h, ← List.length_map (f := Prod.fst)] at hcard
    exact Multiset.toFinset_card_eq_card_iff_nodup.mp hcard
  · intro h
    have hperm : (assignAll members []).Perm (members ++ []) := assignAll_perm h (by simp)
    simpa using hperm.length_eq

end JsonReference
