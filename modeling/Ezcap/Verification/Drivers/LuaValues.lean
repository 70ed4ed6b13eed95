import Ezcap.Model.LuaBindings

/-! Which Lua values are converted to JSON. The traversal of a table pushes its keys, so that an
index from the top no longer designates the table. -/

namespace Ezcap.Drivers

open StdString Lua
open JsonReference (assign assignAll)

/-! ## What a value stands for -/

/-- The JSON of a value that is no table. -/
def scalar? : Value → Option Json
  | .nil => some .null
  | .boolean b => some (.bool b)
  | .number q => some (.float q)
  | .string s => if 0 ∉ s ∧ s.length ≤ 8 * 1024 then some (.string s) else none
  | .table _ | .reference _ => none

/-- The values under the keys 1, 2, and so on. -/
def indexed (values : List Value) : List (Key × Value) :=
  (values.zipIdx 1).map fun (value, i) => (.number i, value)

/-- A sequence, in whatever order it is traversed. -/
def IsSequence (r : Value → Json → Prop) (entries : List (Key × Value)) (j : Json) : Prop :=
  ∃ values items, values ≠ [] ∧ entries.Perm (indexed values) ∧ List.Forall₂ r values items ∧
    j = .array items

/-- A table with strings for its keys. -/
def IsRecord (r : Value → Json → Prop) (entries : List (Key × Value)) (j : Json) : Prop :=
  ∃ fields : List (Bytes × Json), (entries.map Prod.fst).Nodup ∧
    List.Forall₂ (fun entry field => entry.1 = .string field.1 ∧ 0 ∉ field.1 ∧ r entry.2 field.2)
      entries fields ∧
    j = .object (assignAll fields [])

/-- The value is a tree of scalars, sequences and records of at most `n` levels, and `j` is its
JSON. -/
def Represents : ℕ → Value → Json → Prop
  | 0, v, j => scalar? v = some j
  | n + 1, v, j =>
      scalar? v = some j ∨ ∃ entries, v = .table entries ∧
        (IsSequence (Represents n) entries j ∨ IsRecord (Represents n) entries j)

theorem represents_of_scalar? {n : ℕ} {v : Value} {j : Json} (h : scalar? v = some j) :
    Represents n v j := by
  cases n with
  | zero => exact h
  | succ n => exact .inl h

theorem scalar?_of_represents {n : ℕ} {v : Value} {j : Json} (h : Represents n v j)
    (hv : v.isTable = false) : scalar? v = some j := by
  cases n with
  | zero => exact h
  | succ n =>
      rcases h with h | ⟨entries, rfl, -⟩
      · exact h
      · cases hv

theorem isTable_of_scalar? {v : Value} {j : Json} (h : scalar? v = some j) : v.isTable = false := by
  cases v with
  | table entries => cases h
  | _ => rfl

/-! ## What the code makes of a value -/

section Conversion

variable (numbers : Numbers)

/-- The value at the top of the stack, where a table cannot be read. -/
def item : ℕ → Value → Except Fault (Except Bytes Json)
  | 0, _ => .ok (.error (cstr "value nesting exceeds the descriptor limit"))
  | _ + 1, .nil => .ok (.ok .null)
  | _ + 1, .boolean b => .ok (.ok (.bool b))
  | _ + 1, .number q => .ok (.ok (.float q))
  | _ + 1, .string s =>
      if (untilNul s).length > 8 * 1024 then .ok (.error (cstr "string exceeds the sandbox limit"))
      else .ok (.ok (.string (untilNul s)))
  | _ + 1, .table _ => .error .undefined
  | _ + 1, .reference _ => .ok (.error (cstr "unsupported value type in descriptor"))

def visitElement (levels : ℕ) : Visit Json Bytes := fun k x =>
  (item levels x).map fun result => (k.value, result)

def visitMember (levels : ℕ) : Visit (Bytes × Json) Bytes := fun k x =>
  match tostring numbers k.value with
  | none => .ok (k.value, .error (cstr "table keys must be strings"))
  | some (text, key) =>
      (item levels x).map fun result => (key, result.map fun item => (untilNul text, item))

/-- What the entries give, one after the other. -/
def Yields (levels : ℕ) (entries : List (Key × Value))
    (outcome : Except Fault (Except Bytes Json)) : Prop :=
  match entries.head? with
  | none => outcome = .ok (.ok (.object []))
  | some entry =>
      if entry.1.isNumber then
        ∃ items, Visits entries (visitElement levels) .nil items ∧
          outcome = items.map (Except.map .array)
      else
        ∃ members, Visits entries (visitMember numbers levels) .nil members ∧
          outcome = members.map (Except.map fun members => .object (assignAll members []))

/-- They give this JSON. -/
def Reads (levels : ℕ) (entries : List (Key × Value)) (j : Json) : Prop :=
  Yields numbers levels entries (.ok (.ok j))

/-- One of the entries is refused before there is one that cannot be read. -/
def Declines (levels : ℕ) (entries : List (Key × Value)) : Prop :=
  ∃ error, Yields numbers levels entries (.ok (.error error))

/-- The conversion returns true with this JSON and the stack as it was. -/
def Converts (levels : ℕ) (stack : Stack) (index : ℤ) (j : Json) : Prop :=
  ∃ fuel, jsonFromLua numbers fuel levels stack index = .ok (stack, .ok j)

/-- The conversion returns false with the stack as it was. -/
def Rejects (levels : ℕ) (stack : Stack) (index : ℤ) : Prop :=
  ∃ fuel error, jsonFromLua numbers fuel levels stack index = .ok (stack, .error error)

variable {numbers : Numbers}

theorem jsonFromLua_of_not_table {levels : ℕ} {stack : Stack} {index : ℤ} {v : Value}
    (hv : at? stack index = some v) (hv' : v.isTable = false) (fuel : ℕ) :
    jsonFromLua numbers fuel (levels + 1) stack index =
      (item (levels + 1) v).map fun result => (stack, result) := by
  rw [jsonFromLua, hv]
  cases v with
  | string s =>
      simp only [item]
      split <;> rfl
  | table _ => cases hv'
  | _ => rfl

/-- A table that an index from the top designates is not the one that is traversed. -/
theorem jsonFromLua_undefined {levels : ℕ} {stack : Stack} {index : ℤ} {v : Value}
    (hv : at? stack index = some v) (hv' : v.isTable = true)
    (hat : ∀ entries, at? (.nil :: stack) index ≠ some (.table entries)) (fuel : ℕ) :
    jsonFromLua numbers fuel (levels + 1) stack index = .error .undefined := by
  have hnext : next (.nil :: stack) index = .error .undefined := next_undefined hat
  cases v with
  | table _ => rw [jsonFromLua, hv]; simp only [hnext]
  | _ => cases hv'

theorem jsonFromLua_top (fuel levels : ℕ) (x : Value) (rest : Stack) :
    jsonFromLua numbers fuel levels (x :: rest) (-1) =
      (item levels x).map fun result => (x :: rest, result) := by
  cases levels with
  | zero => rfl
  | succ levels =>
      cases x with
      | table entries => exact jsonFromLua_undefined (at?_top _ _) rfl (by simp) fuel
      | _ => exact jsonFromLua_of_not_table (at?_top _ _) rfl fuel

theorem jsonFromLua_element (fuel levels : ℕ) (k : Key) (x : Value) (rest : Stack) :
    jsonFromLua numbers fuel levels (x :: k.value :: rest) (-1) =
      (visitElement levels k x).map fun left => (x :: left.1 :: rest, left.2) := by
  rw [jsonFromLua_top, visitElement]
  cases item levels x <;> rfl

theorem convertMember_eq (fuel levels : ℕ) (k : Key) (x : Value) (rest : Stack) :
    convertMember numbers (jsonFromLua numbers fuel levels) (x :: k.value :: rest) =
      (visitMember numbers levels k x).map fun left => (x :: left.1 :: rest, left.2) := by
  rw [convertMember, visitMember]
  cases tostring numbers k.value with
  | none => rfl
  | some spelled =>
      simp only [jsonFromLua_top]
      cases item levels x <;> rfl

theorem foldl_push : List.foldl (fun items item => items ++ [item]) [] = (id : List Json → _) := by
  funext items
  simp [← List.flatMap_def]

section Table

variable {levels : ℕ} {stack : Stack} {index : ℤ} {v : Value} {entries : List (Key × Value)}
  {j : Json} (hv : at? stack index = some v) (hv' : v.isTable = true)
  (hat : ∀ key, at? (key :: stack) index = some (.table entries))

include hv hv' hat

theorem jsonFromLua_table (numbers : Numbers) (levels fuel : ℕ) :
    jsonFromLua numbers fuel (levels + 1) stack index =
      match entries.head? with
      | none => .ok (stack, .ok (.object []))
      | some entry =>
          if entry.1.isNumber then
            loop (fun items item => items ++ [item]) .array []
              (fun fuel stack => jsonFromLua numbers fuel levels stack (-1)) index stack .nil fuel
          else
            loop (fun fields field => assign field.1 field.2 fields) .object []
              (fun fuel => convertMember numbers (jsonFromLua numbers fuel levels)) index stack .nil
              fuel := by
  cases v with
  | table _ =>
      rw [jsonFromLua, hv]
      simp only [next_of_table (hat .nil), after_nil]
      cases entries.head? with
      | none => rfl
      | some entry =>
          simp only [at?_below_top, Option.any_some, Value.isNumber_value, List.drop_succ_cons,
            List.drop_zero, loop]
  | _ => cases hv'

theorem settles_jsonFromLua (numbers : Numbers) (levels : ℕ) :
    Settles (fun fuel => jsonFromLua numbers fuel (levels + 1) stack index)
      (Yields numbers levels entries) fun result => (stack, result) := by
  simp only [jsonFromLua_table hv hv' hat]
  unfold Yields
  cases entries.head? with
  | none => exact ⟨fun _ => .inr ⟨_, rfl, rfl⟩, fun h => ⟨0, fun _ _ => by rw [h]; rfl⟩⟩
  | some entry =>
      by_cases hkey : entry.1.isNumber = true
      · simp only [if_pos hkey]
        have h := settles_loop (fun items item => items ++ [item]) Json.array []
          (fun fuel stack => jsonFromLua numbers fuel levels stack (-1)) hat
          (fun fuel k x => jsonFromLua_element fuel levels k x stack) .nil
        simp only [foldl_push, Except.map_map] at h
        exact h.split
      · simp only [if_neg hkey]
        have h := settles_loop (fun fields field => assign field.1 field.2 fields) Json.object []
          (fun fuel => convertMember numbers (jsonFromLua numbers fuel levels)) hat
          (fun fuel k x => convertMember_eq fuel levels k x stack) .nil
        simp only [Except.map_map] at h
        exact h.split

theorem converts_table_iff :
    Converts numbers (levels + 1) stack index j ↔ Reads numbers levels entries j := by
  refine (settles_jsonFromLua hv hv' hat numbers levels).exists_eq_ok_iff.trans ?_
  simp [Reads]

theorem rejects_table_iff :
    Rejects numbers (levels + 1) stack index ↔ Declines numbers levels entries := by
  rw [Rejects, exists_comm]
  refine exists_congr fun error => ?_
  refine (settles_jsonFromLua hv hv' hat numbers levels).exists_eq_ok_iff.trans ?_
  simp

end Table

end Conversion

/-! ## Trees -/

section Trees

variable {numbers : Numbers} {n : ℕ} {entries : List (Key × Value)}

theorem forall_exists_of_forall₂ {α β : Type*} {r : α → β → Prop} {l : List α} {u : List β}
    (h : List.Forall₂ r l u) : ∀ a ∈ l, ∃ b, r a b :=
  ((List.forall₂_and_left l u).mp (h.imp fun _ b hab => ⟨⟨b, hab⟩, hab⟩)).1

theorem forall₂_iff_of_mem {α β : Type*} {p : α → Prop} {r r' : α → β → Prop} {l : List α}
    {u : List β} (hp : ∀ a ∈ l, p a) (h : ∀ a b, p a → (r a b ↔ r' a b)) :
    List.Forall₂ r l u ↔ List.Forall₂ r' l u :=
  ⟨fun hr => ((List.forall₂_and_left l u).mpr ⟨hp, hr⟩).imp fun a b hab => (h a b hab.1).mp hab.2,
    fun hr => ((List.forall₂_and_left l u).mpr ⟨hp, hr⟩).imp fun a b hab => (h a b hab.1).mpr hab.2⟩

/-- In a tree, what is converted at the top of the stack is what is no table. -/
theorem item_eq_ok_iff {x : Value} {j : Json} (h : ∃ j, Represents n x j) (levels : ℕ) :
    item (levels + 1) x = .ok (.ok j) ↔ scalar? x = some j := by
  obtain ⟨j', hj'⟩ := h
  cases x with
  | string s =>
      have hs := scalar?_of_represents hj' rfl
      rw [scalar?] at hs ⊢
      split at hs
      · rename_i hdomain
        rw [if_pos hdomain, item, untilNul_eq_self_iff.mpr hdomain.1, if_neg (by omega)]
        simp
      · cases hs
  | reference id => cases scalar?_of_represents hj' rfl
  | table entries => simp [item, scalar?]
  | _ => simp [item, scalar?]

theorem mem_indexed {values : List Value} {entry : Key × Value} (h : entry ∈ indexed values) :
    entry.1.isNumber = true ∧ entry.2 ∈ values := by
  obtain ⟨⟨value, i⟩, hmem, rfl⟩ := List.mem_map.mp h
  exact ⟨rfl, List.fst_mem_of_mem_zipIdx hmem⟩

theorem nodup_keys_indexed (values : List Value) : ((indexed values).map Prod.fst).Nodup := by
  have hkeys : (indexed values).map Prod.fst =
      (List.range' 1 values.length).map fun i : ℕ => Key.number i := by
    rw [indexed, List.map_map, ← List.zipIdx_map_snd, List.map_map]
    rfl
  rw [hkeys]
  exact (List.nodup_range' ..).map fun i k h => by simpa using h

theorem exists_ok_ok_eq_map_iff {α : Type*} {p : Except Fault (Except Bytes α) → Prop}
    {f : α → Json} {j : Json} :
    (∃ outcome, p outcome ∧ .ok (.ok j) = outcome.map (Except.map f)) ↔
      ∃ a, p (.ok (.ok a)) ∧ j = f a := by
  constructor
  · rintro ⟨outcome, h, heq⟩
    obtain ⟨result, rfl, heq'⟩ := Except.map_eq_ok_iff.mp heq.symm
    obtain ⟨a, rfl, rfl⟩ := Except.map_eq_ok_iff.mp heq'
    exact ⟨a, h, rfl⟩
  · rintro ⟨a, h, rfl⟩
    exact ⟨_, h, rfl⟩

/-- A sequence is read if its elements are no tables and are traversed in their order. -/
theorem reads_sequence_iff {values : List Value} {items : List Json} (hne : values ≠ [])
    (hperm : entries.Perm (indexed values)) (hitems : List.Forall₂ (Represents n) values items)
    {items' : List Json} :
    Reads numbers (n + 1) entries (.array items') ↔
      List.Forall₂ (fun entry item => scalar? entry.2 = some item) entries items' := by
  have hmem : ∀ entry ∈ entries, entry.1.isNumber = true ∧ ∃ j, Represents n entry.2 j := by
    intro entry hentry
    obtain ⟨hnumber, hvalue⟩ := mem_indexed (hperm.mem_iff.mp hentry)
    exact ⟨hnumber, forall_exists_of_forall₂ hitems _ hvalue⟩
  have hkeys : (entries.map Prod.fst).Nodup :=
    (hperm.map Prod.fst).nodup_iff.mpr (nodup_keys_indexed values)
  obtain ⟨entry, hentry⟩ : ∃ entry, entries.head? = some entry := by
    cases entries with
    | nil => simp [indexed, hne] at hperm
    | cons entry rest => exact ⟨entry, rfl⟩
  have hfirst := (hmem entry (List.mem_of_head? hentry)).1
  simp only [Reads, Yields, hentry, if_pos hfirst, exists_ok_ok_eq_map_iff, Json.array.injEq]
  rw [exists_eq_right', visits_ok_iff (List.nil_append entries).symm hkeys ?_ rfl]
  · refine forall₂_iff_of_mem hmem fun entry j h => ?_
    rw [← item_eq_ok_iff h.2 n, visitElement]
    cases item (n + 1) entry.2 <;> simp [Except.map]
  · intro entry _ key' item hvisit
    obtain ⟨_, -, heq⟩ := Except.map_eq_ok_iff.mp hvisit
    exact (congrArg Prod.fst heq).symm

theorem visitMember_string (levels : ℕ) (s : Bytes) (x : Value) :
    visitMember numbers levels (.string s) x =
      (item levels x).map fun result =>
        (.string s, result.map fun item => (untilNul s, item)) := rfl

theorem visitMember_keeps {levels : ℕ} {k : Key} {s : Bytes} {x key' : Value}
    {result : Except Bytes (Bytes × Json)} (hkey : k = .string s)
    (h : visitMember numbers (levels + 1) k x = .ok (key', result)) :
    key' = k.value ∧ x.isTable = false := by
  rw [hkey, visitMember_string] at h
  obtain ⟨_, hitem, heq⟩ := Except.map_eq_ok_iff.mp h
  rw [hkey]
  refine ⟨(congrArg Prod.fst heq).symm, ?_⟩
  cases x with
  | table _ => cases hitem
  | _ => rfl

theorem reads_record_iff {fields : List (Bytes × Json)} (hkeys : (entries.map Prod.fst).Nodup)
    (hfields : List.Forall₂ (fun entry field => entry.1 = .string field.1 ∧ 0 ∉ field.1 ∧
      Represents n entry.2 field.2) entries fields) :
    Reads numbers (n + 1) entries (.object (assignAll fields [])) ↔
      ∀ entry ∈ entries, entry.2.isTable = false := by
  have hmem := forall_exists_of_forall₂ hfields
  have hkept : ∀ entry ∈ entries, ∀ key' item,
      visitMember numbers (n + 1) entry.1 entry.2 = .ok (key', .ok item) →
      key' = entry.1.value := by
    intro entry hentry key' item hvisit
    obtain ⟨field, hkey, -⟩ := hmem entry hentry
    exact (visitMember_keeps hkey hvisit).1
  have hvisits (members : List (Bytes × Json)) :
      Visits entries (visitMember numbers (n + 1)) .nil (.ok (.ok members)) ↔ _ :=
    visits_ok_iff (List.nil_append entries).symm hkeys hkept rfl
  cases hhead : entries.head? with
  | none =>
      obtain rfl := List.head?_eq_none_iff.mp hhead
      cases hfields
      simp [Reads, Yields]
  | some entry =>
      obtain ⟨field, hkey, -⟩ := hmem entry (List.mem_of_head? hhead)
      have hfirst : ¬ entry.1.isNumber = true := by rw [hkey]; exact Bool.false_ne_true
      simp only [Reads, Yields, hhead, if_neg hfirst, exists_ok_ok_eq_map_iff, hvisits]
      constructor
      · rintro ⟨members, hvisits, -⟩ entry hentry
        obtain ⟨field, hkey, -⟩ := hmem entry hentry
        obtain ⟨member, hvisit⟩ := forall_exists_of_forall₂ hvisits entry hentry
        exact (visitMember_keeps hkey hvisit).2
      · intro hflat
        refine ⟨fields, ?_, rfl⟩
        refine ((List.forall₂_and_left _ _).mpr ⟨hflat, hfields⟩).imp fun entry field h => ?_
        obtain ⟨hvalue, hkey, hnul, hrepresents⟩ := h
        have hitem := (item_eq_ok_iff ⟨_, hrepresents⟩ n).mpr
          (scalar?_of_represents hrepresents hvalue)
        rw [hkey, visitMember_string, hitem, untilNul_eq_self_iff.mpr hnul]
        rfl

end Trees

/-! ## Indices -/

/-- The elements of an array are those of the entries as they are traversed. -/
def InOrder (entries : List (Key × Value)) (j : Json) : Prop :=
  ∀ items, j = .array items →
    List.Forall₂ (fun entry item => scalar? entry.2 = some item) entries items

/-- A tree that is converted: it is no table, or it is designated from the bottom and has no table
in it, or it is designated from the top and the entries of the table above it happen to give the
same. -/
inductive Readable (numbers : Numbers) (n : ℕ) (stack : Stack) (index : ℤ) (v : Value) (j : Json) :
    Prop
  | scalar (h : v.isTable = false)
  | flat {entries : List (Key × Value)} (hindex : 0 < index) (hv : v = .table entries)
      (hflat : ∀ entry ∈ entries, entry.2.isTable = false) (horder : InOrder entries j)
  | above {entries : List (Key × Value)} (hindex : index < -1) (hv : v.isTable = true)
      (habove : at? stack (index + 1) = some (.table entries)) (h : Reads numbers n entries j)

/-- Another value that is refused: it is neither a string nor a table, or a string that is long up
to its first NUL, or a table with an entry that is refused, in the same places. -/
inductive Refused (numbers : Numbers) (n : ℕ) (stack : Stack) (index : ℤ) (v : Value) : Prop
  | reference {id : ℕ} (hv : v = .reference id)
  | long {s : Bytes} (hv : v = .string s) (h : 8 * 1024 < (untilNul s).length)
  | entry {entries : List (Key × Value)} (hindex : 0 < index) (hv : v = .table entries)
      (h : Declines numbers n entries)
  | above {entries : List (Key × Value)} (hindex : index < -1) (hv : v.isTable = true)
      (habove : at? stack (index + 1) = some (.table entries)) (h : Declines numbers n entries)

section Indices

variable {numbers : Numbers} {n : ℕ} {stack : Stack} {index : ℤ} {v : Value}

/-- Where a table is designated from: the bottom, the top, or above it where another table is. -/
theorem index_cases (hv : at? stack index = some v) :
    0 < index ∨ (index < 0 ∧ ∀ entries, at? (.nil :: stack) index ≠ some (.table entries)) ∨
      index < -1 ∧ ∃ entries, at? stack (index + 1) = some (.table entries) := by
  rcases lt_trichotomy index 0 with hneg | rfl | hpos
  · by_cases htop : index = -1
    · refine .inr (.inl ⟨hneg, fun entries => ?_⟩)
      rw [htop, at?_top]
      simp
    · have hbelow : index < -1 := by omega
      by_cases habove : ∃ entries, at? stack (index + 1) = some (.table entries)
      · exact .inr (.inr ⟨hbelow, habove⟩)
      · refine .inr (.inl ⟨hneg, fun entries => ?_⟩)
        rw [at?_cons_of_neg hbelow]
        exact fun h => habove ⟨entries, h⟩
  · cases hv
  · exact .inl hpos

/-- What comes of a table at any index, given what comes of the loop over the one that the index
designates then: from the bottom it is the table itself, from the top the one above it. -/
theorem designated_iff {entries : List (Key × Value)} (outcome : ℤ → Prop)
    {loop : List (Key × Value) → Prop} (hv : at? stack index = some (.table entries))
    (hloop : ∀ {index : ℤ} {v : Value} {entries : List (Key × Value)}, at? stack index = some v →
      v.isTable = true → (∀ key, at? (key :: stack) index = some (.table entries)) →
      (outcome index ↔ loop entries))
    (hnone : (∀ entries, at? (.nil :: stack) index ≠ some (.table entries)) → ¬ outcome index) :
    outcome index ↔
      (0 < index ∧ loop entries) ∨
      (index < -1 ∧ ∃ above, at? stack (index + 1) = some (.table above) ∧ loop above) := by
  rcases index_cases hv with hpos | ⟨hneg, hundefined⟩ | ⟨hbelow, above, habove⟩
  · rw [hloop hv rfl (at?_cons_of_pos hv hpos)]
    constructor
    · exact fun h => .inl ⟨hpos, h⟩
    · rintro (⟨_, h⟩ | ⟨_, _⟩)
      · exact h
      · omega
  · refine iff_of_false (hnone hundefined) ?_
    rintro (⟨_, _⟩ | ⟨hbelow, above, habove, _⟩)
    · omega
    · exact hundefined _ ((at?_cons_of_neg hbelow _ stack).trans habove)
  · rw [hloop hv rfl fun key => (at?_cons_of_neg hbelow key stack).trans habove]
    constructor
    · exact fun h => .inr ⟨hbelow, above, habove, h⟩
    · rintro (⟨_, _⟩ | ⟨_, above', habove', h⟩)
      · omega
      · cases habove.symm.trans habove'
        exact h

theorem converts_iff_item {j : Json} (hv : at? stack index = some v) (hv' : v.isTable = false) :
    Converts numbers (n + 1) stack index j ↔ item (n + 1) v = .ok (.ok j) := by
  simp only [Converts, jsonFromLua_of_not_table hv hv', exists_const]
  cases item (n + 1) v <;> simp [Except.map]

theorem rejects_iff_item (hv : at? stack index = some v) (hv' : v.isTable = false) :
    Rejects numbers (n + 1) stack index ↔ ∃ error, item (n + 1) v = .ok (.error error) := by
  simp only [Rejects, jsonFromLua_of_not_table hv hv', exists_const]
  cases item (n + 1) v <;> simp [Except.map]

section Undefined

variable {entries : List (Key × Value)} {j : Json} (hv : at? stack index = some (.table entries))
  (hundefined : ∀ entries, at? (.nil :: stack) index ≠ some (.table entries))

include hv hundefined

theorem not_converts_of_undefined : ¬ Converts numbers (n + 1) stack index j := by
  intro ⟨fuel, h⟩
  rw [jsonFromLua_undefined hv rfl hundefined] at h
  cases h

theorem not_rejects_of_undefined : ¬ Rejects numbers (n + 1) stack index := by
  intro ⟨fuel, error, h⟩
  rw [jsonFromLua_undefined hv rfl hundefined] at h
  cases h

end Undefined

/-- The table of a tree is read if it has no table in it and is traversed in its order. -/
theorem reads_iff_of_represents {entries : List (Key × Value)} {j : Json}
    (h : Represents n (.table entries) j) :
    Reads numbers n entries j ↔
      (∀ entry ∈ entries, entry.2.isTable = false) ∧ InOrder entries j := by
  cases n with
  | zero => cases h
  | succ n =>
      rcases h with h | ⟨_, ⟨⟩, hsequence | hrecord⟩
      · cases h
      · obtain ⟨values, items, hne, hperm, hitems, rfl⟩ := hsequence
        rw [reads_sequence_iff hne hperm hitems]
        constructor
        · intro hscalars
          refine ⟨fun entry hentry => ?_, fun items' heq => ?_⟩
          · obtain ⟨j, hj⟩ := forall_exists_of_forall₂ hscalars entry hentry
            exact isTable_of_scalar? hj
          · cases heq
            exact hscalars
        · exact fun horder => horder.2 items rfl
      · obtain ⟨fields, hkeys, hfields, rfl⟩ := hrecord
        rw [reads_record_iff hkeys hfields]
        exact ⟨fun hflat => ⟨hflat, nofun⟩, And.left⟩

theorem converts_iff_readable (hv : at? stack index = some v) {j : Json} (h : Represents n v j) :
    Converts numbers (n + 1) stack index j ↔ Readable numbers n stack index v j := by
  cases v with
  | table entries =>
      refine (designated_iff (Converts numbers (n + 1) stack · j) hv converts_table_iff
        (not_converts_of_undefined hv)).trans ?_
      rw [reads_iff_of_represents h]
      constructor
      · rintro (⟨hpos, hflat, horder⟩ | ⟨hbelow, above, habove, hreads⟩)
        · exact .flat hpos rfl hflat horder
        · exact .above hbelow rfl habove hreads
      · rintro (⟨⟨⟩⟩ | ⟨hpos, ⟨⟩, hflat, horder⟩ | ⟨hbelow, _, habove, hreads⟩)
        · exact .inl ⟨hpos, hflat, horder⟩
        · exact .inr ⟨hbelow, _, habove, hreads⟩
  | _ =>
      refine iff_of_true ((converts_iff_item hv rfl).mpr ?_) (.scalar rfl)
      exact (item_eq_ok_iff ⟨j, h⟩ n).mpr (scalar?_of_represents h rfl)

theorem rejects_iff_refused (hv : at? stack index = some v) (h : ∀ j, ¬ Represents n v j) :
    Rejects numbers (n + 1) stack index ↔ Refused numbers n stack index v := by
  cases v with
  | table entries =>
      refine (designated_iff (Rejects numbers (n + 1) stack) hv rejects_table_iff
        (not_rejects_of_undefined hv)).trans ?_
      constructor
      · rintro (⟨hpos, hdeclines⟩ | ⟨hbelow, above, habove, hdeclines⟩)
        · exact .entry hpos rfl hdeclines
        · exact .above hbelow rfl habove hdeclines
      · rintro (⟨⟨⟩⟩ | ⟨⟨⟩, _⟩ | ⟨hpos, ⟨⟩, hdeclines⟩ | ⟨hbelow, _, habove, hdeclines⟩)
        · exact .inl ⟨hpos, hdeclines⟩
        · exact .inr ⟨hbelow, _, habove, hdeclines⟩
  | string s =>
      rw [rejects_iff_item hv rfl, item]
      by_cases hlong : (untilNul s).length > 8 * 1024
      · rw [if_pos hlong]
        exact iff_of_true ⟨_, rfl⟩ (.long rfl hlong)
      · rw [if_neg hlong]
        refine iff_of_false (by simp) ?_
        rintro (⟨⟨⟩⟩ | ⟨⟨⟩, hlength⟩ | ⟨_, ⟨⟩, _⟩ | ⟨_, ⟨⟩, _, _⟩)
        exact hlong hlength
  | reference id => exact iff_of_true ((rejects_iff_item hv rfl).mpr ⟨_, rfl⟩) (.reference rfl)
  | _ => exact absurd (represents_of_scalar? rfl) (h _)

end Indices

/-! ## Fields -/

/-- The text of a field, as C reads it. -/
def fieldText (numbers : Numbers) (entries : List (Key × Value)) (key : String) : Option Bytes :=
  (tostring numbers (get entries (.string (cstr key)))).map fun t => untilNul t.1

section Fields

variable {numbers : Numbers} {entries : List (Key × Value)}

theorem optTableString_eq_ok {key : String} {maxBytes : ℕ} {got : Option Bytes}
    (h : optTableString numbers entries key maxBytes = .ok got) :
    got = fieldText numbers entries key := by
  rw [optTableString] at h
  rw [fieldText]
  split at h
  · rename_i hnil
    rw [hnil]
    exact (Except.ok.inj h).symm
  · split at h
    · cases h
    · rename_i hstring
      split at h
      · cases h
      · rw [hstring]
        exact (Except.ok.inj h).symm

end Fields

/-! ## Main results -/

/-- A value tree of at most `n` levels is converted, at depth `16 - n`, exactly if it is readable at
its index; a value that is no such tree is refused exactly as `Refused` says. -/
theorem json_from_lua_faithful_iff {n : ℕ} {stack : Stack} {index : ℤ} {v : Value}
    (numbers : Numbers) (hv : at? stack index = some v) :
    (∀ j, Represents n v j →
      (Converts numbers (n + 1) stack index j ↔ Readable numbers n stack index v j)) ∧
    ((∀ j, ¬ Represents n v j) →
      (Rejects numbers (n + 1) stack index ↔ Refused numbers n stack index v)) :=
  ⟨fun _ => converts_iff_readable hv, rejects_iff_refused hv⟩

/-- Numbers as their integral part. -/
def wholeNumbers : Numbers where
  text q := Format.decimal q.floor.toNat
  parse _ := none

/-- A table with one member. -/
def member (key : String) (value : Value) : Value := .table [(.string (cstr key), value)]

/-- A table with two members. -/
def pair : Value :=
  .table [(.string (cstr "a"), .boolean true), (.string (cstr "b"), .number 2)]

theorem json_from_lua_faithful_flat :
    Converts wholeNumbers 17 [pair] 1 (.object [(cstr "a", .bool true), (cstr "b", .float 2)]) ∧
      Rejects wholeNumbers 17 [member "f" (.reference 0)] 1 := by
  constructor
  · have hrepresents : Represents 16 pair
        (.object (assignAll [(cstr "a", .bool true), (cstr "b", .float 2)] [])) :=
      .inr ⟨_, rfl, .inr ⟨_, by decide, .cons ⟨rfl, by decide, represents_of_scalar? rfl⟩
        (.cons ⟨rfl, by decide, represents_of_scalar? rfl⟩ .nil), rfl⟩⟩
    refine ((json_from_lua_faithful_iff wholeNumbers rfl).1 _ hrepresents).mpr
      (.flat (by decide) rfl (fun entry hentry => ?_) nofun)
    simp only [List.mem_cons, List.not_mem_nil, or_false] at hentry
    rcases hentry with rfl | rfl <;> rfl
  · have hdeclines : Declines wholeNumbers 16 [(.string (cstr "f"), .reference 0)] :=
      ⟨_, _, .refused rfl rfl, rfl⟩
    refine ((json_from_lua_faithful_iff wholeNumbers rfl).2 ?_).mpr
      (.entry (by decide) rfl hdeclines)
    rintro j (h | ⟨_, ⟨⟩, ⟨values, _, _, hperm, _⟩ | ⟨fields, _, hfields, _⟩⟩)
    · cases h
    · exact absurd (mem_indexed (hperm.mem_iff.mp (List.mem_singleton_self _))).1 (by decide)
    · obtain ⟨field, -, -, h⟩ := forall_exists_of_forall₂ hfields _ (List.mem_singleton_self _)
      cases scalar?_of_represents h rfl

theorem represents_member {n : ℕ} {key : String} {value : Value} {j : Json} (hkey : 0 ∉ cstr key)
    (h : Represents n value j) :
    Represents (n + 1) (member key value) (.object [(cstr key, j)]) :=
  .inr ⟨_, rfl, .inr ⟨[(cstr key, j)], by simp, .cons ⟨rfl, hkey, h⟩ .nil, rfl⟩⟩

/-- A table in a table is not converted, and no table is at the top of the stack; a string with a
NUL in it is cut there and not refused. -/
theorem nested_table_not_converted :
    (Represents 16 (member "a" (member "b" (.boolean true)))
        (.object [(cstr "a", .object [(cstr "b", .bool true)])]) ∧
      ¬ Converts wholeNumbers 17 [member "a" (member "b" (.boolean true))] 1
        (.object [(cstr "a", .object [(cstr "b", .bool true)])])) ∧
    (Represents 16 (member "b" (.boolean true)) (.object [(cstr "b", .bool true)]) ∧
      ¬ Converts wholeNumbers 17 [member "b" (.boolean true)] (-1)
        (.object [(cstr "b", .bool true)])) ∧
    (∀ j, ¬ Represents 16 (.string [0x61, 0]) j) ∧
      ¬ Rejects wholeNumbers 17 [.string [0x61, 0]] 1 := by
  have hflat {n : ℕ} :
      Represents (n + 1) (member "b" (.boolean true)) (.object [(cstr "b", .bool true)]) :=
    represents_member (by decide) (represents_of_scalar? rfl)
  have hnested : Represents 16 (member "a" (member "b" (.boolean true)))
      (.object [(cstr "a", .object [(cstr "b", .bool true)])]) :=
    represents_member (by decide) hflat
  have hnul (j : Json) : ¬ Represents 16 (.string [0x61, 0]) j := fun h => by
    cases scalar?_of_represents h rfl
  refine ⟨⟨hnested, fun h => ?_⟩, ⟨hflat, fun h => ?_⟩, hnul, fun h => ?_⟩
  · have hreadable := (converts_iff_readable rfl hnested).mp h
    rcases hreadable with _ | ⟨_, ⟨⟩, hscalars, _⟩ | ⟨hindex, _, _, _⟩
    · contradiction
    · exact absurd (hscalars _ (List.mem_singleton_self _)) (by decide)
    · omega
  · exact not_converts_of_undefined rfl (by simp) h
  · obtain ⟨error, herror⟩ := (rejects_iff_item rfl rfl).mp h
    cases herror

end Ezcap.Drivers
