import Ezcap.Library.Control
import Ezcap.Library.StdString
import Mathlib.Data.List.Forall2
import Mathlib.Data.Rat.Defs

/-! The values of Lua, the stack of its C interface, and `lua_next`. -/

namespace Lua

open StdString

/-! ## Values -/

/-- What a table is indexed with. A table, a function or another object is known by a reference. -/
inductive Key where
  | boolean (b : Bool)
  | number (q : ℚ)
  | string (s : Bytes)
  | reference (id : ℕ)
  deriving DecidableEq

/-- A table has its entries in the order of `lua_next`, and no metatable. A number is rational. -/
inductive Value where
  | nil
  | boolean (b : Bool)
  | number (q : ℚ)
  | string (s : Bytes)
  | table (entries : List (Key × Value))
  | reference (id : ℕ)

def Key.value : Key → Value
  | boolean b => .boolean b
  | number q => .number q
  | string s => .string s
  | reference id => .reference id

def Key.isNumber : Key → Bool
  | number _ => true
  | _ => false

namespace Value

def key? : Value → Option Key
  | boolean b => some (.boolean b)
  | number q => some (.number q)
  | string s => some (.string s)
  | reference id => some (.reference id)
  | nil | table _ => none

def isNil : Value → Bool
  | nil => true
  | _ => false

def isNumber : Value → Bool
  | number _ => true
  | _ => false

@[simp] theorem isNumber_value (k : Key) : k.value.isNumber = k.isNumber := by cases k <;> rfl

def isTable : Value → Bool
  | table _ => true
  | _ => false

/-- `lua_toboolean`. -/
def toboolean : Value → Bool
  | nil | boolean false => false
  | _ => true

end Value

/-- How numbers are written and read. -/
structure Numbers where
  text : ℚ → Bytes
  parse : Bytes → Option ℚ

/-- `lua_tostring`: the text, and what then stands in the place of the value. -/
def tostring (numbers : Numbers) : Value → Option (Bytes × Value)
  | .string s => some (s, .string s)
  | .number q => some (numbers.text q, .string (numbers.text q))
  | _ => none

/-- `lua_isnumber` together with `lua_tonumber`. -/
def tonumber (numbers : Numbers) : Value → Option ℚ
  | .number q => some q
  | .string s => numbers.parse s
  | _ => none

/-- What a table holds under a key. -/
def get (entries : List (Key × Value)) (key : Key) : Value :=
  ((entries.find? fun e => e.1 = key).map Prod.snd).getD .nil

/-- `lua_objlen`: the last index before the first that is not there. -/
def objlen (entries : List (Key × Value)) : ℕ :=
  ((List.range (entries.length + 1)).find? fun n : ℕ =>
    (get entries (.number (n + 1 : ℕ))).isNil).getD 0

/-! ## The stack -/

/-- The top comes first. -/
abbrev Stack := List Value

/-- How a call ends without returning: a condition of the interface does not hold, an error is
raised, or it has not ended yet. -/
inductive Fault where
  | undefined
  | raised (message : Bytes)
  | unfinished
  deriving DecidableEq

/-- With enough fuel, a run comes to one of these outcomes, and to any of them that there is. -/
structure Settles {α γ : Type*} (run : ℕ → Except Fault γ) (outcomes : Except Fault α → Prop)
    (f : α → γ) : Prop where
  cases (fuel : ℕ) : run fuel = .error .unfinished ∨
    ∃ outcome, outcomes outcome ∧ run fuel = outcome.map f
  exists_eq {outcome : Except Fault α} (h : outcomes outcome) :
    ∃ bound, ∀ fuel, bound < fuel → run fuel = outcome.map f

namespace Settles

variable {α β γ δ : Type*} {run : ℕ → Except Fault γ} {outcomes : Except Fault α → Prop}

theorem map {f : α → γ} (h : Settles run outcomes f) (g : γ → δ) :
    Settles (fun fuel => (run fuel).map g) outcomes (g ∘ f) where
  cases fuel := by
    rcases h.cases fuel with h | ⟨outcome, houtcome, h⟩
    · exact .inl (by rw [h]; rfl)
    · exact .inr ⟨outcome, houtcome, by rw [h, Except.map_map]⟩
  exists_eq houtcome := by
    obtain ⟨bound, hbound⟩ := h.exists_eq houtcome
    exact ⟨bound, fun fuel hfuel => by rw [hbound fuel hfuel, Except.map_map]⟩

/-- A part of what is made of the outcomes belongs to them. -/
theorem split {f : β → γ} {g : α → β} (h : Settles run outcomes (f ∘ g)) :
    Settles run (fun outcome => ∃ inner, outcomes inner ∧ outcome = inner.map g) f where
  cases fuel := (h.cases fuel).imp_right fun ⟨inner, hinner, h⟩ =>
    ⟨_, ⟨inner, hinner, rfl⟩, by rw [h, Except.map_map]⟩
  exists_eq := by
    rintro _ ⟨inner, hinner, rfl⟩
    rw [Except.map_map]
    exact h.exists_eq hinner

theorem exists_eq_ok_iff {f : α → γ} (h : Settles run outcomes f) {c : γ} :
    (∃ fuel, run fuel = .ok c) ↔ ∃ a, outcomes (.ok a) ∧ f a = c := by
  constructor
  · rintro ⟨fuel, hrun⟩
    rcases h.cases fuel with hcase | ⟨outcome, houtcome, hcase⟩ <;> rw [hrun] at hcase
    · cases hcase
    · obtain ⟨a, rfl, heq⟩ := Except.map_eq_ok_iff.mp hcase.symm
      exact ⟨a, houtcome, heq⟩
  · rintro ⟨a, ha, rfl⟩
    obtain ⟨bound, hbound⟩ := h.exists_eq ha
    exact ⟨bound + 1, hbound _ (Nat.lt_succ_self _)⟩

end Settles

/-- The value at an index: a positive one counts from the bottom, a negative one from the top. -/
def at? (stack : Stack) (index : ℤ) : Option Value :=
  if 0 < index then stack.reverse[index.toNat - 1]?
  else if index < 0 then stack[(-index).toNat - 1]?
  else none

section Indices

variable {stack : Stack} {index : ℤ} {v : Value}

@[simp] theorem at?_top (x : Value) (stack : Stack) : at? (x :: stack) (-1) = some x := rfl

@[simp] theorem at?_below_top (x y : Value) (stack : Stack) :
    at? (x :: y :: stack) (-2) = some y := rfl

theorem at?_cons_of_pos (h : at? stack index = some v) (hindex : 0 < index) (x : Value) :
    at? (x :: stack) index = some v := by
  rw [at?, if_pos hindex] at h ⊢
  obtain ⟨hlength, -⟩ := List.getElem?_eq_some_iff.mp h
  rw [List.reverse_cons, List.getElem?_append_left hlength, h]

theorem at?_cons_of_neg (hindex : index < -1) (x : Value) (stack : Stack) :
    at? (x :: stack) index = at? stack (index + 1) := by
  have hnat : (-index).toNat - 1 = (-(index + 1)).toNat - 1 + 1 := by omega
  rw [at?, if_neg (by omega), if_pos (by omega), at?, if_neg (by omega), if_pos (by omega), hnat,
    List.getElem?_cons_succ]

end Indices

/-! ## Traversal -/

/-- The entry that follows a key, the first one for nil; the outer `none` is a key that is not
there. -/
def after (entries : List (Key × Value)) (key : Value) : Option (Option (Key × Value)) :=
  match key with
  | .nil => some entries.head?
  | key =>
      match key.key? with
      | none => none
      | some k =>
          match entries.dropWhile fun e => e.1 ≠ k with
          | [] => none
          | _ :: rest => some rest.head?

@[simp] theorem after_nil (entries : List (Key × Value)) :
    after entries .nil = some entries.head? := rfl

theorem after_value (entries : List (Key × Value)) (k : Key) :
    after entries k.value = match entries.dropWhile fun e => e.1 ≠ k with
      | [] => none
      | _ :: rest => some rest.head? := by
  cases k <;> rfl

theorem after_append {before later : List (Key × Value)} {k : Key} {x : Value}
    (h : k ∉ before.map Prod.fst) :
    after (before ++ (k, x) :: later) k.value = some later.head? := by
  have hbefore : ∀ e ∈ before, decide (e.1 ≠ k) = true := by
    intro e he
    have hne : e.1 ≠ k := fun heq => h (heq ▸ List.mem_map_of_mem he)
    simpa using hne
  rw [after_value, List.dropWhile_append_of_pos hbefore]
  simp

/-- `lua_next`: the key on the top is popped; the next one and its value are pushed, if there are
any. -/
def next (stack : Stack) (index : ℤ) : Except Fault (Stack × Bool) :=
  match stack, at? stack index with
  | key :: rest, some (.table entries) =>
      match after entries key with
      | none => .error (.raised (cstr "invalid key to 'next'"))
      | some none => .ok (rest, false)
      | some (some (k, x)) => .ok (x :: k.value :: rest, true)
  | _, _ => .error .undefined

theorem next_of_table {entries : List (Key × Value)} {key : Value} {rest : Stack} {index : ℤ}
    (h : at? (key :: rest) index = some (.table entries)) :
    next (key :: rest) index =
      match after entries key with
      | none => .error (.raised (cstr "invalid key to 'next'"))
      | some none => .ok (rest, false)
      | some (some (k, x)) => .ok (x :: k.value :: rest, true) := by
  simp only [next, h]

theorem next_undefined {stack : Stack} {index : ℤ}
    (h : ∀ entries, at? stack index ≠ some (.table entries)) :
    next stack index = .error .undefined := by
  rw [next.eq_def]
  split
  · exact absurd ‹at? _ index = _› (h _)
  · rfl

/-- The loop over a table, from the key on the top: the body finds the value and the key on the top.
It leaves them there, and where it fails both are popped. -/
def traverse {α β ε : Type*} (collect : β → α → β) (index : ℤ)
    (body : Stack → Except Fault (Stack × Except ε α)) :
    ℕ → Stack → β → Except Fault (Stack × Except ε β)
  | 0, _, _ => .error .unfinished
  | fuel + 1, stack, done =>
      match next stack index with
      | .error fault => .error fault
      | .ok (stack, false) => .ok (stack, .ok done)
      | .ok (stack, true) =>
          match body stack with
          | .error fault => .error fault
          | .ok (stack, .error e) => .ok (stack.drop 2, .error e)
          | .ok (stack, .ok item) =>
              traverse collect index body fuel (stack.drop 1) (collect done item)

section Traversal

variable {α β ε : Type*}

/-- What the body does at an entry: the key that it leaves, and its result. -/
abbrev Visit (α ε : Type*) := Key → Value → Except Fault (Value × Except ε α)

variable (entries : List (Key × Value)) (visit : Visit α ε)

/-- What the loop from this key comes to: the items of all entries from there on, unless it stops
short at a key that is not there or at an entry at which the body fails or does not return. -/
inductive Visits : Value → Except Fault (Except ε (List α)) → Prop
  | done {key : Value} (h : after entries key = some none) : Visits key (.ok (.ok []))
  | lost {key : Value} (h : after entries key = none) :
      Visits key (.error (.raised (cstr "invalid key to 'next'")))
  | refused {key key' x : Value} {k : Key} {e : ε} (h : after entries key = some (some (k, x)))
      (hvisit : visit k x = .ok (key', .error e)) : Visits key (.ok (.error e))
  | faulted {key x : Value} {k : Key} {fault : Fault} (h : after entries key = some (some (k, x)))
      (hvisit : visit k x = .error fault) : Visits key (.error fault)
  | more {key key' x : Value} {k : Key} {item : α}
      {later outcome : Except Fault (Except ε (List α))}
      (h : after entries key = some (some (k, x))) (hvisit : visit k x = .ok (key', .ok item))
      (hrest : Visits key' later) (heq : outcome = later.map (Except.map (item :: ·))) :
      Visits key outcome

variable {entries : List (Key × Value)} {visit : Visit α ε} {collect : β → α → β} {index : ℤ}
  {body : Stack → Except Fault (Stack × Except ε α)} {rest : Stack}

theorem map_cons_foldl (later : Except Fault (Except ε (List α))) (item : α) (done : β) :
    (later.map fun items => (rest, items.map (List.foldl collect (collect done item)))) =
      (later.map (Except.map (item :: ·))).map fun items =>
        (rest, items.map (List.foldl collect done)) := by
  rw [Except.map_map]
  refine congrArg later.map (funext fun items => ?_)
  rw [Function.comp_apply, Except.map_map]
  rfl

section Loop

variable (hat : ∀ key, at? (key :: rest) index = some (.table entries))
  (hbody : ∀ k x, body (x :: k.value :: rest) =
    (visit k x).map fun left => (x :: left.1 :: rest, left.2))

include hat hbody

theorem traverse_succ (fuel : ℕ) (key : Value) (done : β) :
    traverse collect index body (fuel + 1) (key :: rest) done =
      match after entries key with
      | none => .error (.raised (cstr "invalid key to 'next'"))
      | some none => .ok (rest, .ok done)
      | some (some (k, x)) =>
          match visit k x with
          | .error fault => .error fault
          | .ok (_, .error e) => .ok (rest, .error e)
          | .ok (key', .ok item) =>
              traverse collect index body fuel (key' :: rest) (collect done item) := by
  rw [traverse, next_of_table (hat key)]
  cases after entries key with
  | none => rfl
  | some entry =>
      cases entry with
      | none => rfl
      | some entry =>
          simp only [hbody]
          cases visit entry.1 entry.2 with
          | error fault => rfl
          | ok left => cases left with | mk key' result => cases result <;> rfl

theorem traverse_cases (fuel : ℕ) (key : Value) (done : β) :
    traverse collect index body fuel (key :: rest) done = .error .unfinished ∨
      ∃ outcome, Visits entries visit key outcome ∧
        traverse collect index body fuel (key :: rest) done =
          outcome.map fun items => (rest, items.map (List.foldl collect done)) := by
  induction fuel generalizing key done with
  | zero => exact .inl rfl
  | succ fuel ih =>
      rw [traverse_succ hat hbody]
      cases hafter : after entries key with
      | none => exact .inr ⟨_, .lost hafter, rfl⟩
      | some entry =>
          cases entry with
          | none => exact .inr ⟨_, .done hafter, rfl⟩
          | some entry =>
              cases hvisit : visit entry.1 entry.2 with
              | error fault => exact .inr ⟨_, .faulted hafter hvisit, by simp only [hvisit]; rfl⟩
              | ok left =>
                  obtain ⟨key', outcome⟩ := left
                  simp only [hvisit]
                  cases outcome with
                  | error e => exact .inr ⟨_, .refused hafter hvisit, rfl⟩
                  | ok item =>
                      rcases ih key' (collect done item) with h | ⟨later, h, heq⟩
                      · exact .inl h
                      · exact .inr ⟨_, .more hafter hvisit h rfl,
                          heq.trans (map_cons_foldl later item done)⟩

end Loop

theorem Visits.exists_traverse_eq {key : Value} {outcome : Except Fault (Except ε (List α))}
    (h : Visits entries visit key outcome)
    (hat : ∀ key, at? (key :: rest) index = some (.table entries)) :
    ∃ bound, ∀ fuel, bound < fuel → ∀ body : Stack → Except Fault (Stack × Except ε α),
      (∀ k x, body (x :: k.value :: rest) =
        (visit k x).map fun left => (x :: left.1 :: rest, left.2)) → ∀ done : β,
      traverse collect index body fuel (key :: rest) done =
        outcome.map fun items => (rest, items.map (List.foldl collect done)) := by
  induction h with
  | more h hvisit _ heq ih =>
      obtain ⟨bound, hbound⟩ := ih
      refine ⟨bound + 1, fun fuel hfuel body hbody done => ?_⟩
      obtain ⟨fuel, rfl⟩ := Nat.exists_eq_add_of_lt hfuel
      rw [traverse_succ hat hbody, h]
      simp only [hvisit]
      rw [hbound _ (by omega) body hbody, heq, map_cons_foldl]
  | done h | lost h =>
      refine ⟨0, fun fuel hfuel body hbody done => ?_⟩
      obtain ⟨fuel, rfl⟩ := Nat.exists_eq_add_of_lt hfuel
      rw [traverse_succ hat hbody, h]
      rfl
  | refused h hvisit | faulted h hvisit =>
      refine ⟨0, fun fuel hfuel body hbody done => ?_⟩
      obtain ⟨fuel, rfl⟩ := Nat.exists_eq_add_of_lt hfuel
      rw [traverse_succ hat hbody, h]
      simp only [hvisit]
      rfl

/-! The loop of a call, whose body is run with the same fuel and whose result is made of what it has
collected. -/

section Calls

variable {γ : Type*} (collect : β → α → β) (f : β → γ) (done : β)
  (bodies : ℕ → Stack → Except Fault (Stack × Except ε α))

def loop (index : ℤ) (rest : Stack) (key : Value) (fuel : ℕ) :
    Except Fault (Stack × Except ε γ) :=
  (traverse collect index (bodies fuel) fuel (key :: rest) done).map fun left =>
    (left.1, left.2.map f)

theorem settles_loop (hat : ∀ key, at? (key :: rest) index = some (.table entries))
    (hbodies : ∀ fuel k x, bodies fuel (x :: k.value :: rest) =
      (visit k x).map fun left => (x :: left.1 :: rest, left.2)) (key : Value) :
    Settles (loop collect f done bodies index rest key) (Visits entries visit key)
      fun items => (rest, (items.map (List.foldl collect done)).map f) := by
  refine Settles.map ⟨fun fuel => traverse_cases hat (hbodies fuel) fuel key done, fun h => ?_⟩ _
  obtain ⟨bound, hbound⟩ := h.exists_traverse_eq hat
  exact ⟨bound, fun fuel hfuel => hbound fuel hfuel _ (hbodies fuel) done⟩

end Calls

/-- A body that leaves the keys as they are is taken through the entries in their order. -/
theorem visits_ok_iff {before later : List (Key × Value)} {key : Value} {items : List α}
    (hsplit : entries = before ++ later) (hkeys : (entries.map Prod.fst).Nodup)
    (hkept : ∀ entry ∈ entries, ∀ key' item, visit entry.1 entry.2 = .ok (key', .ok item) →
      key' = entry.1.value)
    (hkey : after entries key = some later.head?) :
    Visits entries visit key (.ok (.ok items)) ↔
      List.Forall₂ (fun entry item => visit entry.1 entry.2 = .ok (entry.1.value, .ok item))
        later items := by
  induction later generalizing before key items with
  | nil =>
      constructor
      · intro h
        cases h with
        | done _ => exact .nil
        | more h _ _ _ => rw [hkey] at h; cases h
      · intro h
        cases h
        exact .done hkey
  | cons entry later ih =>
      have hnext : after entries entry.1.value = some later.head? := by
        rw [hsplit, List.map_append, List.map_cons] at hkeys
        rw [hsplit]
        exact after_append fun hmem =>
          (List.nodup_append.mp hkeys).2.2 _ hmem _ (by simp) rfl
      have hsplit' : entries = (before ++ [entry]) ++ later := by simp [hsplit]
      constructor
      · intro h
        cases h with
        | done h => rw [hkey] at h; cases h
        | more h hvisit hrest heq =>
            obtain rfl : entry = (_, _) := Option.some.inj (Option.some.inj (hkey.symm.trans h))
            obtain rfl := hkept (_, _) (by simp [hsplit]) _ _ hvisit
            obtain ⟨_, rfl, heq'⟩ := Except.map_eq_ok_iff.mp heq.symm
            obtain ⟨_, rfl, rfl⟩ := Except.map_eq_ok_iff.mp heq'
            exact .cons hvisit ((ih hsplit' hnext).mp hrest)
      · intro h
        cases h with
        | cons hvisit hrest => exact .more hkey hvisit ((ih hsplit' hnext).mpr hrest) rfl

end Traversal

end Lua
