import Mathlib.Data.List.Infix

/-! Programs that read a memory by address, with checks between the reads. A program runs on any
memory, whatever its checks say. Its checked version fails at a check that is false and at a
read beyond the memory it is given. -/

inductive Access (β α : Type) where
  | done (a : α)
  | read (i : ℕ) (next : β → Access β α)
  | check (ok : Bool) (next : Access β α)

namespace Access

variable {β α γ : Type}

def bind (p : Access β α) (f : α → Access β γ) : Access β γ :=
  match p with
  | done a => f a
  | read i next => .read i fun b => (next b).bind f
  | check ok next => .check ok (next.bind f)

instance : Monad (Access β) where
  pure := done
  bind := bind

/-- The result on an unbounded memory. -/
def run (memory : ℕ → β) : Access β α → α
  | done a => a
  | read i next => (next (memory i)).run memory
  | check _ next => next.run memory

/-- Every check of the run holds, and every read is one of the first `n` addresses. -/
def Within (memory : ℕ → β) (n : ℕ) : Access β α → Prop
  | done _ => True
  | read i next => i < n ∧ (next (memory i)).Within memory n
  | check ok next => ok = true ∧ next.Within memory n

/-- The result on a memory that ends, or `none` at the first failure. -/
def checked (memory : List β) : Access β α → Option α
  | done a => some a
  | read i next => memory[i]?.bind fun b => (next b).checked memory
  | check ok next => if ok then next.checked memory else none

/-- Read one place. -/
def load (i : ℕ) : Access β β := .read i done

/-- Read the `n` places from `i` on. -/
def loads : ℕ → ℕ → Access β (List β)
  | _, 0 => return []
  | i, n + 1 => do
      let b ← load i
      let rest ← loads (i + 1) n
      return b :: rest

def require (ok : Bool) : Access β Unit := .check ok (done ())

/-! ## Composition -/

@[simp] theorem run_pure (memory : ℕ → β) (a : α) : (pure a : Access β α).run memory = a := rfl

@[simp] theorem run_bind (memory : ℕ → β) (p : Access β α) (f : α → Access β γ) :
    (p >>= f).run memory = (f (p.run memory)).run memory := by
  induction p with
  | done a => rfl
  | read i next ih => exact ih (memory i)
  | check ok next ih => exact ih

@[simp] theorem run_load (memory : ℕ → β) (i : ℕ) : (load i).run memory = memory i := rfl

@[simp] theorem within_pure (memory : ℕ → β) (n : ℕ) (a : α) :
    (pure a : Access β α).Within memory n := trivial

@[simp] theorem within_bind (memory : ℕ → β) (n : ℕ) (p : Access β α) (f : α → Access β γ) :
    (p >>= f).Within memory n ↔ p.Within memory n ∧ (f (p.run memory)).Within memory n := by
  induction p with
  | done a => exact (true_and _).to_iff.symm
  | read i next ih => exact (and_congr_right fun _ => ih (memory i)).trans and_assoc.symm
  | check ok next ih => exact (and_congr_right fun _ => ih).trans and_assoc.symm

@[simp] theorem within_load (memory : ℕ → β) (n i : ℕ) :
    (load i).Within memory n ↔ i < n := by
  simp [load, Within]

@[simp] theorem checked_pure (memory : List β) (a : α) :
    (pure a : Access β α).checked memory = some a := rfl

@[simp] theorem checked_bind (memory : List β) (p : Access β α) (f : α → Access β γ) :
    (p >>= f).checked memory = (p.checked memory).bind fun a => (f a).checked memory := by
  induction p with
  | done a => rfl
  | read i next ih =>
      change (memory[i]?.bind fun b => ((next b).bind f).checked memory) = _
      rw [checked, Option.bind_assoc]
      exact congrArg _ (funext ih)
  | check ok next ih =>
      cases ok with
      | false => rfl
      | true => exact ih

@[simp] theorem checked_load (memory : List β) (i : ℕ) : (load i).checked memory = memory[i]? := by
  simp [load, checked]

@[simp] theorem run_loads (memory : ℕ → β) (i n : ℕ) :
    (loads i n).run memory = (List.range' i n).map memory := by
  induction n generalizing i with
  | zero => rfl
  | succ n ih => simp [loads, ih, List.range'_succ]

theorem within_loads (memory : ℕ → β) {bound i n : ℕ} (h : i + n ≤ bound) :
    (loads i n).Within memory bound := by
  induction n generalizing i with
  | zero => trivial
  | succ n ih =>
      have hrest := ih (i := i + 1) (by omega)
      simpa [loads, hrest] using show i < bound by omega

theorem checked_loads {memory : List β} {i n : ℕ} (h : i + n ≤ memory.length) :
    (loads i n).checked memory = some ((memory.drop i).take n) := by
  induction n generalizing i with
  | zero => simp [loads]
  | succ n ih =>
      have hlt : i < memory.length := by omega
      have hrest := ih (i := i + 1) (by omega)
      rw [List.drop_eq_getElem_cons hlt, List.take_succ_cons]
      simp [loads, hlt, hrest]

@[simp] theorem checked_require (memory : List β) (ok : Bool) :
    (require ok).checked memory = if ok then some () else none := rfl

/-- The checked version succeeds exactly if nothing goes wrong in the run, with its result. -/
theorem checked_eq_some_iff {memory : ℕ → β} {span : List β}
    (h : ∀ i b, span[i]? = some b → memory i = b) {p : Access β α} {a : α} :
    p.checked span = some a ↔ p.Within memory span.length ∧ p.run memory = a := by
  induction p with
  | done b => simp [checked, Within, run]
  | read i next ih =>
      rw [checked, Within, run, Option.bind_eq_some_iff]
      constructor
      · intro ⟨b, hb, hnext⟩
        rw [h i b hb, and_assoc, ← ih b]
        exact ⟨(List.getElem?_eq_some_iff.mp hb).1, hnext⟩
      · intro ⟨⟨hi, hnext⟩, hrun⟩
        have hb := List.getElem?_eq_getElem hi
        rw [h i _ hb] at hnext hrun
        exact ⟨_, hb, (ih _).mpr ⟨hnext, hrun⟩⟩
  | check ok next ih =>
      rw [checked, Within, run]
      cases ok with
      | false => simp
      | true => simpa using ih

/-! ## Spans -/

/-- A part of the memory, given by where it starts and by its size. -/
structure Span where
  offset : ℕ
  size : ℕ

namespace Span

/-- The element at `i`, behind a check that the span has it. -/
def get (s : Span) (i : ℕ) : Access β β := do
  require (i < s.size)
  load (s.offset + i)

/-- The `n` elements from `i` on. -/
def getMany (s : Span) (i n : ℕ) : Access β (List β) := do
  require (i + n ≤ s.size)
  loads (s.offset + i) n

def subspan (s : Span) (offset count : ℕ) : Access β Span := do
  require (offset + count ≤ s.size)
  return ⟨s.offset + offset, count⟩

/-- What the span has is `data`. -/
structure Holds (s : Span) (memory data : List β) : Prop where
  size : s.size = data.length
  isPrefix : data <+: memory.drop s.offset

theorem holds_whole (memory : List β) : (⟨0, memory.length⟩ : Span).Holds memory memory :=
  ⟨rfl, List.prefix_rfl⟩

variable {s : Span} {memory data : List β}

theorem Holds.getElem? (h : s.Holds memory data) {i : ℕ} (hi : i < data.length) :
    memory[s.offset + i]? = some data[i] := by
  rw [← List.getElem?_drop]
  exact List.prefix_iff_getElem?.mp h.isPrefix i hi

theorem Holds.checked_get (h : s.Holds memory data) {i : ℕ} (hi : i < data.length) (d : β) :
    (s.get i).checked memory = some (data.getD i d) := by
  simp [get, h.size, hi, h.getElem? hi]

theorem Holds.length_le (h : s.Holds memory data) (hpos : 0 < data.length) :
    s.offset + data.length ≤ memory.length := by
  have hle := h.isPrefix.length_le
  rw [List.length_drop] at hle
  omega

theorem Holds.checked_getMany (h : s.Holds memory data) {i n : ℕ} (hpos : 0 < n)
    (hi : i + n ≤ data.length) :
    (s.getMany i n).checked memory = some ((data.drop i).take n) := by
  have hle := h.length_le (by omega)
  have htake : (memory.drop (s.offset + i)).take n = (data.drop i).take n := by
    obtain ⟨rest, hrest⟩ := h.isPrefix
    rw [← List.drop_drop, ← hrest, List.drop_append_of_le_length (by omega),
      List.take_append_of_le_length (by rw [List.length_drop]; omega)]
  simp [getMany, h.size, hi, checked_loads (show s.offset + i + n ≤ memory.length by omega), htake]

theorem Holds.checked_subspan (h : s.Holds memory data) {offset count : ℕ}
    (hle : offset + count ≤ data.length) :
    (s.subspan offset count).checked memory = some ⟨s.offset + offset, count⟩ := by
  simp [subspan, h.size, hle]

theorem Holds.subspan (h : s.Holds memory data) {offset count : ℕ}
    (hle : offset + count ≤ data.length) :
    (⟨s.offset + offset, count⟩ : Span).Holds memory ((data.drop offset).take count) where
  size := by
    rw [List.length_take, List.length_drop, Nat.min_eq_left (by omega)]
  isPrefix := by
    have hdrop := List.IsPrefix.drop h.isPrefix offset
    rw [List.drop_drop] at hdrop
    exact (List.take_prefix count _).trans hdrop

end Span

/-! ## Loops -/

/-- A loop whose body returns or goes on, with a check that it takes at most `turns` turns. -/
def whileLoop {σ ρ : Type} (guard : σ → Bool) (body : σ → Access β (ρ ⊕ σ)) (exit : σ → ρ) :
    ℕ → σ → Access β ρ
  | 0, s => do
      require (!guard s)
      return exit s
  | turns + 1, s =>
      if guard s then do
        match ← body s with
        | .inl result => return result
        | .inr next => whileLoop guard body exit turns next
      else return exit s

end Access
