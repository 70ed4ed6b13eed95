import Mathlib.Data.List.Basic
import Mathlib.Data.List.Induction
import Mathlib.Data.List.Perm.Basic
import Mathlib.Logic.Function.Basic

/-! Read-modify-write requests on a shared cell. Each request copies the cell, edits
its copy and later writes it back; copying and writing back are atomic, nothing in
between is. A schedule is an interleaving of these steps. -/

namespace ReadModifyWrite

variable {R P : Type*} [DecidableEq R]

inductive Step (R : Type*) where
  | read (r : R)
  | write (r : R)
  deriving DecidableEq

/-- The shared value and the edited copies not yet written back. -/
structure Cell (R P : Type*) where
  value : P
  copies : R → Option P

/-- `update r p` is the copy of `p` as request `r` edits it; `none` when it gives up. -/
def Cell.step (update : R → P → Option P) (cell : Cell R P) : Step R → Cell R P
  | .read r => { cell with copies := Function.update cell.copies r (update r cell.value) }
  | .write r =>
      match cell.copies r with
      | none => cell
      | some p => { value := p, copies := Function.update cell.copies r none }

def Cell.run (update : R → P → Option P) (cell : Cell R P) (schedule : List (Step R)) : Cell R P :=
  schedule.foldl (Cell.step update) cell

def Cell.start (init : P) : Cell R P := ⟨init, fun _ => none⟩

/-- One request on its own, from copying to writing back. -/
def perform (update : R → P → Option P) (p : P) (r : R) : P := (update r p).getD p

def reads (schedule : List (Step R)) : List R :=
  schedule.filterMap fun | .read r => some r | .write _ => none

def writes (schedule : List (Step R)) : List R :=
  schedule.filterMap fun | .write r => some r | .read _ => none

/-- Which requests have copied the cell since it was last written. -/
def freshAfter (fresh : R → Bool) : List (Step R) → R → Bool
  | [] => fresh
  | .read r :: schedule => freshAfter (Function.update fresh r true) schedule
  | .write _ :: schedule => freshAfter (fun _ => false) schedule

/-- Every write-back is made by a request that copied the cell after the one before. -/
def exclusiveFrom (fresh : R → Bool) : List (Step R) → Bool
  | [] => true
  | .read r :: schedule => exclusiveFrom (Function.update fresh r true) schedule
  | .write r :: schedule => fresh r && exclusiveFrom (fun _ => false) schedule

def exclusive (schedule : List (Step R)) : Bool := exclusiveFrom (fun _ => false) schedule

/-- No request writes back before it has read, `seen` being those that have. -/
def ordered (seen : List R) : List (Step R) → Bool
  | [] => true
  | .read r :: schedule => ordered (r :: seen) schedule
  | .write r :: schedule => decide (r ∈ seen) && ordered seen schedule

/-- A schedule in which each of `requests` reads once and then writes once. -/
structure Complete (schedule : List (Step R)) (requests : List R) : Prop where
  nodup : requests.Nodup
  reads_perm : (reads schedule).Perm requests
  writes_perm : (writes schedule).Perm requests
  ordered : ordered [] schedule = true

omit [DecidableEq R] in
@[simp] theorem mem_writes (schedule : List (Step R)) (r : R) :
    r ∈ writes schedule ↔ Step.write r ∈ schedule := by
  simp only [writes, List.mem_filterMap]
  constructor
  · rintro ⟨s, hs, hr⟩
    cases s with
    | read q => simp at hr
    | write q =>
        cases hr
        exact hs
  · intro h
    exact ⟨.write r, h, rfl⟩

omit [DecidableEq R] in
@[simp] theorem writes_append (σ τ : List (Step R)) :
    writes (σ ++ τ) = writes σ ++ writes τ := List.filterMap_append

omit [DecidableEq R] in
@[simp] theorem writes_cons_write (r : R) (σ : List (Step R)) :
    writes (.write r :: σ) = r :: writes σ := rfl

theorem Cell.run_append (update : R → P → Option P) (cell : Cell R P) (σ τ : List (Step R)) :
    cell.run update (σ ++ τ) = (cell.run update σ).run update τ :=
  List.foldl_append

/-! ## Exclusive schedules are serial -/

/-- Copies taken since the last write are the edits of the present value, so each write
of an exclusive schedule performs its request on the value it finds. -/
theorem run_exclusiveFrom (update : R → P → Option P) (cell : Cell R P) (fresh : R → Bool)
    (schedule : List (Step R)) (hfresh : ∀ r, fresh r = true → cell.copies r = update r cell.value)
    (h : exclusiveFrom fresh schedule = true) :
    (cell.run update schedule).value = (writes schedule).foldl (perform update) cell.value := by
  induction schedule generalizing cell fresh with
  | nil => rfl
  | cons s schedule ih =>
      cases s with
      | read r =>
          apply ih _ _ _ h
          intro q hq
          by_cases hqr : q = r
          · subst hqr
            simp [Cell.step]
          · simpa [Cell.step, hqr] using hfresh q (by simpa [hqr] using hq)
      | write r =>
          simp only [exclusiveFrom, Bool.and_eq_true] at h
          have hcopy := hfresh r h.1
          have hstep : (cell.step update (.write r)).value = perform update cell.value r := by
            cases hu : update r cell.value with
            | none => simp [Cell.step, hcopy, hu, perform]
            | some p => simp [Cell.step, hcopy, hu, perform]
          have hrest := ih (cell.step update (.write r)) (fun _ => false) (by simp) h.2
          rw [hstep] at hrest
          exact hrest

/-- An exclusive schedule has the effect of its requests in the order of their writes. -/
theorem run_exclusive (update : R → P → Option P) (init : P) (schedule : List (Step R))
    (h : exclusive schedule = true) :
    ((Cell.start init).run update schedule).value =
      (writes schedule).foldl (perform update) init :=
  run_exclusiveFrom update (Cell.start init) (fun _ => false) schedule (by simp) h

/-! ## Other schedules lose an update -/

/-- The last write of a non-exclusive schedule that overwrites a change it did not see. -/
theorem exists_last_stale (fresh : R → Bool) (schedule : List (Step R))
    (h : exclusiveFrom fresh schedule = false) :
    ∃ σ i τ, schedule = σ ++ .write i :: τ ∧ freshAfter fresh σ i = false ∧ exclusive τ = true := by
  induction schedule generalizing fresh with
  | nil => simp [exclusiveFrom] at h
  | cons s schedule ih =>
      cases s with
      | read r =>
          obtain ⟨σ, i, τ, rfl, hi, hτ⟩ := ih _ h
          exact ⟨.read r :: σ, i, τ, rfl, hi, hτ⟩
      | write r =>
          by_cases hrest : exclusiveFrom (fun _ => false) schedule = true
          · have hr : fresh r = false := by simpa [exclusiveFrom, hrest] using h
            exact ⟨[], r, schedule, rfl, hr, hrest⟩
          · obtain ⟨σ, i, τ, rfl, hi, hτ⟩ := ih _ (Bool.eq_false_iff.mpr hrest)
            exact ⟨.write r :: σ, i, τ, rfl, hi, hτ⟩

theorem freshAfter_append (fresh : R → Bool) (σ τ : List (Step R)) :
    freshAfter fresh (σ ++ τ) = freshAfter (freshAfter fresh σ) τ := by
  induction σ generalizing fresh with
  | nil => rfl
  | cons s σ ih =>
      cases s with
      | read r => exact ih _
      | write r => exact ih _

/-- A request whose copy is stale read before the last write. -/
theorem exists_write_after_read (fresh : R → Bool) (σ : List (Step R)) (i : R)
    (h : freshAfter fresh σ i = false) (hi : Step.read i ∈ σ) :
    ∃ α j β, σ = α ++ .write j :: β ∧ Step.read i ∈ α ∧ Step.read i ∉ β := by
  induction σ using List.reverseRecOn with
  | nil => simp at hi
  | append_singleton σ s ih =>
      rw [freshAfter_append] at h
      cases s with
      | write j =>
          have hσ : Step.read i ∈ σ := by simpa using hi
          exact ⟨σ, j, [], rfl, hσ, by simp⟩
      | read r =>
          by_cases hri : i = r
          · subst hri
            simp [freshAfter] at h
          · have hσ : Step.read i ∈ σ := by simpa [hri] using hi
            have hf : freshAfter fresh σ i = false := by simpa [freshAfter, hri] using h
            obtain ⟨α, j, β, rfl, hα, hβ⟩ := ih hf hσ
            exact ⟨α, j, β ++ [.read r], by simp, hα, by simp [hβ, hri]⟩

theorem mem_read_of_ordered (seen : List R) (σ τ : List (Step R)) (i : R)
    (h : ordered seen (σ ++ .write i :: τ) = true) : i ∈ seen ∨ Step.read i ∈ σ := by
  induction σ generalizing seen with
  | nil =>
      simp only [List.nil_append, ordered, Bool.and_eq_true, decide_eq_true_eq] at h
      exact .inl h.1
  | cons s σ ih =>
      cases s with
      | read r =>
          rcases ih _ h with hmem | hmem
          · rcases List.mem_cons.mp hmem with rfl | hmem
            · exact .inr (by simp)
            · exact .inl hmem
          · exact .inr (List.mem_cons_of_mem _ hmem)
      | write r =>
          simp only [List.cons_append, ordered, Bool.and_eq_true] at h
          rcases ih _ h.2 with hmem | hmem
          · exact .inl hmem
          · exact .inr (List.mem_cons_of_mem _ hmem)

section LostUpdate

variable {update : R → P → Option P} {j : R} {a : P}

/-- Until the only effective request writes, the value and every other copy stay as they
were, and a request that has read holds such a copy. -/
theorem run_before_write (hid : ∀ r ≠ j, ∀ p, update r p = some p) (i : R) (hij : i ≠ j)
    (σ : List (Step R)) (cell : Cell R P) (hj : Step.write j ∉ σ) (hi : Step.write i ∉ σ)
    (hvalue : cell.value = a) (hcopies : ∀ r ≠ j, cell.copies r = none ∨ cell.copies r = some a)
    (hread : Step.read i ∈ σ ∨ cell.copies i = some a) :
    (cell.run update σ).copies i = some a := by
  induction σ generalizing cell with
  | nil => exact hread.resolve_left (by simp)
  | cons s σ ih =>
      simp only [List.mem_cons, not_or] at hj hi
      cases s with
      | read r =>
          apply ih (cell.step update (.read r)) hj.2 hi.2 hvalue
          · intro q hq
            by_cases hqr : q = r
            · subst hqr
              simp [Cell.step, hid q hq, hvalue]
            · simpa [Cell.step, hqr] using hcopies q hq
          · by_cases hir : i = r
            · subst hir
              simp [Cell.step, hid i hij, hvalue]
            · simpa [Cell.step, hir] using hread
      | write r =>
          have hrj : r ≠ j := fun h => hj.1 (by rw [h])
          have hri : i ≠ r := fun h => hi.1 (by rw [h])
          have hstep : (cell.step update (.write r)).value = a ∧
              ∀ q, q ≠ r → (cell.step update (.write r)).copies q = cell.copies q := by
            rcases hcopies r hrj with hr | hr <;> simp +contextual [Cell.step, hr, hvalue]
          apply ih (cell.step update (.write r)) hj.2 hi.2 hstep.1
          · intro q hq
            by_cases hqr : q = r
            · subst hqr
              rcases hcopies q hq with hr | hr <;> simp [Cell.step, hr]
            · rw [hstep.2 q hqr]
              exact hcopies q hq
          · rw [hstep.2 i hri]
            simpa using hread

theorem run_copies_of_notMem (i : R) (σ : List (Step R)) (cell : Cell R P)
    (hr : Step.read i ∉ σ) (hw : Step.write i ∉ σ) :
    (cell.run update σ).copies i = cell.copies i := by
  induction σ generalizing cell with
  | nil => rfl
  | cons s σ ih =>
      simp only [List.mem_cons, not_or] at hr hw
      refine (ih (cell.step update s) hr.2 hw.2).trans ?_
      cases s with
      | read r =>
          have hir : i ≠ r := fun h => hr.1 (by rw [h])
          simp [Cell.step, hir]
      | write r =>
          have hir : i ≠ r := fun h => hw.1 (by rw [h])
          cases hc : cell.copies r <;> simp [Cell.step, hc, hir]

/-- Once the value is back to what it was, an exclusive rest without the effective
request's write keeps it. -/
theorem run_exclusive_of_notMem (hid : ∀ r ≠ j, ∀ p, update r p = some p)
    (σ : List (Step R)) (cell : Cell R P) (fresh : R → Bool) (hj : Step.write j ∉ σ)
    (hvalue : cell.value = a) (hfresh : ∀ r ≠ j, fresh r = true → cell.copies r = some a)
    (h : exclusiveFrom fresh σ = true) : (cell.run update σ).value = a := by
  induction σ generalizing cell fresh with
  | nil => exact hvalue
  | cons s σ ih =>
      simp only [List.mem_cons, not_or] at hj
      cases s with
      | read r =>
          apply ih (cell.step update (.read r)) _ hj.2 hvalue _ h
          intro q hq hqf
          by_cases hqr : q = r
          · subst hqr
            simp [Cell.step, hid q hq, hvalue]
          · simpa [Cell.step, hqr] using hfresh q hq (by simpa [hqr] using hqf)
      | write r =>
          simp only [exclusiveFrom, Bool.and_eq_true] at h
          have hrj : r ≠ j := fun h => hj.1 (by rw [h])
          have hcopy := hfresh r hrj h.1
          exact ih (cell.step update (.write r)) (fun _ => false) hj.2
            (by simp [Cell.step, hcopy]) (by simp) h.2

end LostUpdate

/-- In every complete schedule that is not exclusive some request `j` is lost: when all
others leave the value alone, the value ends as it began. -/
theorem exists_lost_update {schedule : List (Step R)} {requests : List R}
    (hc : Complete schedule requests) (h : exclusive schedule = false) :
    ∃ j ∈ requests, ∀ (update : R → P → Option P) (a : P),
      (∀ r ≠ j, ∀ p, update r p = some p) →
      ((Cell.start a).run update schedule).value = a := by
  obtain ⟨σ, i, τ, rfl, hstale, hτ⟩ := exists_last_stale _ _ h
  have hread : Step.read i ∈ σ := by
    simpa using mem_read_of_ordered [] σ τ i hc.ordered
  obtain ⟨α, j, β, rfl, hα, hβ⟩ := exists_write_after_read _ σ i hstale hread
  have hnodup : (writes ((α ++ Step.write j :: β) ++ Step.write i :: τ)).Nodup :=
    hc.writes_perm.nodup_iff.mpr hc.nodup
  simp only [writes_append, writes_cons_write] at hnodup
  obtain ⟨hfirst, _, hcross⟩ := List.nodup_append.mp hnodup
  obtain ⟨_, _, hαβ⟩ := List.nodup_append.mp hfirst
  have hij : i ≠ j := (hcross j (by simp) i (by simp)).symm
  have hiα : Step.write i ∉ α := fun hi => hcross i (by simp [hi]) i (by simp) rfl
  have hiβ : Step.write i ∉ β := fun hi => hcross i (by simp [hi]) i (by simp) rfl
  have hjα : Step.write j ∉ α := fun hj => hαβ j (by simpa using hj) j (by simp) rfl
  have hjτ : Step.write j ∉ τ := fun hj => hcross j (by simp) j (by simp [hj]) rfl
  refine ⟨j, hc.writes_perm.mem_iff.mp (by simp), ?_⟩
  intro update a hid
  have hbefore : ((Cell.start a).run update α).copies i = some a :=
    run_before_write hid i hij α _ hjα hiα rfl (by simp [Cell.start]) (.inl hα)
  have hcopy : ((Cell.start a).run update (α ++ Step.write j :: β)).copies i = some a := by
    rw [Cell.run_append, ← hbefore]
    exact run_copies_of_notMem i _ _ (by simpa using hβ) (by simp [hij, hiβ])
  rw [Cell.run_append]
  have hwrite : (((Cell.start a).run update (α ++ Step.write j :: β)).step update
      (.write i)).value = a := by
    simp [Cell.step, hcopy]
  exact run_exclusive_of_notMem hid τ _ (fun _ => false) hjτ hwrite (by simp) hτ

end ReadModifyWrite
