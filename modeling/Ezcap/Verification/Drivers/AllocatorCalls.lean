import Ezcap.Model.Allocator
import Mathlib.Algebra.BigOperators.Group.List.Basic

/-! What one call of the allocator writes, for an object at any place in memory. -/

namespace Ezcap.Drivers

open LittleEndian

variable (memory : Memory) (ud : ℕ)

/-- The word that a call counts in, by its reply. -/
def usedAfter (used : UInt64) (ptr : Bool) (osize nsize : UInt64) : Reply → UInt64
  | .freed => if ptr then used - osize else used
  | .block => if ptr then used - osize + nsize else used + nsize
  | _ => used

/-- What a call writes: nothing, the mark of a refusal, or the word that it counts in. -/
theorem budgetAlloc_memory (ptr : Bool) (osize nsize : UInt64) (granted : Bool) :
    ((budgetAlloc memory ud ptr osize nsize granted).1 = memory ∧
      usedAfter (loadWord memory (ud + 8)) ptr osize nsize
        (budgetAlloc memory ud ptr osize nsize granted).2 = loadWord memory (ud + 8)) ∨
    ((budgetAlloc memory ud ptr osize nsize granted).1 = store memory (ud + 16) [1] ∧
      (budgetAlloc memory ud ptr osize nsize granted).2 = .refused) ∨
    (budgetAlloc memory ud ptr osize nsize granted).1 =
      storeWord memory (ud + 8) (usedAfter (loadWord memory (ud + 8)) ptr osize nsize
        (budgetAlloc memory ud ptr osize nsize granted).2) := by
  have hgrow (used : UInt64) : used + (nsize - osize) = used - osize + nsize := by grind
  have hshrink (used : UInt64) : used - (osize - nsize) = used - osize + nsize := by grind
  unfold budgetAlloc AllocContext.usedBytes AllocContext.ceilingBytes AllocContext.exhausted
  dsimp only
  split_ifs with hzero hptr hnew hover hgranted hover hgranted hgrows
  · exact .inr (.inr (by simp [usedAfter, hptr]))
  · exact .inl ⟨rfl, by simp [usedAfter, hptr]⟩
  · exact .inr (.inl ⟨rfl, rfl⟩)
  · exact .inr (.inr (by simp_all [usedAfter]))
  · exact .inl ⟨rfl, rfl⟩
  · exact .inr (.inl ⟨rfl, rfl⟩)
  · exact .inr (.inr (by simp_all [usedAfter]))
  · exact .inr (.inr (by simp_all [usedAfter]))
  · exact .inl ⟨rfl, rfl⟩

/-- The word that a call takes for the ceiling is written by no call. -/
theorem budgetAlloc_ceiling (ptr : Bool) (osize nsize : UInt64) (granted : Bool) :
    loadWord (budgetAlloc memory ud ptr osize nsize granted).1 ud = loadWord memory ud := by
  obtain ⟨hmemory, -⟩ | ⟨hmemory, -⟩ | hmemory :=
    budgetAlloc_memory memory ud ptr osize nsize granted
  · rw [hmemory]
  · rw [hmemory, loadWord_store memory (.inl (by omega))]
  · rw [hmemory, loadWord_storeWord_of_disjoint memory _ (.inl (by omega))]

theorem budgetAlloc_used (ptr : Bool) (osize nsize : UInt64) (granted : Bool) :
    loadWord (budgetAlloc memory ud ptr osize nsize granted).1 (ud + 8) =
      usedAfter (loadWord memory (ud + 8)) ptr osize nsize
        (budgetAlloc memory ud ptr osize nsize granted).2 := by
  obtain ⟨hmemory, hused⟩ | ⟨hmemory, hrefused⟩ | hmemory :=
    budgetAlloc_memory memory ud ptr osize nsize granted
  · rw [hmemory, hused]
  · rw [hmemory, hrefused, loadWord_store memory (.inl (by omega))]
    rfl
  · rw [hmemory, loadWord_storeWord]

theorem budgetAlloc_refused (ptr : Bool) (osize nsize : UInt64) (granted : Bool) :
    (budgetAlloc memory ud ptr osize nsize granted).2 = .refused ↔
      if ptr then osize < nsize ∧ loadWord memory ud < loadWord memory (ud + 8) + (nsize - osize)
      else 0 < nsize ∧ loadWord memory ud < loadWord memory (ud + 8) + nsize := by
  unfold budgetAlloc AllocContext.usedBytes AllocContext.ceilingBytes
  dsimp only
  cases ptr with
  | false =>
      by_cases hzero : nsize = 0
      · simp [hzero]
      · have hpos : 0 < nsize := UInt64.pos_iff_ne_zero.mpr hzero
        simp only [hzero, hpos, if_false, Bool.not_false, if_true, true_and, Bool.false_eq_true]
        split_ifs with hover hgranted <;> simpa using hover
  | true =>
      by_cases hzero : nsize = 0
      · simp [hzero, UInt64.not_lt_zero]
      · simp only [hzero, if_false, Bool.not_true, Bool.false_eq_true, if_true]
        split_ifs with hover hgranted hgrows <;> simpa using hover

section Reply

variable {memory ud} {ptr : Bool} {osize nsize : UInt64} {granted : Bool}

theorem budgetAlloc_freed (h : (budgetAlloc memory ud ptr osize nsize granted).2 = .freed) :
    nsize = 0 := by
  by_contra hne
  simp only [budgetAlloc, hne, if_false] at h
  split_ifs at h

theorem budgetAlloc_block (h : (budgetAlloc memory ud ptr osize nsize granted).2 = .block) :
    granted = true := by
  unfold budgetAlloc at h
  dsimp only at h
  split_ifs at h <;> assumption

end Reply

/-! ## The bytes that are held -/

/-- The bytes that are held after a call, of those that were held before it. -/
def heldAfter (held : ℕ) (ptr : Bool) (osize nsize : UInt64) : Reply → ℕ
  | .freed => if ptr then held - osize.toNat else held
  | .block => if ptr then held - osize.toNat + nsize.toNat else held + nsize.toNat
  | _ => held

/-- The word that a call counts in follows what is held, from any value on. -/
theorem toNat_usedAfter {base held : ℕ} {used : UInt64} {ptr : Bool} {osize : UInt64}
    (nsize : UInt64) (reply : Reply) (hused : used.toNat = (base + held) % 2 ^ 64)
    (hheld : ptr = true → osize.toNat ≤ held) :
    (usedAfter used ptr osize nsize reply).toNat =
      (base + heldAfter held ptr osize nsize reply) % 2 ^ 64 := by
  cases reply with
  | freed =>
      cases ptr with
      | false => exact hused
      | true =>
          have hle := hheld rfl
          have hosize := osize.toNat_lt
          simp only [usedAfter, heldAfter, if_true, UInt64.toNat_sub]
          omega
  | block =>
      cases ptr with
      | false =>
          simp only [usedAfter, heldAfter, Bool.false_eq_true, if_false, UInt64.toNat_add]
          omega
      | true =>
          have hle := hheld rfl
          have hosize := osize.toNat_lt
          simp only [usedAfter, heldAfter, if_true, UInt64.toNat_add, UInt64.toNat_sub]
          omega
  | refused => exact hused
  | failed => exact hused

/-- The bytes that Lua holds. -/
def total (live : List UInt64) : ℕ := (live.map UInt64.toNat).sum

@[simp] theorem total_nil : total [] = 0 := rfl

@[simp] theorem total_cons (size : UInt64) (live : List UInt64) :
    total (size :: live) = size.toNat + total live := by
  rw [total, List.map_cons, List.sum_cons, total]

theorem total_erase {live : List UInt64} {size : UInt64} (h : size ∈ live) :
    size.toNat + total (live.erase size) = total live :=
  List.sum_map_erase UInt64.toNat h

theorem le_total {live : List UInt64} {size : UInt64} (h : size ∈ live) :
    size.toNat ≤ total live := by
  have htotal := total_erase h
  omega

/-- What Lua holds after a call is counted as the allocator counts. -/
theorem total_liveAfter {live : List UInt64} {ptr : Bool} {osize : UInt64} (nsize : UInt64)
    (reply : Reply) (hheld : ptr = true → osize ∈ live) :
    total (liveAfter live ptr osize nsize reply) =
      heldAfter (total live) ptr osize nsize reply := by
  cases ptr with
  | false => cases reply <;> simp [liveAfter, heldAfter, Nat.add_comm]
  | true =>
      have htotal := total_erase (hheld rfl)
      cases reply <;> simp [liveAfter, heldAfter] <;> omega

end Ezcap.Drivers
