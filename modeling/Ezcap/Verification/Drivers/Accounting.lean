import Ezcap.Library.Runs
import Ezcap.Verification.Drivers.AllocatorCalls

/-! The allocator's count of what Lua holds, given the `AllocContext` that it takes its userdata
for. -/

namespace Ezcap.Drivers.Accounting

open LittleEndian

/-- A block that `malloc` or `realloc` returned, at its address. -/
structure Block where
  address : ℕ
  size : UInt64
  deriving DecidableEq

/-- A call: the block to free or to resize, if there is one, the sizes that it is called with, and
the address that `malloc` or `realloc` returns, if it does not fail. -/
structure Call where
  ptr : Option ℕ
  osize : UInt64
  nsize : UInt64
  granted : Option ℕ

structure Heap where
  memory : Memory
  live : List Block := []

def PTRDIFF_MAX : ℕ := 2 ^ 63 - 1

/-- A block is freed and resized with the size that it has, and no block is above
`PTRDIFF_MAX`. -/
def Call.Genuine (call : Call) (live : List Block) : Prop :=
  (∀ address ∈ call.ptr, ⟨address, call.osize⟩ ∈ live) ∧
    (call.granted.isSome → call.nsize.toNat ≤ PTRDIFF_MAX)

instance (call : Call) (live : List Block) : Decidable (call.Genuine live) :=
  inferInstanceAs (Decidable (_ ∧ _))

def Call.run (call : Call) (memory : Memory) (ud : ℕ) : Memory × Reply :=
  budgetAlloc memory ud call.ptr.isSome call.osize call.nsize call.granted.isSome

/-- The pointer that the call returns. -/
def Call.result (call : Call) : Reply → Option ℕ
  | .block => call.granted
  | _ => none

def blocksAfter (live : List Block) (call : Call) (reply : Reply) : List Block :=
  let kept := match call.ptr with
    | some address => live.erase ⟨address, call.osize⟩
    | none => live
  match reply, call.granted with
  | .freed, _ => kept
  | .block, some address => ⟨address, call.nsize⟩ :: kept
  | _, _ => live

/-- A call on the context at `ud`. -/
def Heap.step (ud : ℕ) (heap : Heap) (call : Call) : Option Heap :=
  if call.Genuine heap.live then
    let called := call.run heap.memory ud
    some { memory := called.1, live := blocksAfter heap.live call called.2 }
  else none

def Heap.used (heap : Heap) (ud : ℕ) : UInt64 :=
  loadWord heap.memory (ud + AllocContext.usedBytes)

def Heap.ceiling (heap : Heap) (ud : ℕ) : UInt64 :=
  loadWord heap.memory (ud + AllocContext.ceilingBytes)

/-- The size of all live blocks. -/
def Heap.held (heap : Heap) : ℕ := total (heap.live.map Block.size)

/-- A context in memory with a ceiling and nothing used. -/
def newContext (memory : Memory) (ud : ℕ) (ceiling : UInt64) : Memory :=
  let memory := storeWord memory (ud + AllocContext.ceilingBytes) ceiling
  let memory := storeWord memory (ud + AllocContext.usedBytes) 0
  store memory (ud + AllocContext.exhausted) [0]

/-! ## One call -/

/-- The count is what is held, and is below the ceiling. -/
structure Accounted (ud : ℕ) (ceiling : UInt64) (heap : Heap) : Prop where
  kept_ceiling : heap.ceiling ud = ceiling
  used : (heap.used ud).toNat = heap.held
  bounded : heap.held ≤ ceiling.toNat

/-- What one call keeps: the count, without an underflow, and all of it if it returns null for a
size that is not zero. -/
structure Kept (ud : ℕ) (ceiling : UInt64) (heap : Heap) (call : Call) (heap' : Heap) : Prop where
  accounted : Accounted ud ceiling heap'
  no_underflow : call.ptr.isSome → call.osize ≤ heap.used ud
  null : call.nsize ≠ 0 → call.result (call.run heap.memory ud).2 = none →
    heap'.used ud = heap.used ud ∧ heap'.live = heap.live

section Step

variable {ud : ℕ} {ceiling : UInt64} {heap heap' : Heap} {call : Call}

theorem newContext_accounted (memory : Memory) (ud : ℕ) (ceiling : UInt64) :
    Accounted ud ceiling { memory := newContext memory ud ceiling } where
  kept_ceiling := by
    simp only [Heap.ceiling, newContext, AllocContext.ceilingBytes, AllocContext.usedBytes,
      AllocContext.exhausted]
    rw [loadWord_store _ (.inl (by omega)), loadWord_storeWord_of_disjoint _ _ (.inl (by omega)),
      loadWord_storeWord]
  used := by
    simp only [Heap.used, newContext, AllocContext.usedBytes, AllocContext.exhausted]
    rw [loadWord_store _ (.inl (by omega)), loadWord_storeWord]
    rfl
  bounded := Nat.zero_le _

theorem Call.Genuine.held_le (h : call.Genuine heap.live) (hptr : call.ptr.isSome) :
    call.osize.toNat ≤ heap.held := by
  obtain ⟨address, haddress⟩ := Option.isSome_iff_exists.mp hptr
  exact le_total (List.mem_map_of_mem (h.1 address haddress))

theorem held_blocksAfter (ud : ℕ) (h : call.Genuine heap.live) :
    total ((blocksAfter heap.live call (call.run heap.memory ud).2).map Block.size) =
      heldAfter heap.held call.ptr.isSome call.osize call.nsize
        (call.run heap.memory ud).2 := by
  have hgranted : (call.run heap.memory ud).2 = .block → call.granted.isSome :=
    budgetAlloc_block
  generalize (call.run heap.memory ud).2 = reply at hgranted ⊢
  obtain ⟨ptr, osize, nsize, granted⟩ := call
  cases ptr with
  | none =>
      cases reply <;> cases granted <;> simp_all [blocksAfter, heldAfter, Heap.held, Nat.add_comm]
  | some address =>
      have herase : osize.toNat + total ((heap.live.erase ⟨address, osize⟩).map Block.size) =
          heap.held := by
        simpa [total, Heap.held] using
          List.sum_map_erase (UInt64.toNat ∘ Block.size) (h.1 address rfl)
      have hfreed : total ((heap.live.erase ⟨address, osize⟩).map Block.size) =
          heap.held - osize.toNat := by omega
      cases reply with
      | freed => exact hfreed
      | refused => rfl
      | failed => rfl
      | block =>
          obtain ⟨address', rfl⟩ := Option.isSome_iff_exists.mp (hgranted rfl)
          simp only [blocksAfter, List.map_cons, total_cons, hfreed]
          exact Nat.add_comm _ _

/-- A granted call leaves no more than the ceiling: nothing wraps around below `PTRDIFF_MAX`. -/
theorem heldAfter_le (h : Accounted ud ceiling heap) (hceiling : ceiling.toNat ≤ PTRDIFF_MAX)
    (hcall : call.Genuine heap.live) :
    heldAfter heap.held call.ptr.isSome call.osize call.nsize (call.run heap.memory ud).2 ≤
      ceiling.toNat := by
  have hbounded := h.bounded
  have hused := h.used
  cases hreply : (call.run heap.memory ud).2 with
  | freed =>
      simp only [heldAfter]
      split_ifs <;> omega
  | refused => exact hbounded
  | failed => exact hbounded
  | block =>
      have hsize : call.nsize.toNat ≤ PTRDIFF_MAX := hcall.2 (budgetAlloc_block hreply)
      have hpassed : ¬ (call.run heap.memory ud).2 = .refused := by simp [hreply]
      have hword : loadWord heap.memory ud = ceiling := h.kept_ceiling
      have hcount : (loadWord heap.memory (ud + 8)).toNat = heap.held := h.used
      rw [Call.run, budgetAlloc_refused, hword] at hpassed
      unfold PTRDIFF_MAX at hceiling hsize
      cases hptr : call.ptr.isSome with
      | false =>
          simp only [hptr, Bool.false_eq_true, if_false, UInt64.lt_iff_toNat_lt,
            UInt64.toNat_add, UInt64.toNat_zero, hcount] at hpassed
          simp only [heldAfter, Bool.false_eq_true, if_false]
          omega
      | true =>
          have hheld := hcall.held_le hptr
          simp only [heldAfter, if_true]
          by_cases hgrows : call.osize < call.nsize
          · have hsub : (call.nsize - call.osize).toNat = call.nsize.toNat - call.osize.toNat :=
              UInt64.toNat_sub_of_le _ _ (UInt64.le_of_lt hgrows)
            simp only [hptr, if_true, hgrows, true_and, UInt64.lt_iff_toNat_lt,
              UInt64.toNat_add, hsub, hcount] at hpassed
            omega
          · rw [UInt64.lt_iff_toNat_lt] at hgrows
            omega

/-- Null for a size that is not zero is a refusal or a failure. -/
theorem reply_of_null (hsize : call.nsize ≠ 0)
    (hnull : call.result (call.run heap.memory ud).2 = none) :
    (call.run heap.memory ud).2 = .refused ∨ (call.run heap.memory ud).2 = .failed := by
  cases hreply : (call.run heap.memory ud).2 with
  | freed => exact absurd (budgetAlloc_freed hreply) hsize
  | refused => exact .inl rfl
  | failed => exact .inr rfl
  | block =>
      have hgranted := budgetAlloc_block hreply
      rw [hreply, Call.result] at hnull
      simp [hnull] at hgranted

theorem Accounted.step (h : Accounted ud ceiling heap) (hceiling : ceiling.toNat ≤ PTRDIFF_MAX)
    (hstep : heap.step ud call = some heap') : Kept ud ceiling heap call heap' := by
  simp only [Heap.step] at hstep
  split_ifs at hstep with hcall
  cases hstep
  have hheld := held_blocksAfter ud hcall
  have hle := heldAfter_le h hceiling hcall
  have hused := budgetAlloc_used heap.memory ud call.ptr.isSome call.osize call.nsize
    call.granted.isSome
  refine ⟨⟨?_, ?_, ?_⟩, ?_, ?_⟩
  · exact (budgetAlloc_ceiling heap.memory ud ..).trans h.kept_ceiling
  · -- What is held is below the ceiling and so below the size of a word.
    have hcount : (loadWord heap.memory (ud + 8)).toNat = (0 + heap.held) % 2 ^ 64 := by
      have hlt := ceiling.toNat_lt
      have hbounded := h.bounded
      rw [Nat.zero_add, Nat.mod_eq_of_lt (by omega)]
      exact h.used
    have hafter := toNat_usedAfter call.nsize (call.run heap.memory ud).2 hcount hcall.held_le
    have hlt := ceiling.toNat_lt
    rw [Nat.zero_add, Nat.mod_eq_of_lt (by omega), ← hheld] at hafter
    exact (congrArg UInt64.toNat hused).trans hafter
  · exact hheld.trans_le hle
  · intro hptr
    rw [UInt64.le_iff_toNat_le, h.used]
    exact hcall.held_le hptr
  · intro hsize hnull
    rcases reply_of_null hsize hnull with hreply | hreply
    · exact ⟨hused.trans (by rw [← Call.run, hreply]; rfl), by simp [blocksAfter, hreply]⟩
    · exact ⟨hused.trans (by rw [← Call.run, hreply]; rfl), by simp [blocksAfter, hreply]⟩

end Step

/-! ## Runs -/

/-- Along every sequence of calls the count is what is held, stays below the ceiling and does not
underflow, and a null for a size that is not zero changes nothing, whatever the sizes are. -/
theorem allocator_accounts (memory : Memory) (ud : ℕ) (ceiling : UInt64)
    (hceiling : ceiling.toNat ≤ PTRDIFF_MAX) (calls : List Call) :
    Runs.Always (Heap.step ud) (Kept ud ceiling) { memory := newContext memory ud ceiling }
      calls := by
  refine Runs.always_of_inv (Accounted ud ceiling) (newContext_accounted memory ud ceiling) ?_
  intro heap call _ heap' h hstep
  have hkept := h.step hceiling hstep
  exact ⟨hkept, hkept.accounted⟩

/-- A block of 40 bytes, a request with which the count would wrap around to 30, a resize to 60
and one that fails, and the release. -/
def wrappingCalls : List Call :=
  [⟨none, 0, 40, some 4096⟩, ⟨none, 0, -10, none⟩, ⟨some 4096, 40, 60, some 8192⟩,
   ⟨some 8192, 60, 80, none⟩, ⟨some 8192, 60, 0, none⟩]

theorem allocator_accounts_wrapping :
    (100 : UInt64).toNat ≤ PTRDIFF_MAX ∧
      (Runs.exec (Heap.step 64) { memory := newContext (fun _ => 0) 64 100 }
        wrappingCalls).isSome = true ∧
      Runs.Always (Heap.step 64) (Kept 64 100) { memory := newContext (fun _ => 0) 64 100 }
        wrappingCalls :=
  ⟨by decide, by decide +kernel, allocator_accounts (fun _ => 0) 64 100 (by decide) wrappingCalls⟩

end Ezcap.Drivers.Accounting
