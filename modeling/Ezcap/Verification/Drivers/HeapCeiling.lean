import Ezcap.Library.Runs
import Ezcap.Verification.Drivers.AllocatorCalls

/-! Which calls of the allocator are refused. The object that it is handed starts with the pointer
to the sandbox, which it takes for the ceiling, and it counts in the word that holds the ceiling. -/

namespace Ezcap.Drivers

open LittleEndian

/-- The bytes that Lua would hold if a call were granted. -/
def requested (live : List UInt64) (ptr : Bool) (osize nsize : UInt64) : ℕ :=
  if ptr then total live - osize.toNat + nsize.toNat else total live + nsize.toNat

/-- A call is refused exactly when it would raise the bytes that Lua holds above the budget. -/
def CeilingKept (budgets : SandboxBudgets) (heap : LuaHeap) : HeapAction → Prop
  | .call ptr osize nsize granted =>
      heap.reply? (.call ptr osize nsize granted) = some .refused ↔
        total heap.live < requested heap.live ptr osize nsize ∧
          budgets.maxMemoryBytes.toNat < requested heap.live ptr osize nsize
  | _ => True

def newHeap (budgets : SandboxBudgets) : LuaHeap := { memory := newStateData budgets }

/-! ## The words along a run -/

/-- The allocator takes the address of the sandbox for the ceiling, and counts what Lua holds on
top of the budget. -/
structure Misread (budgets : SandboxBudgets) (heap : LuaHeap) : Prop where
  ceiling : loadWord heap.memory 0 = heap.sandbox
  used : (loadWord heap.memory 8).toNat =
    (budgets.maxMemoryBytes.toNat + total heap.live) % 2 ^ 64

section Misread

variable {budgets : SandboxBudgets} {heap heap' : LuaHeap}

theorem newHeap_misread (budgets : SandboxBudgets) : Misread budgets (newHeap budgets) where
  ceiling := by
    have hword := loadWord_storeWord_of_disjoint (fun _ => 0) budgets.maxMemoryBytes
      (.inl (by decide) : Apart 0 8 8 8)
    exact hword
  used := by
    have hword : loadWord (newHeap budgets).memory 8 = budgets.maxMemoryBytes :=
      loadWord_storeWord (fun _ => 0) 8 budgets.maxMemoryBytes
    rw [hword, newHeap, total_nil, Nat.add_zero, Nat.mod_eq_of_lt budgets.maxMemoryBytes.toNat_lt]

/-- A call is refused if it would raise the bytes that Lua holds and the address of the sandbox
is below the sum of the budget and those bytes, which may wrap around. -/
theorem Misread.refused_iff (h : Misread budgets heap) {ptr : Bool} {osize nsize : UInt64}
    {granted : Bool} (hheld : ptr = true → osize ∈ heap.live) :
    heap.reply? (.call ptr osize nsize granted) = some .refused ↔
      total heap.live < requested heap.live ptr osize nsize ∧
        heap.sandbox.toNat <
          (budgets.maxMemoryBytes.toNat + requested heap.live ptr osize nsize) % 2 ^ 64 := by
  rw [LuaHeap.reply?, Option.some.injEq, budgetAlloc_refused, Nat.zero_add, h.ceiling]
  have hused := h.used
  cases ptr with
  | false =>
      have hgrow : 0 < nsize ↔ total heap.live < total heap.live + nsize.toNat := by
        rw [UInt64.lt_iff_toNat_lt, UInt64.toNat_zero]
        omega
      simp only [Bool.false_eq_true, if_false, requested, hgrow]
      refine and_congr_right fun _ => ?_
      rw [UInt64.lt_iff_toNat_lt, UInt64.toNat_add, hused, Nat.mod_add_mod, Nat.add_assoc]
  | true =>
      have htotal := total_erase (hheld rfl)
      have hgrow : osize < nsize ↔
          total heap.live < total heap.live - osize.toNat + nsize.toNat := by
        rw [UInt64.lt_iff_toNat_lt]
        omega
      simp only [if_true, requested, hgrow]
      refine and_congr_right fun hlt => ?_
      have hsub : (nsize - osize).toNat = nsize.toNat - osize.toNat :=
        UInt64.toNat_sub_of_le _ _ (UInt64.le_of_lt (hgrow.mpr hlt))
      have hsum : total heap.live + (nsize.toNat - osize.toNat) =
          total heap.live - osize.toNat + nsize.toNat := by omega
      rw [UInt64.lt_iff_toNat_lt, UInt64.toNat_add, hused, hsub, Nat.mod_add_mod, Nat.add_assoc,
        hsum]

theorem Misread.store (h : Misread budgets heap) (address : ℕ) (bytes : Bytes)
    (haddress : 16 ≤ address) :
    Misread budgets { heap with memory := LittleEndian.store heap.memory address bytes } where
  ceiling := by
    rw [loadWord_store heap.memory (.inl (by omega)), h.ceiling]
  used := by
    rw [loadWord_store heap.memory (.inl (by omega)), h.used]

theorem Misread.step (h : Misread budgets heap) {action : HeapAction}
    (hstep : heap.step action = some heap') : Misread budgets heap' := by
  cases action with
  | call ptr osize nsize granted =>
      simp only [LuaHeap.step] at hstep
      split at hstep
      · rename_i hheld
        cases hstep
        exact ⟨(budgetAlloc_ceiling heap.memory ..).trans h.ceiling,
          (congrArg UInt64.toNat (budgetAlloc_used heap.memory ..)).trans
            ((toNat_usedAfter nsize _ h.used fun hptr => le_total (hheld hptr)).trans
              (by rw [total_liveAfter nsize _ hheld]))⟩
      · cases hstep
  | setSandbox address =>
      simp only [LuaHeap.step] at hstep
      split at hstep
      · cases hstep
      · cases hstep
        refine ⟨loadWord_storeWord _ _ _, ?_⟩
        rw [StateData.sandbox, loadWord_storeWord_of_disjoint _ _ (.inr (by decide))]
        exact h.used
  | beginCallback instructions deadline =>
      cases hstep
      have hinstructions := h.store StateData.instructionsRemaining
        (encode 8 instructions.toNat) (by decide)
      have hdeadline := hinstructions.store StateData.deadline (encode 8 deadline.toNat) (by decide)
      exact hdeadline.store StateData.inCallback [1] (by decide)
  | endCallback =>
      cases hstep
      exact h.store StateData.inCallback [0] (by decide)

end Misread

/-! ## The ceiling -/

/-- Under a budget of nothing nothing is granted, and the sandbox is never made. -/
structure NothingHeld (budgets : SandboxBudgets) (heap : LuaHeap) : Prop where
  misread : Misread budgets heap
  live : heap.live = []
  sandbox : heap.sandbox = 0

section NothingHeld

variable {budgets : SandboxBudgets} {heap heap' : LuaHeap}

theorem NothingHeld.call (h : NothingHeld budgets heap) (hzero : budgets.maxMemoryBytes = 0)
    (osize nsize : UInt64) (granted : Bool) :
    CeilingKept budgets heap (.call false osize nsize granted) ∧
      liveAfter heap.live false osize nsize
        (budgetAlloc heap.memory 0 false osize nsize granted).2 = [] := by
  have hrefused : heap.reply? (.call false osize nsize granted) = some .refused ↔
      0 < nsize.toNat := by
    rw [h.misread.refused_iff, hzero, h.sandbox, h.live]
    · simp [requested, Nat.mod_eq_of_lt nsize.toNat_lt]
    · simp
  constructor
  · rw [CeilingKept, hrefused, hzero, h.live]
    simp [requested]
  · by_cases hsize : nsize = 0
    · simp [hsize, budgetAlloc, liveAfter, h.live]
    · have hreply := hrefused.mpr (Nat.pos_of_ne_zero fun h0 => hsize (UInt64.toNat_inj.mp h0))
      rw [Option.some.inj hreply]
      exact h.live

theorem NothingHeld.step (h : NothingHeld budgets heap) (hzero : budgets.maxMemoryBytes = 0)
    {action : HeapAction} (hstep : heap.step action = some heap') :
    CeilingKept budgets heap action ∧ NothingHeld budgets heap' := by
  have hmisread := h.misread.step hstep
  cases action with
  | call ptr osize nsize granted =>
      simp only [LuaHeap.step] at hstep
      split at hstep
      · rename_i hheld
        cases hstep
        cases ptr with
        | false =>
            obtain ⟨hkept, hlive⟩ := h.call hzero osize nsize granted
            exact ⟨hkept, hmisread, hlive, h.sandbox⟩
        | true => simp [h.live] at hheld
      · cases hstep
  | setSandbox address => simp [LuaHeap.step, h.live] at hstep
  | beginCallback instructions deadline =>
      cases hstep
      exact ⟨trivial, hmisread, h.live, h.sandbox⟩
  | endCallback =>
      cases hstep
      exact ⟨trivial, hmisread, h.live, h.sandbox⟩

end NothingHeld

/-- Under any other budget the first block is refused even if it fits: the address of the sandbox
is still null then. -/
theorem not_ceilingKept_newHeap {budgets : SandboxBudgets} {nsize : UInt64}
    (hpos : 0 < nsize.toNat) (hfits : nsize.toNat ≤ budgets.maxMemoryBytes.toNat)
    (hwraps : (budgets.maxMemoryBytes.toNat + nsize.toNat) % 2 ^ 64 ≠ 0) :
    ¬ CeilingKept budgets (newHeap budgets) (.call false 0 nsize true) := by
  intro hkept
  have hrefused : (newHeap budgets).reply? (.call false 0 nsize true) = some .refused := by
    rw [(newHeap_misread budgets).refused_iff]
    · simpa [requested, newHeap, hpos] using Nat.pos_of_ne_zero hwraps
    · simp
  have hover := (hkept.mp hrefused).2
  simp only [requested, newHeap, total_nil, Bool.false_eq_true, if_false] at hover
  omega

/-- The calls that Lua makes are refused by the configured ceiling, in every sequence of them,
exactly if the ceiling is zero. -/
theorem ceiling_kept_iff (budgets : SandboxBudgets) :
    (∀ actions, Runs.Always LuaHeap.step (fun heap action _ => CeilingKept budgets heap action)
      (newHeap budgets) actions) ↔ budgets.maxMemoryBytes = 0 := by
  constructor
  · intro h
    by_contra hne
    have hfirst (nsize : UInt64) :
        CeilingKept budgets (newHeap budgets) (.call false 0 nsize true) :=
      (h [.call false 0 nsize true] _ rfl).1
    have hpos : 0 < budgets.maxMemoryBytes.toNat :=
      Nat.pos_of_ne_zero fun h0 => hne (UInt64.toNat_inj.mp h0)
    have hlt := budgets.maxMemoryBytes.toNat_lt
    -- One byte does, unless the sum with the budget wraps to zero.
    by_cases hmax : budgets.maxMemoryBytes.toNat + 1 = 2 ^ 64
    · refine not_ceilingKept_newHeap ?_ ?_ ?_ (hfirst 2)
      all_goals simp only [UInt64.reduceToNat]
      all_goals omega
    · refine not_ceilingKept_newHeap ?_ ?_ ?_ (hfirst 1)
      all_goals simp only [UInt64.reduceToNat]
      all_goals omega
  · intro hzero actions
    refine Runs.always_of_inv (NothingHeld budgets) ⟨newHeap_misread budgets, rfl, rfl⟩ ?_
    intro heap action _ heap' h hstep
    exact h.step hzero hstep

/-- Under the default budget of 1 MiB, Lua's first block of 5000 bytes is refused. -/
theorem first_block_refused :
    (newHeap {}).reply? (.call false 0 5000 true) = some .refused ∧
      ¬ CeilingKept {} (newHeap {}) (.call false 0 5000 true) := by
  have hrefused : (newHeap {}).reply? (.call false 0 5000 true) = some .refused := by
    decide +kernel
  refine ⟨hrefused, fun hkept => ?_⟩
  have hover := (hkept.mp hrefused).2
  revert hover
  decide

end Ezcap.Drivers
