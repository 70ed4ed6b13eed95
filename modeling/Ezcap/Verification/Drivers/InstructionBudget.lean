import Ezcap.Library.Runs
import Ezcap.Model.Sandbox

/-! How many instructions a callback executes before the hook aborts it. The budget is lowered by
one at each call of the hook, and so counts periods of instructions. -/

namespace Ezcap.Drivers

namespace Sandbox

/-- The instructions that are executed before the hook first aborts, and whether it does. -/
def untilAbort (sandbox : Sandbox) : List Instruction → ℕ × Bool
  | [] => (0, false)
  | instruction :: instructions =>
      match sandbox.execute instruction.now with
      | (_, some _) => (1, true)
      | (sandbox, none) =>
          let later := sandbox.untilAbort instructions
          (later.1 + 1, later.2)

/-! ## One instruction -/

theorem toInt_pred {remaining : Int64} (h : -2 ^ 63 < remaining.toInt) :
    (remaining - 1).toInt = remaining.toInt - 1 := by
  have hlt := remaining.toInt_lt
  rw [Int64.toInt_sub, Int64.toInt_one]
  exact Int.bmod_eq_of_le (by omega) (by omega)

/-- A callback has begun, and the hook will be called. -/
structure Counting (sandbox : Sandbox) : Prop where
  inCallback : sandbox.inCallback = true
  countdown : 1 ≤ sandbox.countdown

/-- The instruction at which the budget aborts the callback. -/
def reach (sandbox : Sandbox) : ℤ :=
  sandbox.countdown + hookPeriod * max (sandbox.instructionsRemaining.toInt - 1) 0

/-- A call of the hook aborts the callback. -/
def Exhausted (sandbox : Sandbox) (now : ℤ) : Prop :=
  sandbox.instructionsRemaining - 1 ≤ 0 ∨ sandbox.deadline < now

theorem exhausted_of_le_one {sandbox : Sandbox}
    (hlow : -2 ^ 63 < sandbox.instructionsRemaining.toInt)
    (hone : sandbox.instructionsRemaining.toInt ≤ 1) (now : ℤ) : Exhausted sandbox now := by
  refine .inl ?_
  rw [Int64.le_iff_toInt_le, toInt_pred hlow, Int64.toInt_zero]
  omega

section Execute

variable {sandbox : Sandbox} {now : ℤ}

theorem instructionHook_of_two_le (hin : sandbox.inCallback = true)
    (htwo : 2 ≤ sandbox.instructionsRemaining.toInt) (hnow : now ≤ sandbox.deadline) :
    sandbox.instructionHook now =
      ({ sandbox with instructionsRemaining := sandbox.instructionsRemaining - 1 }, none) := by
  have hpos : ¬ sandbox.instructionsRemaining - 1 ≤ 0 := by
    rw [Int64.le_iff_toInt_le, toInt_pred (by omega), Int64.toInt_zero]
    omega
  simp only [instructionHook, hin]
  simp [hpos, hnow]

theorem instructionHook_of_exhausted (hin : sandbox.inCallback = true)
    (h : Exhausted sandbox now) :
    ∃ next error, sandbox.instructionHook now = (next, some error) := by
  simp only [instructionHook, hin]
  rcases h with h | h
  · simp [h]
  · simp only [Bool.not_true, Bool.false_eq_true, if_false, h, if_true]
    split_ifs <;> simp

/-- An instruction before the reach and the deadline is not aborted. -/
theorem execute_of_lt_reach (h : Counting sandbox) (hreach : 1 < sandbox.reach)
    (hnow : now ≤ sandbox.deadline) :
    ∃ next, sandbox.execute now = (next, none) ∧ Counting next ∧
      next.deadline = sandbox.deadline ∧ next.reach = sandbox.reach - 1 := by
  have hcount := h.countdown
  simp only [reach, hookPeriod] at hreach ⊢
  by_cases hdue : sandbox.countdown ≤ 1
  · have htwo : 2 ≤ sandbox.instructionsRemaining.toInt := by omega
    have hpred := @toInt_pred sandbox.instructionsRemaining (by omega)
    have hexecute : sandbox.execute now =
        ({ sandbox with
            countdown := hookPeriod
            instructionsRemaining := sandbox.instructionsRemaining - 1 }, none) := by
      rw [execute, if_pos hdue]
      exact instructionHook_of_two_le h.inCallback htwo hnow
    refine ⟨_, hexecute, ⟨h.inCallback, by simp [hookPeriod]⟩, rfl, ?_⟩
    simp only [hpred, hookPeriod]
    omega
  · have hexecute : sandbox.execute now =
        ({ sandbox with countdown := sandbox.countdown - 1 }, none) := by
      rw [execute, if_neg hdue]
    refine ⟨_, hexecute, ⟨h.inCallback, ?_⟩, rfl, ?_⟩
    · simp only
      omega
    · simp only
      omega

/-- An exhausted callback is aborted by the next call of the hook. -/
theorem execute_of_exhausted (h : Counting sandbox) (hexhausted : Exhausted sandbox now) :
    (sandbox.countdown ≤ 1 ∧ ∃ next error, sandbox.execute now = (next, some error)) ∨
      1 < sandbox.countdown ∧
        sandbox.execute now = ({ sandbox with countdown := sandbox.countdown - 1 }, none) := by
  by_cases hdue : sandbox.countdown ≤ 1
  · left
    rw [execute, if_pos hdue]
    exact ⟨hdue, instructionHook_of_exhausted h.inCallback hexhausted⟩
  · right
    rw [execute, if_neg hdue]
    exact ⟨Nat.lt_of_not_le hdue, rfl⟩

end Execute

/-! ## A callback -/

section UntilAbort

variable {sandbox next : Sandbox} {instruction : Instruction} {instructions : List Instruction}

theorem untilAbort_cons_of_some {error : Bytes}
    (h : sandbox.execute instruction.now = (next, some error)) :
    sandbox.untilAbort (instruction :: instructions) = (1, true) := by
  rw [untilAbort, h]

theorem untilAbort_cons_of_none (h : sandbox.execute instruction.now = (next, none)) :
    sandbox.untilAbort (instruction :: instructions) =
      ((next.untilAbort instructions).1 + 1, (next.untilAbort instructions).2) := by
  rw [untilAbort, h]

theorem untilAbort_of_lt_reach (h : Counting sandbox)
    (hnow : ∀ instruction ∈ instructions, instruction.now ≤ sandbox.deadline)
    (hlen : instructions.length < sandbox.reach) :
    sandbox.untilAbort instructions = (instructions.length, false) := by
  induction instructions generalizing sandbox with
  | nil => rfl
  | cons instruction instructions ih =>
      obtain ⟨hfirst, hrest⟩ := List.forall_mem_cons.mp hnow
      rw [List.length_cons] at hlen ⊢
      obtain ⟨next, hexecute, hnext, hdeadline, hreach⟩ :=
        execute_of_lt_reach h (by omega) hfirst
      rw [untilAbort_cons_of_none hexecute, ih hnext (hdeadline ▸ hrest) (by omega)]

theorem untilAbort_of_lt_countdown (hlen : instructions.length < sandbox.countdown) :
    sandbox.untilAbort instructions = (instructions.length, false) := by
  induction instructions generalizing sandbox with
  | nil => rfl
  | cons instruction instructions ih =>
      rw [List.length_cons] at hlen ⊢
      have hexecute : sandbox.execute instruction.now =
          ({ sandbox with countdown := sandbox.countdown - 1 }, none) := by
        rw [execute, if_neg (by omega)]
      rw [untilAbort_cons_of_none hexecute, ih]
      simp only
      omega

/-- An exhausted callback is aborted at the next call of the hook, if it goes on that far. -/
theorem untilAbort_of_exhausted (h : Counting sandbox)
    (hexhausted : ∀ instruction ∈ instructions, Exhausted sandbox instruction.now) :
    sandbox.untilAbort instructions =
      if sandbox.countdown ≤ instructions.length then (sandbox.countdown, true)
      else (instructions.length, false) := by
  have hpos := h.countdown
  induction instructions generalizing sandbox with
  | nil => exact (if_neg (Nat.not_le.mpr hpos)).symm
  | cons instruction instructions ih =>
      obtain ⟨hfirst, hrest⟩ := List.forall_mem_cons.mp hexhausted
      rw [List.length_cons]
      rcases execute_of_exhausted h hfirst with ⟨hdue, next, error, hexecute⟩ | ⟨hdue, hexecute⟩
      · rw [untilAbort_cons_of_some hexecute, if_pos (by omega), le_antisymm hdue hpos]
      · have hnext : 1 ≤ sandbox.countdown - 1 := by omega
        rw [untilAbort_cons_of_none hexecute,
          @ih { sandbox with countdown := sandbox.countdown - 1 } ⟨h.inCallback, hnext⟩ hrest hnext]
        split_ifs
        all_goals grind

/-- A script that is not aborted executes one more instruction. -/
theorem untilAbort_append {k : ℕ} (h : sandbox.untilAbort instructions = (k, false))
    (last : Instruction) : (sandbox.untilAbort (instructions ++ [last])).1 = k + 1 := by
  induction sandbox, instructions using untilAbort.induct generalizing k with
  | case1 =>
      cases h
      rw [List.nil_append, untilAbort]
      split <;> rfl
  | case2 _ _ _ _ _ hexecute =>
      rw [untilAbort_cons_of_some hexecute] at h
      cases h
  | case3 _ _ _ _ hexecute ih =>
      rw [untilAbort_cons_of_none hexecute] at h
      obtain ⟨rfl, hspared⟩ := Prod.mk.inj h
      rw [List.cons_append, untilAbort_cons_of_none hexecute, ih (Prod.ext rfl hspared)]

/-- What comes after an abort does not matter to it. -/
theorem untilAbort_take {k : ℕ} (h : sandbox.untilAbort instructions = (k, true)) :
    sandbox.untilAbort (instructions.take k) = (k, true) ∧ k ≤ instructions.length := by
  induction sandbox, instructions using untilAbort.induct generalizing k with
  | case1 => cases h
  | case2 _ _ _ _ _ hexecute =>
      rw [untilAbort_cons_of_some hexecute] at h
      cases h
      exact ⟨untilAbort_cons_of_some hexecute, by simp⟩
  | case3 _ _ _ _ hexecute ih =>
      rw [untilAbort_cons_of_none hexecute] at h
      obtain ⟨rfl, haborted⟩ := Prod.mk.inj h
      obtain ⟨hlater, hle⟩ := ih (Prod.ext rfl haborted)
      rw [List.take_succ_cons, untilAbort_cons_of_none hexecute, hlater]
      exact ⟨rfl, Nat.succ_le_succ hle⟩

end UntilAbort

/-! ## Callback after callback -/

section ExecuteAll

variable {sandbox : Sandbox}

theorem executeAll_invariant (inv : Sandbox → Prop)
    (hstep : ∀ sandbox now, inv sandbox → inv (sandbox.execute now).1) (h : inv sandbox)
    (instructions : List Instruction) : inv (sandbox.executeAll instructions).1 := by
  have hnext {sandbox next : Sandbox} {now : ℤ} {error : Option Bytes} (h : inv sandbox)
      (hexecute : sandbox.execute now = (next, error)) : inv next := by
    simpa only [hexecute] using hstep sandbox now h
  fun_induction executeAll sandbox instructions with
  | case1 => exact h
  | case2 _ _ _ _ hexecute ih => exact ih (hnext h hexecute)
  | case3 _ _ _ _ _ hexecute _ ih => exact ih (hnext h hexecute)
  | case4 _ _ _ _ _ hexecute => exact hnext h hexecute

theorem luaPcall_eq (sandbox : Sandbox) (script : Script) :
    sandbox.luaPcall script = ((sandbox.executeAll script.instructions).1,
      (sandbox.executeAll script.instructions).2.or script.failure) := by
  unfold luaPcall
  rcases sandbox.executeAll script.instructions with ⟨next, _ | error⟩ <;> rfl

theorem pcall_fst (sandbox : Sandbox) (script : Script) :
    (sandbox.pcall script).1 = (sandbox.executeAll script.instructions).1 := by
  unfold pcall
  rw [luaPcall_eq]
  cases (sandbox.executeAll script.instructions).2.or script.failure with
  | none => rfl
  | some message =>
      dsimp only
      split_ifs <;> rfl

end ExecuteAll

/-- The hook is due within its period, under the budgets that the sandbox was made with. -/
structure Ticking (budgets : SandboxBudgets) (sandbox : Sandbox) : Prop where
  budgets : sandbox.budgets = budgets
  pos : 1 ≤ sandbox.countdown
  le : sandbox.countdown ≤ hookPeriod

section Ticking

variable {budgets : SandboxBudgets} {sandbox : Sandbox}

theorem Ticking.instructionHook (h : Ticking budgets sandbox) (now : ℤ) :
    Ticking budgets (sandbox.instructionHook now).1 := by
  unfold Sandbox.instructionHook
  dsimp only
  split_ifs
  all_goals exact ⟨h.budgets, h.pos, h.le⟩

theorem Ticking.execute (h : Ticking budgets sandbox) (now : ℤ) :
    Ticking budgets (sandbox.execute now).1 := by
  have hpos := h.pos
  have hle := h.le
  unfold Sandbox.execute
  split_ifs
  · apply Ticking.instructionHook
    exact ⟨h.budgets, by simp [hookPeriod], Nat.le_refl _⟩
  · exact ⟨h.budgets, by simp only; omega, by simp only; omega⟩

theorem Ticking.callback (h : Ticking budgets sandbox) (script : Script) :
    Ticking budgets (sandbox.callback script).1 := by
  have hbegun : Ticking budgets (sandbox.beginCallback script.beganAt) := ⟨h.budgets, h.pos, h.le⟩
  have hcalled := executeAll_invariant (Ticking budgets) (fun _ now h => h.execute now) hbegun
    script.instructions
  rw [← pcall_fst] at hcalled
  exact ⟨hcalled.budgets, hcalled.pos, hcalled.le⟩

end Ticking

/-- The instructions that a callback executes before the hook aborts it are no more than the
budget and one period. -/
def Bounded (sandbox : Sandbox) (script : Script) : Prop :=
  let executed := ((sandbox.beginCallback script.beganAt).untilAbort script.instructions).1
  executed ≤ sandbox.budgets.maxInstructions.toInt + hookPeriod

/-- A callback is not aborted that executes fewer instructions than the budget, all of them before
the deadline. -/
def Spared (sandbox : Sandbox) (script : Script) : Prop :=
  let begun := sandbox.beginCallback script.beganAt
  let executed := begun.untilAbort script.instructions
  executed.1 < sandbox.budgets.maxInstructions.toInt →
    (∀ instruction ∈ script.instructions.take executed.1, instruction.now ≤ begun.deadline) →
      executed.2 = false

section Budget

variable {budgets : SandboxBudgets} {sandbox : Sandbox}

theorem Ticking.counting (h : Ticking budgets sandbox) (now : ℤ) :
    Counting (sandbox.beginCallback now) := ⟨rfl, h.pos⟩

theorem Ticking.spared (h : Ticking budgets sandbox) (script : Script) :
    Spared sandbox script := by
  unfold Spared
  intro begun executed hfew hnow
  by_contra haborted
  rw [Bool.not_eq_false] at haborted
  obtain ⟨htake, hle⟩ := untilAbort_take (Prod.ext rfl haborted : executed = (executed.1, true))
  have hlen : (script.instructions.take executed.1).length = executed.1 :=
    List.length_take_of_le hle
  have hreach : ((script.instructions.take executed.1).length : ℤ) < begun.reach := by
    have hpos := h.pos
    have hbegun : begun.reach = sandbox.countdown +
        hookPeriod * max (sandbox.budgets.maxInstructions.toInt - 1) 0 := rfl
    rw [hlen, hbegun, hookPeriod]
    omega
  rw [untilAbort_of_lt_reach (h.counting script.beganAt) hnow hreach] at htake
  exact absurd (Prod.mk.inj htake).2 (by decide)

theorem Ticking.bounded (h : Ticking budgets sandbox) (hzero : 0 ≤ budgets.maxInstructions.toInt)
    (hlow : budgets.maxInstructions.toInt ≤ 1 ∨ budgets.wallClockMs.toInt < 0) (script : Script) :
    Bounded sandbox script := by
  rw [← h.budgets] at hzero hlow
  have hexhausted (instruction : Instruction) (hmem : instruction ∈ script.instructions) :
      Exhausted (sandbox.beginCallback script.beganAt) instruction.now := by
    rcases hlow with hone | hwall
    · have hremaining : (sandbox.beginCallback script.beganAt).instructionsRemaining =
          sandbox.budgets.maxInstructions := rfl
      apply exhausted_of_le_one
      · rw [hremaining]
        omega
      · rw [hremaining]
        exact hone
    · have hsteady := script.steady instruction hmem
      refine .inr ?_
      simp only [beginCallback]
      omega
  have hle := h.le
  have hsame : (sandbox.beginCallback script.beganAt).countdown = sandbox.countdown := rfl
  unfold Bounded
  rw [untilAbort_of_exhausted (h.counting script.beganAt) hexhausted, hsame]
  split_ifs
  all_goals
    simp only
    omega

/-- A script of `k` instructions at the time at which it began. -/
def loopScript (k : ℕ) : Script where
  instructions := List.replicate k { now := 0 }
  steady := by
    intro instruction hmem
    rw [List.eq_of_mem_replicate hmem]

@[simp] theorem length_loopScript (k : ℕ) : (loopScript k).instructions.length = k :=
  List.length_replicate

/-- The first callback in a sandbox executes a period for each instruction of its budget. -/
theorem untilAbort_loopScript {k : ℕ} (hpos : 1 ≤ budgets.maxInstructions.toInt)
    (hwall : 0 ≤ budgets.wallClockMs.toInt)
    (hk : k < hookPeriod * budgets.maxInstructions.toInt) :
    (Sandbox.beginCallback { budgets } 0).untilAbort (loopScript k).instructions = (k, false) := by
  have hspared := @untilAbort_of_lt_reach (Sandbox.beginCallback { budgets } 0)
    (loopScript k).instructions ⟨rfl, by simp [beginCallback, hookPeriod]⟩
  rw [length_loopScript] at hspared
  apply hspared
  · intro instruction hmem
    rw [List.eq_of_mem_replicate hmem]
    simp only [beginCallback]
    omega
  · simp only [reach, beginCallback]
    simp only [hookPeriod] at hk ⊢
    omega

end Budget

/-- Callbacks one after another in a new sandbox. -/
def step (sandbox : Sandbox) (script : Script) : Option Sandbox :=
  some (sandbox.callback script).1

/-- Callbacks are held to their budget and one period exactly under a budget of one instruction or
none, or if they have no time at all; none that keeps to its budget is aborted. -/
theorem instruction_budget_iff (budgets : SandboxBudgets) :
    ((∀ scripts, Runs.Always step (fun sandbox script _ => Bounded sandbox script)
        { budgets } scripts) ↔
      0 ≤ budgets.maxInstructions.toInt ∧
        (budgets.maxInstructions.toInt ≤ 1 ∨ budgets.wallClockMs.toInt < 0)) ∧
    ∀ scripts, Runs.Always step (fun sandbox script _ => Spared sandbox script)
      { budgets } scripts := by
  have hnew : Ticking budgets { budgets } := ⟨rfl, by simp [hookPeriod], Nat.le_refl _⟩
  refine ⟨⟨?_, ?_⟩, ?_⟩
  · intro h
    have hfirst (k : ℕ) : Bounded { budgets } (loopScript k) := (h [loopScript k] _ rfl).1
    simp only [Bounded] at hfirst
    constructor
    · -- The hook is first called after a whole period.
      have hperiod := hfirst (999 + 1)
      rw [show (loopScript (999 + 1)).instructions =
        (loopScript 999).instructions ++ [{ now := 0 }] from List.replicate_succ'] at hperiod
      rw [untilAbort_append (untilAbort_of_lt_countdown _)] at hperiod
      · rw [length_loopScript, hookPeriod] at hperiod
        omega
      · rw [length_loopScript]
        simp [beginCallback, hookPeriod]
    · by_contra hmany
      rw [not_or, not_le, not_lt] at hmany
      obtain ⟨hmany, hwall⟩ := hmany
      have hlong := hfirst (hookPeriod * budgets.maxInstructions.toInt - 1).toNat
      have hspared := @untilAbort_loopScript budgets
        (hookPeriod * budgets.maxInstructions.toInt - 1).toNat (by omega) hwall
      simp only [hookPeriod] at hlong hspared
      rw [show (loopScript _).beganAt = 0 from rfl, hspared (by omega)] at hlong
      simp only at hlong
      omega
  · rintro ⟨hzero, hlow⟩ scripts
    refine Runs.always_of_inv (Ticking budgets) hnew ?_
    intro sandbox script _ next h hstep
    cases hstep
    exact ⟨h.bounded hzero hlow script, h.callback script⟩
  · intro scripts
    refine Runs.always_of_inv (Ticking budgets) hnew ?_
    intro sandbox script _ next h hstep
    cases hstep
    exact ⟨h.spared script, h.callback script⟩

/-- Under the default budget of two million instructions a script executes three million, and is
not aborted. -/
theorem three_million_executed :
    (Sandbox.beginCallback { budgets := {} } 0).untilAbort (loopScript 3000000).instructions =
        (3000000, false) ∧
      ¬ Bounded { budgets := {} } (loopScript 3000000) := by
  have hspared := @untilAbort_loopScript {} 3000000 (by decide) (by decide) (by decide)
  refine ⟨hspared, fun h => ?_⟩
  simp only [Bounded] at h
  rw [show (loopScript _).beganAt = 0 from rfl, hspared] at h
  revert h
  decide

end Sandbox

end Ezcap.Drivers
