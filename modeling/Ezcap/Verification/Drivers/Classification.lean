import Ezcap.Verification.Drivers.AbortedSandbox

/-! Whether the outcome of a callback tells why it failed. `pcall` asks for the mark of the hook,
which no callback takes away and which an exhausted heap does not set. -/

namespace Ezcap.Drivers

/-- Why a function of the script fails by itself: a block that the heap ceiling refuses, or anything
else. -/
inductive Cause where
  | memory
  | other
  deriving DecidableEq, Repr

structure CausedScript extends Script where
  cause : Cause := .other

namespace Sandbox

/-- What `pcall` returns. -/
def outcomeOf : Except SandboxError Unit → SandboxOutcome
  | .ok () => .ok
  | .error error => error.outcome

/-- The error of the hook that the callback fails with. -/
def hookError (sandbox : Sandbox) (script : Script) : Option Bytes :=
  ((sandbox.beginCallback script.beganAt).executeAll script.instructions).2

/-- The callback fails, and not with an error of the hook. -/
def FailsItself (sandbox : Sandbox) (script : Script) : Prop :=
  sandbox.hookError script = none ∧ script.failure.isSome = true

def FailsByBudget (sandbox : Sandbox) (script : CausedScript) : Prop :=
  (sandbox.hookError script.toScript).isSome = true ∨
    sandbox.FailsItself script.toScript ∧ script.cause = .memory

def FailsOtherwise (sandbox : Sandbox) (script : CausedScript) : Prop :=
  sandbox.FailsItself script.toScript ∧ script.cause = .other

/-- The outcome of the callback tells why that very callback failed. -/
structure Classified (sandbox : Sandbox) (script : CausedScript) : Prop where
  budget : outcomeOf (sandbox.callback script.toScript).2 = .budgetExceeded ↔
    sandbox.FailsByBudget script
  runtime : outcomeOf (sandbox.callback script.toScript).2 = .runtimeError ↔
    sandbox.FailsOtherwise script

/-! ## The mark -/

/-- The hook raises an error in the callback, which the script may catch. -/
def hookRaises (sandbox : Sandbox) (script : Script) : Bool :=
  ((sandbox.beginCallback script.beganAt).untilAbort script.instructions).2

theorem callback_aborted (sandbox : Sandbox) (script : Script) :
    (sandbox.callback script).1.aborted = (sandbox.aborted || sandbox.hookRaises script) := by
  rw [callback_fst_aborted, executeAll_aborted]
  rfl

/-- The sandbox after callbacks, one after another. -/
def after (sandbox : Sandbox) : List CausedScript → Sandbox
  | [] => sandbox
  | script :: scripts => (sandbox.callback script.toScript).1.after scripts

/-- The hook raises an error in one of the callbacks. -/
def anyRaises (sandbox : Sandbox) : List CausedScript → Bool
  | [] => false
  | script :: scripts =>
      sandbox.hookRaises script.toScript ||
        (sandbox.callback script.toScript).1.anyRaises scripts

theorem after_aborted (sandbox : Sandbox) (scripts : List CausedScript) :
    (sandbox.after scripts).aborted = (sandbox.aborted || sandbox.anyRaises scripts) := by
  induction scripts generalizing sandbox with
  | nil => simp [after, anyRaises]
  | cons script scripts ih => rw [after, ih, callback_aborted, anyRaises, Bool.or_assoc]

theorem after_append (sandbox : Sandbox) (scripts : List CausedScript) (script : CausedScript) :
    sandbox.after (scripts ++ [script]) =
      ((sandbox.after scripts).callback script.toScript).1 := by
  induction scripts generalizing sandbox with
  | nil => rfl
  | cons first scripts ih => rw [List.cons_append, after, ih, after]

/-! ## Outcomes -/

section Outcomes

variable (sandbox : Sandbox) (script : Script)

theorem outcomeOf_callback :
    outcomeOf (sandbox.callback script).2 =
      if (sandbox.hookError script).isNone && script.failure.isNone then .ok
      else if (sandbox.callback script).1.aborted then .budgetExceeded else .runtimeError := by
  rw [callback_fst_aborted, hookError]
  unfold callback pcall
  rw [luaPcall_eq]
  rcases (sandbox.beginCallback script.beganAt).executeAll script.instructions with ⟨next, error⟩
  cases error <;> cases script.failure <;> cases h : next.aborted <;> simp [h, outcomeOf]

variable {sandbox : Sandbox} {script : CausedScript}

theorem outcomeOf_of_failsItself (h : sandbox.FailsItself script.toScript) :
    outcomeOf (sandbox.callback script.toScript).2 =
      if (sandbox.callback script.toScript).1.aborted then .budgetExceeded else .runtimeError := by
  rw [outcomeOf_callback, h.1, if_neg]
  rw [Option.isNone_none, Bool.true_and, Option.isNone_iff_eq_none, ← Option.not_isSome_iff_eq_none,
    not_not]
  exact h.2

/-- A callback that succeeds, or fails with an error of the hook, is told rightly. -/
theorem classified_of_not_failsItself (h : ¬ sandbox.FailsItself script.toScript) :
    sandbox.Classified script := by
  have houtcome := outcomeOf_callback sandbox script.toScript
  cases herror : sandbox.hookError script.toScript with
  | some error =>
      have hmarked : (sandbox.callback script.toScript).1.aborted = true := by
        rw [callback_aborted, hookRaises, untilAbort_of_executeAll, Bool.or_true]
        rw [← hookError, herror, Option.isSome_some]
      rw [herror, hmarked] at houtcome
      constructor
      · simp [houtcome, FailsByBudget, herror]
      · simp [houtcome, FailsOtherwise, h]
  | none =>
      have hfailure : script.failure = none := by
        rw [← Option.not_isSome_iff_eq_none]
        exact fun hsome => h ⟨herror, hsome⟩
      rw [herror, hfailure] at houtcome
      constructor
      · simp [houtcome, FailsByBudget, herror, h]
      · simp [houtcome, FailsOtherwise, h]

/-- A callback is told wrongly exactly if it fails by itself, and the mark does not agree with the
cause. -/
theorem classified_iff :
    sandbox.Classified script ↔
      (sandbox.FailsItself script.toScript →
        (script.cause = .memory ↔ (sandbox.callback script.toScript).1.aborted = true)) := by
  by_cases hitself : sandbox.FailsItself script.toScript
  case neg => exact iff_of_true (classified_of_not_failsItself hitself) fun h => absurd h hitself
  have houtcome := outcomeOf_of_failsItself hitself
  cases hmarked : (sandbox.callback script.toScript).1.aborted with
  | true =>
      rw [hmarked, if_pos rfl] at houtcome
      cases hcause : script.cause with
      | memory =>
          refine iff_of_true ⟨?_, ?_⟩ (by simp)
          · simp [houtcome, FailsByBudget, hitself, hcause]
          · simp [houtcome, FailsOtherwise, hcause]
      | other =>
          refine iff_of_false (fun h => ?_) (by simp [hitself])
          have hbudget := h.budget.mp houtcome
          simp [FailsByBudget, hitself.1, hcause] at hbudget
  | false =>
      rw [hmarked, if_neg Bool.false_ne_true] at houtcome
      cases hcause : script.cause with
      | memory =>
          refine iff_of_false (fun h => ?_) (by simp [hitself])
          have hruntime := h.runtime.mp houtcome
          simp [FailsOtherwise, hcause] at hruntime
      | other =>
          refine iff_of_true ⟨?_, ?_⟩ (by simp)
          · simp [houtcome, FailsByBudget, hitself.1, hcause]
          · simp [houtcome, FailsOtherwise, hitself, hcause]

end Outcomes

/-- After any callbacks the next one is told rightly exactly if it does not fail by itself, or fails
for want of memory once the hook has raised an error in it or an earlier one, or fails otherwise
before that. -/
theorem classification_per_callback_iff (budgets : SandboxBudgets) (earlier : List CausedScript)
    (script : CausedScript) :
    (Sandbox.after { budgets } earlier).Classified script ↔
      ((Sandbox.after { budgets } earlier).FailsItself script.toScript →
        (script.cause = .memory ↔
          Sandbox.anyRaises { budgets } (earlier ++ [script]) = true)) := by
  have hmarked := after_aborted { budgets } (earlier ++ [script])
  rw [after_append] at hmarked
  rw [classified_iff, hmarked, Bool.false_or]

/-- An ordinary error is told as one of the budget after a callback that ran past its deadline, and
an exhausted heap as an ordinary error. -/
theorem late_callback_misleads :
    ¬ (Sandbox.after { budgets := {} } [{ lateScript {} true with }]).Classified
        { failure := some (StdString.cstr "attempt to call a nil value") } ∧
      ¬ (Sandbox.after { budgets := {} } []).Classified
        { failure := some (StdString.cstr "not enough memory"), cause := .memory } := by
  have hticking : Ticking {} { budgets := {} } := ⟨rfl, by simp [hookPeriod], Nat.le_refl _⟩
  have hlate := (callback_lateScript hticking true).1
  rw [classified_iff, classified_iff]
  refine ⟨fun h => ?_, fun h => ?_⟩
  · have hcause := (h ⟨rfl, rfl⟩).mpr (by rw [callback_aborted, Bool.or_eq_true]; exact .inl hlate)
    cases hcause
  · have hmarked := (h ⟨rfl, rfl⟩).mp rfl
    cases hmarked

end Sandbox

end Ezcap.Drivers
