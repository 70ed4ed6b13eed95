import Ezcap.Verification.Drivers.InstructionBudget
import Ezcap.Verification.Drivers.LifeCycle

/-! Whether a sandbox that has hit a budget is used again. Only the threshold of faults keeps it
from that: no operation looks at the mark that the hook sets. -/

namespace Ezcap.Drivers

open Manifests (DriverManifest)

/-! ## The mark -/

namespace Sandbox

section Mark

variable {sandbox next : Sandbox} {now : ℤ}

theorem instructionHook_aborted (sandbox : Sandbox) (now : ℤ) :
    (sandbox.instructionHook now).1.aborted =
      (sandbox.aborted || (sandbox.instructionHook now).2.isSome) := by
  unfold instructionHook
  dsimp only
  split_ifs
  all_goals simp [markAborted]

theorem execute_aborted (sandbox : Sandbox) (now : ℤ) :
    (sandbox.execute now).1.aborted = (sandbox.aborted || (sandbox.execute now).2.isSome) := by
  unfold execute
  split_ifs
  · exact instructionHook_aborted _ now
  · simp

theorem executeAll_aborted_of_aborted (h : sandbox.aborted = true)
    (instructions : List Instruction) : (sandbox.executeAll instructions).1.aborted = true := by
  refine executeAll_invariant (·.aborted = true) ?_ h instructions
  intro sandbox now h
  rw [execute_aborted, h, Bool.true_or]

theorem aborted_of_execute {error : Bytes} (h : sandbox.execute now = (next, some error)) :
    next.aborted = true := by
  simpa [h] using execute_aborted sandbox now

/-- The instructions set the mark exactly if the hook raises an error, caught or not. -/
theorem executeAll_aborted (sandbox : Sandbox) (instructions : List Instruction) :
    (sandbox.executeAll instructions).1.aborted =
      (sandbox.aborted || (sandbox.untilAbort instructions).2) := by
  fun_induction executeAll sandbox instructions with
  | case1 => simp [untilAbort]
  | case2 sandbox instruction _ next hexecute ih =>
      have hnext := execute_aborted sandbox instruction.now
      rw [untilAbort_cons_of_none hexecute, ih]
      simp_all
  | case3 _ _ _ _ _ hexecute =>
      rw [untilAbort_cons_of_some hexecute,
        executeAll_aborted_of_aborted (aborted_of_execute hexecute), Bool.or_true]
  | case4 _ _ _ _ _ hexecute =>
      rw [untilAbort_cons_of_some hexecute, aborted_of_execute hexecute, Bool.or_true]

theorem untilAbort_of_executeAll {instructions : List Instruction}
    (h : (sandbox.executeAll instructions).2.isSome = true) :
    (sandbox.untilAbort instructions).2 = true := by
  fun_induction executeAll sandbox instructions with
  | case1 => cases h
  | case2 _ _ _ _ hexecute ih =>
      rw [untilAbort_cons_of_none hexecute]
      exact ih h
  | case3 _ _ _ _ _ hexecute => rw [untilAbort_cons_of_some hexecute]
  | case4 _ _ _ _ _ hexecute => rw [untilAbort_cons_of_some hexecute]

/-- A script that catches all errors of the hook does not fail with one, and a script that catches
none fails with the first. -/
theorem executeAll_of_caught {instructions : List Instruction} {caught : Bool}
    (hcaught : ∀ instruction ∈ instructions, instruction.caught = caught) :
    (sandbox.executeAll instructions).2.isSome =
      ((sandbox.untilAbort instructions).2 && !caught) := by
  fun_induction executeAll sandbox instructions with
  | case1 => rfl
  | case2 _ _ _ _ hexecute ih =>
      rw [untilAbort_cons_of_none hexecute]
      exact ih (List.forall_mem_cons.mp hcaught).2
  | case3 _ _ _ _ _ _ htrue ih =>
      obtain ⟨rfl, hrest⟩ := List.forall_mem_cons.mp hcaught
      simp [ih hrest, htrue]
  | case4 _ _ _ _ _ hexecute hfalse =>
      obtain ⟨rfl, -⟩ := List.forall_mem_cons.mp hcaught
      simp [untilAbort_cons_of_some hexecute, hfalse]

theorem pcall_eq_ok_iff (sandbox : Sandbox) (script : Script) :
    (sandbox.pcall script).2 = .ok () ↔
      (sandbox.executeAll script.instructions).2 = none ∧ script.failure = none := by
  unfold pcall
  rw [luaPcall_eq, ← Option.or_eq_none_iff]
  cases (sandbox.executeAll script.instructions).2.or script.failure with
  | none => simp
  | some message =>
      dsimp only
      split_ifs <;> simp

theorem callback_fst_aborted (sandbox : Sandbox) (script : Script) :
    (sandbox.callback script).1.aborted =
      ((sandbox.beginCallback script.beganAt).executeAll script.instructions).1.aborted := by
  rw [← pcall_fst]
  rfl

/-- The script catches no error that the hook raises. -/
def Uncaught (script : Script) : Prop :=
  ∀ instruction ∈ script.instructions, instruction.caught = false

theorem callback_aborted_of_uncaught {script : Script} (huncaught : Uncaught script)
    (h : (sandbox.callback script).2 = .ok ()) :
    (sandbox.callback script).1.aborted = sandbox.aborted := by
  have hended := ((pcall_eq_ok_iff (sandbox.beginCallback script.beganAt) script).mp h).1
  have hfails := @executeAll_of_caught (sandbox.beginCallback script.beganAt) _ _ huncaught
  rw [hended, Option.isSome_none, Bool.not_false, Bool.and_true] at hfails
  rw [callback_fst_aborted, executeAll_aborted, ← hfails, Bool.or_false]
  rfl

/-- A script that executes a whole period after its deadline. -/
def lateScript (budgets : SandboxBudgets) (caught : Bool) : Script where
  instructions :=
    List.replicate hookPeriod { now := max 0 (budgets.wallClockMs.toInt * 1000000 + 1), caught }
  steady := by
    intro instruction hmem
    rw [List.eq_of_mem_replicate hmem]
    exact Int.le_max_left 0 _

theorem callback_lateScript {budgets : SandboxBudgets} (h : Ticking budgets sandbox)
    (caught : Bool) :
    (sandbox.callback (lateScript budgets caught)).1.aborted = true ∧
      ((sandbox.callback (lateScript budgets caught)).2 = .ok () ↔ caught = true) := by
  have hcaught (instruction : Instruction)
      (hmem : instruction ∈ (lateScript budgets caught).instructions) :
      instruction.caught = caught := by
    rw [List.eq_of_mem_replicate hmem]
  have hexhausted (instruction : Instruction)
      (hmem : instruction ∈ (lateScript budgets caught).instructions) :
      Exhausted (sandbox.beginCallback 0) instruction.now := by
    rw [List.eq_of_mem_replicate hmem]
    refine .inr ?_
    simp only [beginCallback, h.budgets]
    omega
  have hlen : (sandbox.beginCallback 0).countdown ≤
      (lateScript budgets caught).instructions.length := by
    rw [lateScript, List.length_replicate]
    exact h.le
  have hraised : ((sandbox.beginCallback 0).untilAbort
      (lateScript budgets caught).instructions).2 = true := by
    rw [untilAbort_of_exhausted (h.counting 0) hexhausted, if_pos hlen]
  have hfails := @executeAll_of_caught (sandbox.beginCallback 0) _ _ hcaught
  rw [hraised, Bool.true_and] at hfails
  constructor
  · rw [callback_fst_aborted, executeAll_aborted]
    exact (congrArg _ hraised).trans (Bool.or_true _)
  · rw [callback, pcall_eq_ok_iff, ← Option.isNone_iff_eq_none, ← Option.not_isSome,
      show (lateScript budgets caught).beganAt = 0 from rfl, hfails, Bool.not_not]
    exact and_iff_left rfl

end Mark

end Sandbox

/-! ## Operations -/

namespace DriverInstance

section Operations

variable {driver : DriverInstance} {sandbox : Sandbox}

theorem recordFault_state_of_first (hfaults : driver.faults = 0) :
    driver.recordFault.state =
      if driver.limits.faultThreshold ≤ 1 then .quarantined else driver.state := by
  rw [recordFault_state, hfaults, UInt32.zero_add]

/-- An operation on a sandbox with the mark runs no callback. -/
def Unused (driver : DriverInstance) (action : Action) : Prop :=
  ∀ sandbox operated, driver.sandbox = some sandbox → sandbox.aborted = true →
    driver.operate action = some operated → operated.callbacks = []

/-- A driver whose first fault is its last: it is out of use, or it has had no fault and its
sandbox is not marked. -/
inductive Careful (driver : DriverInstance) : Prop where
  | quarantined (state : driver.state = .quarantined)
  | failed (state : driver.state = .failed) (sandbox : driver.sandbox = none)
  | clean (faults : driver.faults = 0)
      (sandbox : ∀ sandbox, driver.sandbox = some sandbox → sandbox.aborted = false)

theorem Careful.unused (h : Careful driver) (action : Action) : Unused driver action := by
  intro sandbox operated hsandbox haborted hoperate
  cases h with
  | quarantined state => exact Retired.callbacks (.inl state) hoperate
  | failed state none => simp [none] at hsandbox
  | clean faults unmarked => simp [unmarked sandbox hsandbox] at haborted

end Operations

/-! ## Runs -/

/-- No script of an operation catches the error of a budget. -/
def Action.Uncaught : Action → Prop
  | .load input =>
      Sandbox.Uncaught input.chunk.toScript ∧ ∀ s ∈ input.onLoad, Sandbox.Uncaught s.toScript
  | .start script => ∀ s ∈ script, Sandbox.Uncaught s.toScript
  | .onEvent _ script => ∀ s ∈ script, Sandbox.Uncaught s.toScript
  | .stop script => ∀ s ∈ script, Sandbox.Uncaught s.toScript

/-- The invariant of runs under limits that quarantine a driver at its first fault. -/
structure Guarded (limits : EngineLimits) (driver : DriverInstance) : Prop where
  limits : driver.limits = limits
  careful : Careful driver

section Guarded

variable {limits : EngineLimits} {driver : DriverInstance}

theorem Guarded.clean (h : Guarded limits driver) (hquarantined : driver.state ≠ .quarantined)
    (hfailed : driver.state ≠ .failed) :
    driver.faults = 0 ∧ ∀ sandbox, driver.sandbox = some sandbox → sandbox.aborted = false := by
  cases h.careful with
  | quarantined state => exact absurd state hquarantined
  | failed state => exact absurd state hfailed
  | clean faults sandbox => exact ⟨faults, sandbox⟩

theorem guarded_recordFault (h : driver.limits = limits) (hthreshold : limits.faultThreshold ≤ 1)
    (hfaults : driver.faults = 0) : Guarded limits driver.recordFault :=
  ⟨(recordFault_limits driver).trans h,
    .quarantined ((recordFault_state_of_first hfaults).trans (if_pos (h ▸ hthreshold)))⟩

theorem Guarded.load (h : Guarded limits driver) {input : LoadInput}
    (huncaught : (Action.load input).Uncaught) {operated : Operated}
    (hloads : Loads driver input operated) : Guarded limits operated.driver := by
  cases hloads with
  | refused => exact h
  | failed hstate hlimits => exact ⟨hlimits.trans h.limits, .failed rfl rfl⟩
  | @loaded first sandbox script hstate hchunk hscript hload =>
      obtain ⟨hfaults, -⟩ := h.clean (by simp [hstate]) (by simp [hstate])
      refine ⟨by simp [h.limits], .clean (by simp [hfaults]) ?_⟩
      rintro _ ⟨⟩
      have hfirst := @Sandbox.callback_aborted_of_uncaught
        { budgets := driver.limits.sandboxBudgets } _ huncaught.1 (by rw [hchunk])
      have hsecond := @Sandbox.callback_aborted_of_uncaught first _ (huncaught.2 script hscript)
        (by rw [hload])
      rw [hchunk] at hfirst
      rw [hload] at hsecond
      exact hsecond.trans hfirst

theorem Guarded.calls (h : Guarded limits driver) (hthreshold : limits.faultThreshold ≤ 1)
    {script : Option DriverScript} (huncaught : ∀ s ∈ script, Sandbox.Uncaught s.toScript)
    {operated : Operated} (hcalls : Calls driver script operated) :
    Guarded limits operated.driver := by
  have hclean (hactive : driver.state = .loaded ∨ driver.state = .started) :=
    h.clean (by rcases hactive with h | h <;> simp [h]) (by rcases hactive with h | h <;> simp [h])
  cases hcalls with
  | refused => exact h
  | failed hactive _ hcall message =>
      obtain ⟨next, host, hdriver⟩ := call_eq hcall
      simp only [hdriver]
      exact guarded_recordFault h.limits hthreshold (hclean hactive).1
  | @ended sandbox callback called hactive hsandbox hcall =>
      obtain ⟨hfaults, hunmarked⟩ := hclean hactive
      obtain rfl : (driver.call sandbox callback script).1 = called := congrArg Prod.fst hcall
      refine ⟨h.limits, .clean hfaults ?_⟩
      rintro _ ⟨⟩
      cases script with
      | none => exact hunmarked sandbox hsandbox
      | some script =>
          have hok : (sandbox.callback script.toScript).2 = .ok () := congrArg Prod.snd hcall
          exact (Sandbox.callback_aborted_of_uncaught (huncaught script rfl) hok).trans
            (hunmarked sandbox hsandbox)

theorem Guarded.stop {script : Option DriverScript}
    (h : Guarded limits (driver.stopCallback script).driver) :
    Guarded limits (driver.stop script).driver := by
  refine ⟨h.limits, ?_⟩
  cases h.careful with
  | quarantined state => exact .quarantined (by simp [DriverInstance.stop, state])
  | failed state _ => exact .failed (by simp [DriverInstance.stop, state]) rfl
  | clean faults _ => exact .clean faults fun _ h => absurd h (Option.some_ne_none _).symm

theorem Guarded.step (h : Guarded limits driver) (hthreshold : limits.faultThreshold ≤ 1)
    {action : Action} (huncaught : action.Uncaught) {next : DriverInstance}
    (hstep : driver.step action = some next) : Guarded limits next := by
  obtain ⟨operated, hoperate, rfl⟩ := Option.map_eq_some_iff.mp hstep
  cases action with
  | load input =>
      cases hoperate
      exact h.load huncaught (loads_load driver input)
  | start script => exact h.calls hthreshold huncaught (calls_start hoperate)
  | onEvent event script =>
      cases hoperate
      exact h.calls hthreshold huncaught (calls_onEvent driver event script)
  | stop script =>
      cases hoperate
      exact (h.calls hthreshold huncaught (calls_stopCallback driver script)).stop

end Guarded

/-! ## A sandbox that is used again -/

section Reused

variable {driver : DriverInstance} {sandbox next : Sandbox} {script : DriverScript}

theorem start_of_ok (hstate : driver.state = .loaded) (hsandbox : driver.sandbox = some sandbox)
    (h : sandbox.callback script.toScript = (next, .ok ())) :
    driver.start (some script) = some
      { driver := { driver.performAll script.bindings with
          state := .started, sandbox := some next }
        callbacks := [.onStart] } := by
  simp [start, hstate, hsandbox, call, Sandbox.callGlobal, h]

theorem start_of_error {error : SandboxError} (hstate : driver.state = .loaded)
    (hsandbox : driver.sandbox = some sandbox)
    (h : sandbox.callback script.toScript = (next, .error error)) :
    driver.start (some script) = some
      { driver := recordFault { driver.performAll script.bindings with sandbox := some next }
        error := error.message
        callbacks := [.onStart] } := by
  simp [start, hstate, hsandbox, call, Sandbox.callGlobal, h]

theorem not_unused_start (hstate : driver.state = .loaded)
    (hsandbox : driver.sandbox = some sandbox) (haborted : sandbox.aborted = true) :
    ¬ Unused driver (.start (some {})) := by
  intro h
  have hstart := @start_of_ok driver sandbox (sandbox.callback {}).1 {} hstate hsandbox rfl
  cases h sandbox _ hsandbox haborted hstart

theorem not_unused_stop (hstate : driver.state = .started)
    (hsandbox : driver.sandbox = some sandbox) (haborted : sandbox.aborted = true) :
    ¬ Unused driver (.stop (some {})) := by
  intro h
  have hnone := h sandbox _ hsandbox haborted rfl
  simp only [stop, stopCallback, hstate, hsandbox, call] at hnone
  cases hnone

/-- `on_start` runs past its deadline. -/
def lateStart (limits : EngineLimits) (caught : Bool) : Action :=
  .start (some { Sandbox.lateScript limits.sandboxBudgets caught with })

/-- That leaves the mark. If the error is caught the driver is started, and if not it is still
loaded unless this was one fault too many. -/
theorem step_lateStart (hstate : driver.state = .loaded) (hfaults : driver.faults = 0)
    (hsandbox : driver.sandbox = some sandbox)
    (hticking : Sandbox.Ticking driver.limits.sandboxBudgets sandbox) (caught : Bool) :
    ∃ next marked, driver.step (lateStart driver.limits caught) = some next ∧
      next.sandbox = some marked ∧ marked.aborted = true ∧
      (caught = true → next.state = .started) ∧
      (caught = false → 1 < driver.limits.faultThreshold → next.state = .loaded) := by
  obtain ⟨haborted, hok⟩ := Sandbox.callback_lateScript hticking caught
  cases hcall :
      sandbox.callback (Sandbox.lateScript driver.limits.sandboxBudgets caught) with
  | mk marked result =>
      rw [hcall] at haborted hok
      cases result with
      | ok =>
          have hstart := @start_of_ok driver sandbox marked
            { Sandbox.lateScript driver.limits.sandboxBudgets caught with } hstate hsandbox hcall
          refine ⟨_, marked, by rw [step, lateStart, operate, hstart, Option.map_some], rfl,
            haborted, fun _ => rfl, fun huncaught => ?_⟩
          rw [hok.mp rfl] at huncaught
          cases huncaught
      | error error =>
          have hstart := @start_of_error driver sandbox marked
            { Sandbox.lateScript driver.limits.sandboxBudgets caught with } error hstate hsandbox
            hcall
          refine ⟨_, marked, by rw [step, lateStart, operate, hstart, Option.map_some], by simp,
            haborted, fun hcaught => ?_, fun _ hthreshold => ?_⟩
          · cases hok.mpr hcaught
          · rw [recordFault_state_of_first (by simp [hfaults]),
              if_neg (by simpa using UInt32.not_le.mpr hthreshold)]
            simp [hstate]

/-- A driver whose script has been loaded and has executed nothing. -/
def loadedDriver (manifest : DriverManifest) (limits : EngineLimits) : DriverInstance where
  manifest := manifest
  limits := limits
  state := .loaded
  sandbox := some
    (Sandbox.endCallback (Sandbox.beginCallback { budgets := limits.sandboxBudgets } 0))

theorem step_load (manifest : DriverManifest) (limits : EngineLimits) :
    step { manifest, limits } (.load {}) = some (loadedDriver manifest limits) := rfl

/-- The runs that load a driver and run its `on_start` late leave a sandbox with the mark. -/
theorem late_run (manifest : DriverManifest) (limits : EngineLimits) (caught : Bool) :
    ∃ driver sandbox,
      Runs.exec step { manifest, limits } [.load {}, lateStart limits caught] = some driver ∧
      driver.sandbox = some sandbox ∧ sandbox.aborted = true ∧
      (caught = true → driver.state = .started) ∧
      (caught = false → 1 < limits.faultThreshold → driver.state = .loaded) := by
  have hticking : Sandbox.Ticking limits.sandboxBudgets
      (Sandbox.endCallback (Sandbox.beginCallback { budgets := limits.sandboxBudgets } 0)) :=
    ⟨rfl, by simp [Sandbox.endCallback, Sandbox.beginCallback, hookPeriod], Nat.le_refl _⟩
  obtain ⟨driver, marked, hstep, hmarked⟩ :=
    @step_lateStart (loadedDriver manifest limits) _ rfl rfl rfl hticking caught
  refine ⟨driver, marked, ?_, hmarked⟩
  simp only [Runs.exec, step_load, Option.bind_some]
  rw [show (loadedDriver manifest limits).limits = limits from rfl] at hstep
  rw [hstep, Option.bind_some]

theorem not_always_of_not_unused {actions : List Action} {start : DriverInstance} {last : Action}
    (hrun : Runs.exec step start actions = some driver) (h : ¬ Unused driver last) :
    ¬ Runs.Always step (fun driver action _ => Unused driver action) start
      (actions ++ [last]) := by
  induction actions generalizing start with
  | nil =>
      cases hrun
      intro hall
      refine h fun sandbox operated hsandbox haborted hoperate => ?_
      have hstep : driver.step last = some operated.driver := by
        rw [step, hoperate, Option.map_some]
      exact (hall _ hstep).1 sandbox operated hsandbox haborted hoperate
  | cons action actions ih =>
      obtain ⟨next, hstep, hlater⟩ := Option.bind_eq_some_iff.mp hrun
      intro hall
      exact ih hlater (hall next hstep).2

end Reused

theorem uncaught_lateRun (limits : EngineLimits) :
    ∀ action ∈ [.load {}, lateStart limits false] ++ [.start (some {})],
      Action.Uncaught action := by
  intro action hmem
  simp only [List.cons_append, List.nil_append, List.mem_cons, List.not_mem_nil, or_false] at hmem
  obtain rfl | rfl | rfl := hmem
  · exact ⟨nofun, by rintro _ ⟨⟩; exact nofun⟩
  · rintro _ ⟨⟩ instruction hinstruction
    rw [List.eq_of_mem_replicate hinstruction]
  · rintro _ ⟨⟩
    exact nofun

/-- Along every run whose scripts catch no error of a budget, a sandbox that has hit one runs
nothing more, exactly if the first fault quarantines the driver. Scripts that catch it go on under
any limits. -/
theorem aborted_unused_iff (manifest : DriverManifest) (limits : EngineLimits) :
    ((∀ actions, (∀ action ∈ actions, action.Uncaught) →
        Runs.Always step (fun driver action _ => Unused driver action) { manifest, limits }
          actions) ↔
      limits.faultThreshold ≤ 1) ∧
    ∃ actions, ¬ Runs.Always step (fun driver action _ => Unused driver action)
      { manifest, limits } actions := by
  refine ⟨⟨?_, ?_⟩, ?_⟩
  · intro h
    by_contra hthreshold
    rw [UInt32.not_le] at hthreshold
    obtain ⟨driver, sandbox, hrun, hsandbox, haborted, -, hloaded⟩ := late_run manifest limits false
    have hused := not_unused_start (hloaded rfl hthreshold) hsandbox haborted
    exact not_always_of_not_unused hrun hused (h _ (uncaught_lateRun limits))
  · intro hthreshold actions huncaught
    refine Runs.always_of_inv (Guarded limits) ⟨rfl, .clean rfl (by simp)⟩ ?_
    intro driver action hmem next h hstep
    exact ⟨h.careful.unused action, h.step hthreshold (huncaught action hmem) hstep⟩
  · obtain ⟨driver, sandbox, hrun, hsandbox, haborted, hstarted, -⟩ := late_run manifest limits true
    exact ⟨_, not_always_of_not_unused hrun (not_unused_stop (hstarted rfl) hsandbox haborted)⟩

/-- Under the default limits, `on_start` that has run past its deadline is called once more in the
same sandbox. -/
theorem late_driver_started_again :
    ∃ driver sandbox,
      Runs.exec step {} [.load {}, lateStart {} false] = some driver ∧
      driver.sandbox = some sandbox ∧ sandbox.aborted = true ∧
      ¬ Unused driver (.start (some {})) := by
  obtain ⟨driver, sandbox, hrun, hsandbox, haborted, -, hloaded⟩ := late_run {} {} false
  exact ⟨driver, sandbox, hrun, hsandbox, haborted,
    not_unused_start (hloaded rfl (by decide)) hsandbox haborted⟩

end DriverInstance

end Ezcap.Drivers
