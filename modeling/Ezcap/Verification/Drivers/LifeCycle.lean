import Ezcap.Model.DriverInstance

/-! What one operation can do to a driver: to its state, its faults and its sandbox. -/

namespace Ezcap.Drivers.DriverInstance

variable {driver : DriverInstance}

/-! ## Callbacks and faults -/

@[simp] theorem performAll_limits (driver : DriverInstance) (bindings : List BindingCall) :
    (driver.performAll bindings).limits = driver.limits := rfl

@[simp] theorem performAll_state (driver : DriverInstance) (bindings : List BindingCall) :
    (driver.performAll bindings).state = driver.state := rfl

@[simp] theorem performAll_faults (driver : DriverInstance) (bindings : List BindingCall) :
    (driver.performAll bindings).faults = driver.faults := rfl

theorem recordFault_eq (driver : DriverInstance) :
    driver.recordFault =
      { driver with
        faults := driver.faults + 1
        state :=
          if driver.limits.faultThreshold ≤ driver.faults + 1 then .quarantined
          else driver.state } := by
  unfold recordFault
  dsimp only
  split_ifs <;> rfl

@[simp] theorem recordFault_sandbox (driver : DriverInstance) :
    driver.recordFault.sandbox = driver.sandbox := by
  rw [recordFault_eq]

@[simp] theorem recordFault_limits (driver : DriverInstance) :
    driver.recordFault.limits = driver.limits := by
  rw [recordFault_eq]

@[simp] theorem recordFault_faults (driver : DriverInstance) :
    driver.recordFault.faults = driver.faults + 1 := by
  rw [recordFault_eq]

theorem recordFault_state (driver : DriverInstance) :
    driver.recordFault.state =
      if driver.limits.faultThreshold ≤ driver.faults + 1 then .quarantined else driver.state := by
  rw [recordFault_eq]

/-! ## Operations -/

/-- What an operation that runs a callback can do: nothing, if it is refused; or the callback fails
and a fault is recorded; or it ends well and the driver is started. -/
inductive Calls (driver : DriverInstance) (script : Option DriverScript) : Operated → Prop where
  | refused (error : Option Bytes) : Calls driver script { driver, error }
  | failed {sandbox : Sandbox} {callback : Callback} {called : Operated} {error : SandboxError}
      (hactive : driver.state = .loaded ∨ driver.state = .started)
      (hsandbox : driver.sandbox = some sandbox)
      (hcall : driver.call sandbox callback script = (called, .error error))
      (message : Option Bytes) :
      Calls driver script { called with driver := called.driver.recordFault, error := message }
  | ended {sandbox : Sandbox} {callback : Callback} {called : Operated}
      (hactive : driver.state = .loaded ∨ driver.state = .started)
      (hsandbox : driver.sandbox = some sandbox)
      (hcall : driver.call sandbox callback script = (called, .ok ())) :
      Calls driver script { called with driver := { called.driver with state := .started } }

/-- A callback changes the sandbox and the state of the host only. -/
theorem call_eq {sandbox : Sandbox} {callback : Callback} {script : Option DriverScript}
    {called : Operated} {result : Except SandboxError Unit}
    (h : driver.call sandbox callback script = (called, result)) :
    ∃ next host, called.driver = { driver with sandbox := some next, host } := by
  cases h
  exact ⟨_, _, rfl⟩

theorem calls_of_started (hstate : driver.state = .started) {sandbox : Sandbox}
    (hsandbox : driver.sandbox = some sandbox) (callback : Callback)
    (script : Option DriverScript) :
    Calls driver script
      (match driver.call sandbox callback script with
        | (called, .error _) => { called with driver := called.driver.recordFault }
        | (called, .ok ()) => called) := by
  cases hcall : driver.call sandbox callback script with
  | mk called result =>
      cases result with
      | error error => exact .failed (.inr hstate) hsandbox hcall called.error
      | ok =>
          obtain ⟨next, host, hdriver⟩ := call_eq hcall
          have hsame : { called with driver := { called.driver with state := .started } } =
              called := by
            rw [hdriver, ← hstate, ← hdriver]
          exact hsame ▸ Calls.ended (.inr hstate) hsandbox hcall

theorem calls_start {onStart : Option DriverScript} {operated : Operated}
    (h : driver.start onStart = some operated) : Calls driver onStart operated := by
  by_cases hstate : driver.state = .loaded
  · rw [start, if_neg (not_not_intro hstate)] at h
    obtain ⟨sandbox, hsandbox, rfl⟩ := Option.map_eq_some_iff.mp h
    cases hcall : driver.call sandbox .onStart onStart with
    | mk called result =>
        cases result with
        | error error => exact .failed (.inl hstate) hsandbox hcall _
        | ok => exact .ended (.inl hstate) hsandbox hcall
  · rw [start, if_pos hstate] at h
    cases h
    exact .refused _

theorem calls_onEvent (driver : DriverInstance) (event : Event) (script : Option DriverScript) :
    Calls driver script (driver.onEvent event script) := by
  unfold onEvent
  split
  · rename_i sandbox hstate hsandbox
    split_ifs
    · exact calls_of_started hstate hsandbox .onEvent script
    · exact .refused none
  · exact .refused none

theorem calls_stopCallback (driver : DriverInstance) (onStop : Option DriverScript) :
    Calls driver onStop (driver.stopCallback onStop) := by
  unfold stopCallback
  split
  · rename_i sandbox hstate hsandbox
    exact calls_of_started hstate hsandbox .onStop onStop
  · exact .refused none

/-- What a load can do: nothing, if it is refused; or it fails and leaves no sandbox; or the chunk
and `on_load` end well in a new one. -/
inductive Loads (driver : DriverInstance) (input : LoadInput) : Operated → Prop where
  | refused (hstate : driver.state ≠ .discovered) :
      Loads driver input
        { driver, error := StdString.cstr "driver is not in the discovered state" }
  | failed {base : DriverInstance} {error : Bytes} {callbacks : List Callback}
      (hstate : driver.state = .discovered) (hlimits : base.limits = driver.limits)
      (hfaults : base.faults = driver.faults ∨ base.faults = driver.faults + 1) :
      Loads driver input (base.loadFailed error callbacks)
  | loaded {first sandbox : Sandbox} {script : DriverScript} (hstate : driver.state = .discovered)
      (hchunk : Sandbox.callback { budgets := driver.limits.sandboxBudgets } input.chunk.toScript =
        (first, .ok ()))
      (hscript : input.onLoad = some script)
      (hload : first.callback script.toScript = (sandbox, .ok ())) :
      Loads driver input
        { driver :=
            { (driver.performAll input.chunk.bindings).performAll script.bindings with
              state := .loaded
              sandbox := some sandbox }
          callbacks := [.chunk, .onLoad] }

theorem loads_load (driver : DriverInstance) (input : LoadInput) :
    Loads driver input (driver.load input) := by
  unfold load
  split_ifs with hrefused
  · exact .refused hrefused
  · exact .failed (not_not.mp hrefused) rfl (.inl rfl)
  have hstate := not_not.mp hrefused
  cases input.bindingError with
  | some error => exact .failed hstate rfl (.inl rfl)
  | none =>
      cases Sandbox.loadSource input.source input.rejected with
      | error error => exact .failed hstate rfl (.inl rfl)
      | ok =>
          simp only [performAll_limits]
          cases hchunk : Sandbox.callback { budgets := driver.limits.sandboxBudgets }
              input.chunk.toScript with
          | mk first result =>
              cases result with
              | error error => exact .failed hstate rfl (.inl rfl)
              | ok =>
                  cases hscript : input.onLoad with
                  | none => exact .failed hstate rfl (.inl rfl)
                  | some script =>
                      cases hload : first.callback script.toScript with
                      | mk sandbox result =>
                          cases result with
                          | error error =>
                              simp only [hload]
                              exact .failed hstate (by simp) (.inr (by simp))
                          | ok =>
                              simp only [hload]
                              exact .loaded hstate hchunk hscript hload

theorem load_refused (h : driver.state ≠ .discovered) (input : LoadInput) :
    driver.load input =
      { driver, error := StdString.cstr "driver is not in the discovered state" } := by
  rw [load, if_pos h]

/-! ## Retired drivers -/

/-- The driver has failed to load, or has had too many faults. -/
def Retired (driver : DriverInstance) : Prop :=
  driver.state = .quarantined ∨ driver.state = .failed

/-- A loaded driver has a sandbox. -/
def Housed (driver : DriverInstance) : Prop :=
  driver.state = .loaded → driver.sandbox.isSome = true

/-- What an operation does about faults. -/
structure Move (driver : DriverInstance) (operated : Operated) : Prop where
  limits : operated.driver.limits = driver.limits
  housed : operated.driver.Housed
  /-- A retired driver runs nothing and stays as it is. -/
  retired : driver.Retired → operated.driver.state = driver.state ∧
    operated.driver.faults = driver.faults ∧ operated.callbacks = []
  /-- At most one fault is recorded, and the last one retires the driver. -/
  faults : operated.driver.faults = driver.faults ∨
    operated.driver.faults = driver.faults + 1 ∧
      (driver.limits.faultThreshold ≤ driver.faults + 1 → operated.driver.Retired)

theorem move_refused (h : driver.Housed) (error : Option Bytes) :
    Move driver { driver, error } where
  limits := rfl
  housed := h
  retired _ := ⟨rfl, rfl, rfl⟩
  faults := .inl rfl

theorem not_retired_of_active (h : driver.state = .loaded ∨ driver.state = .started) :
    ¬ driver.Retired := by
  rcases h with h | h <;> simp [Retired, h]

theorem Calls.move {script : Option DriverScript} {operated : Operated}
    (h : Calls driver script operated) (hhoused : driver.Housed) : Move driver operated := by
  cases h with
  | refused error => exact move_refused hhoused error
  | failed hactive _ hcall message =>
      obtain ⟨next, host, hdriver⟩ := call_eq hcall
      simp only [hdriver]
      refine ⟨recordFault_limits _, fun _ => by simp,
        fun h => absurd h (not_retired_of_active hactive), .inr ?_⟩
      refine ⟨recordFault_faults _, fun hlast => .inl ?_⟩
      exact (recordFault_state _).trans (if_pos hlast)
  | ended hactive _ hcall =>
      obtain ⟨next, host, hdriver⟩ := call_eq hcall
      simp only [hdriver]
      exact ⟨rfl, fun _ => rfl, fun h => absurd h (not_retired_of_active hactive), .inl rfl⟩

theorem Loads.move {input : LoadInput} {operated : Operated} (h : Loads driver input operated)
    (hhoused : driver.Housed) : Move driver operated := by
  cases h with
  | refused => exact move_refused hhoused _
  | failed hstate hlimits hfaults =>
      refine ⟨hlimits, nofun, fun h => absurd h (by simp [Retired, hstate]), ?_⟩
      exact hfaults.imp_right fun hfaults => ⟨hfaults, fun _ => .inr rfl⟩
  | loaded hstate =>
      exact ⟨rfl, fun _ => rfl, fun h => absurd h (by simp [Retired, hstate]), .inl rfl⟩

theorem exists_start (h : driver.Housed) (onStart : Option DriverScript) :
    ∃ operated, driver.start onStart = some operated := by
  by_cases hstate : driver.state = .loaded
  · obtain ⟨sandbox, hsandbox⟩ := Option.isSome_iff_exists.mp (h hstate)
    exact ⟨_, by rw [start, if_neg (not_not_intro hstate), hsandbox, Option.map_some]⟩
  · exact ⟨_, by rw [start, if_pos hstate]⟩

theorem stop_state_of_retired {onStop : Option DriverScript}
    (h : (driver.stopCallback onStop).driver.Retired) :
    (driver.stop onStop).driver.state = (driver.stopCallback onStop).driver.state := by
  rcases h with h | h <;> simp [stop, h]

theorem move_stop (h : driver.Housed) (onStop : Option DriverScript) :
    Move driver (driver.stop onStop) := by
  have hmove := (calls_stopCallback driver onStop).move h
  refine ⟨hmove.limits, fun hloaded => ?_, fun hretired => ?_, ?_⟩
  · simp only [stop] at hloaded
    split_ifs at hloaded with hstate
    exact absurd (.inr hloaded) hstate
  · obtain ⟨hstate, hfaults, hcallbacks⟩ := hmove.retired hretired
    refine ⟨?_, hfaults, hcallbacks⟩
    rw [stop_state_of_retired (by rwa [Retired, hstate]), hstate]
  · refine hmove.faults.imp_right fun hfault => ⟨hfault.1, fun hlast => ?_⟩
    have hretired := hfault.2 hlast
    rwa [Retired, stop_state_of_retired hretired]

/-- Every operation on a driver that is housed moves it, and none uses a sandbox that is not
there. -/
theorem exists_move (h : driver.Housed) (action : Action) :
    ∃ operated, driver.operate action = some operated ∧ Move driver operated := by
  cases action with
  | load input => exact ⟨_, rfl, (loads_load driver input).move h⟩
  | start onStart =>
      obtain ⟨operated, hstart⟩ := exists_start h onStart
      exact ⟨operated, hstart, (calls_start hstart).move h⟩
  | onEvent event script => exact ⟨_, rfl, (calls_onEvent driver event script).move h⟩
  | stop onStop => exact ⟨_, rfl, move_stop h onStop⟩

theorem Retired.housed (h : driver.Retired) : driver.Housed := by
  intro hloaded
  rcases h with h | h <;> simp [hloaded] at h

theorem Retired.callbacks (h : driver.Retired) {action : Action} {operated : Operated}
    (hoperate : driver.operate action = some operated) : operated.callbacks = [] := by
  obtain ⟨_, hoperate', hmove⟩ := exists_move h.housed action
  cases hoperate.symm.trans hoperate'
  exact (hmove.retired h).2.2

end Ezcap.Drivers.DriverInstance
