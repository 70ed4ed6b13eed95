import Ezcap.Library.Runs
import Ezcap.Verification.Drivers.LifeCycle

/-! Loading a driver again. `stop` makes a driver discovered, so that it can be loaded once more,
and what its script has told the host is still there. -/

namespace Ezcap.Drivers.DriverInstance

open StdString
open Manifests (DriverManifest)
open scoped List

variable {driver next : DriverInstance} {action : Action}

/-! ## Calls -/

inductive Call where
  | load
  | start
  | onEvent
  | stop
  deriving DecidableEq, Repr

/-- The function that an action calls, without what it meets there. -/
def Action.call : Action → Call
  | .load _ => .load
  | .start _ => .start
  | .onEvent _ _ => .onEvent
  | .stop _ => .stop

/-- The step is a load that succeeds. -/
def loads (driver : DriverInstance) (action : Action) (_ : DriverInstance) : Bool :=
  match action with
  | .load input => (driver.load input).error.isNone
  | _ => false

/-- A load that is not refused finds the state of the host as it was made. -/
def FindsFresh (driver : DriverInstance) (action : Action) (_ : DriverInstance) : Prop :=
  action.call = .load → driver.state = .discovered → driver.host = {}

/-- With these calls, whatever the scripts do, at most one load succeeds, and what one script has
told the host is not there for another. -/
def LoadedOnce (manifest : DriverManifest) (limits : EngineLimits) (calls : List Call) : Prop :=
  ∀ actions : List Action, actions.map Action.call = calls →
    Runs.count step loads { manifest, limits } actions ≤ 1 ∧
      Runs.Always step FindsFresh { manifest, limits } actions

/-- With these calls every load after a stop is refused. -/
def SpentByStop (manifest : DriverManifest) (limits : EngineLimits) (calls : List Call) : Prop :=
  ∀ (earlier : List Action) (input : LoadInput) (later : List Action) (driver : DriverInstance),
    (earlier ++ .load input :: later).map Action.call = calls → .stop ∈ earlier.map Action.call →
    Runs.exec step { manifest, limits } earlier = some driver →
    (driver.load input).error = some (cstr "driver is not in the discovered state")

/-! ## Where a driver is discovered -/

theorem loads_eq_false (h : action.call = .load → driver.state ≠ .discovered)
    (next : DriverInstance) : loads driver action next = false := by
  cases action with
  | load input => rw [loads, load_refused (h rfl), Option.isNone_some]
  | _ => rfl

theorem step_of_discovered (h : driver.state = .discovered) (hcall : action.call ≠ .load) :
    ∃ next, driver.step action = some next ∧ next.state = .discovered ∧
      next.host = driver.host := by
  cases action with
  | load input => exact absurd rfl hcall
  | start onStart => exact ⟨driver, by simp [step, operate, start, h], h, rfl⟩
  | onEvent event script => exact ⟨driver, by simp [step, operate, onEvent, h], h, rfl⟩
  | stop onStop =>
      have hstop : (driver.stop onStop).driver = { driver with sandbox := none } := by
        simp [stop, stopCallback, h]
      exact ⟨{ driver with sandbox := none }, congrArg some hstop, h, rfl⟩

theorem Loads.state_ne {input : LoadInput} {operated : Operated}
    (h : Loads driver input operated) : operated.driver.state ≠ .discovered := by
  cases h with
  | refused hstate => exact hstate
  | failed => nofun
  | loaded => nofun

theorem Calls.state_ne {script : Option DriverScript} {operated : Operated}
    (h : Calls driver script operated) (hstate : driver.state ≠ .discovered) :
    operated.driver.state ≠ .discovered := by
  cases h with
  | refused => exact hstate
  | failed _ _ hcall message =>
      obtain ⟨sandbox, host, hdriver⟩ := call_eq hcall
      simp only [hdriver, recordFault_state]
      split_ifs
      · simp
      · exact hstate
  | ended => simp

theorem step_state_ne (h : driver.state ≠ .discovered) (hcall : action.call ≠ .stop)
    (hstep : driver.step action = some next) : next.state ≠ .discovered := by
  obtain ⟨operated, hoperate, rfl⟩ := Option.map_eq_some_iff.mp hstep
  cases action with
  | load input =>
      cases hoperate
      exact (loads_load driver input).state_ne
  | start onStart => exact (calls_start hoperate).state_ne h
  | onEvent event script =>
      cases hoperate
      exact (calls_onEvent driver event script).state_ne h
  | stop onStop => exact absurd rfl hcall

/-! ## Calls without a load after a stop -/

/-- No load is to come that is not refused. -/
theorem no_load {calls : List Call} (hload : driver.state = .discovered → .load ∉ calls)
    (hstop : ¬ [.stop, .load] <+ calls) {actions : List Action}
    (hcalls : actions.map Action.call = calls) :
    Runs.count step loads driver actions = 0 ∧ Runs.Always step FindsFresh driver actions := by
  induction actions generalizing driver calls with
  | nil => exact ⟨rfl, trivial⟩
  | cons action actions ih =>
      subst hcalls
      rw [List.map_cons] at hload hstop
      have hrefused : action.call = .load → driver.state ≠ .discovered := by
        intro hcall hstate
        exact hload hstate (by simp [hcall])
      have hnext : ∀ next, driver.step action = some next →
          Runs.count step loads next actions = 0 ∧ Runs.Always step FindsFresh next actions := by
        intro next hstep
        refine ih (fun hstate => ?_) (fun hsub => hstop (hsub.cons _)) rfl
        by_cases hcall : action.call = .stop
        · rw [hcall, List.cons_sublist_cons, List.singleton_sublist] at hstop
          exact hstop
        · by_cases hbefore : driver.state = .discovered
          · exact fun hmem => hload hbefore (List.mem_cons_of_mem _ hmem)
          · exact absurd hstate (step_state_ne hbefore hcall hstep)
      cases hstep : driver.step action with
      | none => simp [Runs.count, Runs.Always, hstep]
      | some next =>
          obtain ⟨hcount, halways⟩ := hnext next hstep
          rw [Runs.count_cons hstep, hcount, loads_eq_false hrefused]
          refine ⟨rfl, fun next' hnext' => ?_⟩
          cases hstep.symm.trans hnext'
          exact ⟨fun hcall hstate => absurd hstate (hrefused hcall), halways⟩

/-- A fresh driver is loaded at most once, unless it is loaded, stopped and loaded. -/
theorem loaded_once {calls : List Call} (hstate : driver.state = .discovered)
    (hhost : driver.host = {}) (hcalls : ¬ [.load, .stop, .load] <+ calls) {actions : List Action}
    (hactions : actions.map Action.call = calls) :
    Runs.count step loads driver actions ≤ 1 ∧ Runs.Always step FindsFresh driver actions := by
  induction actions generalizing driver calls with
  | nil => exact ⟨Nat.zero_le 1, trivial⟩
  | cons action actions ih =>
      subst hactions
      rw [List.map_cons] at hcalls
      by_cases hcall : action.call = .load
      · cases action with
        | load input =>
            rw [hcall, List.cons_sublist_cons] at hcalls
            have hlater := no_load (fun h => absurd h (loads_load driver input).state_ne) hcalls rfl
            have hstep : driver.step (.load input) = some (driver.load input).driver := rfl
            rw [Runs.count_cons hstep, hlater.1]
            refine ⟨Bool.toNat_le _, fun next hnext => ?_⟩
            cases hstep.symm.trans hnext
            exact ⟨fun _ _ => hhost, hlater.2⟩
        | _ => cases hcall
      · obtain ⟨next, hstep, hsame, hkept⟩ := step_of_discovered hstate hcall
        obtain ⟨hcount, halways⟩ := ih hsame (hkept.trans hhost) (fun h => hcalls (h.cons _)) rfl
        rw [Runs.count_cons hstep, loads_eq_false fun h => absurd h hcall]
        refine ⟨by simpa using hcount, fun next' hnext' => ?_⟩
        cases hstep.symm.trans hnext'
        exact ⟨fun h => absurd h hcall, halways⟩

/-! ## Calls that all succeed -/

/-- The call on a script that defines `on_load` only, which does nothing. -/
def quiet : Call → Action
  | .load => .load {}
  | .start => .start none
  | .onEvent => .onEvent {} none
  | .stop => .stop none

theorem quiet_call (call : Call) : (quiet call).call = call := by
  cases call <;> rfl

theorem map_call_quiet (calls : List Call) : (calls.map quiet).map Action.call = calls := by
  simp [Function.comp_def, quiet_call]

/-- A driver that has had no fault. -/
structure InUse (driver : DriverInstance) : Prop where
  housed : driver.Housed
  active : ¬ driver.Retired

theorem load_quiet (h : driver.state = .discovered) :
    ∃ sandbox, driver.load {} =
      { driver := { driver with state := .loaded, sandbox := some sandbox }
        callbacks := [.chunk, .onLoad] } := by
  obtain ⟨manifest, limits, state, faults, sandbox, host⟩ := driver
  cases h
  exact ⟨_, rfl⟩

theorem call_none (driver : DriverInstance) (sandbox : Sandbox) (callback : Callback) :
    driver.call sandbox callback none = ({ driver := { driver with sandbox } }, .ok ()) := rfl

theorem stopCallback_none_state (driver : DriverInstance) :
    (driver.stopCallback none).driver.state = driver.state := by
  unfold stopCallback
  split <;> rfl

theorem InUse.stop_state (h : driver.InUse) : (driver.stop none).driver.state = .discovered := by
  have hactive := h.active
  simp only [stop, stopCallback_none_state]
  cases hstate : driver.state <;> simp_all [Retired]

theorem InUse.active_quiet (h : driver.InUse) (call : Call) {operated : Operated}
    (hoperate : driver.operate (quiet call) = some operated) : ¬ operated.driver.Retired := by
  cases call with
  | load =>
      cases hoperate
      by_cases hstate : driver.state = .discovered
      · obtain ⟨sandbox, hload⟩ := load_quiet hstate
        simp [hload, Retired]
      · rw [load_refused hstate]
        exact h.active
  | start =>
      simp only [quiet, operate, start] at hoperate
      split_ifs at hoperate
      · cases hoperate
        exact h.active
      · obtain ⟨sandbox, -, rfl⟩ := Option.map_eq_some_iff.mp hoperate
        simp [call_none, Retired]
  | onEvent =>
      cases hoperate
      unfold onEvent
      split
      · split_ifs
        · exact h.active
        · exact h.active
      · exact h.active
  | stop =>
      cases hoperate
      simp [Retired, h.stop_state]

theorem InUse.step_quiet (h : driver.InUse) (call : Call) :
    ∃ next, driver.step (quiet call) = some next ∧ next.InUse := by
  obtain ⟨operated, hoperate, hmove⟩ := exists_move h.housed (quiet call)
  refine ⟨operated.driver, by rw [step, hoperate, Option.map_some], hmove.housed, ?_⟩
  exact h.active_quiet call hoperate

theorem InUse.run_quiet (h : driver.InUse) (calls : List Call) :
    ∃ next, Runs.exec step driver (calls.map quiet) = some next ∧ next.InUse := by
  refine Runs.exec_of_inv InUse h fun other action haction hother => ?_
  obtain ⟨call, -, rfl⟩ := List.mem_map.mp haction
  exact hother.step_quiet call

theorem reaches_load {calls : List Call} (h : driver.state = .discovered) (hload : .load ∈ calls) :
    ∃ earlier later next, calls = earlier ++ .load :: later ∧ .load ∉ earlier ∧
      Runs.exec step driver (earlier.map quiet) = some next ∧ next.state = .discovered := by
  obtain ⟨earlier, later, rfl, hfirst⟩ := List.eq_append_cons_of_mem hload
  have hrun : ∃ next, Runs.exec step driver (earlier.map quiet) = some next ∧
      next.state = .discovered := by
    refine Runs.exec_of_inv (fun other : DriverInstance => other.state = .discovered) h ?_
    intro other action haction hother
    obtain ⟨call, hcall, rfl⟩ := List.mem_map.mp haction
    have hne : (quiet call).call ≠ .load := by
      rw [quiet_call]
      exact fun heq => hfirst (heq ▸ hcall)
    obtain ⟨next, hstep, hstate, -⟩ := step_of_discovered hother hne
    exact ⟨next, hstep, hstate⟩
  obtain ⟨next, hrun, hstate⟩ := hrun
  exact ⟨earlier, later, next, rfl, hfirst, hrun, hstate⟩

/-- A driver in use is discovered at the first load after a stop. -/
theorem InUse.reaches_load {calls : List Call} (h : driver.InUse)
    (hcalls : [.stop, .load] <+ calls) :
    ∃ earlier later next, calls = earlier ++ .load :: later ∧ .stop ∈ earlier ∧
      Runs.exec step driver (earlier.map quiet) = some next ∧ next.state = .discovered := by
  obtain ⟨upto, after, rfl, hstop, hload⟩ := List.cons_sublist_iff.mp hcalls
  obtain ⟨before, between, rfl⟩ := List.append_of_mem hstop
  obtain ⟨middle, hmiddle, hinUse⟩ := h.run_quiet before
  have hmem : .load ∈ between ++ after :=
    List.mem_append_right _ (List.singleton_sublist.mp hload)
  obtain ⟨earlier, later, next, hsplit, -, hrun, hstate⟩ :=
    DriverInstance.reaches_load hinUse.stop_state hmem
  refine ⟨before ++ .stop :: earlier, later, next, ?_, by simp, ?_, hstate⟩
  · simp [hsplit]
  · rw [List.map_append, Runs.exec_append hmiddle]
    exact hrun

theorem loads_quiet (h : driver.state = .discovered) (next : DriverInstance) :
    loads driver (quiet .load) next = true := by
  obtain ⟨sandbox, hload⟩ := load_quiet h
  rw [quiet, loads, hload, Option.isNone_none]

theorem count_quiet {earlier later : List Call}
    (hrun : Runs.exec step driver (earlier.map quiet) = some next)
    (hstate : next.state = .discovered) :
    1 + Runs.count step loads (next.load {}).driver (later.map quiet) ≤
      Runs.count step loads driver ((earlier ++ .load :: later).map quiet) := by
  have hstep : next.step (quiet .load) = some (next.load {}).driver := rfl
  rw [List.map_append, Runs.count_append hrun, List.map_cons, Runs.count_cons hstep,
    loads_quiet hstate, Bool.toNat_true]
  omega

theorem sublist_of_first {α : Type} {a : α} {l before after : List α} (h : a ∉ before)
    (hsub : a :: l <+ before ++ a :: after) : l <+ after := by
  induction before with
  | nil => exact List.cons_sublist_cons.mp hsub
  | cons b before ih =>
      rw [List.mem_cons, not_or] at h
      cases hsub with
      | cons _ hsub => exact ih h.2 hsub
      | cons_cons _ hsub => exact absurd rfl h.1

theorem two_loads {calls : List Call} (h : driver.InUse) (hstate : driver.state = .discovered)
    (hcalls : [.load, .stop, .load] <+ calls) :
    2 ≤ Runs.count step loads driver (calls.map quiet) := by
  have hload : .load ∈ calls := hcalls.subset (by simp)
  obtain ⟨earlier, later, next, rfl, hfirst, hrun, hdiscovered⟩ :=
    DriverInstance.reaches_load hstate hload
  have hfirstLoad := @count_quiet _ _ _ later hrun hdiscovered
  -- The calls after the first load have the stop and the second load.
  have hloaded : (next.load {}).driver.InUse := by
    obtain ⟨middle, hmiddle, hinUse⟩ := h.run_quiet (earlier ++ [.load])
    rw [List.map_append, Runs.exec_append hrun] at hmiddle
    cases hmiddle
    exact hinUse
  obtain ⟨earlier', later', next', rfl, -, hrun', hdiscovered'⟩ :=
    hloaded.reaches_load (sublist_of_first hfirst hcalls)
  have hsecondLoad := @count_quiet _ _ _ later' hrun' hdiscovered'
  omega

/-! ## Loading again -/

theorem inUse_fresh (manifest : DriverManifest) (limits : EngineLimits) :
    InUse { manifest, limits } :=
  ⟨nofun, by simp [Retired]⟩

theorem not_spentByStop (manifest : DriverManifest) (limits : EngineLimits) {calls : List Call}
    (h : [.stop, .load] <+ calls) : ¬ SpentByStop manifest limits calls := by
  intro hspent
  obtain ⟨earlier, later, next, rfl, hstop, hrun, hstate⟩ :=
    (inUse_fresh manifest limits).reaches_load h
  have hrefused := hspent (earlier.map quiet) {} (later.map quiet) next
    (by simpa [quiet, Action.call] using map_call_quiet (earlier ++ .load :: later))
    (by rwa [map_call_quiet]) hrun
  obtain ⟨sandbox, hload⟩ := load_quiet hstate
  rw [hload] at hrefused
  cases hrefused

/-- A driver is loaded at most once, and its scripts share nothing, exactly for calls that do not
load it, stop it and load it again. That loads after a stop are refused as well holds only for calls
that have no such load. -/
theorem loadedOnce_iff (manifest : DriverManifest) (limits : EngineLimits) (calls : List Call) :
    (LoadedOnce manifest limits calls ↔ ¬ [.load, .stop, .load] <+ calls) ∧
      (LoadedOnce manifest limits calls ∧ SpentByStop manifest limits calls ↔
        ¬ [.stop, .load] <+ calls) := by
  have honce : LoadedOnce manifest limits calls ↔ ¬ [.load, .stop, .load] <+ calls := by
    constructor
    · intro h hcalls
      have htwo := two_loads (inUse_fresh manifest limits) rfl hcalls
      have hone := (h (calls.map quiet) (map_call_quiet calls)).1
      omega
    · intro hcalls actions hactions
      exact loaded_once rfl rfl hcalls hactions
  refine ⟨honce, fun h hcalls => not_spentByStop manifest limits hcalls h.2, fun hcalls => ?_⟩
  refine ⟨honce.mpr fun h => hcalls ((List.sublist_cons_self _ _).trans h), ?_⟩
  rintro earlier input later driver rfl hstop -
  refine absurd ?_ hcalls
  rw [List.map_append, List.map_cons]
  exact List.Sublist.append (List.singleton_sublist.mpr hstop)
    (List.singleton_sublist.mpr List.mem_cons_self)

/-- A filter for DNS events that one script has registered is in force for the script that is loaded
after it: the second one receives no connections. -/
theorem filter_outlives_stop :
    let manifest : DriverManifest := { capabilities := {.capture} }
    let filter : CaptureFilter := { eventType := cstr "dns" }
    let registering : DriverScript := { bindings := [.captureRegisterFilter (.ok filter)] }
    let actions : List Action := [.load { onLoad := some registering }, .stop none, .load {}]
    (∃ driver, Runs.exec step { manifest } actions = some driver ∧ driver.state = .loaded ∧
      driver.host.captureFilters = [filter] ∧ driver.receives { type := .connection } = false) ∧
    Runs.count step loads { manifest } actions = 2 ∧
    ¬ LoadedOnce manifest {} [.load, .stop, .load] := by
  intro manifest filter registering actions
  have htwo : Runs.count step loads { manifest } actions = 2 := by decide
  refine ⟨⟨_, rfl, rfl, rfl, by decide⟩, htwo, fun honce => ?_⟩
  have hone := (honce actions rfl).1
  omega

end Ezcap.Drivers.DriverInstance
