import Ezcap.Library.Runs
import Ezcap.Verification.Drivers.LifeCycle

/-! Quarantine over whole runs: a retired driver stays retired, and its script runs no more. -/

namespace Ezcap.Drivers.DriverInstance

open Manifests (DriverManifest)

variable {limits : EngineLimits} {driver : DriverInstance}

/-- The invariant of runs: the faults are below the threshold, or the driver is retired and they
have reached it at most. -/
structure Within (limits : EngineLimits) (driver : DriverInstance) : Prop where
  limits_eq : driver.limits = limits
  housed : driver.Housed
  faults : driver.faults < limits.faultThreshold ∨
    driver.Retired ∧ driver.faults ≤ limits.faultThreshold

theorem toNat_add_one_of_lt {faults threshold : UInt32} (h : faults < threshold) :
    (faults + 1).toNat = faults.toNat + 1 := by
  have hlt := UInt32.lt_iff_toNat_lt.mp h
  have hbound := threshold.toNat_lt
  rw [UInt32.toNat_add, UInt32.toNat_one, Nat.mod_eq_of_lt (by omega)]

/-- A fault is recorded below the threshold only, and counted. -/
theorem Within.move (h : Within limits driver) {operated : Operated}
    (hmove : Move driver operated) :
    Within limits operated.driver ∧
      (operated.driver.faults ≠ driver.faults →
        limits.faultThreshold ≤ operated.driver.faults → operated.driver.Retired) ∧
      driver.faults.toNat + (operated.driver.faults != driver.faults).toNat ≤
        operated.driver.faults.toNat := by
  have hlimits := hmove.limits.trans h.limits_eq
  by_cases hretired : driver.Retired
  · obtain ⟨hstate, hfaults, -⟩ := hmove.retired hretired
    refine ⟨⟨hlimits, hmove.housed, ?_⟩, fun hne => absurd hfaults hne, by simp [hfaults]⟩
    rw [hfaults, Retired, hstate]
    exact h.faults
  · have hbelow := h.faults.resolve_right fun hover => hretired hover.1
    rcases hmove.faults with hfaults | ⟨hfaults, hlast⟩
    · refine ⟨⟨hlimits, hmove.housed, .inl ?_⟩, fun hne => absurd hfaults hne, by simp [hfaults]⟩
      rwa [hfaults]
    · have hcount := toNat_add_one_of_lt hbelow
      rw [h.limits_eq, ← hfaults] at hlast
      rw [← hfaults] at hcount
      refine ⟨⟨hlimits, hmove.housed, ?_⟩, fun _ => hlast, ?_⟩
      · rw [UInt32.lt_iff_toNat_lt] at hbelow ⊢
        rw [UInt32.le_iff_toNat_le] at hlast ⊢
        by_cases hlt : operated.driver.faults.toNat < limits.faultThreshold.toNat
        · exact .inl hlt
        · exact .inr ⟨hlast (by omega), by omega⟩
      · have hle := Bool.toNat_le (operated.driver.faults != driver.faults)
        omega

theorem Within.step (h : Within limits driver) (action : Action) :
    ∃ next, driver.step action = some next ∧ Within limits next := by
  obtain ⟨operated, hoperate, hmove⟩ := exists_move h.housed action
  exact ⟨operated.driver, by rw [DriverInstance.step, hoperate, Option.map_some], (h.move hmove).1⟩

theorem move_of_step (h : driver.Housed) {action : Action} {next : DriverInstance}
    (hstep : driver.step action = some next) :
    ∃ operated, driver.operate action = some operated ∧ Move driver operated ∧
      operated.driver = next := by
  obtain ⟨operated, hoperate, hmove⟩ := exists_move h action
  rw [step, hoperate, Option.map_some] at hstep
  exact ⟨operated, hoperate, hmove, Option.some.inj hstep⟩

theorem within_fresh (manifest : DriverManifest) (h : 1 ≤ limits.faultThreshold) :
    Within limits { manifest, limits } where
  limits_eq := rfl
  housed := nofun
  faults := by
    left
    rw [UInt32.le_iff_toNat_le, UInt32.toNat_one] at h
    rw [UInt32.lt_iff_toNat_lt, UInt32.toNat_zero]
    omega

/-- From a retired driver no run changes the state, and no operation of it runs a callback. -/
theorem Retired.run (h : driver.Retired) (later : List Action) :
    (∃ last, Runs.exec step driver later = some last ∧ last.state = driver.state) ∧
      Runs.Always step (fun driver action _ => ∀ operated, driver.operate action = some operated →
        operated.callbacks = []) driver later := by
  have hstep : ∀ (other : DriverInstance) (action : Action), other.state = driver.state →
      ∃ next, step other action = some next ∧ next.state = driver.state := by
    intro other action hsame
    have hretired : other.Retired := by rwa [Retired, hsame]
    obtain ⟨operated, hoperate, hmove⟩ := exists_move hretired.housed action
    refine ⟨operated.driver, by rw [step, hoperate, Option.map_some], ?_⟩
    rw [(hmove.retired hretired).1, hsame]
  refine ⟨Runs.exec_of_inv (fun other : DriverInstance => other.state = driver.state) rfl
    fun other action _ => hstep other action, ?_⟩
  refine Runs.always_of_inv (fun other : DriverInstance => other.state = driver.state) rfl ?_
  intro other action _ next hsame hnext
  have hretired : other.Retired := by rwa [Retired, hsame]
  obtain ⟨next', hnext', hstate⟩ := hstep other action hsame
  cases hnext.symm.trans hnext'
  exact ⟨fun operated hoperate => hretired.callbacks hoperate, hstate⟩

/-- Quarantine is final. Along every run a driver that is quarantined or has failed stays so and
runs no callback, a recorded fault that reaches the threshold retires the driver, and no more
faults than the threshold are recorded. -/
theorem quarantine_final (manifest : DriverManifest) (limits : EngineLimits)
    (hthreshold : 1 ≤ limits.faultThreshold) (actions : List Action) :
    (∃ driver, Runs.exec step { manifest, limits } actions = some driver ∧
      (driver.Retired → ∀ later,
        (∃ last, Runs.exec step driver later = some last ∧ last.state = driver.state) ∧
        Runs.Always step (fun driver action _ => ∀ operated,
          driver.operate action = some operated → operated.callbacks = []) driver later)) ∧
    Runs.Always step (fun driver _ next => next.faults ≠ driver.faults →
      limits.faultThreshold ≤ next.faults → next.Retired) { manifest, limits } actions ∧
    Runs.count step (fun driver _ next => next.faults != driver.faults) { manifest, limits }
      actions ≤ limits.faultThreshold.toNat := by
  have hfresh := within_fresh manifest hthreshold
  refine ⟨?_, ?_, ?_⟩
  · obtain ⟨driver, hrun, -⟩ := @Runs.exec_of_inv _ _ _ (Within limits) _ hfresh actions
      fun _ action _ h => h.step action
    exact ⟨driver, hrun, Retired.run⟩
  · refine Runs.always_of_inv (Within limits) hfresh fun driver action _ next h hstep => ?_
    obtain ⟨operated, -, hmove, rfl⟩ := move_of_step h.housed hstep
    exact ⟨(h.move hmove).2.1, (h.move hmove).1⟩
  · have hstep : ∀ driver action next, Within limits driver → step driver action = some next →
        Within limits next ∧
          driver.faults.toNat + (next.faults != driver.faults).toNat ≤ next.faults.toNat := by
      intro driver action next h hstep
      obtain ⟨operated, -, hmove, rfl⟩ := move_of_step h.housed hstep
      exact ⟨(h.move hmove).1, (h.move hmove).2.2⟩
    have hbound : ∀ driver, Within limits driver →
        driver.faults.toNat ≤ limits.faultThreshold.toNat := by
      intro driver h
      rcases h.faults with hlt | ⟨-, hle⟩
      · exact (UInt32.lt_iff_toNat_lt.mp hlt).le
      · exact UInt32.le_iff_toNat_le.mp hle
    have hcount := Runs.count_add_le (Within limits) (fun driver => driver.faults.toNat) hfresh
      hstep hbound actions
    rwa [UInt32.toNat_zero, Nat.zero_add] at hcount

/-- Two faults in a row under a threshold of two. -/
theorem second_fault_quarantines :
    let limits : EngineLimits := { faultThreshold := 2 }
    let failing : DriverScript := { failure := some [] }
    let actions : List Action := [.load {}, .start (some failing), .start (some failing)]
    Runs.count step (fun driver _ next => next.faults != driver.faults) { limits } actions = 2 ∧
      Runs.count step (fun driver _ next => next.faults != driver.faults) { limits }
        (actions ++ [.start (some failing)]) ≤ 2 := by
  intro limits failing actions
  exact ⟨by decide, (quarantine_final {} limits (by decide) (actions ++ _)).2.2⟩

end Ezcap.Drivers.DriverInstance
