import Ezcap.Library.Runs
import Ezcap.Model.Persistence

/-! Whether persistence follows the policy. The store is filled and pruned by the configuration
alone; a run obeys the persistence settings of the policy as far as these happen to ask for
what the configuration does. -/

namespace Ezcap.Persistence

open StdString

/-- The operation is what the policy allows: it stores only with persistence on, and prunes with
the policy's retention. -/
def Operation.Follows (policy : Policy) : Operation → Prop
  | .store _ => policy.persistenceEnabled = true
  | .prune retention => retention = policy.retention

instance (policy : Policy) : (op : Operation) → Decidable (op.Follows policy)
  | .store _ => inferInstanceAs (Decidable (_ = true))
  | .prune _ => inferInstanceAs (Decidable (_ = _))

/-- Every operation of the step follows the policy that is active then. -/
def FollowsPolicy (s : Persistence) (a : Action) (_ : Persistence) : Prop :=
  ∀ op ∈ operation s a, op.Follows s.daemon.policyEngine.policy

instance (s : Persistence) (a : Action) (s' : Persistence) : Decidable (FollowsPolicy s a s') :=
  inferInstanceAs (Decidable (∀ op ∈ operation s a, _))

/-! ## The two halves of a capture -/

/-- Redacting and delivering with nothing in between is `on_capture_event`. -/
theorem daemon_capture (s : Persistence) (h : s.redacted = none) (now : ℤ) (stored : Bool)
    (event : Event) :
    (((s.redact now event).redacted.map ((s.redact now event).deliver stored)).getD
        (s.redact now event)).daemon =
      s.daemon.onCaptureEvent now (stored || !s.hasStore) event := by
  unfold redact Daemon.onCaptureEvent
  dsimp only
  split
  · simp [h]
  · cases hstore : s.hasStore <;> cases stored <;>
      simp [deliver, hasStore] at hstore ⊢ <;> simp [hstore]

/-! ## One step -/

theorem config_redact (s : Persistence) (now : ℤ) (event : Event) :
    (s.redact now event).daemon.config = s.daemon.config := by
  unfold redact
  dsimp only
  split <;> rfl

theorem config_control (daemon : Daemon) (c : Daemon.Control) :
    (daemon.control c).config = daemon.config := by
  cases c <;> simp only [Daemon.control]

theorem config_step {s s' : Persistence} {a : Action} (h : step s a = some s') :
    s'.daemon.config = s.daemon.config := by
  cases a with
  | control c =>
      cases h
      exact config_control s.daemon c
  | redact now event =>
      obtain ⟨-, h⟩ := Option.ite_none_right_eq_some.mp h
      cases h
      exact config_redact s now event
  | deliver stored =>
      obtain ⟨event, -, rfl⟩ := Option.map_eq_some_iff.mp h
      rfl
  | tick now =>
      cases h
      unfold tick
      split <;> rfl

/-- Where an event is delivered persistence is on, and where a pruning is due the retention of the
policy is the configured one. -/
def MeetsPolicy (s : Persistence) (a : Action) (_ : Persistence) : Prop :=
  match a with
  | .deliver _ => s.daemon.policyEngine.policy.persistenceEnabled = true
  | .tick now => s.nextPrune ≤ now →
      s.daemon.config.storageRetention = s.daemon.policyEngine.policy.retention
  | _ => True

instance (s : Persistence) : (a : Action) → (s' : Persistence) → Decidable (MeetsPolicy s a s')
  | .control _, _ => inferInstanceAs (Decidable True)
  | .redact _ _, _ => inferInstanceAs (Decidable True)
  | .deliver _, _ => inferInstanceAs (Decidable (_ = true))
  | .tick _, _ => inferInstanceAs (Decidable (_ → _))

theorem followsPolicy_iff {s s' : Persistence} {a : Action} (hstore : s.hasStore = true)
    (h : step s a = some s') : FollowsPolicy s a s' ↔ MeetsPolicy s a s' := by
  cases a with
  | control c => simp [FollowsPolicy, MeetsPolicy, operation]
  | redact now event => simp [FollowsPolicy, MeetsPolicy, operation]
  | deliver stored =>
      obtain ⟨event, hevent, -⟩ := Option.map_eq_some_iff.mp h
      simp [FollowsPolicy, MeetsPolicy, operation, hstore, hevent, Operation.Follows]
  | tick now =>
      have hdue : s.pruneDue now = true ↔ s.nextPrune ≤ now := by simp [pruneDue, hstore]
      simp only [FollowsPolicy, MeetsPolicy, operation, ← hdue]
      split <;> simp [*, Operation.Follows]

/-! ## Whole runs -/

/-- In a daemon with a store, every event is stored and every pruning is made by the policy that
is active then exactly along the runs that deliver only while persistence is on and in which
prunings fall due only while the policy's retention is the configured one. -/
theorem storage_follows_policy_iff (config : Config) (hstorage : config.storageEnabled = true)
    (now : ℤ) (actions : List Action) :
    Runs.Always step FollowsPolicy (start config now) actions ↔
      Runs.Always step MeetsPolicy (start config now) actions := by
  apply Runs.always_congr (fun s => s.daemon.config = config)
  · rfl
  · intro s a s' hconfig hstep
    exact followsPolicy_iff (by rw [hasStore, hconfig, hstorage]) hstep
  · intro s a s' hconfig hstep _
    exact (config_step hstep).trans hconfig

/-- Once the policy enables persistence, an event is stored and a due pruning is made as it says. -/
theorem enabled_persistence_followed :
    let config : Config := { storageEnabled := true }
    let enable : Json := .object [(cstr "persistence", .object [(cstr "enabled", .bool true)])]
    let actions : List Action :=
      [.control (.snapshot 0 enable), .control (.commit 0), .redact 0 {}, .deliver true,
        .tick pruneInterval]
    (Runs.exec step (start config 0) actions).isSome = true ∧
      Runs.Always step FollowsPolicy (start config 0) actions :=
  ⟨by decide, (storage_follows_policy_iff _ rfl _ _).mpr (by decide +kernel)⟩

/-- With the default policy, which has persistence off, a captured event is stored; and with a
retention of a minute in the policy, the store is pruned with that of the configuration. -/
theorem event_stored_without_persistence :
    let config : Config := { storageEnabled := true }
    let minute : Json :=
      .object [(cstr "persistence", .object [(cstr "retention_seconds", .integer 60)])]
    (start config 0).daemon.policyEngine.policy.persistenceEnabled = false ∧
      (Runs.exec step (start config 0) [.redact 0 {}, .deliver true]).isSome = true ∧
      ¬ Runs.Always step FollowsPolicy (start config 0) [.redact 0 {}, .deliver true] ∧
      ¬ Runs.Always step FollowsPolicy (start config 0)
        [.control (.snapshot 0 minute), .control (.commit 0), .tick pruneInterval] :=
  ⟨by decide, by decide, by decide, by decide⟩

end Ezcap.Persistence
