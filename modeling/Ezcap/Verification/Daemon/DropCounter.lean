import Ezcap.Library.JsonText
import Ezcap.Library.Runs
import Ezcap.Model.Counters

/-! The daemon's count of dropped events. The run loop stores the server's count over what the
capture thread has counted itself, so the count is right exactly as long as there is
nothing of its own to lose. -/

namespace Ezcap.Counters

open StdString

/-! ## The report -/

theorem reported_eq (s : Counters) : s.reported = some s.daemon.eventsDropped.toNat := by
  have hcounters : (Server.buildStatusJson s.status).field? (cstr "counters") =
      some (.mkObject
        [(cstr "events_seen", .unsigned s.daemon.eventsSeen.toNat),
         (cstr "events_published", .unsigned s.daemon.eventsPublished.toNat),
         (cstr "events_dropped", .unsigned s.daemon.eventsDropped.toNat)]) := by
    rw [Server.buildStatusJson, Json.field?_mkObject_eq_some (by simp)]
    simp [status]
  have hdropped (seen published dropped : ℕ) : (Json.mkObject
      [(cstr "events_seen", .unsigned seen), (cstr "events_published", .unsigned published),
       (cstr "events_dropped", .unsigned dropped)]).field? (cstr "events_dropped") =
        some (.unsigned dropped) := by
    rw [Json.field?_mkObject_eq_some (by simp)]
    simp
  rw [reported, hcounters, Option.bind_some, hdropped]
  rfl

/-! ## Steps -/

/-- What the count should be. -/
def Exact (s : Counters) : Prop :=
  s.daemon.eventsDropped.toNat = s.policyDrops + s.storeRefusals + s.propagated.toNat

/-- After the step the count shown is what it should be, and no less than it was. -/
def Accurate (s : Counters) (_ : Step) (s' : Counters) : Prop :=
  ∃ before after, s.reported = some before ∧ s'.reported = some after ∧ before ≤ after ∧
    after = s'.policyDrops + s'.storeRefusals + s'.propagated.toNat

/-- The capture thread counts a drop of its own. -/
def countsDrop (s : Counters) (now : ℤ) (stored : Bool) (event : Event) : Prop :=
  droppedByPolicy s.daemon now event = true ∨ stored = false

/-- The run loop stores only while the capture thread has counted nothing, and nothing smaller
than before; and the count does not overflow. -/
def Lossless (s : Counters) : Step → Prop
  | .daemon (.capture now stored event) =>
      s.countsDrop now stored event → s.daemon.eventsDropped.toNat + 1 < 2 ^ 64
  | .store => s.policyDrops = 0 ∧ s.storeRefusals = 0 ∧ ∀ dropped ∈ s.loaded, s.propagated ≤ dropped
  | _ => True

theorem accurate_iff {s s' : Counters} (a : Step) :
    Accurate s a s' ↔
      s.daemon.eventsDropped ≤ s'.daemon.eventsDropped ∧ Exact s' := by
  simp only [Accurate, reported_eq, Option.some.injEq, exists_and_left, exists_eq_left', Exact,
    UInt64.le_iff_toNat_le]

theorem eventsDropped_control (daemon : Daemon) (c : Daemon.Control) :
    (daemon.control c).eventsDropped = daemon.eventsDropped := by
  cases c <;> simp only [Daemon.control]

theorem eventsDropped_onCaptureEvent (daemon : Daemon) (now : ℤ) (stored : Bool) (event : Event) :
    (daemon.onCaptureEvent now stored event).eventsDropped =
      if droppedByPolicy daemon now event = true ∨ stored = false then daemon.eventsDropped + 1
      else daemon.eventsDropped := by
  unfold Daemon.onCaptureEvent droppedByPolicy
  by_cases hdrop : (PolicyEngine.apply daemon.policyEngine.policy
      (daemon.correlator.correlate now event).2).2 = .drop
  · simp [hdrop]
  · cases stored <;> simp [hdrop]

theorem capture_accurate_iff {s : Counters} (hs : Exact s) (now : ℤ) (stored : Bool)
    (event : Event) {s' : Counters} (h : step s (.daemon (.capture now stored event)) = some s') :
    Accurate s (.daemon (.capture now stored event)) s' ↔
      Lossless s (.daemon (.capture now stored event)) := by
  cases h
  have hlt := s.daemon.eventsDropped.toNat_lt
  simp only [accurate_iff, Exact, Lossless, countsDrop, eventsDropped_onCaptureEvent] at hs ⊢
  cases hpolicy : droppedByPolicy s.daemon now event <;> cases stored <;>
    simp [UInt64.le_iff_toNat_le] <;> omega

theorem store_accurate_iff {s : Counters} (hs : Exact s) {s' : Counters}
    (h : step s .store = some s') : Accurate s .store s' ↔ Lossless s .store := by
  obtain ⟨dropped, hloaded, rfl⟩ := Option.map_eq_some_iff.mp h
  simp only [accurate_iff, Exact, Lossless, hloaded, Option.mem_def, Option.some.injEq,
    forall_eq', UInt64.le_iff_toNat_le] at hs ⊢
  omega

theorem accurate_of_eq {s s' : Counters} (a : Step)
    (hdropped : s'.daemon.eventsDropped = s.daemon.eventsDropped) (hs' : Exact s') :
    Accurate s a s' := by
  rw [accurate_iff, hdropped]
  exact ⟨UInt64.le_refl _, hs'⟩

theorem step_accurate_iff {s s' : Counters} {a : Step} (hs : Exact s)
    (h : step s a = some s') : Accurate s a s' ↔ Lossless s a := by
  cases a with
  | daemon d =>
      cases d with
      | control c =>
          cases h
          have hsame := eventsDropped_control s.daemon c
          exact iff_of_true (accurate_of_eq _ hsame (by rw [Exact, hsame]; exact hs)) trivial
      | capture now stored event => exact capture_accurate_iff hs now stored event h
  | slowConsumer count =>
      cases h
      exact iff_of_true (accurate_of_eq _ rfl hs) trivial
  | load =>
      rw [step] at h
      split at h
      · cases h
        exact iff_of_true (accurate_of_eq _ rfl hs) trivial
      · cases h
  | store => exact store_accurate_iff hs h

theorem exact_new (config : Config) : Exact (new config) := rfl

/-- Along a run the count shown stays right exactly as long as no store of the run loop has
anything to overwrite. -/
theorem reported_accurate_iff (config : Config) (steps : List Step) :
    Runs.Always step Accurate (new config) steps ↔
      Runs.Always step (fun s a _ => Lossless s a) (new config) steps := by
  refine Runs.always_congr Exact (exact_new config) ?_ ?_ steps
  · intro s a s' hs h
    exact step_accurate_iff hs h
  · intro s a s' _ _ h
    exact ((accurate_iff a).mp h).2

/-- An event of the pcap backend. -/
def packetEvent : Event :=
  EventNormalizer.fromPacketMetadata [] { valid := true, transport := .tcp } 0 (cstr "eth0")

/-- After the next round of the run loop, the event that the store refused is no longer counted. -/
theorem store_loses_refusal :
    let capture : Step := .daemon (.capture 0 false packetEvent)
    let before := Runs.exec step (new { storageEnabled := true }) [capture, .load]
    let after := Runs.exec step (new { storageEnabled := true }) [capture, .load, .store]
    before.bind reported = some 1 ∧ before.map storeRefusals = some 1 ∧
      after.bind reported = some 0 ∧ after.map storeRefusals = some 1 := by
  decide +kernel

end Ezcap.Counters
