import Ezcap.Library.Runs
import Ezcap.Model.Startup

/-! Whether a start that fails leaves nothing behind, and one that succeeds has all its pieces. The
store is the exception on both counts: one that could not be opened counts as opened, and a start
that finds no capture backend does not close it. -/

namespace Ezcap.Startup

open StdString

variable {config : Config} {held : Resources}

/-- A start that succeeds has a backend, a server and, if it is enabled, a usable store; one that
fails leaves nothing. -/
def Closed (config : Config) (started : Started) : Prop :=
  match started.result with
  | .ok () => started.held.backend.isSome = true ∧ started.held.server = true ∧
      (config.storageEnabled = true → started.held.store = some ⟨true⟩)
  | .error _ => started.held = {}

/-- With storage enabled, some backend starts, and the store is usable if the server starts. -/
def Covered (config : Config) (outcomes : Outcomes) : Prop :=
  config.storageEnabled = true →
    (∃ backend, (startBackend config outcomes).result = .ok backend) ∧
      (outcomes.server = .ok () → (Store.new outcomes.store).impl = true)

/-! ## One start -/

theorem stop_eq (held : Resources) : stop held = {} := by
  unfold stop
  split
  · rename_i h
    obtain ⟨running, store, backend, server⟩ := held
    simp only [Bool.and_eq_true, Bool.not_eq_true', Option.isNone_iff_eq_none] at h
    obtain ⟨⟨⟨rfl, rfl⟩, rfl⟩, rfl⟩ := h
    rfl
  · rfl

/-- A daemon that is running has all its pieces, and one that is not holds nothing. -/
def Settled (config : Config) (held : Resources) : Prop :=
  if held.running then held.backend.isSome = true ∧ held.server = true ∧
    (config.storageEnabled = true → held.store = some ⟨true⟩)
  else held = {}

theorem settled_empty : Settled config {} := rfl

/-- A start of a daemon that is not running finds no backend, or fails with the server, or
succeeds. -/
theorem start_cases (config : Config) (outcomes : Outcomes) (h : held.running = false) :
    (∃ error, (startBackend config outcomes).result = .error error ∧
      start config outcomes held =
        { held := openStore config outcomes held
          compiled := (startBackend config outcomes).compiled
          result := .error error }) ∨
    (∃ backend error, (startBackend config outcomes).result = .ok backend ∧
      outcomes.server = .error error ∧ start config outcomes held =
        { held := {}
          compiled := (startBackend config outcomes).compiled
          captured := some backend
          result := .error error }) ∨
    (∃ backend, (startBackend config outcomes).result = .ok backend ∧
      outcomes.server = .ok () ∧ start config outcomes held =
        { held := { openStore config outcomes held with
            running := true, backend := some backend, server := true }
          compiled := (startBackend config outcomes).compiled
          captured := some backend
          result := .ok () }) := by
  rw [start, if_neg (by simp [h])]
  cases hchosen : (startBackend config outcomes).result with
  | error error => exact .inl ⟨error, rfl, by simp only [hchosen]⟩
  | ok backend =>
      cases hserver : outcomes.server with
      | error error =>
          exact .inr (.inl ⟨backend, error, rfl, rfl, by simp only [hchosen, stop_eq]⟩)
      | ok _ => exact .inr (.inr ⟨backend, rfl, rfl, by simp only [hchosen]⟩)

theorem start_of_running (outcomes : Outcomes) (h : held.running = true) :
    start config outcomes held = { held, result := .ok () } := by
  rw [start, if_pos h]

/-- Of a daemon that holds nothing, a start is closed exactly when its outcomes are covered. -/
theorem closed_start_iff (outcomes : Outcomes) :
    Closed config (start config outcomes {}) ↔ Covered config outcomes := by
  rcases start_cases config outcomes (rfl : ({} : Resources).running = false) with
    ⟨error, hchosen, hstart⟩ | ⟨backend, error, hchosen, hserver, hstart⟩ |
    ⟨backend, hchosen, hserver, hstart⟩
  · rw [hstart, Closed, Covered, hchosen, openStore]
    cases config.storageEnabled <;> simp
  · rw [hstart, Closed, Covered, hchosen, hserver]
    simp
  · rw [hstart, Closed, Covered, hchosen, hserver, openStore]
    cases config.storageEnabled
    · simp
    · cases Store.new outcomes.store
      simp

theorem Closed.settled {outcomes : Outcomes} (h : Closed config (start config outcomes {})) :
    Settled config (start config outcomes {}).held := by
  rcases start_cases config outcomes (rfl : ({} : Resources).running = false) with
    ⟨error, hchosen, hstart⟩ | ⟨backend, error, hchosen, hserver, hstart⟩ |
    ⟨backend, hchosen, hserver, hstart⟩
  · rw [hstart] at h ⊢
    have hheld : openStore config outcomes {} = {} := h
    rw [hheld]
    exact settled_empty
  · rw [hstart]
    exact settled_empty
  · rw [hstart] at h ⊢
    exact h

/-! ## Runs -/

/-- The start that an action makes, if any, is closed. -/
def ClosedAt (config : Config) (held : Resources) : Action → Prop
  | .start outcomes => Closed config (start config outcomes held)
  | .stop => True

/-- A start of a daemon that is not running meets with covered outcomes. -/
def CoveredAt (config : Config) (held : Resources) : Action → Prop
  | .start outcomes => held.running = false → Covered config outcomes
  | .stop => True

theorem Settled.cases (h : Settled config held) :
    (held.running = true ∧ held.backend.isSome = true ∧ held.server = true ∧
      (config.storageEnabled = true → held.store = some ⟨true⟩)) ∨ held = {} := by
  unfold Settled at h
  split at h
  · exact .inl ⟨by assumption, h⟩
  · exact .inr h

theorem closedAt_iff (h : Settled config held) (action : Action) :
    ClosedAt config held action ↔ CoveredAt config held action := by
  cases action with
  | stop => exact Iff.rfl
  | start outcomes =>
      rcases h.cases with ⟨hrunning, hpieces⟩ | rfl
      · rw [ClosedAt, start_of_running outcomes hrunning, CoveredAt, hrunning]
        exact iff_of_true hpieces (by simp)
      · rw [ClosedAt, CoveredAt, closed_start_iff]
        exact ⟨fun h _ => h, fun h => h rfl⟩

theorem settled_step {held' : Resources} {action : Action} (h : Settled config held)
    (hstep : step config held action = some held') (hclosed : ClosedAt config held action) :
    Settled config held' := by
  cases action with
  | stop =>
      cases hstep
      rw [stop_eq]
      exact settled_empty
  | start outcomes =>
      cases hstep
      rcases h.cases with ⟨hrunning, -⟩ | rfl
      · rwa [start_of_running outcomes hrunning]
      · exact hclosed.settled

/-- Along a run, every start is closed exactly as long as each start that is made while the daemon
is not running either has storage off, or starts some backend and has a usable store unless the
server fails. -/
theorem starts_closed_iff (config : Config) (actions : List Action) :
    Runs.Always (step config) (fun held action _ => ClosedAt config held action) {} actions ↔
      Runs.Always (step config) (fun held action _ => CoveredAt config held action) {}
        actions := by
  refine Runs.always_congr (Settled config) settled_empty ?_ ?_ actions
  · intro held action held' hsettled _
    exact closedAt_iff hsettled action
  · intro held action held' hsettled hstep hclosed
    exact settled_step hsettled hstep hclosed

/-- A store that cannot be opened is taken as opened, and a start that finds no backend leaves the
store open. -/
theorem start_not_closed :
    let config : Config := { storageEnabled := true }
    let unopened := start config { store := { opens := false } } {}
    let uncaptured := start config { ebpf := .error [], pcap := fun _ => { creates := false } } {}
    unopened.result = .ok () ∧ unopened.held.store = some ⟨false⟩ ∧ ¬ Closed config unopened ∧
      uncaptured.result ≠ .ok () ∧ uncaptured.held.store = some ⟨true⟩ ∧
      ¬ Closed config uncaptured := by
  intro config unopened uncaptured
  have hunopened : unopened.result = .ok () := rfl
  have huncaptured : uncaptured.result = .error
      (cstr "pcap backend failed on all candidate interfaces: " ++
        cstr "pcap_create failed on interface (permission or missing device)") := by
    decide +kernel
  refine ⟨hunopened, rfl, fun h => ?_, by rw [huncaptured]; simp, by decide +kernel, fun h => ?_⟩
  · exact absurd (h.2.2 rfl) (by decide)
  · rw [Closed, huncaptured] at h
    exact absurd (congrArg Resources.store h) (by decide +kernel)

end Ezcap.Startup
