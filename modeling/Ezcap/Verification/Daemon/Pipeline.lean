import Ezcap.Model.Daemon
import Ezcap.Verification.PolicyEngine.Edits
import Ezcap.Verification.Redactor.Stripping

/-! Every run of the daemon: what the pipeline does to one event, and that no published
URL has a query or a fragment. -/

namespace Ezcap.Daemon

open StdString

/-- The events the pipeline publishes for a correlated event under `policy`: one or none. -/
def publishedUnder (policy : Policy) (correlated : Event) : List Event :=
  if correlated.privacy.metadataOnly then [(PolicyEngine.apply policy correlated).1] else []

section Step

variable (daemon : Daemon) (now : ℤ) (stored : Bool) (event : Event)

theorem apply_decision (policy : Policy) :
    (PolicyEngine.apply policy event).2 = .drop ↔ event.privacy.metadataOnly = false := by
  unfold PolicyEngine.apply
  dsimp only
  split_ifs with h h' <;> simp [h]

@[simp] theorem onCaptureEvent_published :
    (daemon.onCaptureEvent now stored event).published =
      daemon.published ++ publishedUnder daemon.policyEngine.policy
        (daemon.correlator.correlate now event).2 := by
  simp only [onCaptureEvent, publishedUnder, apply_decision]
  cases (daemon.correlator.correlate now event).2.privacy.metadataOnly <;> simp

@[simp] theorem onCaptureEvent_policyEngine :
    (daemon.onCaptureEvent now stored event).policyEngine = daemon.policyEngine := by
  simp only [onCaptureEvent, apply_ite Daemon.policyEngine, ite_self]

@[simp] theorem control_published (c : Control) :
    (daemon.control c).published = daemon.published := by
  cases c <;> simp only [control]

end Step

/-! ## Runs -/

theorem run_invariant {inv : Daemon → Prop} (hstep : ∀ d s, inv d → inv (d.step s))
    {daemon : Daemon} (h : inv daemon) (steps : List Step) : inv (daemon.run steps) := by
  induction steps generalizing daemon with
  | nil => exact h
  | cons s steps ih => exact ih (hstep daemon s h)

/-! ## Published URLs -/

/-- Both strip flags are on. -/
def Strips (policy : Policy) : Prop :=
  policy.stripQueryString = true ∧ policy.stripFragment = true

/-- The strip flags are on in the policy and in every copy that is still to be committed, and
what has been published is stripped. -/
structure Stripped (daemon : Daemon) : Prop where
  policy : Strips daemon.policyEngine.policy
  edits : ∀ r, ∀ next ∈ daemon.policyEngine.edits r, Strips next
  published : ∀ e ∈ daemon.published, ∀ b ∈ e.browser,
    '?'.toUInt8 ∉ b.url ∧ '#'.toUInt8 ∉ b.url

theorem strips_editPolicy {doc : Json} {policy next : Policy} (h : Strips policy)
    (hedit : PolicyEngine.editPolicy doc policy = .ok next) : Strips next := by
  obtain ⟨hq, hf, -⟩ := PolicyEngine.editPolicy_frame hedit
  exact ⟨hq.trans h.1, hf.trans h.2⟩

/-- Whatever the navigation's URL, the published one has lost its query and its fragment. -/
theorem notMem_apply_url {policy : Policy} (h : Strips policy) (event : Event)
    (hm : event.privacy.metadataOnly = true) :
    ∀ b ∈ (PolicyEngine.apply policy event).1.browser,
      '?'.toUInt8 ∉ b.url ∧ '#'.toUInt8 ∉ b.url := by
  intro b hb
  simp only [PolicyEngine.apply, hm, if_true] at hb
  cases hbrowser : event.browser with
  | none => simp [PolicyEngine.redactBrowser, hbrowser] at hb
  | some browser =>
      have hurl := Redactor.notMem_redactUrl policy browser.url h.1 h.2
      simp only [PolicyEngine.redactBrowser, hbrowser] at hb
      split_ifs at hb with hempty hnone hchanged
      all_goals simp only [Option.mem_def, Option.some.injEq, reduceCtorEq] at hb
      · subst hb
        simp [hempty]
      · subst hb
        exact hurl
      · subst hb
        rw [not_not] at hchanged
        rwa [hchanged] at hurl

theorem stripped_snapshot {daemon : Daemon} (h : Stripped daemon) (r : ℕ) (doc : Json) :
    Stripped (daemon.control (.snapshot r doc)) where
  policy := h.policy
  published := h.published
  edits := by
    intro q next hnext
    simp only [control, PolicyEngine.snapshot, Function.update_apply] at hnext
    split at hnext
    · cases hedit : PolicyEngine.editPolicy doc daemon.policyEngine.policy with
      | error e => simp [hedit, Except.toOption] at hnext
      | ok p =>
          obtain rfl : p = next := by simpa [hedit, Except.toOption] using hnext
          exact strips_editPolicy h.policy hedit
    · exact h.edits q next hnext

theorem stripped_commit {daemon : Daemon} (h : Stripped daemon) (r : ℕ) :
    Stripped (daemon.control (.commit r)) := by
  cases hedit : daemon.policyEngine.edits r with
  | none =>
      have hsame : daemon.control (.commit r) = daemon := by
        simp [control, PolicyEngine.commit, hedit]
      rwa [hsame]
  | some next =>
      refine ⟨?_, ?_, h.published⟩
      · simpa [control, PolicyEngine.commit, hedit] using h.edits r next hedit
      · intro q p hp
        simp only [control, PolicyEngine.commit, hedit, Function.update_apply] at hp
        split at hp
        · simp at hp
        · exact h.edits q p hp

theorem stripped_step (daemon : Daemon) (s : Step) (h : Stripped daemon) :
    Stripped (daemon.step s) := by
  cases s with
  | control c =>
      cases c with
      | snapshot r doc => exact stripped_snapshot h r doc
      | commit r => exact stripped_commit h r
      | navigation observation =>
          simp only [step, control]
          exact ⟨h.policy, h.edits, h.published⟩
      | processes processes =>
          simp only [step, control]
          exact ⟨h.policy, h.edits, h.published⟩
  | capture now stored event =>
      refine ⟨?_, ?_, ?_⟩
      · simpa [step] using h.policy
      · simpa [step] using h.edits
      · intro e he
        simp only [step, onCaptureEvent_published, List.mem_append, publishedUnder] at he
        rcases he with he | he
        · exact h.published e he
        · split at he
          · rename_i hm
            obtain rfl := List.mem_singleton.mp he
            exact notMem_apply_url h.policy _ hm
          · simp at he

/-- From a default policy engine, whatever documents, navigations and captures a run
interleaves: no URL that leaves the pipeline has a query string or a fragment. -/
theorem published_url_stripped (config : Config) (steps : List Step) :
    ∀ e ∈ ((new config).run steps).published, ∀ b, e.browser = some b →
      '?'.toUInt8 ∉ b.url ∧ '#'.toUInt8 ∉ b.url :=
  (run_invariant stripped_step ⟨⟨rfl, rfl⟩, by simp [new], by simp [new]⟩ steps).published

/-- A browser process is known, and the browser reports a navigation to `url`. -/
def navigationSteps (url : Bytes) : List Step :=
  [.control (.processes [{ pid := 1 }]), .control (.navigation { url := url })]

/-- A connection of that process at the time of the navigation. -/
def navigationEvent : Event := { source := .ebpf, process := some { pid := 1 } }

theorem published_url_stripped_navigation :
    let steps := navigationSteps (cstr "https://a.example/p?q#f") ++
      [.capture 0 true navigationEvent]
    ∃ e ∈ ((new {}).run steps).published,
      ∃ b, e.browser = some b ∧ b.url = cstr "https://a.example/p" ∧
        '?'.toUInt8 ∉ b.url ∧ '#'.toUInt8 ∉ b.url := by
  intro steps
  have h : ((((new {}).run steps).published.head?.bind Event.browser).map BrowserInfo.url) =
      some (cstr "https://a.example/p") := by
    decide +kernel
  obtain ⟨b, hb, hurl⟩ := Option.map_eq_some_iff.mp h
  obtain ⟨e, he, heb⟩ := Option.bind_eq_some_iff.mp hb
  have hmem := List.mem_of_mem_head? he
  exact ⟨e, hmem, b, heb, hurl, published_url_stripped {} _ e hmem b heb⟩

end Ezcap.Daemon
