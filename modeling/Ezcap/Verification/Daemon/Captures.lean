import Ezcap.Verification.Daemon.Persistence
import Ezcap.Verification.Daemon.Pipeline

/-! Captures in two halves. Whatever falls between the redaction of an event and its delivery, the
daemon does what the one does in which a capture is a single step. -/

namespace Ezcap.Persistence

open StdString

/-- The steps of that daemon: an event is captured when it is redacted. -/
def atomic (actions : List Action) : List Daemon.Step :=
  actions.filterMap fun
    | .control c => some (.control c)
    | .redact now event => some (.capture now true event)
    | .deliver _ => none
    | .tick _ => none

/-- The two daemons agree, and what is redacted is published already. The count of drops is left
out, which depends on what the store answers. -/
structure Simulates (daemon : Daemon) (s : Persistence) : Prop where
  policyEngine : daemon.policyEngine = s.daemon.policyEngine
  correlator : daemon.correlator = s.daemon.correlator
  eventsSeen : daemon.eventsSeen = s.daemon.eventsSeen
  published : daemon.published = s.daemon.published ++ s.redacted.toList

section Steps

variable {daemon : Daemon} {s s' : Persistence}

theorem Simulates.control (h : Simulates daemon s) (c : Daemon.Control) :
    Simulates (daemon.control c) { s with daemon := s.daemon.control c } := by
  constructor
  case published => simp only [Daemon.control_published, h.published]
  all_goals cases c <;> simp only [Daemon.control, h.policyEngine, h.correlator, h.eventsSeen]

theorem toList_redacted (hfree : s.redacted = none) (now : ℤ) (event : Event) :
    (s.redact now event).redacted.toList =
      Daemon.publishedUnder s.daemon.policyEngine.policy
        (s.daemon.correlator.correlate now event).2 := by
  simp only [redact, Daemon.publishedUnder, Daemon.apply_decision]
  cases (s.daemon.correlator.correlate now event).2.privacy.metadataOnly <;> simp [hfree]

theorem published_redact (s : Persistence) (now : ℤ) (event : Event) :
    (s.redact now event).daemon.published = s.daemon.published := by
  unfold redact
  dsimp only
  split <;> rfl

theorem Simulates.capture (h : Simulates daemon s) (hfree : s.redacted = none) (now : ℤ)
    (event : Event) :
    Simulates (daemon.onCaptureEvent now true event) (s.redact now event) := by
  constructor
  case published =>
    rw [Daemon.onCaptureEvent_published, toList_redacted hfree, published_redact, h.published,
      h.policyEngine, h.correlator, hfree, Option.toList_none, List.append_nil]
  all_goals
    unfold Daemon.onCaptureEvent redact
    simp only [h.policyEngine, h.correlator, h.eventsSeen]
    split <;> rfl

theorem Simulates.step (h : Simulates daemon s) {a : Action} (hstep : step s a = some s') :
    Simulates (daemon.run (atomic [a])) s' := by
  cases a with
  | control c =>
      cases hstep
      exact h.control c
  | redact now event =>
      obtain ⟨hfree, hstep⟩ := Option.ite_none_right_eq_some.mp hstep
      cases hstep
      exact h.capture (Option.isNone_iff_eq_none.mp hfree) now event
  | deliver stored =>
      obtain ⟨event, hevent, rfl⟩ := Option.map_eq_some_iff.mp hstep
      refine ⟨h.policyEngine, h.correlator, h.eventsSeen, h.published.trans ?_⟩
      simp [deliver, hevent]
  | tick now =>
      cases hstep
      unfold tick
      split <;> exact ⟨h.policyEngine, h.correlator, h.eventsSeen, h.published⟩

theorem Simulates.exec (h : Simulates daemon s) {actions : List Action}
    (hrun : Runs.exec Persistence.step s actions = some s') :
    Simulates (daemon.run (atomic actions)) s' := by
  induction actions generalizing daemon s with
  | nil =>
      cases hrun
      exact h
  | cons a actions ih =>
      obtain ⟨next, hstep, hlater⟩ := Option.bind_eq_some_iff.mp hrun
      have hsteps : atomic (a :: actions) = atomic [a] ++ atomic actions :=
        List.filterMap_append (l := [a])
      rw [hsteps, Daemon.run, List.foldl_append]
      exact ih (h.step hstep) hlater

end Steps

/-- Every run of the daemon has the policy, the navigations and the published events of the run
in which each event is captured at once, when it is redacted. So whatever is handed to the store,
under whatever policies in between, has neither a query nor a fragment in its URL. -/
theorem captures_linearize {config : Config} {now : ℤ} {actions : List Action} {s : Persistence}
    (hrun : Runs.exec step (start config now) actions = some s) :
    Simulates ((Daemon.new config).run (atomic actions)) s ∧
      ∀ a e, operation s a = some (.store e) → ∀ b ∈ e.browser,
        '?'.toUInt8 ∉ b.url ∧ '#'.toUInt8 ∉ b.url := by
  have hsimulates : Simulates ((Daemon.new config).run (atomic actions)) s :=
    Simulates.exec ⟨rfl, rfl, rfl, rfl⟩ hrun
  refine ⟨hsimulates, fun a e hstore => ?_⟩
  have hredacted : s.redacted = some e := by
    cases a <;> simp [operation] at hstore
    exact hstore.2
  have hstripped : Daemon.Stripped ((Daemon.new config).run (atomic actions)) :=
    Daemon.run_invariant Daemon.stripped_step
      ⟨⟨rfl, rfl⟩, by simp [Daemon.new], by simp [Daemon.new]⟩ _
  refine hstripped.published e ?_
  rw [hsimulates.published, hredacted]
  simp

/-- The browser visits a page with a query, and makes a connection. The policy changes between the
redaction of that event and its delivery. -/
def commitBetween : List Action :=
  let redaction : Json := .object [(cstr "mode", .string (cstr "domain-hash"))]
  [.control (.processes [{ pid := 7 }]), .control (.navigation { url := cstr "http://a/?q#f" }),
    .redact 0 { process := some { pid := 7 } },
    .control (.snapshot 0 (.object [(cstr "redaction", redaction)])), .control (.commit 0)]

theorem captures_linearize_commit :
    ∃ s, Runs.exec step (start { storageEnabled := true } 0) commitBetween = some s ∧
      s.daemon.policyEngine.policy.redactionMode = .domainHash ∧
      ∃ e b, operation s (.deliver true) = some (.store e) ∧ e.browser = some b ∧
        b.url = cstr "http://a/" ∧ '?'.toUInt8 ∉ b.url ∧ '#'.toUInt8 ∉ b.url := by
  have hrun : (Runs.exec step (start { storageEnabled := true } 0) commitBetween).map (fun s =>
      (s.hasStore, s.daemon.policyEngine.policy.redactionMode,
        (s.redacted.bind (·.browser)).map (·.url))) =
      some (true, .domainHash, some (cstr "http://a/")) := by decide +kernel
  obtain ⟨s, hs, heq⟩ := Option.map_eq_some_iff.mp hrun
  obtain ⟨hstore, hmode, hurl⟩ := by simpa only [Prod.mk.injEq] using heq
  obtain ⟨b, hbrowser, hurl⟩ := Option.map_eq_some_iff.mp hurl
  obtain ⟨e, he, hb⟩ := Option.bind_eq_some_iff.mp hbrowser
  have hoperation : operation s (.deliver true) = some (.store e) := by
    simp [operation, hstore, he]
  exact ⟨s, hs, hmode, e, b, hoperation, hb, hurl, (captures_linearize hs).2 _ e hoperation b hb⟩

end Ezcap.Persistence
