import Ezcap.Library.JsonReference
import Ezcap.Verification.Config.Documents
import Ezcap.Verification.Daemon.Pipeline

/-! The configured policy and the policy in force. The daemon hands its configuration's
policy to nobody: the engine starts with the default one, so the two agree only when the
configuration asks for the defaults. -/

namespace Ezcap.Config

open StdString

/-! ## What a configuration cannot set -/

/-- The persistence settings of the policy are the defaults. -/
def DefaultPersistence (policy : Policy) : Prop :=
  policy.persistenceEnabled = ({} : Policy).persistenceEnabled ∧
    policy.retention = ({} : Policy).retention

/-- An accepted configuration leaves the persistence settings of its policy alone. -/
theorem defaultPersistence_parse {lib : JsonLib} {text : Bytes} {config : Config}
    (h : parse lib text = .ok config) : DefaultPersistence config.policy := by
  unfold parse parseInto at h
  split at h
  · cases h
  · rename_i doc _
    have htakes := (parseDocument_eq_ok.mp h).policy
    unfold Takes at htakes
    split at htakes
    · rw [htakes]
      exact ⟨rfl, rfl⟩
    · obtain ⟨fields, -, hread⟩ := htakes.redaction
      refine readRedaction_invariant hread ?_ ⟨rfl, rfl⟩
      rintro ⟨key, reader⟩ hr ⟨_, value⟩ _ policy policy' hnext hpolicy
      cases stores_of_mem hr hnext <;> exact hpolicy

end Ezcap.Config

namespace Ezcap.Daemon

open StdString

/-! ## Runs before any `set_policy` -/

/-- The steps of `set_policy` requests. -/
def Step.isSetPolicy : Step → Bool
  | .control (.snapshot _ _) => true
  | .control (.commit _) => true
  | _ => false

theorem policyEngine_step (daemon : Daemon) (s : Step) (h : s.isSetPolicy = false) :
    (daemon.step s).policyEngine = daemon.policyEngine := by
  cases s with
  | control c =>
      cases c with
      | snapshot r doc => simp [Step.isSetPolicy] at h
      | commit r => simp [Step.isSetPolicy] at h
      | navigation observation => simp only [step, control]
      | processes processes => simp only [step, control]
  | capture now stored event => simp [step]

theorem policyEngine_run (daemon : Daemon) (steps : List Step)
    (h : ∀ s ∈ steps, s.isSetPolicy = false) :
    (daemon.run steps).policyEngine = daemon.policyEngine := by
  induction steps generalizing daemon with
  | nil => rfl
  | cons s steps ih =>
      refine (ih (daemon.step s) fun s hs => h s (by simp [hs])).trans ?_
      exact policyEngine_step daemon s (h s (by simp))

/-! ## The fields that redaction and `get_policy` read -/

/-- The policies agree on everything but the capture settings. -/
def SameRedaction (p q : Policy) : Prop :=
  { p with captureInterfaces := q.captureInterfaces, pcapFilter := q.pcapFilter } = q

theorem publishedUnder_congr {p q : Policy} (h : SameRedaction p q) (correlated : Event) :
    publishedUnder p correlated = publishedUnder q correlated := by
  rw [← h]
  rfl

theorem toJson_congr {p q : Policy} (h : SameRedaction p q) :
    PolicyEngine.toJson p = PolicyEngine.toJson q := by
  rw [← h]
  rfl

theorem redactionModeName_injective : Function.Injective redactionModeName := by
  intro m n h
  cases m <;> cases n <;> first | rfl | exact absurd h (by decide)

/-- `get_policy` shows the mode and the sensitive domains. -/
theorem toJson_inj {p q : Policy} (h : PolicyEngine.toJson p = PolicyEngine.toJson q) :
    p.redactionMode = q.redactionMode ∧ p.sensitiveDomains = q.sensitiveDomains := by
  have hredaction := congrArg (fun doc => (doc.field? (cstr "redaction")).getD .null) h
  have hmode := congrArg (fun doc => doc.field? (cstr "mode")) hredaction
  have hdomains := congrArg (fun doc => doc.field? (cstr "sensitive_domains")) hredaction
  have hname : some (Json.string (redactionModeName p.redactionMode)) =
    some (Json.string (redactionModeName q.redactionMode)) := hmode
  have hlist : some (Json.array (p.sensitiveDomains.map .string)) =
    some (Json.array (q.sensitiveDomains.map .string)) := hdomains
  simp only [Option.some.injEq, Json.string.injEq, Json.array.injEq] at hname hlist
  exact ⟨redactionModeName_injective hname,
    List.map_injective_iff.mpr (fun _ _ h => Json.string.inj h) hlist⟩

/-! ## A captured event with a known navigation -/

theorem le_scoreEvidence_process :
    (40 / 100 : ℚ) ≤ Correlator.scoreEvidence true true false false false := by
  norm_num [Correlator.scoreEvidence, Correlator.kWeightProcess, Correlator.kWeightTemporal,
    Correlator.kNoEvidenceScore]

/-- With a process match and a navigation in the window, an event that is not from pcap gets
the navigation attached. -/
theorem attachNavigation_of_process (nav : NavigationObservation) (event : Event)
    (hsource : event.source = .ebpf) (hhost : Correlator.eventHost event = []) :
    (Correlator.attachNavigation true (some nav) event).browser =
        some (Correlator.browserInfo nav) ∧
      (Correlator.attachNavigation true (some nav) event).privacy = event.privacy := by
  have hpcap : (event.source == .pcap) = false := by rw [hsource]; rfl
  have hmatch : (some nav).any (fun nav => Correlator.eventHost event != [] &&
      Correlator.eventHost event == nav.host) = false := by
    simp [hhost]
  simp only [Correlator.attachNavigation, hpcap, hmatch, Option.isSome_some, ge_iff_le,
    if_pos le_scoreEvidence_process, and_self]

theorem correlator_navigationSteps (config : Config) (url : Bytes) :
    ((new config).run (navigationSteps url)).correlator =
      { navigations := [{ url := url }], browserProcesses := [{ pid := 1 }] } := by
  simp [run, step, navigationSteps, new, control, Correlator.setBrowserProcesses,
    Correlator.recordNavigation, Correlator.kMaxNavigations]

theorem correlate_navigationEvent (config : Config) (url : Bytes) :
    let correlated := (((new config).run (navigationSteps url)).correlator.correlate 0
      navigationEvent).2
    correlated.browser = some { url := url } ∧ correlated.privacy.metadataOnly = true := by
  have hcorrelate : (Correlator.correlate
      { navigations := [{ url := url }], browserProcesses := [{ pid := 1 }] } 0
      navigationEvent).2 =
      Correlator.attachNavigation true (some { url := url }) navigationEvent := by
    simp [Correlator.correlate, navigationEvent, Correlator.prune, Correlator.bestMatch,
      Correlator.consider, Correlator.isBrowserProcess, Correlator.absDelta,
      Correlator.kNavigationWindow]
  have hattach := attachNavigation_of_process { url := url } navigationEvent rfl rfl
  rw [correlator_navigationSteps, hcorrelate]
  exact ⟨hattach.1, by rw [hattach.2]; rfl⟩

/-! ## The policy in force -/

/-- The configured policy is in force: before any `set_policy`, every captured event is
published as redacted under it, and `get_policy` reports it. -/
def InForce (config : Config) : Prop :=
  ∀ steps : List Step, (∀ s ∈ steps, s.isSetPolicy = false) →
    (∀ (now : ℤ) (stored : Bool) (event : Event),
      (((new config).run steps).onCaptureEvent now stored event).published =
        ((new config).run steps).published ++
          publishedUnder config.policy
            (((new config).run steps).correlator.correlate now event).2) ∧
    PolicyEngine.toJson ((new config).run steps).policyEngine.policy =
      PolicyEngine.toJson config.policy

/-- When the configured policy is in force, it redacts the URL of a navigation as the default
policy does. -/
theorem InForce.apply_eq {config : Config} (h : InForce config) (url : Bytes) :
    ∃ event : Event, event.browser = some { url := url } ∧ event.privacy.metadataOnly = true ∧
      (PolicyEngine.apply {} event).1 = (PolicyEngine.apply config.policy event).1 := by
  have hsteps : ∀ s ∈ navigationSteps url, s.isSetPolicy = false := by
    simp [navigationSteps, Step.isSetPolicy]
  obtain ⟨hbrowser, hmeta⟩ := correlate_navigationEvent config url
  have hpublished := (h _ hsteps).1 0 true navigationEvent
  rw [onCaptureEvent_published, policyEngine_run _ _ hsteps] at hpublished
  have hsame := List.append_cancel_left hpublished
  rw [publishedUnder, publishedUnder, if_pos hmeta, if_pos hmeta] at hsame
  exact ⟨_, hbrowser, hmeta, List.head_eq_of_cons_eq hsame⟩

/-- With a strip flag off, and otherwise the default mode and no sensitive domains, the
delimiter stays in the URL. -/
theorem mem_redactUrl_of_not_strips {policy : Policy}
    (hmode : policy.redactionMode = .queryStringRemoval) (hdomains : policy.sensitiveDomains = []) :
    (policy.stripQueryString = false →
      (Redactor.redactUrl policy (cstr "a://b?c")).1 = cstr "a://b?c") ∧
    (policy.stripFragment = false →
      (Redactor.redactUrl policy (cstr "a://b#c")).1 = cstr "a://b#c") := by
  obtain ⟨mode, query, fragment, domains, enabled, retention, interfaces, filter⟩ := policy
  obtain rfl : mode = .queryStringRemoval := hmode
  obtain rfl : domains = [] := hdomains
  constructor
  · rintro rfl
    cases fragment <;> rfl
  · rintro rfl
    cases query <;> rfl

theorem apply_url_kept {policy : Policy} {event : Event} {url : Bytes} (hurl : url ≠ [])
    (hbrowser : event.browser = some { url := url }) (hmeta : event.privacy.metadataOnly = true)
    (hkeep : (Redactor.redactUrl policy url).1 = url) :
    (PolicyEngine.apply policy event).1.browser = some { url := url } := by
  simp [PolicyEngine.apply, PolicyEngine.redactBrowser, hmeta, hbrowser, hurl, hkeep]

/-- The default policy strips, so a policy that keeps a delimiter is not the one in force. -/
theorem InForce.strips {config : Config} (h : InForce config)
    (hmode : config.policy.redactionMode = .queryStringRemoval)
    (hdomains : config.policy.sensitiveDomains = []) : Strips config.policy := by
  have hkeep := mem_redactUrl_of_not_strips hmode hdomains
  have hstrips : Strips ({} : Policy) := ⟨rfl, rfl⟩
  constructor
  · by_contra hoff
    obtain ⟨event, hbrowser, hmeta, heq⟩ := h.apply_eq (cstr "a://b?c")
    have hurl := apply_url_kept (by decide) hbrowser hmeta (hkeep.1 (by simpa using hoff))
    exact (notMem_apply_url hstrips event hmeta _ (heq ▸ hurl)).1 (by decide)
  · by_contra hoff
    obtain ⟨event, hbrowser, hmeta, heq⟩ := h.apply_eq (cstr "a://b#c")
    have hurl := apply_url_kept (by decide) hbrowser hmeta (hkeep.2 (by simpa using hoff))
    exact (notMem_apply_url hstrips event hmeta _ (heq ▸ hurl)).2 (by decide)

/-- For every accepted configuration: its policy is the one in force before any `set_policy`
exactly when it asks for the default redaction. -/
theorem configured_policy_in_force_iff (lib : JsonLib) (text : Bytes) (config : Config)
    (hparse : Config.parse lib text = .ok config) :
    InForce config ↔
      config.policy.redactionMode = .queryStringRemoval ∧
        config.policy.stripQueryString = true ∧ config.policy.stripFragment = true ∧
        config.policy.sensitiveDomains = [] := by
  obtain ⟨hpersist, hretention⟩ := Config.defaultPersistence_parse hparse
  constructor
  · intro h
    obtain ⟨hmode, hdomains⟩ := toJson_inj (h [] (by simp)).2
    obtain ⟨hquery, hfragment⟩ := h.strips hmode.symm hdomains.symm
    exact ⟨hmode.symm, hquery, hfragment, hdomains.symm⟩
  · rintro ⟨hmode, hquery, hfragment, hdomains⟩ steps hsteps
    have hsame : SameRedaction {} config.policy := by
      cases hpolicy : config.policy
      simp_all [SameRedaction]
    have hengine := policyEngine_run (new config) steps hsteps
    constructor
    · intro now stored event
      rw [onCaptureEvent_published, hengine]
      exact congrArg _ (publishedUnder_congr hsame _)
    · rw [hengine]
      exact toJson_congr hsame

/-- The names under which a list of events reports DNS queries. -/
def dnsNames (events : List Event) : List (Option Bytes) :=
  events.map fun e => e.network.map NetworkInfo.dnsQueryName

/-- A configuration that excludes `bank.example` is accepted, and a query for that name is
published in clear. -/
theorem configured_domain_published :
    let text := cstr "\x7b\"policy\":\x7b\"redaction\":" ++
      cstr "\x7b\"sensitive_domains\":[\"bank.example\"]\x7d\x7d\x7d"
    let config : Config := { policy := { sensitiveDomains := [cstr "bank.example"] } }
    let event : Event := { type := .dns, network := some { dnsQueryName := cstr "bank.example" } }
    Config.parse JsonReference.lib text = .ok config ∧
      dnsNames ((new config).onCaptureEvent 0 true event).published =
        [some (cstr "bank.example")] ∧
      dnsNames (publishedUnder config.policy ((new config).correlator.correlate 0 event).2) =
        [some []] ∧
      ¬ InForce config := by
  intro text config event
  have hpublished : dnsNames ((new config).onCaptureEvent 0 true event).published =
      [some (cstr "bank.example")] := by decide +kernel
  have hunder : dnsNames (publishedUnder config.policy
      ((new config).correlator.correlate 0 event).2) = [some []] := by decide +kernel
  refine ⟨by decide +kernel, hpublished, hunder, fun h => ?_⟩
  have hsame := congrArg dnsNames ((h [] (by simp)).1 0 true event)
  rw [show (new config).run [] = new config from rfl, hpublished] at hsame
  have hempty : [some (cstr "bank.example")] = [some []] := hsame.trans hunder
  exact absurd hempty (by decide)

/-- A configuration that only turns storage on. -/
theorem storage_config_in_force :
    InForce { storageEnabled := true } :=
  (configured_policy_in_force_iff JsonReference.lib
    (cstr "\x7b\"storage\":\x7b\"enabled\":true\x7d\x7d") { storageEnabled := true }
    (by decide +kernel)).mpr ⟨rfl, rfl, rfl, rfl⟩

end Ezcap.Daemon
