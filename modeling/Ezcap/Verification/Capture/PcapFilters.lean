import Ezcap.Library.Control
import Ezcap.Library.JsonReference
import Ezcap.Verification.Daemon.Startup

/-! Which filters reach libpcap. The validator is called by nobody, so the configured filter is
compiled whether it passes or not. -/

namespace Ezcap.Startup

open StdString PcapFilterValidator

/-! ## The validator -/

theorem isWordChar_zero : isWordChar 0 = false := by decide

theorem zero_notMem_of_validateLoop {filter token : Bytes}
    (h : validateLoop filter token = .ok ()) : 0 ∉ filter := by
  induction filter generalizing token with
  | nil => simp
  | cons c rest ih =>
      rw [List.mem_cons, not_or]
      rw [validateLoop] at h
      split_ifs at h with hword hspace hparen
      · refine ⟨fun hc => ?_, ih h⟩
        rw [← hc, isWordChar_zero] at hword
        cases hword
      · obtain ⟨_, -, hrest⟩ := Except.bind_eq_ok_iff.mp h
        refine ⟨fun hc => ?_, ih hrest⟩
        rw [← hc] at hspace
        exact absurd hspace (by decide)
      · obtain ⟨_, -, hrest⟩ := Except.bind_eq_ok_iff.mp h
        refine ⟨fun hc => ?_, ih hrest⟩
        rw [← hc] at hparen
        exact absurd hparen (by decide)
      · obtain ⟨_, hflush, -⟩ := Except.bind_eq_ok_iff.mp h
        unfold flush at hflush
        split at hflush <;> cases hflush

theorem untilNul_of_validate {filter : Bytes} (h : validate filter = .ok ()) :
    untilNul filter = filter := by
  unfold validate at h
  split_ifs at h
  exact untilNul_eq_self_iff.mpr (zero_notMem_of_validateLoop h)

/-! ## The filters that are compiled -/

theorem compiled_start {filter f : Bytes} {outcome : PcapCaptureBackend.Outcome}
    (h : f ∈ (PcapCaptureBackend.start filter outcome).compiled) : f = untilNul filter := by
  unfold PcapCaptureBackend.start at h
  split_ifs at h <;> simp_all

theorem compiled_tryPcap {filter f : Bytes} {pcap : Bytes → PcapCaptureBackend.Outcome}
    {candidates : List Bytes} {backendError : Bytes}
    (h : f ∈ (tryPcap filter pcap candidates backendError).compiled) : f = untilNul filter := by
  induction candidates generalizing backendError with
  | nil => cases h
  | cons iface candidates ih =>
      rw [tryPcap] at h
      cases hresult : (PcapCaptureBackend.start filter (pcap iface)).result with
      | ok _ =>
          simp only [hresult, Option.mem_toList] at h
          exact compiled_start h
      | error error =>
          simp only [hresult, List.mem_append, Option.mem_toList] at h
          rcases h with h | h
          · exact compiled_start h
          · exact ih h

section Config

variable {config : Config} {outcomes : Outcomes} {held : Resources}

theorem compiled_startBackend {f : Bytes} (h : f ∈ (startBackend config outcomes).compiled) :
    config.pcapFallback = true ∧ f = untilNul config.pcapFilter := by
  unfold startBackend at h
  split at h
  · cases h
  · split_ifs at h with hfallback
    · cases h
    · exact ⟨hfallback, compiled_tryPcap h⟩
    all_goals cases h

theorem pcapFallback_of_startBackend {iface : Bytes}
    (h : (startBackend config outcomes).result = .ok (.pcap iface)) :
    config.pcapFallback = true := by
  unfold startBackend at h
  split at h
  · cases h
  · split_ifs at h with hfallback
    exact hfallback

theorem compiled_eq {f : Bytes} (h : f ∈ (start config outcomes held).compiled) :
    f ∈ (startBackend config outcomes).compiled := by
  cases hrunning : held.running with
  | true =>
      rw [start_of_running outcomes hrunning] at h
      cases h
  | false =>
      rcases start_cases config outcomes hrunning with
        ⟨_, -, hstart⟩ | ⟨_, _, -, -, hstart⟩ | ⟨_, -, -, hstart⟩
      all_goals rwa [hstart] at h

theorem captured_eq {backend : Backend}
    (h : (start config outcomes held).captured = some backend) :
    (startBackend config outcomes).result = .ok backend := by
  cases hrunning : held.running with
  | true =>
      rw [start_of_running outcomes hrunning] at h
      cases h
  | false =>
      rcases start_cases config outcomes hrunning with
        ⟨_, -, hstart⟩ | ⟨_, _, hresult, -, hstart⟩ | ⟨_, hresult, -, hstart⟩
      all_goals
        rw [hstart] at h
        cases h
      all_goals exact hresult

end Config

/-! ## Enforcement -/

/-- In every run, each filter that is compiled passes the validator, and no capture is started
with a configured filter that does not. -/
def OnlyValidated (config : Config) : Prop :=
  ∀ actions held, Runs.exec (step config) {} actions = some held → ∀ outcomes,
    (∀ f ∈ (start config outcomes held).compiled, validate f = .ok ()) ∧
      (validate config.pcapFilter ≠ .ok () →
        ∀ iface, (start config outcomes held).captured ≠ some (.pcap iface))

theorem any_mem_candidateInterfaces (config : Config) (outcomes : Outcomes) :
    cstr "any" ∈ candidateInterfaces config outcomes := by
  have hadd (candidates : List Bytes) : cstr "any" ∈ addCandidate candidates (cstr "any") := by
    unfold addCandidate
    split_ifs with hempty hmem
    · cases hempty
    · exact hmem
    · simp
  exact hadd _

/-- Without eBPF, and with a libpcap that refuses nothing, a capture is started. -/
theorem captured_of_pcapFallback {config : Config} (h : config.pcapFallback = true) :
    ∃ iface, (start config { ebpf := .error [] } {}).captured = some (.pcap iface) := by
  have hany := any_mem_candidateInterfaces config { ebpf := .error [] }
  have hebpf : startEbpf config { ebpf := .error [] } = .error [] := by
    unfold startEbpf
    split <;> rfl
  cases hcandidates : candidateInterfaces config { ebpf := .error [] } with
  | nil =>
      rw [hcandidates] at hany
      cases hany
  | cons iface candidates =>
      refine ⟨iface, ?_⟩
      have hchosen : (startBackend config { ebpf := .error [] }).result = .ok (.pcap iface) := by
        simp [startBackend, hebpf, h, hcandidates, tryPcap, PcapCaptureBackend.start]
      simp [start, hchosen]

/-- Only validated filters reach libpcap exactly when there is no fallback to it, or when the
configured filter passes. -/
theorem only_validated_iff (config : Config) :
    OnlyValidated config ↔ config.pcapFallback = false ∨ validate config.pcapFilter = .ok () := by
  constructor
  · intro h
    by_contra hneither
    rw [not_or, Bool.not_eq_false] at hneither
    obtain ⟨iface, hcaptured⟩ := captured_of_pcapFallback hneither.1
    exact (h [] {} rfl { ebpf := .error [] }).2 hneither.2 iface hcaptured
  · intro h actions held _ outcomes
    constructor
    · intro f hf
      obtain ⟨hfallback, rfl⟩ := compiled_startBackend (compiled_eq hf)
      rcases h with hoff | hvalid
      · rw [hoff] at hfallback
        cases hfallback
      · rwa [untilNul_of_validate hvalid]
    · intro hinvalid iface hcaptured
      rcases h with hoff | hvalid
      · rw [pcapFallback_of_startBackend (captured_eq hcaptured)] at hoff
        cases hoff
      · exact hinvalid hvalid

/-- An accepted configuration with a filter that the validator rejects: it is compiled, and the
capture is started. -/
theorem rejected_filter_captures :
    let text := cstr "\x7b\"pcap_filter\":\"tcp[13] & 2 != 0\"\x7d"
    let config : Config := { pcapFilter := cstr "tcp[13] & 2 != 0" }
    let started := start config { ebpf := .error [] } {}
    Config.parse JsonReference.lib text = .ok config ∧
      validate config.pcapFilter = .error (cstr "unexpected character in filter: [") ∧
      started.compiled = [cstr "tcp[13] & 2 != 0"] ∧
      started.captured = some (.pcap (cstr "any")) ∧ ¬ OnlyValidated config := by
  intro text config started
  have hinvalid : validate config.pcapFilter =
      .error (cstr "unexpected character in filter: [") := by
    decide +kernel
  have hcaptured : started.captured = some (.pcap (cstr "any")) := by decide +kernel
  refine ⟨by decide +kernel, hinvalid, by decide +kernel, hcaptured, fun h => ?_⟩
  exact (h [] {} rfl _).2 (by rw [hinvalid]; simp) _ hcaptured

end Ezcap.Startup
