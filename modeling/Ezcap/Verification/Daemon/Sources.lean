import Ezcap.Verification.Daemon.Pipeline
import Ezcap.Verification.PacketParser.Noninterference

/-! What the sources of the pipeline contribute to what is published: the packets their headers,
and the browser nothing, as no part of the daemon reports it to the correlator. -/

/-! ## Payloads -/

namespace Ezcap.PacketParser

open StdString

/-- The frames agree in their headers, and in the question name of a DNS message. -/
inductive SameHeaders (f g : Bytes) : Prop where
  | tcp (htcp : (parseEthernetFrame f).transport = .tcp)
      (hagree : AgreeUpTo (ipHeaderEnd f + 20) f g)
  | udp (hudp : (parseEthernetFrame f).transport = .udp)
      (hsource : (parseEthernetFrame f).sourcePort ≠ 53)
      (hdestination : (parseEthernetFrame f).destinationPort ≠ 53)
      (hagree : AgreeUpTo (ipHeaderEnd f + 8) f g)
  | dns (hudp : (parseEthernetFrame f).transport = .udp)
      (hport : (parseEthernetFrame f).sourcePort = 53 ∨ (parseEthernetFrame f).destinationPort = 53)
      (hname : (parseEthernetFrame f).dnsQueryName ≠ []) (z : ℕ)
      (hz : NameEndsAt (f.drop (ipHeaderEnd f + 20)) 0 z)
      (hagree : AgreeUpTo (ipHeaderEnd f + 20 + z + 1) f g)

theorem SameHeaders.parse_eq {f g : Bytes} (h : SameHeaders f g)
    (hvalid : (parseEthernetFrame f).valid = true) :
    parseEthernetFrame g = parseEthernetFrame f := by
  obtain ⟨m, hnet, hm⟩ := parseNetworkHeader_of_valid hvalid
  have hlen : ipHeaderEnd f + transportHeaderLen m ≤ f.length := by
    rw [parseEthernetFrame_of_some hnet] at hvalid
    exact complete_of_valid hm (offset_le_length hnet) hvalid
  obtain ⟨-, htransport, hsource, hdestination⟩ := parseTransportHeader_complete hlen
  rw [← parseEthernetFrame_of_some hnet] at htransport hsource hdestination
  have hudp (h : (parseEthernetFrame f).transport = .udp) : m.transport ≠ .tcp := by
    simp [← htransport, h]
  cases h with
  | tcp htcp hagree =>
      rw [htransport] at htcp
      rw [transportHeaderLen, if_pos htcp] at hlen
      exact parseEthernetFrame_congr_tcp hnet htcp hlen hagree
  | udp h hs hd hagree =>
      rw [transportHeaderLen, if_neg (hudp h)] at hlen
      refine parseEthernetFrame_congr_udp hnet (hudp h) ?_ hlen hagree
      simp_all [onDnsPort, withPorts, kDnsPort]
  | dns h hport hname z hz hagree =>
      rw [transportHeaderLen, if_neg (hudp h)] at hlen
      have hdns : onDnsPort (withPorts f (ipHeaderEnd f) m) = true := by
        rw [hsource, hdestination] at hport
        simpa [onDnsPort, withPorts, kDnsPort] using hport.symm
      obtain ⟨z', hz', hcongr⟩ :=
        parseEthernetFrame_congr_dns (g := g) hnet (hudp h) hm.dnsQueryName hdns hlen hname
      obtain rfl := hz'.unique hz
      exact hcongr hagree

end Ezcap.PacketParser

namespace Ezcap.Pipeline

/-- Packets of the same time and headers. Their lengths may differ with what they carry. -/
structure SamePacket (p q : PcapPacket) : Prop where
  accepted : p.accepted = true
  captured : q.frame.length ≤ q.len
  timestamp : q.timestamp = p.timestamp
  headers : PacketParser.SameHeaders p.frame q.frame

inductive SameStep : Step → Step → Prop where
  | same (s : Step) : SameStep s s
  | packet (now : ℤ) (stored : Bool) (interface : Bytes) (urandom : Option Bytes)
      {p q : PcapPacket} (h : SamePacket p q) :
      SameStep (.input now stored (.packet interface urandom p))
        (.input now stored (.packet interface urandom q))

theorem SamePacket.normalize_eq {p q : PcapPacket} (h : SamePacket p q) (counter : UInt64)
    (interface : Bytes) (urandom : Option Bytes) :
    normalize counter (.packet interface urandom q) =
      normalize counter (.packet interface urandom p) := by
  have hvalid : (PacketParser.parseEthernetFrame p.frame).valid = true :=
    (Bool.and_eq_true_iff.mp h.accepted).2
  have hparse := h.headers.parse_eq hvalid
  have haccepted : q.accepted = p.accepted := by
    rw [h.accepted, PcapPacket.accepted, hparse, hvalid]
    simp [h.captured]
  simp only [normalize, PcapPacket.handle, haccepted, hparse, h.timestamp]

/-- Whatever the packets of a run carry, every state of the pipeline is the same: what is published,
counted, remembered of navigations, and left of the policy. -/
theorem payload_not_published (pipeline : Pipeline) {steps others : List Step}
    (h : List.Forall₂ SameStep steps others) : pipeline.run others = pipeline.run steps := by
  induction h generalizing pipeline with
  | nil => rfl
  | @cons s t steps others hstep _ ih =>
      have heq : pipeline.step t = pipeline.step s := by
        cases hstep with
        | same => rfl
        | packet now stored interface urandom hpacket =>
            simp only [step, hpacket.normalize_eq]
      exact (congrArg (run · others) heq).trans (ih (pipeline.step s))

/-- A segment with a payload, and the same without it. -/
theorem payload_not_published_segment :
    let frame := fun payload => PacketParser.ipv4Frame [0, 0] 6 (List.replicate 20 1 ++ payload)
    let input := fun payload => Step.input 0 true (.packet [] none ⟨0, 0, 1500, frame payload⟩)
    run { daemon := .new {} } [input []] = run { daemon := .new {} } [input [1, 2]] := by
  intro frame input
  refine payload_not_published _ (.cons (.packet _ _ _ _ ⟨?_, ?_, rfl, ?_⟩) .nil)
  · decide
  · decide
  · exact .tcp (by decide) (by decide)

/-! ## Attribution -/

/-- What a backend reports: a connection or a DNS event, without the browser. -/
structure Captured (event : Event) : Prop where
  type : event.type = .connection ∨ event.type = .dns
  browser : event.browser = none

theorem captured_normalize {counter : UInt64} {i : CaptureInput} {event : Event}
    (h : (normalize counter i).1 = some event) : Captured event := by
  cases i with
  | packet interface urandom packet =>
      simp only [normalize, PcapPacket.handle, Option.ite_none_right_eq_some] at h
      obtain rfl := Option.some.inj h.2
      split_ifs
      · exact ⟨.inr rfl, rfl⟩
      · exact ⟨.inl rfl, rfl⟩
  | record boot data =>
      simp only [normalize, Ebpf.handleRecord] at h
      split_ifs at h
      all_goals cases h
      · exact ⟨.inl rfl, rfl⟩
      · exact ⟨.inr rfl, rfl⟩
      · exact ⟨.inl rfl, rfl⟩

/-- A correlator that knows nothing takes the event's own score away. -/
theorem correlate_unreported {event : Event} (h : Captured event) (now : ℤ) :
    Correlator.correlate {} now event = ({}, { event with confidence := 0 }) := by
  have hprocess : (event.process.any fun p => Correlator.isBrowserProcess {} p.pid) = false := by
    cases event.process <;> rfl
  have hscore : ∀ pcapOnly : Bool,
      Correlator.scoreEvidence false false false false pcapOnly = 0 := by
    decide +kernel
  rw [Correlator.correlate, if_neg (by rcases h.type with h | h <;> simp [h]), hprocess]
  simp [Correlator.prune, Correlator.bestMatch, Correlator.attachNavigation, hscore]

/-- The correlator knows nothing, and nothing published is attributed. -/
structure Unattributed (daemon : Daemon) : Prop where
  correlator : daemon.correlator = {}
  published : ∀ e ∈ daemon.published, e.browser = none ∧ e.confidence = 0

theorem Unattributed.onCaptureEvent {daemon : Daemon} (h : Unattributed daemon) {event : Event}
    (hevent : Captured event) (now : ℤ) (stored : Bool) :
    Unattributed (daemon.onCaptureEvent now stored event) := by
  have hcorrelate := correlate_unreported hevent now
  constructor
  · simp only [Daemon.onCaptureEvent, apply_ite Daemon.correlator, ite_self, h.correlator,
      hcorrelate]
  · rw [Daemon.onCaptureEvent_published, h.correlator, hcorrelate, List.forall_mem_append]
    refine ⟨h.published, fun e he => ?_⟩
    unfold Daemon.publishedUnder at he
    split_ifs at he with hm
    · obtain rfl := List.mem_singleton.mp he
      rw [PolicyEngine.apply, if_pos hm]
      simp [PolicyEngine.redactBrowser, hevent.browser]
    · cases he

/-- A report of the browser, which no part of the daemon makes. -/
def IsReport : Step → Prop
  | .control (.navigation _) => True
  | .control (.processes _) => True
  | _ => False

theorem Unattributed.step {pipeline : Pipeline} (h : Unattributed pipeline.daemon) {s : Step}
    (hs : ¬ IsReport s) : Unattributed (pipeline.step s).daemon := by
  cases s with
  | control c =>
      cases c with
      | snapshot r doc => exact ⟨h.correlator, h.published⟩
      | commit r => exact ⟨h.correlator, h.published⟩
      | navigation observation => exact absurd trivial hs
      | processes processes => exact absurd trivial hs
  | input now stored i =>
      simp only [Pipeline.step]
      cases hevent : (normalize pipeline.counter i).1 with
      | none => exact h
      | some event => exact h.onCaptureEvent (captured_normalize hevent) now stored

theorem Unattributed.run {pipeline : Pipeline} (h : Unattributed pipeline.daemon)
    {steps : List Step} (hsteps : ∀ s ∈ steps, ¬ IsReport s) :
    Unattributed (pipeline.run steps).daemon := by
  induction steps generalizing pipeline with
  | nil => exact h
  | cons s steps ih =>
      obtain ⟨hs, hlater⟩ := List.forall_mem_cons.mp hsteps
      exact ih (h.step hs) hlater

/-- As long as the browser is not reported to the correlator, every event of either backend is
published without the browser and with a score of 0, whatever its backend had given it. -/
theorem published_unattributed (config : Config) {steps : List Step}
    (hsteps : ∀ s ∈ steps, ¬ IsReport s) :
    ∀ e ∈ (run { daemon := .new config } steps).daemon.published,
      e.browser = none ∧ e.confidence = 0 := by
  have hrun : Unattributed (run { daemon := .new config } steps).daemon :=
    Unattributed.run ⟨rfl, by simp [Daemon.new]⟩ hsteps
  exact hrun.published

/-- A connection that the kernel reports. -/
theorem published_unattributed_record :
    let steps : List Step := [.input 0 true (.record 0 (1 :: 1 :: List.replicate 86 0))]
    (run { daemon := .new {} } steps).daemon.published.length = 1 ∧
      ∀ e ∈ (run { daemon := .new {} } steps).daemon.published,
        e.browser = none ∧ e.confidence = 0 :=
  ⟨by decide +kernel, published_unattributed {} (by simp [IsReport])⟩

end Ezcap.Pipeline
