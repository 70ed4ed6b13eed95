import Ezcap.Library.JsonReference
import Ezcap.Model.Daemon
import Ezcap.Verification.Attribution.Evidence
import Ezcap.Verification.Ipc.Text
import Ezcap.Verification.Redactor.Text

/-! From a DNS record of the kernel to the encoder. Nothing between the two looks at the
bytes of the name, so the record is encoded only if they happen to be text, and, since
masking keeps a single byte, start with a whole character. -/

namespace Ezcap.Daemon

open StdString Utf8 Redactor Ipc Ebpf

/-! ## Redacted parts of an event -/

theorem redactNetwork_value (policy : Policy) (network : NetworkInfo) :
    (PolicyEngine.redactNetwork policy (some network)).value =
      some { network with
        dnsQueryName := (redactDnsName policy network.dnsQueryName).1 } := by
  simp only [PolicyEngine.redactNetwork]
  split_ifs with hempty hnone hchanged
  · have hname : (redactDnsName policy network.dnsQueryName).1 = network.dnsQueryName := by
      simp [redactDnsName, hempty]
    rw [hname]
  · simp [hnone]
  · rfl
  · rw [not_not] at hchanged
    rw [hchanged]

theorem networkText_redactNetwork (network : NetworkInfo) :
    (∀ policy, ∀ n ∈ (PolicyEngine.redactNetwork policy (some network)).value, NetworkText n) ↔
      NetworkText network ∧ MaskSafe network.dnsQueryName := by
  simp only [redactNetwork_value, Option.mem_def, Option.some.injEq, forall_eq']
  constructor
  · intro h
    obtain ⟨hname, hmask⟩ := (valid_redactDnsName_iff _).mp fun policy => (h policy).dnsQueryName
    obtain ⟨hlocal, hremote, -, hinterface⟩ := h {}
    exact ⟨⟨hlocal, hremote, hname, hinterface⟩, hmask⟩
  · rintro ⟨⟨hlocal, hremote, hname, hinterface⟩, hmask⟩ policy
    exact ⟨hlocal, hremote, (valid_redactDnsName_iff _).mpr ⟨hname, hmask⟩ policy, hinterface⟩

/-- Redaction drops the browser part, keeps it or changes its URL. -/
theorem browserText_redactBrowser (browser : BrowserInfo) (last : Policy → Redactions) :
    (∀ policy, ∀ b ∈ (PolicyEngine.redactBrowser policy (last policy) (some browser)).value,
      BrowserText b) ↔ BrowserText browser ∧ UrlMaskSafe browser.url := by
  by_cases hempty : browser.url = []
  · have hsafe : UrlMaskSafe browser.url := by simp [UrlMaskSafe, hempty, findSub]
    simp only [PolicyEngine.redactBrowser, hempty, if_true, Option.mem_def, Option.some.injEq,
      forall_eq']
    exact ⟨fun h => ⟨h {}, hempty ▸ hsafe⟩, fun h _ => h.1⟩
  have hvalue (policy : Policy) (redactions : Redactions) :
      (∀ b ∈ (PolicyEngine.redactBrowser policy redactions (some browser)).value, BrowserText b) ↔
        ((redactUrl policy browser.url).1 ≠ [] →
          BrowserText { browser with url := (redactUrl policy browser.url).1 }) := by
    simp only [PolicyEngine.redactBrowser, hempty, if_false]
    split_ifs with hnone hchanged
    · simp [hnone]
    · simp [hnone]
    · rw [not_not] at hchanged
      simp only [hchanged, Option.mem_def, Option.some.injEq, forall_eq', ne_eq, hempty,
        not_false_eq_true, forall_const]
  simp only [hvalue]
  constructor
  · intro h
    have hbare : BrowserText browser := by
      have hurl : (redactUrl (bare .fullHostname) browser.url).1 = browser.url := by
        rw [redactUrl_bare]
        exact stripUrl_bare .fullHostname browser.url
      simpa [hurl, hempty] using h (bare .fullHostname)
    refine ⟨hbare, ((valid_redactUrl_iff _).mp fun policy => ?_).2⟩
    by_cases hnone : (redactUrl policy browser.url).1 = []
    · rw [hnone]
      exact valid_nil
    · exact (h policy hnone).url
  · rintro ⟨⟨hurl, htitle, hnavigation⟩, hmask⟩ policy -
    exact ⟨(valid_redactUrl_iff _).mpr ⟨hurl, hmask⟩ policy, htitle, hnavigation⟩

/-! ## Correlation of a DNS record -/

/-- The navigation attached to the event of a record: the best match, for a process known to be
a browser. -/
def attached (correlator : Correlator) (now : ℤ) (raw : DnsEvent) (bootWalltime : ℤ) :
    Option NavigationObservation :=
  if correlator.isBrowserProcess raw.hdr.pid then
    Correlator.bestMatch (Correlator.prune now correlator.navigations)
      (normalizeDnsEvent raw bootWalltime)
  else none

theorem correlate_dns (correlator : Correlator) (now : ℤ) (raw : DnsEvent) (bootWalltime : ℤ) :
    ∃ confidence, (correlator.correlate now (normalizeDnsEvent raw bootWalltime)).2 =
      { normalizeDnsEvent raw bootWalltime with
        confidence := confidence
        browser := (attached correlator now raw bootWalltime).map Correlator.browserInfo } := by
  have hscore (processMatch : Bool) (found : Option NavigationObservation) :
      ∃ confidence, Correlator.attachNavigation processMatch found
          (normalizeDnsEvent raw bootWalltime) =
        { normalizeDnsEvent raw bootWalltime with
          confidence := confidence
          browser := if processMatch then found.map Correlator.browserInfo else none } := by
    cases found with
    | none => cases processMatch <;> exact ⟨_, rfl⟩
    | some nav =>
        have hsource : ((normalizeDnsEvent raw bootWalltime).source == .pcap) = false := rfl
        simp only [Correlator.attachNavigation, hsource, ge_iff_le, Correlator.scoreEvidence_ge_iff]
        cases processMatch <;> exact ⟨_, rfl⟩
  obtain ⟨confidence, hconfidence⟩ := hscore (correlator.isBrowserProcess raw.hdr.pid)
    (Correlator.bestMatch (Correlator.prune now correlator.navigations)
      (normalizeDnsEvent raw bootWalltime))
  refine ⟨confidence, ?_⟩
  rw [attached, apply_ite (Option.map Correlator.browserInfo)]
  exact hconfidence

/-! ## The encoder -/

/-- The name in a record: the bytes that `query_len` announces, up to the first NUL. -/
def queryText (raw : DnsEvent) : Bytes :=
  if 0 < raw.queryLen ∧ raw.queryLen.toNat ≤ EZCAP_DNS_NAME_MAX then
    boundedString raw.queryName raw.queryLen.toNat
  else []

/-- The texts of a record are well formed, and masking does not cut the name's first character. -/
structure RecordText (raw : DnsEvent) : Prop where
  name : Valid (queryText raw)
  mask : MaskSafe (queryText raw)
  interface : Valid (boundedString raw.ifname EZCAP_IFNAME_MAX)

/-- The same for a navigation. -/
structure NavigationText (nav : NavigationObservation) : Prop where
  url : Valid nav.url
  mask : UrlMaskSafe nav.url
  title : Valid nav.title
  navigationId : Valid nav.navigationId

theorem valid_formatAddress (isIpv6 : UInt8) (addr4 : UInt32) (addr6 : Bytes) :
    Valid (formatAddress isIpv6 addr4 addr6) := by
  unfold formatAddress
  split
  · exact Inet.valid_ntop6 _
  · exact Inet.valid_ntop4 _

theorem eventText_apply_dns (policy : Policy) (raw : DnsEvent) (bootWalltime : ℤ) (confidence : ℚ)
    (browser : Option BrowserInfo) :
    let event := normalizeDnsEvent raw bootWalltime
    let network := PolicyEngine.redactNetwork policy event.network
    EventText (PolicyEngine.apply policy
        { event with confidence := confidence, browser := browser }).1 ↔
      (∀ n ∈ network.value, NetworkText n) ∧
        ∀ b ∈ (PolicyEngine.redactBrowser policy network.last browser).value, BrowserText b := by
  intro event network
  constructor
  · rintro ⟨-, -, -, hnetwork, hbrowser, -, -⟩
    exact ⟨hnetwork, hbrowser⟩
  · rintro ⟨hnetwork, hbrowser⟩
    refine ⟨valid_nil, valid_nil, ?_, hnetwork, hbrowser, nofun, nofun⟩
    rintro p ⟨⟩
    exact valid_nil

/-- The event of a DNS record is encoded under every policy exactly when the record, and the
navigation that is attached to it, are text that masking does not cut. -/
theorem dns_record_encodes_iff {lib : JsonLib} (h : lib.Lawful) (raw : DnsEvent)
    (bootWalltime now : ℤ) (correlator : Correlator) :
    (∀ policy, (encodeEvent lib (PolicyEngine.apply policy
        (correlator.correlate now (normalizeDnsEvent raw bootWalltime)).2).1).isSome = true) ↔
      RecordText raw ∧ ∀ nav ∈ attached correlator now raw bootWalltime, NavigationText nav := by
  obtain ⟨confidence, hcorrelated⟩ := correlate_dns correlator now raw bootWalltime
  simp only [hcorrelated, encodeEvent_isSome h, eventText_apply_dns, forall_and]
  apply and_congr
  · refine (networkText_redactNetwork _).trans ?_
    constructor
    · rintro ⟨⟨-, -, hname, hinterface⟩, hmask⟩
      exact ⟨hname, hmask, hinterface⟩
    · rintro ⟨hname, hmask, hinterface⟩
      exact ⟨⟨valid_formatAddress .., valid_nil, hname, hinterface⟩, hmask⟩
  · cases attached correlator now raw bootWalltime with
    | none => simp [PolicyEngine.redactBrowser]
    | some nav =>
        refine (browserText_redactBrowser _ _).trans ?_
        simp only [Option.mem_def, Option.some.injEq, forall_eq']
        constructor
        · rintro ⟨⟨hurl, htitle, hnavigation⟩, hmask⟩
          exact ⟨hurl, hmask, htitle, hnavigation⟩
        · rintro ⟨hurl, hmask, htitle, hnavigation⟩
          exact ⟨⟨hurl, htitle, hnavigation⟩, hmask⟩

/-- A record with the given name, and zeros elsewhere. -/
def dnsRecord (name : Bytes) (h : name.length ≤ EZCAP_DNS_NAME_MAX) : DnsEvent where
  hdr := ⟨EZCAP_EVENT_VERSION, EZCAP_EVENT_TAG_DNS, 0, 0, 0⟩
  localAddr4 := 0
  localAddr6 := List.replicate 16 0
  localPort := 0
  isIpv6 := 0
  transport := 17
  queryLen := name.length.toUInt16
  queryName := name ++ List.replicate (EZCAP_DNS_NAME_MAX - name.length) 0
  ifname := List.replicate EZCAP_IFNAME_MAX 0
  queryName_length := by simp; omega
  ifname_length := by simp

theorem ascii_dns_record_encodes :
    RecordText (dnsRecord (cstr "bank.example") (by decide)) ∧
      ∀ policy, (encodeEvent JsonReference.lib (PolicyEngine.apply policy
        (({} : Correlator).correlate 0 (normalizeDnsEvent
          (dnsRecord (cstr "bank.example") (by decide)) 0)).2).1).isSome = true := by
  have htext : RecordText (dnsRecord (cstr "bank.example") (by decide)) :=
    ⟨by decide, by decide +kernel, by decide⟩
  exact ⟨htext, (dns_record_encodes_iff JsonReference.lib_lawful _ 0 0 {}).mpr
    ⟨htext, by simp [attached, Correlator.isBrowserProcess]⟩⟩

/-- A name of one byte that is no text, nor a character of the names that packets are parsed
to, stops the encoder under the default policy. -/
theorem dns_record_byte_not_encoded :
    let event := (PolicyEngine.apply {}
      (({} : Correlator).correlate 0 (normalizeDnsEvent (dnsRecord [0xff] (by decide)) 0)).2).1
    event.network.map NetworkInfo.dnsQueryName = some [0xff] ∧
      PacketParser.qnameChar 0xff = false ∧ encodeEvent JsonReference.lib event = none := by
  decide +kernel

end Ezcap.Daemon
