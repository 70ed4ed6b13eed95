import Ezcap.Model.PolicyEngine

/-! The privacy annotations of an event. One redactor treats the DNS name and then the URL, and only
the audit of its last call reaches the event. -/

namespace Ezcap

open StdString

/-- The entry of a kind. -/
def Redactions.get (redactions : Redactions) : RedactionKind → Bool
  | .queryString => redactions.queryString
  | .fragment => redactions.fragment
  | .hostnameHash => redactions.hostnameHash
  | .hostnameMask => redactions.hostnameMask
  | .domainExcluded => redactions.domainExcluded

namespace PolicyEngine

/-! ## What was done to an event -/

/-- The kinds of redaction that are applied to the DNS name. -/
def nameKinds (policy : Policy) (event : Event) : Redactions :=
  (event.network.map fun network => (Redactor.redactDnsName policy network.dnsQueryName).2).getD {}

/-- The URL that is redacted. -/
def redactedUrl? (event : Event) : Option Bytes :=
  (event.browser.map (·.url)).filter (· ≠ [])

def urlKinds (policy : Policy) (event : Event) : Redactions :=
  ((redactedUrl? event).map fun url => (Redactor.redactUrl policy url).2).getD {}

/-- An event that is not dropped is redacted; the kind was applied to one of its two texts. -/
def applied (policy : Policy) (event : Event) (kind : RedactionKind) : Bool :=
  event.privacy.metadataOnly &&
    ((nameKinds policy event).get kind || (urlKinds policy event).get kind)

end PolicyEngine

end Ezcap
