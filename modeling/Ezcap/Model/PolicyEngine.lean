import Ezcap.Library.Json
import Ezcap.Model.Redactor

/-! The policy engine, from `policy_engine.cpp`. `update_from_json` holds the engine's
mutex twice, once to copy the policy and once to write the edited copy back, and
is modelled as these two steps. -/

namespace Ezcap

open StdString

inductive PolicyDecision where
  | allow
  | redact
  | drop
  deriving DecidableEq, Repr

namespace PolicyEngine

/-! ## Applying the policy to an event -/

/-- A redacted part of an event, whether it changed, and the redactor's last audit. -/
structure Redacted (α : Type) where
  value : α
  redacted : Bool
  last : Redactions

def redactNetwork (policy : Policy) : Option NetworkInfo → Redacted (Option NetworkInfo)
  | none => ⟨none, false, {}⟩
  | some network =>
      if network.dnsQueryName = [] then ⟨some network, false, {}⟩
      else
        let name := Redactor.redactDnsName policy network.dnsQueryName
        if name.1 = [] then ⟨some { network with dnsQueryName := [] }, true, name.2⟩
        else if name.1 ≠ network.dnsQueryName then
          ⟨some { network with dnsQueryName := name.1 }, true, name.2⟩
        else ⟨some network, false, name.2⟩

def redactBrowser (policy : Policy) (last : Redactions) :
    Option BrowserInfo → Redacted (Option BrowserInfo)
  | none => ⟨none, false, last⟩
  | some browser =>
      if browser.url = [] then ⟨some browser, false, last⟩
      else
        let url := Redactor.redactUrl policy browser.url
        if url.1 = [] then ⟨none, true, url.2⟩
        else if url.1 ≠ browser.url then ⟨some { browser with url := url.1 }, true, url.2⟩
        else ⟨some browser, false, url.2⟩

def apply (policy : Policy) (event : Event) : Event × PolicyDecision :=
  if event.privacy.metadataOnly then
    let network := redactNetwork policy event.network
    let browser := redactBrowser policy network.last event.browser
    let redacted := network.redacted || browser.redacted
    ({ event with
        network := network.value
        browser := browser.value
        privacy := { event.privacy with
          redacted := redacted
          redactions := event.privacy.redactions.merge browser.last } },
      if redacted then .redact else .allow)
  else (event, .drop)

/-! ## Reading a policy document -/

def checkMetadataOnly (doc : Json) : Except Bytes Unit :=
  match doc.field? (cstr "metadata_only") with
  | none => .ok ()
  | some flag =>
      if flag.bool? = some true then .ok ()
      else .error (cstr "metadata-only mode cannot be disabled")

def readMode (redaction : Json) (next : Policy) : Except Bytes Policy :=
  match redaction.field? (cstr "mode") with
  | none => .ok next
  | some mode =>
      match mode.string? with
      | none => .error (cstr "redaction.mode must be a string")
      | some name =>
          match redactionModeFromName name with
          | none => .error (cstr "unknown redaction mode")
          | some m => .ok { next with redactionMode := m }

def readDomainEntries : List Json → Except Bytes (List Bytes)
  | [] => .ok []
  | d :: ds =>
      match d.string? with
      | none => .error (cstr "invalid sensitive domain entry")
      | some s =>
          if s.length > 253 then .error (cstr "invalid sensitive domain entry")
          else (readDomainEntries ds).map (s :: ·)

def readDomains (redaction : Json) (next : Policy) : Except Bytes Policy :=
  match redaction.field? (cstr "sensitive_domains") with
  | none => .ok next
  | some domains =>
      match domains.array? with
      | none => .error (cstr "sensitive_domains must be an array of at most 256 entries")
      | some entries =>
          if entries.length > 256 then
            .error (cstr "sensitive_domains must be an array of at most 256 entries")
          else (readDomainEntries entries).map fun ds => { next with sensitiveDomains := ds }

def readRedaction (doc : Json) (next : Policy) : Except Bytes Policy :=
  match doc.field? (cstr "redaction") with
  | none => .ok next
  | some redaction =>
      if redaction.isObject then (readMode redaction next).bind (readDomains redaction)
      else .error (cstr "redaction must be an object")

def readEnabled (persist : Json) (next : Policy) : Except Bytes Policy :=
  match persist.field? (cstr "enabled") with
  | none => .ok next
  | some flag =>
      match flag.bool? with
      | none => .error (cstr "persistence.enabled must be a boolean")
      | some b => .ok { next with persistenceEnabled := b }

def readRetention (persist : Json) (next : Policy) : Except Bytes Policy :=
  match persist.field? (cstr "retention_seconds") with
  | none => .ok next
  | some seconds =>
      match seconds.integer? with
      | none => .error (cstr "retention_seconds must be an integer")
      | some value =>
          if value < 60 ∨ value > 31536000 then .error (cstr "retention_seconds out of range")
          else .ok { next with retention := value }

def readPersistence (doc : Json) (next : Policy) : Except Bytes Policy :=
  match doc.field? (cstr "persistence") with
  | none => .ok next
  | some persist =>
      if persist.isObject then (readEnabled persist next).bind (readRetention persist)
      else .error (cstr "persistence must be an object")

/-- The edits `update_from_json` makes to its copy of the policy, or its error. -/
def editPolicy (doc : Json) (next : Policy) : Except Bytes Policy :=
  if doc.isObject then
    (checkMetadataOnly doc).bind fun _ => (readRedaction doc next).bind (readPersistence doc)
  else .error (cstr "policy document must be an object")

end PolicyEngine

/-- The engine: the policy in force, and the edited copies of the `update_from_json`
calls that have not yet written theirs back. -/
structure PolicyEngine where
  policy : Policy := {}
  edits : ℕ → Option Policy := fun _ => none

namespace PolicyEngine

/-- The first locked step of call `r` and the edits on its copy. After an error the call
is over and no copy is left. -/
def snapshot (engine : PolicyEngine) (r : ℕ) (doc : Json) : PolicyEngine :=
  { engine with
    edits := Function.update engine.edits r (editPolicy doc engine.policy).toOption }

/-- The second locked step of call `r`: its copy becomes the policy. -/
def commit (engine : PolicyEngine) (r : ℕ) : PolicyEngine :=
  match engine.edits r with
  | none => engine
  | some next => { policy := next, edits := Function.update engine.edits r none }

/-- `update_from_json` with no step of another call between its two. -/
def updateFromJson (policy : Policy) (doc : Json) : Except Bytes Policy := editPolicy doc policy

def toJson (policy : Policy) : Json :=
  .mkObject
    [(cstr "metadata_only", .bool true),
     (cstr "redaction", .mkObject
       [(cstr "mode", .string (redactionModeName policy.redactionMode)),
        (cstr "sensitive_domains", .array (policy.sensitiveDomains.map .string))]),
     (cstr "persistence", .mkObject
       [(cstr "enabled", .bool policy.persistenceEnabled),
        (cstr "retention_seconds", .integer policy.retention)])]

end PolicyEngine

end Ezcap
