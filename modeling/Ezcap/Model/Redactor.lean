import Ezcap.Library.Format
import Ezcap.Model.Event

/-! The privacy policy and the redactor, from `policy.hpp` and `redactor.cpp`.
The audit array that the source keeps in `last_redactions_` is returned beside
each redacted text. -/

namespace Ezcap

open StdString

inductive RedactionMode where
  | hostnameOnly
  | queryStringRemoval
  | fullHostname
  | domainHash
  | domainMask
  deriving DecidableEq, Repr

structure Policy where
  redactionMode : RedactionMode := .queryStringRemoval
  stripQueryString : Bool := true
  stripFragment : Bool := true
  sensitiveDomains : List Bytes := []
  persistenceEnabled : Bool := false
  retention : ℤ := 86400 * 7
  captureInterfaces : List Bytes := []
  pcapFilter : Bytes := cstr "ip or ip6"
  deriving DecidableEq, Repr

def redactionModeName : RedactionMode → Bytes
  | .hostnameOnly => cstr "hostname-only"
  | .queryStringRemoval => cstr "query-string-removal"
  | .fullHostname => cstr "full-hostname"
  | .domainHash => cstr "domain-hash"
  | .domainMask => cstr "domain-mask"

def redactionModeFromName (name : Bytes) : Option RedactionMode :=
  if name = cstr "hostname-only" then some .hostnameOnly
  else if name = cstr "query-string-removal" then some .queryStringRemoval
  else if name = cstr "full-hostname" then some .fullHostname
  else if name = cstr "domain-hash" then some .domainHash
  else if name = cstr "domain-mask" then some .domainMask
  else none

namespace Redactor

def fnv1aHash (data : Bytes) : UInt64 :=
  data.foldl (fun hash c => (hash ^^^ c.toUInt64) * 1099511628211) 14695981039346656037

def fnv1aHex (data : Bytes) : Bytes := Format.fixed 16 16 (fnv1aHash data).toNat

def toLower (s : Bytes) : Bytes := s.map lowerChar

def hostUnderDomain (host domain : Bytes) : Bool :=
  if host = domain then true
  else if host.length ≤ domain.length then false
  else if host.drop (host.length - domain.length) ≠ domain then false
  else host.getD (host.length - domain.length - 1) 0 == '.'.toUInt8

def domainExcluded (policy : Policy) (host : Bytes) : Bool :=
  policy.sensitiveDomains.any fun domain => hostUnderDomain (toLower host) (toLower domain)

/-- `n - 1` in `size_t`: below zero it wraps to `npos`. -/
def sizePred (n : ℕ) : ℕ := if n = 0 then 2 ^ 64 - 1 else n - 1

/-- Where `transform_hostname` stops masking: the second-to-last dot, or the only one. -/
def maskEnd (host : Bytes) : Option ℕ :=
  match findLastOf host '.'.toUInt8 host.length with
  | none => none
  | some lastDot =>
      match findLastOf host '.'.toUInt8 (sizePred lastDot) with
      | none => some lastDot
      | some secondDot => some secondDot

/-- The `DomainMask` branch of `transform_hostname`. -/
def maskHostname (host : Bytes) : Bytes :=
  match maskEnd host with
  | none => host
  | some stop =>
      if stop > 1 then
        host.take 1 ++ List.replicate (stop - 1) '*'.toUInt8 ++ host.drop stop
      else host

def transformHostname (policy : Policy) (host : Bytes) : Bytes :=
  match policy.redactionMode with
  | .domainHash => fnv1aHex host
  | .domainMask => maskHostname host
  | _ => host

/-- `result.resize(i)` at the position a search found, if it found one. -/
def cutAt (result : Bytes) : Option ℕ → Bytes
  | none => result
  | some i => result.take i

/-- The two strip flags: the fragment goes first, then the query string. -/
def stripUrl (policy : Policy) (url : Bytes) : Bytes × Redactions :=
  let frag := if policy.stripFragment then find url '#'.toUInt8 0 else none
  let result := cutAt url frag
  let redactions : Redactions := if frag.isSome then Redactions.mark {} .fragment else {}
  let query := if policy.stripQueryString then find result '?'.toUInt8 0 else none
  (cutAt result query, if query.isSome then redactions.mark .queryString else redactions)

/-- `HostnameOnly`: drop the path of a URL that had a scheme separator. -/
def keepHostname (scheme : Option ℕ) (hostStart : ℕ) (result : Bytes) (redactions : Redactions) :
    Bytes × Redactions :=
  if scheme.isSome then
    (cutAt result (find result '/'.toUInt8 hostStart), redactions.mark .queryString)
  else (result, redactions)

/-- Hash and mask modes: splice the transformed host into the stripped URL. -/
def spliceHostname (policy : Policy) (scheme : Option ℕ) (hostStart : ℕ) (host result : Bytes)
    (redactions : Redactions) : Bytes × Redactions :=
  if scheme.isSome then
    let suffix :=
      match findFirstOf result (cstr "/?#") hostStart with
      | none => []
      | some hostEnd2 => result.drop hostEnd2
    (result.take hostStart ++ transformHostname policy host ++ suffix,
      redactions.mark (if policy.redactionMode = .domainHash then .hostnameHash else .hostnameMask))
  else (result, redactions)

/-- Where the host starts: after the first `://`, or at the beginning without one. -/
def hostStart (url : Bytes) : ℕ :=
  match findSub (cstr "://") url with
  | none => 0
  | some scheme => scheme + 3

/-- The text up to the first of `/?#`, which the exclusion check takes as the host. -/
def urlHost (url : Bytes) : Bytes :=
  substr url (hostStart url)
    ((findFirstOf url (cstr "/?#") (hostStart url)).map (· - hostStart url))

/-- `redact_url` past the exclusion check: strip, then apply the redaction mode. -/
def transformUrl (policy : Policy) (url : Bytes) : Bytes × Redactions :=
  let scheme := findSub (cstr "://") url
  let stripped := stripUrl policy url
  match policy.redactionMode with
  | .hostnameOnly => keepHostname scheme (hostStart url) stripped.1 stripped.2
  | .domainHash | .domainMask =>
      spliceHostname policy scheme (hostStart url) (urlHost url) stripped.1 stripped.2
  | .queryStringRemoval | .fullHostname => stripped

def redactUrl (policy : Policy) (url : Bytes) : Bytes × Redactions :=
  if urlHost url ≠ [] ∧ domainExcluded policy (urlHost url) then
    ([], Redactions.mark {} .domainExcluded)
  else transformUrl policy url

def redactDnsName (policy : Policy) (name : Bytes) : Bytes × Redactions :=
  if name = [] then ([], {})
  else if domainExcluded policy name then ([], Redactions.mark {} .domainExcluded)
  else
    match policy.redactionMode with
    | .domainHash => (fnv1aHex name, Redactions.mark {} .hostnameHash)
    | .domainMask => (transformHostname policy name, Redactions.mark {} .hostnameMask)
    | _ => (name, {})

end Redactor

end Ezcap
