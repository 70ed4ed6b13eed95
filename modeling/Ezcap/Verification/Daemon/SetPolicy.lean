import Ezcap.Library.Executions
import Ezcap.Library.JsonRoundTrip
import Ezcap.Model.Protocol
import Ezcap.Verification.Ipc.RoundTrip
import Ezcap.Verification.Server.Contracts

/-! Whether `set_policy` does what it acknowledges. The protocol puts the policy document into
the member `policy` of the params, but the handler reads the params themselves as the document,
and in a conforming request they have none of the members it looks for. -/

namespace Ezcap.Server

open StdString Ipc PolicyEngine Protocol Discipline

variable {n : ℕ} {lib : JsonLib} {round : ℚ → ℚ} {policy : Policy} {request : Request}

/-! ## What the handler does to the policy -/

/-- What a request sees of the state is the policy, which nobody else changes meanwhile. -/
def policyDiscipline (n : ℕ) : Discipline Unit (Mutex n) (Server n) Policy where
  rank := (discipline n).rank
  bound := (discipline n).bound
  rank_le := (discipline n).rank_le
  inv := fun s => PolicyText s.policy
  view := fun _ s => s.policy

theorem keeps_policy {f : Server n → Server n}
    (h : ∀ s, PolicyText s.policy → PolicyText (f s).policy) :
    Keeps (policyDiscipline n) () policy f where
  inv := fun s hs _ => h s hs
  frame := fun _ _ _ _ hu => absurd rfl hu

theorem updateFromJson_effect {doc : Json} (hdoc : doc.isText = true) :
    Triple (policyDiscipline n) () [] policy (updateFromJson doc) fun policy' result =>
      match editPolicy doc policy with
      | .error message => policy' = policy ∧ result = .error message
      | .ok next => policy' = next ∧ result = .ok () := by
  have hcopy : Triple (policyDiscipline n) () [] policy (.lock .policy (.read Server.policy))
      fun policy' copy => policy' = policy ∧ copy = policy ∧ PolicyText copy :=
    .lock (by simp) (.read fun _ hs hv => ⟨rfl, hv, hs⟩)
  refine hcopy.bind ?_
  rintro _ policy ⟨rfl, rfl, hpolicy⟩
  have htext := editPolicy_keepsText hdoc policy hpolicy
  cases hedit : editPolicy doc policy with
  | error message => exact .pure ⟨rfl, rfl⟩
  | ok next =>
      rw [hedit] at htext
      have hwrite : Triple (policyDiscipline n) () [] policy
          (.lock .policy (.modify fun s => { s with policy := next }))
          fun policy' _ => policy' = next :=
        .lock (by simp) (.modify (keeps_policy fun _ _ => htext) fun _ _ _ => rfl)
      refine hwrite.bind ?_
      rintro _ _ rfl
      exact .pure ⟨rfl, rfl⟩

theorem success_effect (hlib : lib.Lawful) {result : Json} (h : result.isText = true) :
    Triple (policyDiscipline n) () [] policy (success lib request result) fun policy' response =>
      policy' = policy ∧ response.ok = true := by
  have hdump : Triple (policyDiscipline n) () [] policy (Prog.orAbort (lib.dump result))
      fun policy' _ => policy' = policy :=
    .orAbort ((hlib.dump_isSome result).trans h) fun _ _ => rfl
  refine hdump.bind ?_
  rintro _ _ rfl
  exact .pure ⟨rfl, rfl⟩

/-- The policy after a `set_policy` request, and whether the request succeeds. -/
def setPolicyOutcome (lib : JsonLib) (request : Request) (policy : Policy) : Policy × Bool :=
  match (lib.parse request.paramsJson).filter Json.isObject with
  | none => (policy, false)
  | some params =>
      match editPolicy params policy with
      | .error _ => (policy, false)
      | .ok next => (next, true)

theorem setPolicy_effect (hlib : lib.Lawful) :
    Triple (policyDiscipline n) () [] policy (setPolicy lib request) fun policy' response =>
      (policy', response.ok) = setPolicyOutcome lib request policy := by
  unfold setPolicy setPolicyOutcome
  cases hparams : (lib.parse request.paramsJson).filter Json.isObject with
  | none => exact .pure rfl
  | some params =>
      have hparse : lib.parse request.paramsJson = some params :=
        (Option.filter_eq_some_iff.mp hparams).1
      refine (updateFromJson_effect (hlib.isText_of_parse hparse)).bind ?_
      intro policy' result hresult
      cases hedit : editPolicy params policy with
      | error message =>
          simp only [hedit] at hresult
          obtain ⟨rfl, rfl⟩ := hresult
          exact .pure (by simp only [hedit])
      | ok next =>
          simp only [hedit] at hresult
          obtain ⟨rfl, rfl⟩ := hresult
          have hjson : Triple (policyDiscipline n) () [] policy' policyJson
              fun v doc => v = policy' ∧ doc.isText = true :=
            .lock (by simp) (.read fun _ hs _ => ⟨rfl, isText_toJson hs⟩)
          refine hjson.bind ?_
          rintro _ doc ⟨rfl, hdoc⟩
          refine (success_effect hlib hdoc).mono ?_
          rintro _ response ⟨rfl, hok⟩
          simp only [hedit, hok]

theorem handleRequest_setPolicy {s s' : Server n} {response : Response} (hlib : lib.Lawful)
    (hop : request.operation = .setPolicy) (hs : PolicyText s.policy)
    (hends : (handleRequest lib request).Ends ((policyDiscipline n).Rely ()) [] s response [] s') :
    (s'.policy, response.ok) = setPolicyOutcome lib request s.policy := by
  simp only [handleRequest, hop] at hends
  have heffect : Triple (policyDiscipline n) () [] s.policy (setPolicy lib request) _ :=
    setPolicy_effect hlib
  exact (heffect.ends (fun _ _ h => h) hends hs rfl).2.2

/-! ## What the request asks for -/

/-- The policy document of a request, empty if there is none. -/
def policyDocument (doc : Json) : Json :=
  ((doc.field? (cstr "params")).bind (·.field? (cstr "policy"))).getD (.object [])

/-- The member `key` of the member `group` of a document. -/
def member (doc : Json) (group key : Bytes) : Option Json :=
  (doc.field? group).bind (·.field? key)

/-- The policy with the values that a document gives, and otherwise as it was. -/
def requested (doc : Json) (policy : Policy) : Policy :=
  { policy with
    redactionMode := (((member doc (cstr "redaction") (cstr "mode")).bind Json.string?).bind
      redactionModeFromName).getD policy.redactionMode
    sensitiveDomains :=
      (((member doc (cstr "redaction") (cstr "sensitive_domains")).bind Json.array?).map
        (List.filterMap Json.string?)).getD policy.sensitiveDomains
    persistenceEnabled := ((member doc (cstr "persistence") (cstr "enabled")).bind
      Json.bool?).getD policy.persistenceEnabled
    retention := ((member doc (cstr "persistence") (cstr "retention_seconds")).bind
      Json.integral?).getD policy.retention }

/-- Params that conform to the protocol are no policy document: they edit nothing. -/
theorem editPolicy_params {params : Json} (hconforms : paramsSchema.conforms params = true)
    (hobject : params.isObject = true) (round : ℚ → ℚ) (policy : Policy) :
    editPolicy (params.reread round) policy = .ok policy := by
  have hmetadata : params.field? (cstr "metadata_only") = none :=
    JsonSchema.field?_eq_none hconforms (by simp)
  have hredaction : params.field? (cstr "redaction") = none :=
    JsonSchema.field?_eq_none hconforms (by simp)
  have hpersistence : params.field? (cstr "persistence") = none :=
    JsonSchema.field?_eq_none hconforms (by simp)
  simp [editPolicy, checkMetadataOnly, readRedaction, readPersistence, hobject, hmetadata,
    hredaction, hpersistence, Except.bind]

/-- A conforming `set_policy` request that succeeds has the effect it asks for exactly when the
policy in force has all the values that it gives. -/
theorem setPolicy_takes_effect_iff (hlib : lib.Lawful) (hround : lib.RoundTrip round)
    {frame : Bytes} {doc : Json} (hdoc : lib.parse frame = some doc)
    (hconforms : daemonRequestSchema.conforms doc = true)
    (hrequest : parseRequest lib frame kMaxRequestBytes = .ok request)
    (hop : request.operation = .setPolicy) {s s' : Server n} {response : Response}
    (hs : PolicyText s.policy)
    (hends : (handleRequest lib request).Ends ((policyDiscipline n).Rely ()) [] s response [] s')
    (hok : response.ok = true) :
    s'.policy = requested (policyDocument doc) s.policy ↔
      s.policy = requested (policyDocument doc) s.policy := by
  have houtcome := handleRequest_setPolicy hlib hop hs hends
  obtain ⟨-, doc', hdoc', haccepted⟩ := parseRequest_eq_ok.mp hrequest
  obtain rfl : doc = doc' := Option.some.inj (hdoc.symm.trans hdoc')
  rcases readParams_eq_ok haccepted.params with hempty | ⟨params, hparams, hobject, hdump⟩
  · -- without params there is no success
    have hfalse : setPolicyOutcome lib request s.policy = (s.policy, false) := by
      simp [setPolicyOutcome, hempty, hround.parse_nil]
    rw [hfalse, hok] at houtcome
    cases congrArg Prod.snd houtcome
  · have hwf := Json.isWellFormed_field? (hround.isWellFormed_of_parse hdoc) hparams
    have hmember := JsonSchema.conformsMember_of_field? hconforms hparams
    have hparamsConform : paramsSchema.conforms params = true := by
      simpa [JsonSchema.conformsMember] using hmember
    have hparsed : (lib.parse request.paramsJson).filter Json.isObject =
        some (params.reread round) := by
      rw [hround.parse_dump hwf hdump, Option.filter_eq_some_iff, Json.isObject_reread]
      exact ⟨rfl, hobject⟩
    have hsame : setPolicyOutcome lib request s.policy = (s.policy, true) := by
      simp only [setPolicyOutcome, hparsed, editPolicy_params hparamsConform hobject]
    rw [(Prod.mk.inj (houtcome.trans hsame)).1]

/-- A conforming request for the mode `full-hostname`. -/
def setModeFrame : Bytes :=
  cstr "\x7b\"protocol_version\":1,\"operation\":\"set_policy\",\"request_id\":\"0\",\"params\":" ++
    cstr "\x7b\"policy\":\x7b\"redaction\":\x7b\"mode\":\"full-hostname\"\x7d\x7d\x7d\x7d"

/-- The request as the handler gets it. -/
def setModeRequest : Request where
  operation := .setPolicy
  requestId := cstr "0"
  paramsJson := cstr "\x7b\"policy\":\x7b\"redaction\":\x7b\"mode\":\"full-hostname\"\x7d\x7d\x7d"

theorem exists_doc_setModeFrame :
    ∃ doc, JsonReference.lib.parse setModeFrame = some doc ∧
      daemonRequestSchema.conforms doc = true ∧
      (requested (policyDocument doc) {}).redactionMode = .fullHostname := by
  obtain ⟨doc, hdoc⟩ : ∃ doc, JsonReference.lib.parse setModeFrame = some doc :=
    Option.isSome_iff_exists.mp (by decide +kernel)
  have hconforms : (JsonReference.lib.parse setModeFrame).map daemonRequestSchema.conforms =
      some true := by decide +kernel
  have hmode : (JsonReference.lib.parse setModeFrame).map
      (fun doc => (requested (policyDocument doc) {}).redactionMode) =
      some .fullHostname := by decide +kernel
  rw [hdoc, Option.map_some, Option.some.injEq] at hconforms hmode
  exact ⟨doc, hdoc, hconforms, hmode⟩

theorem exists_response_setModeRequest :
    ∃ (response : Response) (s : Server 0),
      (handleRequest JsonReference.lib setModeRequest).Ends ((policyDiscipline 0).Rely ()) [] {}
        response [] s ∧ response.ok = true ∧ s.policy = {} := by
  have hlib := JsonReference.lib_lawful
  have hs : PolicyText ({} : Server 0).policy := by simp [PolicyText]
  have heffect : Triple (policyDiscipline 0) () [] {}
      (handleRequest JsonReference.lib setModeRequest) _ :=
    @setPolicy_effect 0 _ {} setModeRequest hlib
  obtain ⟨response, s, hends⟩ := heffect.exists_ends ((policyDiscipline 0).Rely ()) hs rfl
  have houtcome := handleRequest_setPolicy hlib rfl hs hends
  have hsame : setPolicyOutcome JsonReference.lib setModeRequest {} = ({}, true) := by
    decide +kernel
  obtain ⟨hpolicy, hok⟩ := Prod.mk.inj (houtcome.trans hsame)
  exact ⟨response, s, hends, hok, hpolicy⟩

/-- The request for another mode, on a server that has just started. -/
theorem setPolicy_takes_effect_mode :
    ∃ doc response, ∃ s : Server 0,
      JsonReference.lib.parse setModeFrame = some doc ∧
      (handleRequest JsonReference.lib setModeRequest).Ends ((policyDiscipline 0).Rely ()) [] {}
        response [] s ∧ response.ok = true ∧
      (s.policy = requested (policyDocument doc) {} ↔
        ({} : Policy) = requested (policyDocument doc) {}) := by
  obtain ⟨doc, hdoc, hconforms, -⟩ := exists_doc_setModeFrame
  obtain ⟨response, s, hends, hok, -⟩ := exists_response_setModeRequest
  exact ⟨doc, response, s, hdoc, hends, hok, setPolicy_takes_effect_iff JsonReference.lib_lawful
    JsonReference.lib_roundTrip hdoc hconforms (by decide +kernel) rfl (by simp [PolicyText]) hends
    hok⟩

/-- It succeeds, and the mode is the old one. -/
theorem acknowledged_mode_not_set :
    ∃ doc response, ∃ s : Server 0,
      JsonReference.lib.parse setModeFrame = some doc ∧
      daemonRequestSchema.conforms doc = true ∧
      (requested (policyDocument doc) {}).redactionMode = .fullHostname ∧
      parseRequest JsonReference.lib setModeFrame kMaxRequestBytes = .ok setModeRequest ∧
      (handleRequest JsonReference.lib setModeRequest).Ends ((policyDiscipline 0).Rely ()) [] {}
        response [] s ∧ response.ok = true ∧ s.policy.redactionMode = .queryStringRemoval := by
  obtain ⟨doc, hdoc, hconforms, hmode⟩ := exists_doc_setModeFrame
  obtain ⟨response, s, hends, hok, hpolicy⟩ := exists_response_setModeRequest
  exact ⟨doc, response, s, hdoc, hconforms, hmode, by decide +kernel, hends, hok,
    by rw [hpolicy]⟩

end Ezcap.Server
