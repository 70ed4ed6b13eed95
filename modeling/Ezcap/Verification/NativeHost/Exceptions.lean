import Ezcap.Verification.NativeHost.Replies
import Ezcap.Verification.NativeHost.Requests

/-! Which messages end the host. Every access to a message is guarded by a check of its type,
except that the protocol version is converted before it is known to be a number. Of the daemon's
frames, the flag of a response is converted in the same way. -/

namespace Ezcap.NativeHost

open StdString Utf8 Ipc

variable {lib : JsonLib}

/-! ## Hosts that return -/

section Returns

variable {α β : Type}

theorem isSome_bind {host : Host α} {k : α → Host β} :
    (host >>= k).answer.isSome = true ↔
      ∃ a, host.answer = some a ∧ (k a).answer.isSome = true := by
  cases h : host.answer <;> simp [Bind.bind, Host.bind, h]

theorem isSome_bind_pure {host : Host α} {b : β} :
    (host >>= fun _ => pure b).answer.isSome = host.answer.isSome := by
  rw [bind_pure]
  exact Option.isSome_map

end Returns

section Lawful

variable (hlib : lib.Lawful)

include hlib in
theorem isSome_report {β : Type} {requestId message : Bytes} {code : String}
    (hid : Valid requestId) (hmessage : Valid message) (hlength : message.length ≤ 256)
    (b : β) :
    (sendError lib requestId (cstr code) message >>= fun _ => pure b).answer.isSome = true := by
  have hsend : (sendError lib requestId (cstr code) message).answer = some () := by
    apply answer_sendEnvelope hlib (valid_cstr _)
    rw [errorJson, List.take_of_length_le hlength]
    unfold fieldIf
    split <;> simp [isText_mkObject_iff, hid, hmessage]
  rw [isSome_bind_pure, hsend]
  rfl

include hlib in
theorem isSome_refusal {β : Type} {requestId : Bytes} {code message : String}
    (hid : Valid requestId) (hlength : (cstr message).length ≤ 256) (b : β) :
    (sendError lib requestId (cstr code) (cstr message) >>= fun _ => pure b).answer.isSome = true :=
  isSome_report hlib hid (valid_cstr _) hlength b

/-! ## Checking a message -/

/-- The protocol version of an object is missing or convertible to an integer. -/
def VersionReadable (doc : Json) : Prop :=
  doc.isObject = true →
    ∀ version, doc.field? (cstr "protocol_version") = some version → (int? version).isSome = true

theorem isSome_protocolVersion {doc : Json} :
    (protocolVersion doc).answer.isSome = true ↔
      ∀ version, doc.field? (cstr "protocol_version") = some version →
        (int? version).isSome = true := by
  unfold protocolVersion
  cases doc.field? (cstr "protocol_version") with
  | none => simp [Pure.pure]
  | some version => simp [Host.orThrow]

theorem isSome_readEnvelope {doc : Json} :
    (readEnvelope doc).answer.isSome = true ↔ VersionReadable doc := by
  unfold readEnvelope VersionReadable
  by_cases hobject : doc.isObject = true
  · rw [if_pos hobject, isSome_bind]
    simp only [hobject, true_imp_iff, ← isSome_protocolVersion]
    constructor
    · rintro ⟨version, hversion, -⟩
      rw [hversion]
      rfl
    · intro h
      obtain ⟨version, hversion⟩ := Option.isSome_iff_exists.mp h
      refine ⟨version, hversion, ?_⟩
      split
      · rfl
      · split <;> rfl
  · rw [if_neg hobject]
    exact iff_of_true rfl fun h => absurd h hobject

theorem length_forbidden : ∀ bad ∈ kForbidden, bad.length ≤ 239 := by decide

theorem valid_forbidden : ∀ bad ∈ kForbidden, Valid bad := by
  simp [kForbidden]

theorem mem_forbiddenField {payload : Json} {bad : Bytes}
    (h : forbiddenField payload = some bad) : bad ∈ kForbidden := by
  simpa using List.find?_some h

theorem valid_of_field {doc : Json} {key text : Bytes} (htext : doc.isText = true)
    (h : (doc.field? key).bind Json.string? = some text) : Valid text := by
  obtain ⟨value, hvalue, hstring⟩ := Option.bind_eq_some_iff.mp h
  exact Json.valid_string? (Json.isText_field? htext hvalue) hstring

include hlib in
theorem isSome_readMessage {payload : Json} (htext : payload.isText = true) :
    (readMessage lib payload).answer.isSome = true := by
  unfold readMessage
  split
  · rename_i operation requestId hoperation hrequestId
    have hid := valid_of_field htext hrequestId
    by_cases hlength : requestId = [] ∨ requestId.length > 64
    · rw [if_pos hlength]
      exact isSome_refusal hlib valid_nil (by decide) _
    · rw [if_neg hlength]
      split
      · rename_i bad hbad
        have hmem := mem_forbiddenField hbad
        apply isSome_report hlib hid ((valid_cstr _).append (valid_forbidden bad hmem))
        rw [List.length_append]
        exact Nat.add_le_add (show (cstr "forbidden field: ").length ≤ 17 by decide)
          (length_forbidden bad hmem)
      · split
        · rfl
        · exact isSome_refusal hlib hid (by decide) _
  · exact isSome_refusal hlib valid_nil (by decide) _

include hlib in
theorem isSome_validate {doc : Json} (htext : doc.isText = true) :
    (validate lib doc).answer.isSome = true ↔ VersionReadable doc := by
  rw [← isSome_readEnvelope, validate, isSome_bind, Option.isSome_iff_exists]
  refine exists_congr fun envelope => and_iff_left_of_imp fun henvelope => ?_
  cases envelope with
  | none =>
      exact isSome_refusal hlib valid_nil (by decide) _
  | some envelope =>
      by_cases hkind : envelope.kind ≠ cstr "request"
      · simp only [if_pos hkind]
        exact isSome_refusal hlib valid_nil (by decide) _
      · simp only [if_neg hkind]
        exact isSome_readMessage hlib
          (Json.isText_field? htext (payload_of_readEnvelope henvelope))

/-! ## Forwarding -/

include hlib in
theorem exists_paramsText {payload : Json} (htext : payload.isText = true) :
    ∃ text, (paramsText lib payload).answer = some text := by
  unfold paramsText
  cases hparams : (payload.field? (cstr "params")).bind Json.object? with
  | none => exact ⟨[], rfl⟩
  | some fields =>
      by_cases hsize : fields.length ≤ 8
      · obtain ⟨params, hfield, hobject⟩ := Option.bind_eq_some_iff.mp hparams
        obtain rfl : params = .object fields := by
          cases params <;> simp_all [Json.object?]
        rw [← Option.isSome_iff_exists]
        simp only [if_pos hsize]
        exact (hlib.dump_isSome _).trans (Json.isText_field? htext hfield)
      · exact ⟨[], by simp only [if_neg hsize]; rfl⟩

include hlib in
theorem exists_buildRequest {message : Message} (htext : message.payload.isText = true)
    (operation : Operation) :
    ∃ request, (buildRequest lib message operation).answer = some request := by
  obtain ⟨text, hparams⟩ := exists_paramsText hlib htext
  exact ⟨_, by rw [buildRequest, bind_of_answer hparams]; rfl⟩

include hlib in
theorem exists_requestFrame {request : Request} (hid : Valid request.requestId) :
    ∃ frame, (requestFrame lib request).answer = some frame := by
  have hparams : ((lib.parse request.paramsJson).getD .null).isText = true := by
    cases hparse : lib.parse request.paramsJson with
    | none => simp
    | some params => exact hlib.isText_of_parse hparse
  have htext : (requestJson lib request).isText = true := by
    have hname : Valid (operationName request.operation) := by
      cases request.operation <;> exact valid_cstr _
    unfold requestJson fieldIf
    split <;> simp [isText_mkObject_iff, hid, hname, hparams]
  obtain ⟨frame, hframe⟩ := Option.isSome_iff_exists.mp ((hlib.dump_isSome _).trans htext)
  exact ⟨_, by rw [requestFrame, hframe]; rfl⟩

/-- The frame is no JSON, an event, or an object whose flag is missing or a boolean. -/
def Relayable (lib : JsonLib) (frame : Bytes) : Prop :=
  ∀ parsed, lib.parse frame = some parsed →
    (parsed.field? (cstr "ok") = none ∧ (parsed.field? (cstr "event_type")).isSome = true) ∨
    (parsed.isObject = true ∧
      ∀ flag, parsed.field? (cstr "ok") = some flag → (flag.bool?).isSome = true)

theorem isSome_responseOf {requestId : Bytes} {parsed : Json} :
    (responseOf requestId parsed).answer.isSome = true ↔ parsed.isObject = true ∧
      ∀ flag, parsed.field? (cstr "ok") = some flag → (flag.bool?).isSome = true := by
  unfold responseOf
  by_cases hobject : parsed.isObject = true
  · rw [if_pos hobject]
    cases parsed.field? (cstr "ok") with
    | none => simp [hobject, Pure.pure, Bind.bind, Host.bind]
    | some flag => cases hflag : flag.bool? <;>
        simp [hobject, hflag, Host.orThrow, Pure.pure, Bind.bind, Host.bind]
  · simp [hobject, Host.orThrow]

theorem isText_responseOf {requestId : Bytes} (hid : Valid requestId) {parsed payload : Json}
    (hparsed : parsed.isText = true) (h : (responseOf requestId parsed).answer = some payload) :
    payload.isText = true := by
  have hrewrapped (ok : Bool) :
      (rewrapped requestId ok (parsed.field? (cstr "result"))).isText = true := by
    cases hresult : parsed.field? (cstr "result") with
    | none => simp [rewrapped, fieldOf, isText_mkObject_iff, hid]
    | some result =>
        simp [rewrapped, fieldOf, isText_mkObject_iff, hid, Json.isText_field? hparsed hresult]
  unfold responseOf at h
  split_ifs at h
  · cases hok : parsed.field? (cstr "ok") with
    | none =>
        simp only [hok] at h
        cases h
        exact hrewrapped false
    | some flag =>
        cases hflag : flag.bool? with
        | none => simp [hok, hflag, Host.orThrow, Bind.bind, Host.bind] at h
        | some ok =>
            simp only [hok, hflag] at h
            cases h
            exact hrewrapped ok
  · cases h

/-- What the client reports is short and plain. -/
theorem poll_error {event : Poll} {error : Bytes}
    (h : (DaemonClient.poll {} event).1 = .error error) :
    Valid error ∧ error.length ≤ 256 := by
  have hempty : extractFrames [] = ([], []) := rfl
  simp only [DaemonClient.poll, hempty, if_true, ne_eq, not_true_eq_false, if_false] at h
  cases event with
  | interrupted | timeout | wouldBlock => cases h
  | failed | hangup | closed | recvFailed =>
      cases h
      exact ⟨valid_cstr _, by decide⟩
  | data chunk =>
      dsimp only at h
      split_ifs at h
      cases h
      exact ⟨valid_cstr _, by decide⟩

theorem connectError_eq_some {connect : Connect} {error : Bytes}
    (h : connectError connect = some error) : Valid error ∧ error.length ≤ 256 := by
  have hshort : ¬ kDefaultSocketPath.length ≥ 108 := by decide
  simp only [connectError, if_neg hshort] at h
  cases connect with
  | ok => cases h
  | _ =>
      cases h
      exact ⟨valid_cstr _, by decide⟩

section Relaying

variable {requestId : Bytes} (hid : Valid requestId)

include hlib hid

theorem isSome_relayFrame {frame : Bytes} :
    (relayFrame lib requestId frame).answer.isSome = true ↔ Relayable lib frame := by
  unfold relayFrame Relayable
  cases hparse : lib.parse frame with
  | none => simp [Pure.pure]
  | some parsed =>
      have htext := hlib.isText_of_parse hparse
      simp only [Option.some.injEq, forall_eq']
      by_cases hevent : ((parsed.field? (cstr "ok")).isNone &&
          (parsed.field? (cstr "event_type")).isSome) = true
      · rw [if_pos hevent, answer_sendEnvelope hlib (valid_cstr _) htext]
        rw [Bool.and_eq_true, Option.isNone_iff_eq_none] at hevent
        exact iff_of_true rfl (.inl hevent)
      · rw [if_neg hevent, isSome_bind]
        rw [Bool.and_eq_true, Option.isNone_iff_eq_none] at hevent
        rw [or_iff_right hevent, ← @isSome_responseOf requestId,
          Option.isSome_iff_exists]
        refine exists_congr fun payload => and_iff_left_of_imp fun hpayload => ?_
        rw [answer_sendEnvelope hlib (valid_cstr _) (isText_responseOf hid htext hpayload)]
        rfl

theorem isSome_relayFrames {frames : List Bytes} :
    (relayFrames lib requestId frames).answer.isSome = true ↔
      ∀ frame ∈ frames, Relayable lib frame := by
  induction frames with
  | nil => simp [relayFrames, Pure.pure]
  | cons frame frames ih =>
      rw [List.forall_mem_cons, ← isSome_relayFrame hlib hid, ← ih, relayFrames, isSome_bind,
        exists_and_right, ← Option.isSome_iff_exists]

theorem isSome_awaitAnswer {event : Poll} :
    (awaitAnswer lib requestId event).answer.isSome = true ↔
      ∀ frames, (DaemonClient.poll {} event).1 = .ok frames →
        ∀ frame ∈ frames, Relayable lib frame := by
  unfold awaitAnswer
  cases hpoll : (DaemonClient.poll {} event).1 with
  | error error =>
      obtain ⟨hvalid, hlength⟩ := poll_error hpoll
      exact iff_of_true (isSome_report hlib hid hvalid hlength _) (by simp)
  | ok frames =>
      simp only [Except.ok.injEq, forall_eq']
      rw [isSome_bind_pure, isSome_relayFrames hlib hid]

end Relaying

/-- Every operation that the host lets through has a name that the daemon's protocol knows. -/
theorem isSome_operationFromName {name : Bytes} (h : operationAllowed name = true) :
    (operationFromName name).isSome = true := by
  have hall : ∀ name ∈ kAllowedOperations, (operationFromName name).isSome = true := by decide
  exact hall name (by simpa [operationAllowed] using h)

include hlib in
theorem isSome_forward {env : Env} {doc payload : Json} {message : Message}
    (hvalid : (validate lib doc).answer = some (.ok message)) (htext : payload.isText = true)
    (hchecked : Checked payload message) :
    (forward lib env message).answer.isSome = true ↔
      (Forwards lib env doc message → ∀ frames, (DaemonClient.poll {} env.poll).1 = .ok frames →
        ∀ frame ∈ frames, Relayable lib frame) := by
  have hid : Valid message.requestId := valid_of_field htext hchecked.requestId
  unfold forward
  cases hconnect : connectError env.connect with
  | some error =>
      obtain ⟨herror, hlength⟩ := connectError_eq_some hconnect
      refine iff_of_true (isSome_report hlib hid herror hlength _) ?_
      intro hforwards
      rw [hforwards.connected] at hconnect
      cases hconnect
  | none =>
      obtain ⟨operation, hoperation⟩ :=
        Option.isSome_iff_exists.mp (isSome_operationFromName hchecked.allowed)
      have hpayload : message.payload.isText = true := hchecked.payload_eq ▸ htext
      obtain ⟨request, hrequest⟩ := exists_buildRequest hlib hpayload operation
      have hrequestId : Valid request.requestId := (buildRequest_ok hrequest).2.1 ▸ hid
      obtain ⟨frame, hframe⟩ := exists_requestFrame hlib hrequestId
      simp only [hoperation]
      rw [bind_of_answer hrequest, bind_of_answer hframe]
      dsimp only
      by_cases hsent : (frame.isSome && env.sent) = true
      · rw [if_pos hsent, isSome_awaitAnswer hlib hid]
        rw [Bool.and_eq_true] at hsent
        obtain ⟨bytes, rfl⟩ := Option.isSome_iff_exists.mp hsent.1
        have hforwards : Forwards lib env doc message :=
          ⟨hvalid, hconnect, ⟨operation, request, bytes, hoperation, hrequest, hframe⟩, hsent.2⟩
        exact ⟨fun h _ => h, fun h => h hforwards⟩
      · rw [if_neg hsent]
        refine iff_of_true (isSome_refusal hlib hid (by decide) _) ?_
        intro hforwards
        obtain ⟨operation', request', bytes, hoperation', hrequest', hframe'⟩ := hforwards.frame
        obtain rfl := Option.some.inj (hoperation.symm.trans hoperation')
        obtain rfl := Option.some.inj (hrequest.symm.trans hrequest')
        obtain rfl := Option.some.inj (hframe.symm.trans hframe')
        simp [hforwards.sent] at hsent

/-! ## Errors -/

theorem kind_of_mem_sendError {requestId code message : Bytes} {envelope : Envelope}
    (h : envelope ∈ (sendError lib requestId code message).written) :
    envelope.kind = cstr "error" := by
  rw [sendError, written_sendEnvelope] at h
  split at h
  · rw [List.mem_singleton.mp h]
  · cases h

theorem kind_of_mem_report {α : Type} {requestId code message : Bytes} {a : α}
    {envelope : Envelope}
    (h : envelope ∈ (sendError lib requestId code message >>= fun _ => pure a).written) :
    envelope.kind = cstr "error" := by
  rw [bind_pure] at h
  exact kind_of_mem_sendError h

theorem kind_of_mem_readMessage {payload : Json} {envelope : Envelope}
    (h : envelope ∈ (readMessage lib payload).written) : envelope.kind = cstr "error" := by
  unfold readMessage at h
  split at h
  · split at h
    · exact kind_of_mem_report h
    · split at h
      · exact kind_of_mem_report h
      · split at h
        · cases h
        · exact kind_of_mem_report h
  · exact kind_of_mem_report h

theorem kind_of_mem_validate {doc : Json} {envelope : Envelope}
    (h : envelope ∈ (validate lib doc).written) : envelope.kind = cstr "error" := by
  unfold validate at h
  cases henvelope : (readEnvelope doc).answer with
  | none =>
      rw [written_bind_of_none henvelope, written_readEnvelope] at h
      cases h
  | some found =>
      rw [bind_of_answer henvelope, written_readEnvelope] at h
      cases found with
      | none => exact kind_of_mem_report h
      | some found =>
          by_cases hkind : found.kind ≠ cstr "request"
          · simp only [if_pos hkind] at h
            exact kind_of_mem_report h
          · simp only [if_neg hkind] at h
            exact kind_of_mem_readMessage h

end Lawful

/-! ## The whole message -/

/-- The frames that the daemon sends never make the host throw. -/
theorem relayable_of_daemon {round : ℚ → ℚ} (hround : lib.RoundTrip round) {frame : Bytes}
    (h : IsEvent lib frame ∨ IsReply lib frame) : Relayable lib frame := by
  intro parsed hparsed
  rcases h with ⟨event, hevent⟩ | ⟨response, hresponse⟩
  · obtain ⟨doc, hdoc, hok, htype⟩ := parse_encodeEvent hround hevent
    obtain rfl := Option.some.inj (hdoc.symm.trans hparsed)
    exact .inl ⟨hok, by rw [htype]; rfl⟩
  · obtain ⟨doc, hdoc, hobject, hok⟩ := ok_encodeResponse hround hresponse
    obtain rfl := Option.some.inj (hdoc.symm.trans hparsed)
    exact .inr ⟨hobject, fun flag hflag => by
      obtain rfl := Option.some.inj (hok.symm.trans hflag)
      rfl⟩

/-- A message makes the host throw only by its protocol version, or by a frame that answers it; no
frame that the daemon sends does. Until a message is forwarded, only errors are written. -/
theorem handleMessage_returns_iff (hlib : lib.Lawful) {round : ℚ → ℚ}
    (hround : lib.RoundTrip round) {text : Bytes} {doc : Json} (hdoc : lib.parse text = some doc)
    (env : Env) :
    ((handleMessage lib env doc).answer.isSome = true ↔
      VersionReadable doc ∧ ∀ message, Forwards lib env doc message →
        ∀ frames, (DaemonClient.poll {} env.poll).1 = .ok frames →
          ∀ frame ∈ frames, Relayable lib frame) ∧
    (∀ frame, IsEvent lib frame ∨ IsReply lib frame → Relayable lib frame) ∧
    ∀ envelope ∈ (validate lib doc).written, envelope.kind = cstr "error" := by
  have htext := hlib.isText_of_parse hdoc
  refine ⟨?_, fun _ => relayable_of_daemon hround, fun _ => kind_of_mem_validate⟩
  rw [handleMessage, isSome_bind, ← isSome_validate hlib htext, Option.isSome_iff_exists]
  constructor
  · rintro ⟨result, hvalid, hresult⟩
    refine ⟨⟨result, hvalid⟩, fun message hforwards => ?_⟩
    obtain rfl := Option.some.inj (hvalid.symm.trans hforwards.valid)
    obtain ⟨-, payload, hpayload, hchecked⟩ := validate_ok hvalid
    exact (isSome_forward hlib hvalid (Json.isText_field? htext hpayload) hchecked).mp hresult
      hforwards
  · rintro ⟨⟨result, hvalid⟩, hframes⟩
    refine ⟨result, hvalid, ?_⟩
    cases result with
    | error goesOn => rfl
    | ok message =>
        obtain ⟨-, payload, hpayload, hchecked⟩ := validate_ok hvalid
        exact (isSome_forward hlib hvalid (Json.isText_field? htext hpayload) hchecked).mpr
          (hframes message)

/-- A request for the status is forwarded, and the reply to it passed on. -/
theorem handleMessage_returns_status :
    (∃ text, JsonReference.lib.parse text = some statusDoc) ∧
      Forwards JsonReference.lib { poll := .data (statusReply ++ ['\n'.toUInt8]) } statusDoc
        statusMessage ∧
      (handleMessage JsonReference.lib { poll := .data (statusReply ++ ['\n'.toUInt8]) }
        statusDoc).answer.isSome = true := by
  have hdoc : JsonReference.lib.parse (cstr "\x7b\"kind\":\"request\",\"payload\":\x7b" ++
      cstr "\"operation\":\"get_status\",\"request_id\":\"1\"\x7d,\"protocol_version\":1\x7d") =
        some statusDoc := by rfl
  have hpoll : (DaemonClient.poll {} (.data (statusReply ++ ['\n'.toUInt8]))).1 =
      .ok [statusReply] := by decide +kernel
  obtain ⟨hreturns, hrelayable, -⟩ := handleMessage_returns_iff JsonReference.lib_lawful
    JsonReference.lib_roundTrip hdoc { poll := .data (statusReply ++ ['\n'.toUInt8]) }
  refine ⟨⟨_, hdoc⟩, forwards_statusDoc _, hreturns.mpr ⟨fun _ version hversion => ?_, ?_⟩⟩
  · cases hversion
    rfl
  · intro message _ frames hframes frame hframe
    obtain rfl := Except.ok.inj (hpoll.symm.trans hframes)
    obtain rfl := List.mem_singleton.mp hframe
    exact hrelayable _ (.inr isReply_statusReply)

/-- A version that is written as a string ends the host. -/
theorem string_version_throws :
    ∃ doc, JsonReference.lib.parse (cstr "\x7b\"protocol_version\":\"1\"\x7d") = some doc ∧
      (handleMessage JsonReference.lib ⟨.ok, true, .timeout⟩ doc).answer = none := by
  have hrun : ((JsonReference.lib.parse (cstr "\x7b\"protocol_version\":\"1\"\x7d")).map
      fun doc => (handleMessage JsonReference.lib ⟨.ok, true, .timeout⟩ doc).answer) =
        some none := by
    decide +kernel
  exact Option.map_eq_some_iff.mp hrun

end Ezcap.NativeHost
