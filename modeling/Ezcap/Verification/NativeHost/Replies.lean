import Ezcap.Library.JsonRoundTrip
import Ezcap.Verification.Ipc.RoundTrip
import Ezcap.Verification.NativeHost.Streams

/-! Whether the browser gets one answer to each request that is forwarded. The host looks once
at what the daemon sends: a reply that is late, or that does not come whole with the first
chunk, is never passed on. -/

namespace Ezcap.NativeHost

open StdString Ipc Lines

variable {lib : JsonLib} {round : ℚ → ℚ}

/-! ## What the host writes -/

section Host

variable {α β : Type} {host : Host α}

theorem bind_of_answer {a : α} (h : host.answer = some a) (k : α → Host β) :
    host >>= k = { written := host.written ++ (k a).written, answer := (k a).answer } := by
  simp only [Bind.bind, Host.bind, h]

theorem written_bind_of_none (h : host.answer = none) (k : α → Host β) :
    (host >>= k).written = host.written := by
  simp only [Bind.bind, Host.bind, h]

theorem bind_pure (b : β) :
    host >>= (fun _ => pure b) =
      { written := host.written, answer := host.answer.map fun _ => b } := by
  cases h : host.answer <;> simp [Bind.bind, Host.bind, h, Pure.pure]

@[simp] theorem orThrow_bind (a : α) (k : α → Host β) : Host.orThrow (some a) >>= k = k a :=
  rfl

@[simp] theorem pure_bind (a : α) (k : α → Host β) : (pure a : Host α) >>= k = k a := rfl

end Host

/-- The envelope can be serialized and is within the limit. -/
def fits (lib : JsonLib) (envelope : Envelope) : Bool :=
  (lib.dump (envelopeJson envelope)).any writable

theorem written_sendEnvelope (kind : Bytes) (payload : Json) :
    (sendEnvelope lib kind payload).written =
      if fits lib ⟨kind, payload⟩ then [⟨kind, payload⟩] else [] := by
  unfold sendEnvelope fits
  cases lib.dump (envelopeJson ⟨kind, payload⟩) with
  | none => rfl
  | some text => simp

theorem answer_sendEnvelope (hlib : lib.Lawful) {kind : Bytes} (hkind : Utf8.Valid kind)
    {payload : Json} (h : payload.isText = true) :
    (sendEnvelope lib kind payload).answer = some () := by
  have htext : (envelopeJson ⟨kind, payload⟩).isText = true := by
    simp [envelopeJson, isText_mkObject_iff, h, hkind]
  obtain ⟨text, hdump⟩ := Option.isSome_iff_exists.mp ((hlib.dump_isSome _).trans htext)
  simp [sendEnvelope, hdump]

/-- A response or an error that carries the id of the request. -/
def isAnswer (requestId : Bytes) (envelope : Envelope) : Bool :=
  (envelope.kind == cstr "response" || envelope.kind == cstr "error") &&
    (envelope.payload.field? (cstr "request_id")).bind Json.string? == some requestId

def answers (requestId : Bytes) (written : List Envelope) : List Envelope :=
  written.filter (isAnswer requestId)

theorem answers_append (requestId : Bytes) (written more : List Envelope) :
    answers requestId (written ++ more) = answers requestId written ++ answers requestId more :=
  List.filter_append ..

theorem answers_if {requestId : Bytes} {envelope : Envelope}
    (h : isAnswer requestId envelope = true) (condition : Bool) :
    (answers requestId (if condition then [envelope] else [])).length =
      if condition then 1 else 0 := by
  cases condition <;> simp [answers, h]

/-! ## Relaying -/

section Relay

variable (requestId : Bytes)

/-- What becomes of a frame that is no event. -/
def responseEnvelope (lib : JsonLib) (reply : Bytes) : Option Envelope :=
  (lib.parse reply).bind fun parsed =>
    (responseOf requestId parsed).answer.map fun payload => ⟨cstr "response", payload⟩

variable (hlib : lib.Lawful) (hround : lib.RoundTrip round)

include hlib hround in
theorem relayFrame_event {event : Event} {frame : Bytes}
    (h : encodeEvent lib event = some frame) :
    (relayFrame lib requestId frame).answer = some () ∧
      answers requestId (relayFrame lib requestId frame).written = [] := by
  obtain ⟨doc, hdoc, hok, htype⟩ := parse_encodeEvent hround h
  have hrelay : relayFrame lib requestId frame = sendEnvelope lib (cstr "event") doc := by
    simp [relayFrame, hdoc, hok, htype]
  rw [hrelay]
  refine ⟨answer_sendEnvelope hlib (Utf8.valid_cstr _) (hlib.isText_of_parse hdoc), ?_⟩
  rw [written_sendEnvelope]
  split
  · simp [answers, isAnswer]
  · rfl

theorem requestId_rewrapped (ok : Bool) (result : Option Json) :
    (rewrapped requestId ok result).field? (cstr "request_id") = some (.string requestId) := by
  refine (Json.field?_mkObject_eq_some ?_).mpr (by simp)
  cases result <;> simp [fieldOf]

include hround in
theorem relayFrame_reply {response : Response} {reply : Bytes}
    (h : encodeResponse lib response = some reply) :
    ∃ envelope, responseEnvelope requestId lib reply = some envelope ∧
      isAnswer requestId envelope = true ∧
      relayFrame lib requestId reply = sendEnvelope lib envelope.kind envelope.payload := by
  obtain ⟨doc, hdoc, hobject, hok⟩ := ok_encodeResponse hround h
  have hresponse : responseOf requestId doc =
      pure (rewrapped requestId response.ok (doc.field? (cstr "result"))) := by
    simp [responseOf, hobject, hok, Json.bool?]
  refine ⟨⟨cstr "response", rewrapped requestId response.ok (doc.field? (cstr "result"))⟩,
    ?_, ?_, ?_⟩
  · simp only [responseEnvelope, hdoc, Option.bind_some, hresponse]
    rfl
  · simp [isAnswer, requestId_rewrapped, Json.string?]
  · simp [relayFrame, hdoc, hok, hresponse]

/-- The frame is an event of the daemon. -/
def IsEvent (lib : JsonLib) (frame : Bytes) : Prop :=
  ∃ event, encodeEvent lib event = some frame

/-- The frame is a response of the daemon. -/
def IsReply (lib : JsonLib) (frame : Bytes) : Prop :=
  ∃ response, encodeResponse lib response = some frame

include hlib hround in
theorem relayFrames_events {frames : List Bytes} (h : ∀ frame ∈ frames, IsEvent lib frame) :
    (relayFrames lib requestId frames).answer = some () ∧
      answers requestId (relayFrames lib requestId frames).written = [] := by
  induction frames with
  | nil => exact ⟨rfl, rfl⟩
  | cons frame frames ih =>
      obtain ⟨event, hevent⟩ := h frame (by simp)
      obtain ⟨hanswer, hwritten⟩ := relayFrame_event requestId hlib hround hevent
      obtain ⟨hanswers, hrest⟩ := ih fun f hf => h f (by simp [hf])
      rw [relayFrames, bind_of_answer hanswer]
      exact ⟨hanswers, by rw [answers_append, hwritten, hrest, List.append_nil]⟩

theorem relayFrames_append {before : List Bytes}
    (h : (relayFrames lib requestId before).answer = some ()) (after : List Bytes) :
    (relayFrames lib requestId (before ++ after)).written =
      (relayFrames lib requestId before).written ++
        (relayFrames lib requestId after).written := by
  induction before with
  | nil => rfl
  | cons frame before ih =>
      rw [relayFrames] at h
      cases hframe : (relayFrame lib requestId frame).answer with
      | none => simp [Bind.bind, Host.bind, hframe] at h
      | some _ =>
          rw [bind_of_answer hframe] at h
          rw [List.cons_append, relayFrames, relayFrames, bind_of_answer hframe,
            bind_of_answer hframe, ih h, List.append_assoc]

include hlib hround in
/-- Among events, a reply makes one answer, if its envelope fits. -/
theorem answers_relayFrames {before after : List Bytes} {reply : Bytes}
    (hbefore : ∀ frame ∈ before, IsEvent lib frame) (hreply : IsReply lib reply)
    (hafter : ∀ frame ∈ after, IsEvent lib frame) :
    (answers requestId (relayFrames lib requestId (before ++ reply :: after)).written).length =
      if (responseEnvelope requestId lib reply).any (fits lib) then 1 else 0 := by
  obtain ⟨hanswer, hnone⟩ := relayFrames_events requestId hlib hround hbefore
  obtain ⟨-, hnone'⟩ := relayFrames_events requestId hlib hround hafter
  obtain ⟨response, hresponse⟩ := hreply
  obtain ⟨envelope, henvelope, hisAnswer, hrelay⟩ := relayFrame_reply requestId hround hresponse
  have hwritten : answers requestId (relayFrames lib requestId (reply :: after)).written =
      answers requestId (sendEnvelope lib envelope.kind envelope.payload).written := by
    rw [relayFrames, hrelay]
    cases hsent : (sendEnvelope lib envelope.kind envelope.payload).answer with
    | none => rw [written_bind_of_none hsent]
    | some _ =>
        rw [bind_of_answer hsent, answers_append, hnone', List.append_nil]
  rw [relayFrames_append requestId hanswer, answers_append, hnone, List.nil_append, hwritten,
    written_sendEnvelope, henvelope, Option.any_some]
  exact answers_if hisAnswer _

end Relay

/-! ## One message -/

/-- A message that is checked, and sent to the daemon as a request. -/
structure Forwards (lib : JsonLib) (env : Env) (doc : Json) (message : Message) : Prop where
  valid : (validate lib doc).answer = some (.ok message)
  connected : connectError env.connect = none
  frame : ∃ operation request frame, operationFromName message.operation = some operation ∧
    (buildRequest lib message operation).answer = some request ∧
    (requestFrame lib request).answer = some (some frame)
  sent : env.sent = true

theorem written_protocolVersion (doc : Json) : (protocolVersion doc).written = [] := by
  unfold protocolVersion
  split <;> rfl

theorem written_readEnvelope (doc : Json) : (readEnvelope doc).written = [] := by
  unfold readEnvelope
  split
  · cases hversion : (protocolVersion doc).answer with
    | none => rw [written_bind_of_none hversion, written_protocolVersion]
    | some version =>
        rw [bind_of_answer hversion, written_protocolVersion]
        split
        · rfl
        · split <;> rfl
  · rfl

/-- What a message that passes the checks has of the payload it was read from. -/
structure Checked (payload : Json) (message : Message) : Prop where
  payload_eq : message.payload = payload
  operation : (payload.field? (cstr "operation")).bind Json.string? = some message.operation
  requestId : (payload.field? (cstr "request_id")).bind Json.string? = some message.requestId
  requestId_ne : message.requestId ≠ []
  length_le : message.requestId.length ≤ 64
  allowed : operationAllowed message.operation = true

theorem readMessage_ok {payload : Json} {message : Message}
    (h : (readMessage lib payload).answer = some (.ok message)) :
    (readMessage lib payload).written = [] ∧ Checked payload message := by
  unfold readMessage at h ⊢
  cases hoperation : (payload.field? (cstr "operation")).bind Json.string? with
  | none => simp [hoperation, bind_pure] at h
  | some operation =>
      cases hrequestId : (payload.field? (cstr "request_id")).bind Json.string? with
      | none => simp [hoperation, hrequestId, bind_pure] at h
      | some requestId =>
          simp only [hoperation, hrequestId] at h ⊢
          by_cases hid : requestId = [] ∨ requestId.length > 64
          · simp [if_pos hid, bind_pure] at h
          · rw [if_neg hid] at h ⊢
            cases hbad : forbiddenField payload with
            | some bad => simp [hbad, bind_pure] at h
            | none =>
                simp only [hbad] at h ⊢
                by_cases hallowed : operationAllowed operation = true
                · rw [if_pos hallowed] at h ⊢
                  cases h
                  obtain ⟨hne, hlength⟩ := not_or.mp hid
                  exact ⟨rfl, rfl, hoperation, hrequestId, hne, Nat.not_lt.mp hlength, hallowed⟩
                · simp [if_neg hallowed, bind_pure] at h

theorem payload_of_readEnvelope {doc : Json} {envelope : Envelope}
    (h : (readEnvelope doc).answer = some (some envelope)) :
    doc.field? (cstr "payload") = some envelope.payload := by
  unfold readEnvelope at h
  split_ifs at h
  · cases hversion : (protocolVersion doc).answer with
    | none => simp [Bind.bind, Host.bind, hversion] at h
    | some version =>
        rw [bind_of_answer hversion] at h
        split_ifs at h
        · cases h
        · split at h
          · rename_i hpayload
            cases h
            exact (Option.filter_eq_some_iff.mp hpayload).1
          · cases h
  · cases h

theorem validate_ok {doc : Json} {message : Message}
    (h : (validate lib doc).answer = some (.ok message)) :
    (validate lib doc).written = [] ∧
      ∃ payload, doc.field? (cstr "payload") = some payload ∧ Checked payload message := by
  unfold validate at h ⊢
  cases henvelope : (readEnvelope doc).answer with
  | none => simp [Bind.bind, Host.bind, henvelope] at h
  | some envelope =>
      rw [bind_of_answer henvelope, written_readEnvelope] at h ⊢
      cases envelope with
      | none => simp [bind_pure] at h
      | some envelope =>
          by_cases hkind : envelope.kind ≠ cstr "request"
          · simp [if_pos hkind, bind_pure] at h
          · simp only [if_neg hkind] at h ⊢
            obtain ⟨hwritten, hchecked⟩ := readMessage_ok h
            exact ⟨hwritten, envelope.payload, payload_of_readEnvelope henvelope, hchecked⟩

theorem written_buildRequest (message : Message) (operation : Operation) :
    (buildRequest lib message operation).written = [] := by
  have hparams : (paramsText lib message.payload).written = [] := by
    unfold paramsText
    split
    · rfl
    · split <;> rfl
  unfold buildRequest
  cases hanswer : (paramsText lib message.payload).answer with
  | none => rw [written_bind_of_none hanswer, hparams]
  | some text =>
      rw [bind_of_answer hanswer, hparams]
      rfl

theorem written_requestFrame (request : Request) : (requestFrame lib request).written = [] := by
  unfold requestFrame
  cases lib.dump (requestJson lib request) <;> rfl

/-- What the host writes about a forwarded message is what it writes after the one poll. -/
theorem Forwards.written {env : Env} {doc : Json} {message : Message}
    (h : Forwards lib env doc message) :
    (handleMessage lib env doc).written = (awaitAnswer lib message.requestId env.poll).written := by
  obtain ⟨operation, request, frame, hoperation, hrequest, hframe⟩ := h.frame
  rw [handleMessage, bind_of_answer h.valid, (validate_ok h.valid).1]
  simp only [forward, h.connected, hoperation]
  rw [bind_of_answer hrequest, bind_of_answer hframe, written_buildRequest, written_requestFrame]
  simp [h.sent]

/-! ## Answers -/

/-- The error that a poll ends in. -/
def Poll.error : Poll → Option Bytes
  | .failed => some (cstr "poll failed")
  | .hangup | .closed => some (cstr "daemon closed the connection")
  | .recvFailed => some (cstr "recv failed")
  | _ => none

/-- A poll of a connection on which the daemon sends `stream`. -/
def Polls (stream : Bytes) : Poll → Prop
  | .data chunk => chunk ≠ [] ∧ chunk.length ≤ 8192 ∧ chunk <+: stream
  | _ => True

theorem isAnswer_error {requestId : Bytes} (h : requestId ≠ []) (code message : Bytes) :
    isAnswer requestId ⟨cstr "error", errorJson requestId code message⟩ = true := by
  have hid : (errorJson requestId code message).field? (cstr "request_id") =
      some (.string requestId) :=
    (Json.field?_mkObject_eq_some (by simp [fieldIf, h])).mpr (by simp [fieldIf, h])
  simp [isAnswer, hid, Json.string?]

/-- A poll that fails is reported to the browser, if the envelope fits. -/
theorem answers_awaitAnswer_error {requestId error : Bytes} (hid : requestId ≠ []) {event : Poll}
    (h : event.error = some error) :
    (answers requestId (awaitAnswer lib requestId event).written).length =
      if fits lib ⟨cstr "error", errorJson requestId (cstr "daemon_error") error⟩ then 1
      else 0 := by
  have hpoll : (DaemonClient.poll {} event).1 = .error error := by
    cases event <;> simp_all [Poll.error, DaemonClient.poll, extractFrames, extractLoop]
  rw [awaitAnswer, hpoll]
  simp only [bind_pure]
  rw [sendError, written_sendEnvelope]
  exact answers_if (isAnswer_error hid _ _) _

/-- A poll that brings nothing leaves the request without an answer. -/
theorem answers_awaitAnswer_nothing (requestId : Bytes) {event : Poll}
    (h : event = .interrupted ∨ event = .timeout ∨ event = .wouldBlock) :
    answers requestId (awaitAnswer lib requestId event).written = [] := by
  rcases h with rfl | rfl | rfl <;> rfl

section Chunk

variable {before after : List Bytes} {reply chunk : Bytes}

/-- The frames of a chunk are events only, unless the reply is whole in it. -/
theorem split_chunk (hnewline : ∀ line ∈ before ++ reply :: after, '\n'.toUInt8 ∉ line)
    (hchunk : chunk <+: join '\n'.toUInt8 (before ++ reply :: after)) :
    if join '\n'.toUInt8 (before ++ [reply]) <+: chunk then
      ∃ rest, (split '\n'.toUInt8 chunk).1 = before ++ reply :: rest ∧ rest <+: after
    else (split '\n'.toUInt8 chunk).1 <+: before := by
  have hlines : ∀ line ∈ before ++ [reply], '\n'.toUInt8 ∉ line := by
    intro line hl
    refine hnewline line ?_
    rcases List.mem_append.mp hl with hl | hl
    · simp [hl]
    · simp [List.mem_singleton.mp hl]
  have hsplit := split_prefix hnewline hchunk
  split
  · rename_i hwhole
    obtain ⟨rest, hrest⟩ := (join_prefix_iff hlines).mp hwhole
    refine ⟨rest, by simp [← hrest], ?_⟩
    rw [← hrest, List.append_assoc, List.prefix_append_right_inj] at hsplit
    simpa using hsplit
  · rename_i hpart
    rw [join_prefix_iff hlines] at hpart
    have hshort : (split '\n'.toUInt8 chunk).1 <+: before ++ [reply] := by
      refine (List.prefix_or_prefix_of_prefix hsplit ?_).resolve_right hpart
      exact ⟨after, by simp⟩
    rcases List.prefix_concat_iff.mp hshort with hwhole | hbefore
    · exact absurd (hwhole ▸ List.prefix_rfl) hpart
    · exact hbefore

theorem answers_awaitAnswer_data (hlib : lib.Lawful) (hround : lib.RoundTrip round)
    (requestId : Bytes) (hbefore : ∀ frame ∈ before, IsEvent lib frame)
    (hreply : IsReply lib reply) (hafter : ∀ frame ∈ after, IsEvent lib frame)
    (hlength : chunk.length ≤ 8192)
    (hchunk : chunk <+: join '\n'.toUInt8 (before ++ reply :: after)) :
    (answers requestId (awaitAnswer lib requestId (.data chunk)).written).length =
      if join '\n'.toUInt8 (before ++ [reply]) <+: chunk ∧
        (responseEnvelope requestId lib reply).any (fits lib) then 1 else 0 := by
  have hnewline : ∀ line ∈ before ++ reply :: after, '\n'.toUInt8 ∉ line := by
    intro line hl
    rcases List.mem_append.mp hl with hl | hl
    · obtain ⟨event, hevent⟩ := hbefore line hl
      exact hround.newline_notMem hevent
    · rcases List.mem_cons.mp hl with rfl | hl
      · obtain ⟨response, hresponse⟩ := hreply
        exact hround.newline_notMem hresponse
      · obtain ⟨event, hevent⟩ := hafter line hl
        exact hround.newline_notMem hevent
  have hpoll := @poll_fits [] chunk (by simp) (hlength.trans (by decide))
  have hwritten : (awaitAnswer lib requestId (.data chunk)).written =
      (relayFrames lib requestId (split '\n'.toUInt8 chunk).1).written := by
    rw [awaitAnswer, hpoll]
    simp only [List.nil_append, bind_pure]
  have hframes := split_chunk hnewline hchunk
  rw [hwritten]
  split at hframes
  · rename_i hwhole
    obtain ⟨rest, hsplit, hrest⟩ := hframes
    rw [hsplit, answers_relayFrames requestId hlib hround hbefore hreply
      fun frame hf => hafter frame (hrest.subset hf)]
    simp only [hwhole, true_and]
  · rename_i hpart
    obtain ⟨-, hnone⟩ := relayFrames_events requestId hlib hround
      fun frame hf => hbefore frame (hframes.subset hf)
    rw [hnone, if_neg fun h => hpart h.1, List.length_nil]

end Chunk

/-- Whatever the daemon sends before and after its reply, a request that is forwarded gets exactly
one answer exactly when the poll fails, or its first chunk holds the whole reply; and the
envelope of the answer fits. -/
theorem answered_once_iff (hlib : lib.Lawful) (hround : lib.RoundTrip round) {env : Env}
    {doc : Json} {message : Message} (hforwards : Forwards lib env doc message)
    {before after : List Bytes} {reply : Bytes} (hbefore : ∀ frame ∈ before, IsEvent lib frame)
    (hreply : IsReply lib reply) (hafter : ∀ frame ∈ after, IsEvent lib frame)
    (hpolls : Polls (join '\n'.toUInt8 (before ++ reply :: after)) env.poll) :
    (answers message.requestId (handleMessage lib env doc).written).length = 1 ↔
      (∃ error, env.poll.error = some error ∧
        fits lib ⟨cstr "error", errorJson message.requestId (cstr "daemon_error") error⟩ = true) ∨
      ∃ chunk, env.poll = .data chunk ∧ join '\n'.toUInt8 (before ++ [reply]) <+: chunk ∧
        (responseEnvelope message.requestId lib reply).any (fits lib) = true := by
  rw [hforwards.written]
  obtain ⟨-, payload, -, hchecked⟩ := validate_ok hforwards.valid
  have hid := hchecked.requestId_ne
  cases herror : env.poll.error with
  | some error =>
      rw [answers_awaitAnswer_error hid herror]
      have hnodata : ∀ chunk, env.poll ≠ .data chunk := by
        intro chunk hpoll
        simp [hpoll, Poll.error] at herror
      simp [hnodata]
  | none =>
      cases hpoll : env.poll with
      | data chunk =>
          rw [hpoll] at hpolls
          rw [answers_awaitAnswer_data hlib hround _ hbefore hreply hafter hpolls.2.1 hpolls.2.2]
          simp
      | interrupted | timeout | wouldBlock =>
          simp [answers_awaitAnswer_nothing]
      | failed | hangup | recvFailed | closed => simp [hpoll, Poll.error] at herror

/-- A message that asks for the status. -/
def statusMessage : Message where
  operation := cstr "get_status"
  requestId := cstr "1"
  payload := .mkObject
    [(cstr "operation", .string (cstr "get_status")), (cstr "request_id", .string (cstr "1"))]

def statusDoc : Json :=
  .mkObject [(cstr "protocol_version", .unsigned 1), (cstr "kind", .string (cstr "request")),
    (cstr "payload", statusMessage.payload)]

theorem forwards_statusDoc (event : Poll) :
    Forwards JsonReference.lib { poll := event } statusDoc statusMessage where
  valid := by rfl
  connected := rfl
  frame := ⟨.getStatus, ⟨.getStatus, cstr "1", []⟩,
    cstr "\x7b\"operation\":\"get_status\",\"protocol_version\":1,\"request_id\":\"1\"\x7d\n",
    by decide +kernel, by decide +kernel, by decide +kernel⟩
  sent := rfl

def statusReply : Bytes := cstr "\x7b\"ok\":true,\"request_id\":\"1\",\"result\":\x7b\x7d\x7d"

theorem isReply_statusReply : IsReply JsonReference.lib statusReply :=
  ⟨{ requestId := cstr "1", ok := true }, by decide +kernel⟩

/-- The reply comes whole. -/
theorem answered_once_status :
    IsReply JsonReference.lib statusReply ∧
      ((answers statusMessage.requestId (handleMessage JsonReference.lib
          { poll := .data (statusReply ++ ['\n'.toUInt8]) } statusDoc).written).length = 1 ↔
        (∃ error, (Poll.data (statusReply ++ ['\n'.toUInt8])).error = some error ∧
          fits JsonReference.lib
            ⟨cstr "error", errorJson statusMessage.requestId (cstr "daemon_error") error⟩ = true) ∨
        ∃ chunk, Poll.data (statusReply ++ ['\n'.toUInt8]) = .data chunk ∧
          join '\n'.toUInt8 ([] ++ [statusReply]) <+: chunk ∧
          (responseEnvelope statusMessage.requestId JsonReference.lib statusReply).any
            (fits JsonReference.lib) = true) := by
  have hpolls : Polls (join '\n'.toUInt8 ([] ++ statusReply :: []))
      (.data (statusReply ++ ['\n'.toUInt8])) :=
    ⟨by decide +kernel, by decide +kernel, by decide +kernel⟩
  exact ⟨isReply_statusReply, answered_once_iff JsonReference.lib_lawful
    JsonReference.lib_roundTrip (forwards_statusDoc _) (by simp) isReply_statusReply (by simp)
    hpolls⟩

/-- The reply comes after the poll has ended, or without its last byte. -/
theorem late_or_cut_reply_unanswered :
    Forwards JsonReference.lib { poll := .timeout } statusDoc statusMessage ∧
      (handleMessage JsonReference.lib { poll := .timeout } statusDoc).written.length = 0 ∧
      Forwards JsonReference.lib { poll := .data statusReply } statusDoc statusMessage ∧
      (handleMessage JsonReference.lib { poll := .data statusReply } statusDoc).written.length =
        0 :=
  ⟨forwards_statusDoc _, by decide +kernel, forwards_statusDoc _, by decide +kernel⟩

end Ezcap.NativeHost
