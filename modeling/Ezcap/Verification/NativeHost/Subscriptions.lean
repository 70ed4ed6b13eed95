import Ezcap.Model.Relay
import Ezcap.Verification.NativeHost.Requests
import Ezcap.Verification.Server.Subscriptions

/-! What becomes of a subscription that the browser was told it has. It is kept with the
connection over which it was made, and that connection is closed as soon as the host has
answered. -/

namespace Ezcap.Relay

open StdString Ipc NativeHost PolicyEngine Discipline

variable {n : ℕ} {lib : JsonLib} {round : ℚ → ℚ} {s s' : System n}

/-! ## The daemon -/

theorem Meanwhile.ownView_eq {server server' : Server n} (h : Meanwhile server server')
    (t : Option (Fin n)) : Server.ownView t server' = Server.ownView t server := by
  cases t with
  | none => rfl
  | some c =>
      obtain ⟨hsubscriptions, hconnected, hreplies⟩ := h.2 c
      simp only [Server.ownView, hsubscriptions, hconnected, hreplies]

theorem Meanwhile.rely {server server' : Server n} (h : Meanwhile server server')
    (t : Option (Fin n)) : (Server.discipline n).Rely t server server' := by
  refine ⟨fun hs => ?_, h.ownView_eq t⟩
  simpa only [Server.discipline, h.1] using hs

theorem broadcast_ends {event : Event} (hencodes : (encodeEvent lib event).isSome = true)
    {server server' : Server n} (hs : PolicyText server.policy)
    (hends : (Server.broadcast lib event).Ends Meanwhile [] server () [] server') :
    PolicyText server'.policy ∧
      ∀ c, Server.ownView (some c) server' = Server.ownView (some c) server := by
  have hunseen : Server.Unseen (none : Option (Fin n)) [] (Server.ownView none server)
      (Server.broadcast lib event) := Server.unseen_broadcast hencodes
  refine ⟨(Triple.ends (fun _ _ h => h.rely _) hunseen hends hs rfl).2.1, fun c => ?_⟩
  exact Triple.ends_frame (fun _ _ h => h.rely _) hunseen hends hs rfl
    (Option.some_ne_none c) fun _ _ h => h.ownView_eq (some c)

/-! ## Where subscriptions come from -/

/-- The subscriptions of a client are those that the message on its connection asked for. -/
structure Inv (lib : JsonLib) (s : System n) : Prop where
  policy : PolicyText s.server.policy
  last : ∀ c, s.phase.connection = some c → c.val + 1 = s.messages.length
  pending : ∀ c frame, s.pending c = some frame →
    ∃ message, s.messages[c.val]? = some message ∧ SentAs lib message frame
  subscriptions : ∀ c, ∀ id ∈ (s.server.clients c).subscriptions,
    ∃ message, s.messages[c.val]? = some message ∧ message.operation = cstr "subscribe" ∧
      message.requestId = id

theorem inv_start : Inv lib (start n) where
  policy := by simp [start, PolicyText]
  last := nofun
  pending := nofun
  subscriptions := by simp [start]

theorem operationFromName_subscribe {name : Bytes}
    (h : operationFromName name = some .subscribe) : name = cstr "subscribe" := by
  unfold operationFromName at h
  split_ifs at h <;> first | assumption | cases h

/-- A frame gives its client at most the subscription that its message asked for. -/
theorem mem_subscriptionsAfter (hround : lib.RoundTrip round) {message : Message} {frame : Bytes}
    (hsent : SentAs lib message frame) {subscriptions : Finset Bytes} {id : Bytes}
    (h : id ∈ Server.subscriptionsAfter lib subscriptions frame) :
    id ∈ subscriptions ∨
      message.operation = cstr "subscribe" ∧ message.requestId = id := by
  obtain ⟨operation, request, hoperation, hrequest, hframe⟩ := hsent
  unfold Server.subscriptionsAfter at h
  split at h
  · exact .inl h
  · rename_i request' hparse
    obtain ⟨hop, hid⟩ := parseRequest_requestFrame hround hframe hparse
    obtain ⟨hbuilt, hbuiltId, -⟩ := buildRequest_ok hrequest
    rcases Server.mem_tracked.mp h with ⟨hsubscribe, hid'⟩ | ⟨hmem, -⟩
    · rw [hop, hbuilt] at hsubscribe
      rw [hsubscribe] at hoperation
      exact .inr ⟨operationFromName_subscribe hoperation, by rw [← hbuiltId, ← hid, hid']⟩
    · exact .inl hmem

theorem getElem?_append_one {message : Message} {messages : List Message} {i : ℕ} {m : Message}
    (h : messages[i]? = some m) : (messages ++ [message])[i]? = some m := by
  obtain ⟨hi, -⟩ := List.getElem?_eq_some_iff.mp h
  rw [List.getElem?_append_left hi, h]

section Step

variable (hlib : lib.Lawful) (hround : lib.RoundTrip round) (hinv : Inv lib s)

include hinv in
theorem inv_forward {message : Message} {frame : Bytes} {c : Fin n}
    (hrequest : SentAs lib message frame) (hc : c.val = s.messages.length) (sent : Bool) :
    Inv lib { s with
      server := s.server.update c fun _ => {}
      phase := if sent then .waiting c else .returning c
      messages := s.messages ++ [message]
      pending := Function.update s.pending c (if sent then some frame else none) } where
  policy := hinv.policy
  last := by
    intro b hb
    have hconnection : (if sent then Phase.waiting c else .returning c).connection = some c := by
      cases sent <;> rfl
    obtain rfl := Option.some.inj (hconnection.symm.trans hb)
    simp [hc]
  pending := by
    intro b f hb
    by_cases hbc : b = c
    · subst hbc
      cases sent with
      | false => simp at hb
      | true =>
          obtain rfl : frame = f := by simpa using hb
          exact ⟨message, by simp [hc], hrequest⟩
    · simp only [Function.update_of_ne hbc] at hb
      obtain ⟨m, hm, hsent⟩ := hinv.pending b f hb
      exact ⟨m, getElem?_append_one hm, hsent⟩
  subscriptions := by
    intro b id hid
    by_cases hbc : b = c
    · subst hbc
      simp [Server.update] at hid
    · simp only [Server.update, Function.update_of_ne hbc] at hid
      obtain ⟨m, hm, hsub⟩ := hinv.subscriptions b id hid
      exact ⟨m, getElem?_append_one hm, hsub⟩

include hlib hround hinv in
theorem inv_step (hstep : Step lib s s') : Inv lib s' := by
  cases hstep with
  | forward _ _ hrequest hc sent => exact inv_forward hinv hrequest hc sent
  | @handle c frame server hpending hends =>
      obtain ⟨hpolicy, hsubscriptions, -, -, hothers⟩ :=
        Server.handleFrame_ends hlib (fun _ _ h t => h.rely t) hinv.policy hends
      obtain ⟨message, hmessage, hsent⟩ := hinv.pending c frame hpending
      refine ⟨hpolicy, hinv.last, ?_, ?_⟩
      · intro b f hb
        by_cases hbc : b = c
        · simp [hbc] at hb
        · exact hinv.pending b f (by simpa [hbc] using hb)
      · intro b id hid
        by_cases hbc : b = c
        · subst hbc
          rw [hsubscriptions] at hid
          rcases mem_subscriptionsAfter hround hsent hid with hold | hnew
          · exact hinv.subscriptions b id hold
          · exact ⟨message, hmessage, hnew⟩
        · have hsame := congrArg Client.subscriptions (hothers b hbc)
          exact hinv.subscriptions b id (hsame ▸ hid)
  | broadcast hencodes hends =>
      obtain ⟨hpolicy, hsame⟩ := broadcast_ends hencodes hinv.policy hends
      refine ⟨hpolicy, hinv.last, hinv.pending, fun c id hid => ?_⟩
      exact hinv.subscriptions c id (congrArg Client.subscriptions (hsame c) ▸ hid)
  | answer hwaiting hmessage _ _ =>
      refine ⟨hinv.policy, fun b hb => ?_, hinv.pending, hinv.subscriptions⟩
      exact hinv.last b (by simpa [hwaiting, Phase.connection] using hb)
  | close => exact ⟨hinv.policy, nofun, hinv.pending, hinv.subscriptions⟩
  | @disconnect c =>
      refine ⟨hinv.policy, hinv.last, hinv.pending, fun b id hid => ?_⟩
      refine hinv.subscriptions b id ?_
      by_cases hbc : b = c
      · subst hbc
        simpa [Server.update] using hid
      · simpa [Server.update, hbc] using hid

include hlib hround hinv in
theorem inv_reach (hreach : Reach lib s s') : Inv lib s' := by
  induction hreach with
  | refl => exact hinv
  | tail _ hstep ih => exact inv_step hlib hround ih hstep

end Step

/-! ## Connections are not used again -/

/-- After a return, the host opens connections only for later messages. -/
theorem later_of_reach (hidle : s.phase = .idle) (hreach : Reach lib s s') :
    s.messages <+: s'.messages ∧
      ∀ c, s'.phase.connection = some c → s.messages.length ≤ c.val := by
  induction hreach with
  | refl => exact ⟨List.prefix_rfl, by simp [hidle, Phase.connection]⟩
  | tail _ hstep ih =>
      obtain ⟨hbegins, hlater⟩ := ih
      cases hstep with
      | forward _ _ _ hc sent =>
          refine ⟨hbegins.trans (List.prefix_append ..), fun b hb => ?_⟩
          cases sent <;> cases hb <;> exact hc ▸ hbegins.length_le
      | handle | broadcast | disconnect => exact ⟨hbegins, hlater⟩
      | answer hwaiting => exact ⟨hbegins, fun b hb => hlater b (by rw [hwaiting]; exact hb)⟩
      | close => exact ⟨hbegins, nofun⟩

/-- Once the host has returned from the message that made a subscription, the subscription is not
live any more, unless the browser subscribes under the same id again. -/
theorem acknowledged_not_live (hlib : lib.Lawful) (hround : lib.RoundTrip round)
    (hreach : Reach lib (start n) s) (hidle : s.phase = .idle) (hlater : Reach lib s s')
    {id : Bytes} (hacknowledged : id ∈ s'.acknowledged)
    (hagain : ∀ message ∈ s'.messages.drop s.messages.length,
      message.operation = cstr "subscribe" → message.requestId ≠ id) :
    ¬ ∀ id ∈ s'.acknowledged, Live s' id := by
  intro hlive
  obtain ⟨c, hconnection, -, hid⟩ := hlive id hacknowledged
  have hinv : Inv lib s' := inv_reach hlib hround inv_start (hreach.trans hlater)
  obtain ⟨message, hmessage, hsubscribe, hsame⟩ := hinv.subscriptions c id hid
  obtain ⟨hbegins, hafter⟩ := later_of_reach hidle hlater
  refine hagain message ?_ hsubscribe hsame
  have hdrop : (s'.messages.drop s.messages.length)[c.val - s.messages.length]? = some message := by
    rw [List.getElem?_drop, Nat.add_sub_cancel' (hafter c hconnection), hmessage]
  exact List.mem_of_getElem? hdrop

/-! ## One subscription -/

/-- A message that subscribes under the id `1`. -/
def subscribeMessage : Message where
  operation := cstr "subscribe"
  requestId := cstr "1"
  payload := .mkObject
    [(cstr "operation", .string (cstr "subscribe")), (cstr "request_id", .string (cstr "1"))]

def subscribeDoc : Json :=
  .mkObject [(cstr "protocol_version", .unsigned 1), (cstr "kind", .string (cstr "request")),
    (cstr "payload", subscribeMessage.payload)]

def subscribeFrame : Bytes :=
  cstr "\x7b\"operation\":\"subscribe\",\"protocol_version\":1,\"request_id\":\"1\"\x7d"

def subscribeReply : Bytes :=
  cstr "\x7b\"ok\":true,\"request_id\":\"1\",\"result\":\x7b\"subscription_id\":\"1\"\x7d\x7d"

theorem sentAs_subscribeFrame : SentAs JsonReference.lib subscribeMessage subscribeFrame :=
  ⟨.subscribe, ⟨.subscribe, cstr "1", []⟩, by decide +kernel, by decide +kernel,
    by decide +kernel⟩

theorem eq_subscribeReply {reply : Bytes}
    (h : Server.Replies JsonReference.lib subscribeFrame reply) : reply = subscribeReply := by
  obtain ⟨response, hencoded, hresponse⟩ := h
  have hparse : parseRequest JsonReference.lib subscribeFrame kMaxRequestBytes =
      .ok ⟨.subscribe, cstr "1", []⟩ := by decide +kernel
  rw [hparse] at hresponse
  have hid := hresponse.requestId
  obtain ⟨hok, hdump⟩ := hresponse.result (Server.subscribeJson (cstr "1")) rfl
  have hresult : JsonReference.lib.dump (Server.subscribeJson (cstr "1")) =
      some (cstr "\x7b\"subscription_id\":\"1\"\x7d") := by decide +kernel
  have hresultJson := Option.some.inj (hdump.symm.trans hresult)
  have hsame : encodeResponse JsonReference.lib response = encodeResponse JsonReference.lib
      { requestId := cstr "1", ok := true,
        resultJson := cstr "\x7b\"subscription_id\":\"1\"\x7d" } := by
    simp [encodeResponse, responseJson, responseResult, hid, hok, hresultJson]
  have htext : encodeResponse JsonReference.lib
      { requestId := cstr "1", ok := true,
        resultJson := cstr "\x7b\"subscription_id\":\"1\"\x7d" } = some subscribeReply := by
    decide +kernel
  exact Option.some.inj (hencoded.symm.trans (hsame.trans htext))

/-- The message is forwarded, handled and answered, the host returns, and the daemon notices. -/
theorem exists_acknowledged :
    ∃ s : System 1, Reach JsonReference.lib (start 1) s ∧ s.phase = .idle ∧
      cstr "1" ∈ s.acknowledged ∧ (s.server.clients 0).connected = false := by
  have hlib := JsonReference.lib_lawful
  let s₁ : System 1 :=
    { server := (start 1).server.update 0 fun _ => {}
      phase := .waiting 0
      messages := [subscribeMessage]
      pending := Function.update (start 1).pending 0 (some subscribeFrame) }
  have h₁ : Step JsonReference.lib (start 1) s₁ :=
    @Step.forward 1 _ _ subscribeDoc _ _ _ rfl rfl sentAs_subscribeFrame rfl true
  have hs₁ : PolicyText s₁.server.policy := by simp [s₁, start, Server.update, PolicyText]
  have hcontract : Triple (Server.discipline 1) (some 0) [] (Server.ownView (some 0) s₁.server)
      (Server.handleFrame JsonReference.lib 0 subscribeFrame) _ :=
    Server.handleFrame_contract hlib (by decide +kernel)
  obtain ⟨alive, server, hends⟩ := hcontract.exists_ends Meanwhile hs₁ rfl
  obtain ⟨-, -, rfl, reply, hreply, hview⟩ :=
    hcontract.ends (fun _ _ h => h.rely _) hends hs₁ rfl
  obtain rfl := eq_subscribeReply hreply
  have hreplies : (server.clients 0).replies = [subscribeReply] := congrArg Client.replies hview
  let s₂ : System 1 := { s₁ with server := server, pending := Function.update s₁.pending 0 none }
  have h₂ : Step JsonReference.lib s₁ s₂ := .handle rfl hends
  have hsends : Sends JsonReference.lib server 0 (.data (subscribeReply ++ ['\n'.toUInt8])) := by
    have hframes : (extractFrames (subscribeReply ++ ['\n'.toUInt8])).1 = [subscribeReply] := by
      decide +kernel
    simp [Sends, hframes, hreplies]
  have h₃ := @Step.answer 1 JsonReference.lib s₂ 0 subscribeMessage _ rfl rfl hsends
    (by decide +kernel)
  refine ⟨_, .tail (.tail (.tail (.tail (.single h₁) h₂) h₃) (.close rfl))
    (.disconnect (c := 0) Nat.zero_lt_one (Option.some_ne_none 0).symm rfl), rfl, ?_, ?_⟩
  · show cstr "1" ∈ acknowledgedAfter subscribeMessage (awaitAnswer JsonReference.lib (cstr "1")
      (.data (subscribeReply ++ ['\n'.toUInt8]))).written ∅
    decide +kernel
  · simp [Server.update]

/-- The subscription that was acknowledged in this run. -/
theorem acknowledged_not_live_one :
    ∃ s : System 1, Reach JsonReference.lib (start 1) s ∧ s.phase = .idle ∧
      cstr "1" ∈ s.acknowledged ∧ ¬ ∀ id ∈ s.acknowledged, Live s id := by
  obtain ⟨s, hreach, hidle, hid, -⟩ := exists_acknowledged
  exact ⟨s, hreach, hidle, hid, acknowledged_not_live JsonReference.lib_lawful
    JsonReference.lib_roundTrip hreach hidle .refl hid (by simp)⟩

/-- The browser was told that it has a subscription, and the daemon has no client any more. -/
theorem acknowledged_client_gone :
    ∃ s : System 1, Reach JsonReference.lib (start 1) s ∧ cstr "1" ∈ s.acknowledged ∧
      ∀ c, (s.server.clients c).connected = false := by
  obtain ⟨s, hreach, -, hid, hgone⟩ := exists_acknowledged
  refine ⟨s, hreach, hid, fun c => ?_⟩
  rw [Fin.fin_one_eq_zero c, hgone]

end Ezcap.Relay
