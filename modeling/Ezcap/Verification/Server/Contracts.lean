import Ezcap.Library.LockDiscipline
import Ezcap.Model.Server
import Ezcap.Verification.PolicyEngine.Text

/-! The server's lock discipline, and what each of its functions does under it. -/

namespace Ezcap.Server

open StdString Utf8 Ipc PolicyEngine Discipline

variable {n : ℕ}

/-! ## The discipline -/

/-- All of a client's record but its queue belongs to its reader. -/
def ownView : Option (Fin n) → Server n → Client
  | none, _ => {}
  | some c, s => { s.clients c with outQueue := [] }

/-- The mutex of the client map is acquired before those of the clients, and the policy text can
always be serialized. -/
def discipline (n : ℕ) : Discipline (Option (Fin n)) (Mutex n) (Server n) Client where
  rank := fun
    | .clients => 0
    | _ => 1
  bound := 1
  rank_le := by
    intro m
    cases m <;> simp
  inv := fun s => PolicyText s.policy
  view := ownView

theorem ownView_update (t : Option (Fin n)) (c : Fin n) (f : Client → Client) (s : Server n) :
    ownView t (update c f s) =
      if t = some c then { f (s.clients c) with outQueue := [] } else ownView t s := by
  cases t with
  | none => rfl
  | some b =>
      by_cases hb : b = c
      · subst hb
        simp [ownView, update]
      · simp [ownView, update, hb]

variable {t : Option (Fin n)} {c : Fin n} {held : List (Mutex n)} {v : Client}

theorem keeps_update (f : Client → Client) : Keeps (discipline n) (some c) v (update c f) where
  inv := fun _ hs _ => hs
  frame := by
    intro s _ _ u hu
    exact (ownView_update u c f s).trans (if_neg hu)

/-- The function changes at most the queue of a record. -/
def QueueOnly (f : Client → Client) : Prop :=
  ∀ client : Client, { f client with outQueue := [] } = { client with outQueue := [] }

theorem ownView_queue {f : Client → Client} (hf : QueueOnly f)
    (s : Server n) : ownView t (update c f s) = ownView t s := by
  rw [ownView_update]
  split
  · rename_i ht
    rw [ht, hf, ownView]
  · rfl

theorem keeps_queue {f : Client → Client} (hf : QueueOnly f) :
    Keeps (discipline n) t v (update c f) where
  inv := fun _ hs _ => hs
  frame := fun s _ _ _ _ => ownView_queue hf s

/-! ## Delivery -/

/-- An action that its thread does not see. -/
abbrev Unseen (t : Option (Fin n)) (held : List (Mutex n)) (v : Client) {α : Type}
    (prog : Run n α) : Prop :=
  Triple (discipline n) t held v prog fun v' _ => v' = v

theorem unseen_bind {α β : Type} {prog : Run n α} {k : α → Run n β} {post : Client → β → Prop}
    (h : Unseen t held v prog) (hk : ∀ a, Triple (discipline n) t held v (k a) post) :
    Triple (discipline n) t held v (prog.bind k) post := by
  refine h.bind ?_
  rintro _ a rfl
  exact hk a

theorem unseen_ask : Unseen t held v .ask := .ask fun _ => rfl

theorem unseen_read {α : Type} (g : Server n → α) : Unseen t held v (.read g) :=
  .read fun _ _ _ => rfl

theorem unseen_queue {f : Client → Client} (hf : QueueOnly f) :
    Unseen t held v (.modify (update c f)) :=
  .modify (keeps_queue hf) fun s _ hv => (ownView_queue hf s).trans hv

theorem unseen_exchange {α : Type} {f : Client → Client} (g : Server n → α) (hf : QueueOnly f) :
    Unseen t held v (.exchange (update c f) g) :=
  .exchange (keeps_queue hf) fun s _ hv => (ownView_queue hf s).trans hv

theorem unseen_modify {f : Server n → Server n} (hclients : ∀ s, (f s).clients = s.clients)
    (hpolicy : ∀ s, PolicyText s.policy → PolicyText (f s).policy) :
    Unseen t held v (.modify f) := by
  have hview (u : Option (Fin n)) (s : Server n) : ownView u (f s) = ownView u s := by
    cases u with
    | none => rfl
    | some c => simp only [ownView, hclients]
  exact .modify ⟨fun s hs _ => hpolicy s hs, fun s _ _ u _ => hview u s⟩
    fun s _ hv => (hview t s).trans hv

theorem unseen_addDropped (count : ℕ) : Unseen t held v (.modify (addDropped count)) :=
  unseen_modify (fun _ => rfl) fun _ h => h

theorem unseen_sendQueue (total : ℕ) (queue : List Bytes) :
    Unseen t held v (sendQueue total queue) := by
  induction queue with
  | nil => exact .pure rfl
  | cons message queue ih =>
      refine unseen_bind unseen_ask fun sent => ?_
      cases sent with
      | true => exact ih
      | false => exact unseen_addDropped total

theorem unseen_push (c : Fin n) (encoded : Bytes) : Unseen t held v (push c encoded) := by
  refine unseen_bind (unseen_read _) fun queue => ?_
  split
  · refine unseen_bind (unseen_queue fun _ => rfl) fun _ => ?_
    exact unseen_bind (unseen_addDropped 1) fun _ => .pure rfl
  · exact unseen_bind (unseen_queue fun _ => rfl) fun _ => .pure rfl

theorem unseen_deliver (c : Fin n) (encoded : Bytes) : Unseen t [] v (deliver c encoded) := by
  refine unseen_bind (.lock (by simp) (unseen_push c encoded)) fun full => ?_
  split
  · exact .pure rfl
  · exact unseen_bind (.lock (by simp) (unseen_exchange _ fun _ => rfl)) fun toSend =>
      unseen_sendQueue _ toSend

/-! ## The request handler -/

variable {lib : JsonLib} {request : Request}

/-- The response of the handler to `request` can be encoded, and is a success for `subscribe`. -/
structure Answers (lib : JsonLib) (request : Request) (response : Response) : Prop where
  requestId : response.requestId = request.requestId
  subscribed : request.operation = .subscribe → response.ok = true
  encodes : (encodeResponse lib response).isSome = true

/-- The result that follows from the request alone. -/
def knownResult (request : Request) : Option Json :=
  match request.operation with
  | .hello => some helloJson
  | .subscribe => some (subscribeJson request.requestId)
  | .unsubscribe => some (unsubscribeJson request.requestId)
  | _ => none

/-- The response is also the one that follows from the request, if one does. -/
structure Responds (lib : JsonLib) (request : Request) (response : Response) : Prop
    extends Answers lib request response where
  result : ∀ result ∈ knownResult request,
    response.ok = true ∧ lib.dump result = some response.resultJson

theorem Answers.responds {response : Response} (h : Answers lib request response)
    (hnone : knownResult request = none) : Responds lib request response :=
  ⟨h, by simp [hnone]⟩

theorem policyJson_contract :
    Triple (discipline n) t [] v policyJson fun v' doc => v' = v ∧ doc.isText = true :=
  .lock (by simp) (.read fun _ hs _ => ⟨rfl, isText_toJson hs⟩)

theorem updateFromJson_contract {doc : Json} (h : doc.isText = true) :
    Triple (discipline n) t [] v (updateFromJson doc) fun v' result =>
      v' = v ∧ ∀ message, result = .error message → Valid message := by
  have hcopy : Triple (discipline n) t [] v (.lock .policy (.read Server.policy))
      fun v' policy => v' = v ∧ PolicyText policy :=
    .lock (by simp) (.read fun _ hs _ => ⟨rfl, hs⟩)
  refine hcopy.bind ?_
  rintro _ policy ⟨rfl, hpolicy⟩
  have hedit := editPolicy_keepsText h policy hpolicy
  cases hresult : editPolicy doc policy with
  | error message =>
      rw [hresult] at hedit
      refine .pure ⟨rfl, ?_⟩
      rintro _ ⟨⟩
      exact hedit
  | ok next =>
      rw [hresult] at hedit
      refine unseen_bind (.lock (by simp) (unseen_modify (fun _ => rfl) fun _ _ => hedit)) ?_
      exact fun _ => .pure ⟨rfl, nofun⟩

theorem isText_buildStatusJson (status : DaemonStatus) :
    (buildStatusJson status).isText = true := by
  have hstate : Valid (if status.running then cstr "running" else cstr "stopped") := by
    split <;> exact valid_cstr _
  have hbackends : (backendsJson status.backend).isText = true := by
    unfold backendsJson
    split <;> simp [isText_mkObject_iff]
  have hstorage : (storageJson status.storage).isText = true := by
    unfold storageJson
    split <;> simp [isText_mkObject_iff]
  simp [buildStatusJson, isText_mkObject_iff, hstate, hbackends, hstorage, kVersionString]

section Handler

variable (hlib : lib.Lawful) (hid : Valid request.requestId)

include hlib hid

theorem success_contract {result : Json} (h : result.isText = true) :
    Triple (discipline n) t held v (success lib request result) fun v' response =>
      v' = v ∧ Answers lib request response ∧
        response.ok = true ∧ lib.dump result = some response.resultJson := by
  have hdump : Triple (discipline n) t held v (Prog.orAbort (lib.dump result))
      fun v' text => v' = v ∧ lib.dump result = some text :=
    .orAbort ((hlib.dump_isSome result).trans h) fun _ htext => ⟨rfl, htext⟩
  refine hdump.bind ?_
  rintro _ resultJson ⟨rfl, htext⟩
  refine .pure ⟨rfl, ⟨rfl, fun _ => rfl, ?_⟩, rfl, htext⟩
  exact encodeResponse_isSome hlib hid nofun

theorem known_contract {result : Json} (h : result.isText = true)
    (hknown : ∀ known ∈ knownResult request, known = result) :
    Triple (discipline n) t held v (success lib request result) fun v' response =>
      v' = v ∧ Responds lib request response := by
  refine (success_contract hlib hid h).mono ?_
  rintro _ response ⟨rfl, hanswers, hok, hdump⟩
  refine ⟨rfl, hanswers, fun known hk => ?_⟩
  rw [hknown known hk]
  exact ⟨hok, hdump⟩

theorem failure_contract (code : ErrorCode) {message : Bytes} (h : Valid message)
    (hop : request.operation ≠ .subscribe) :
    Answers lib request { requestId := request.requestId, error := ⟨code, message⟩ } :=
  ⟨rfl, fun hsub => absurd hsub hop, encodeResponse_isSome hlib hid fun _ => h⟩

theorem setPolicy_contract (hop : request.operation = .setPolicy) :
    Triple (discipline n) t [] v (setPolicy lib request) fun v' response =>
      v' = v ∧ Responds lib request response := by
  have hsub : request.operation ≠ .subscribe := by simp [hop]
  have hnone : knownResult request = none := by simp [knownResult, hop]
  unfold setPolicy
  cases hparams : (lib.parse request.paramsJson).filter Json.isObject with
  | none => exact .pure ⟨rfl, (failure_contract hlib hid _ (valid_cstr _) hsub).responds hnone⟩
  | some params =>
      have hparse : lib.parse request.paramsJson = some params :=
        (Option.filter_eq_some_iff.mp hparams).1
      refine (updateFromJson_contract (hlib.isText_of_parse hparse)).bind ?_
      rintro _ result ⟨rfl, hresult⟩
      cases result with
      | error message =>
          exact .pure ⟨rfl, (failure_contract hlib hid _ (hresult _ rfl) hsub).responds hnone⟩
      | ok _ =>
          refine policyJson_contract.bind ?_
          rintro _ doc ⟨rfl, hdoc⟩
          exact known_contract hlib hid hdoc (by simp [hnone])

theorem handleRequest_contract :
    Triple (discipline n) t [] v (handleRequest lib request) fun v' response =>
      v' = v ∧ Responds lib request response := by
  unfold handleRequest
  cases hop : request.operation with
  | hello =>
      have hhello : helloJson.isText = true := by
        simp [helloJson, isText_mkObject_iff, kVersionString]
      exact known_contract hlib hid hhello (by simp [knownResult, hop])
  | getStatus =>
      have hstatus : Triple (discipline n) t [] v (.read fun s => buildStatusJson s.status)
          fun v' doc => v' = v ∧ doc.isText = true :=
        .read fun s _ _ => ⟨rfl, isText_buildStatusJson s.status⟩
      refine hstatus.bind ?_
      rintro _ doc ⟨rfl, hdoc⟩
      exact known_contract hlib hid hdoc (by simp [knownResult, hop])
  | subscribe =>
      exact known_contract hlib hid (by simpa [subscribeJson, isText_mkObject_iff] using hid)
        (by simp [knownResult, hop])
  | unsubscribe =>
      exact known_contract hlib hid (by simpa [unsubscribeJson, isText_mkObject_iff] using hid)
        (by simp [knownResult, hop])
  | getPolicy =>
      refine policyJson_contract.bind ?_
      rintro _ doc ⟨rfl, hdoc⟩
      exact known_contract hlib hid hdoc (by simp [knownResult, hop])
  | setPolicy => exact setPolicy_contract hlib hid hop
  | shutdown =>
      refine .pure ⟨rfl, Answers.responds ?_ (by simp [knownResult, hop])⟩
      exact failure_contract hlib hid _ (valid_cstr _) (by simp [hop])

end Handler

/-! ## Frames -/

/-- The subscriptions of a client after a request that is served. -/
def tracked (request : Request) (subscriptions : Finset Bytes) : Finset Bytes :=
  match request.operation with
  | .subscribe => insert request.requestId subscriptions
  | .unsubscribe => subscriptions.erase request.requestId
  | _ => subscriptions

def subscriptionsAfter (lib : JsonLib) (subscriptions : Finset Bytes) (frame : Bytes) :
    Finset Bytes :=
  match parseRequest lib frame kMaxRequestBytes with
  | .error _ => subscriptions
  | .ok request => tracked request subscriptions

/-- The frame does not ask for a subscription beyond the limit. -/
def belowLimit (lib : JsonLib) (subscriptions : Finset Bytes) (frame : Bytes) : Bool :=
  match parseRequest lib frame kMaxRequestBytes with
  | .error _ => true
  | .ok request =>
      decide (request.operation = .subscribe → subscriptions.card < kMaxSubscriptionsPerClient)

/-- The encoded reply belongs to the frame: it carries the id of its request. -/
def RepliesTo (lib : JsonLib) (frame encoded : Bytes) : Prop :=
  ∃ response, encodeResponse lib response = some encoded ∧ response.requestId =
    match parseRequest lib frame kMaxRequestBytes with
    | .error _ => []
    | .ok request => request.requestId

/-- The encoded reply is the error that was found in the frame, or a response to its request. -/
def Replies (lib : JsonLib) (frame encoded : Bytes) : Prop :=
  ∃ response, encodeResponse lib response = some encoded ∧
    match parseRequest lib frame kMaxRequestBytes with
    | .error error => response = { requestId := [], ok := false, error }
    | .ok request => Responds lib request response

theorem Replies.repliesTo {frame encoded : Bytes} (h : Replies lib frame encoded) :
    RepliesTo lib frame encoded := by
  obtain ⟨response, hencoded, hresponse⟩ := h
  refine ⟨response, hencoded, ?_⟩
  split at hresponse
  · rw [hresponse]
  · exact hresponse.requestId

theorem modify_own {f : Client → Client}
    (hf : ∀ client : Client, { f client with outQueue := [] } = f { client with outQueue := [] }) :
    Triple (discipline n) (some c) held v (.modify (update c f)) fun v' _ => v' = f v := by
  refine .modify (keeps_update f) fun s _ hv => ?_
  rw [← hv]
  exact (ownView_update (some c) c f s).trans ((if_pos rfl).trans (hf _))

theorem reply_contract {encoded : Option Bytes} (h : encoded.isSome = true) :
    Triple (discipline n) (some c) [] v (reply c encoded) fun v' _ =>
      ∃ r ∈ encoded, v' = { v with replies := v.replies ++ [r] } := by
  have hencoded : Triple (discipline n) (some c) [] v (Prog.orAbort encoded)
      fun v' r => v' = v ∧ r ∈ encoded :=
    .orAbort h fun r hr => ⟨rfl, hr⟩
  refine hencoded.bind ?_
  rintro _ r ⟨rfl, hr⟩
  refine (modify_own fun _ => rfl).bind ?_
  rintro _ _ rfl
  exact (unseen_deliver c r).mono fun v' _ hv' => ⟨r, hr, hv'⟩

theorem count_contract : Triple (discipline n) (some c) held v
    (.read fun s => (s.clients c).subscriptions.card)
    fun v' count => v' = v ∧ count = v.subscriptions.card :=
  .read fun s _ hs => ⟨rfl, by rw [← hs]; rfl⟩

theorem refuseSubscription_contract
    (h : request.operation = .subscribe → v.subscriptions.card < kMaxSubscriptionsPerClient) :
    Triple (discipline n) (some c) [] v (refuseSubscription lib c request) fun v' refused =>
      v' = v ∧ refused = false := by
  unfold refuseSubscription
  split
  · rename_i hop
    refine .lock (by simp) (count_contract.bind ?_)
    rintro _ count ⟨rfl, rfl⟩
    rw [if_neg (not_le.mpr (h hop))]
    exact .pure ⟨rfl, rfl⟩
  · exact .pure ⟨rfl, rfl⟩

theorem trackSubscription_contract {response : Response}
    (h : request.operation = .subscribe → response.ok = true) :
    Triple (discipline n) (some c) [] v (trackSubscription c request response) fun v' _ =>
      v' = { v with subscriptions := tracked request v.subscriptions } := by
  unfold trackSubscription tracked
  cases hop : request.operation with
  | subscribe =>
      rw [if_pos ⟨rfl, h hop⟩]
      exact .lock (by simp) (modify_own fun _ => rfl)
  | unsubscribe =>
      rw [if_neg (by simp), if_pos rfl]
      exact .lock (by simp) (modify_own fun _ => rfl)
  | _ =>
      rw [if_neg (by simp), if_neg (by simp)]
      exact .pure rfl

theorem dispatch_contract (hlib : lib.Lawful) (hid : Valid request.requestId) :
    Triple (discipline n) (some c) [] v (dispatch lib c request) fun v' _ =>
      ∃ response r, encodeResponse lib response = some r ∧ Responds lib request response ∧
        v' = { v with
          subscriptions := tracked request v.subscriptions
          replies := v.replies ++ [r] } := by
  unfold dispatch
  split
  · rename_i hop
    refine (reply_contract (encodeError_isSome hlib hid (valid_cstr _))).mono ?_
    rintro _ _ ⟨r, hr, rfl⟩
    have hfailure := failure_contract hlib hid .operationNotAllowed
      (valid_cstr "shutdown must be issued by the service owner locally") (by simp [hop])
    exact ⟨_, r, hr, hfailure.responds (by simp [knownResult, hop]), by simp [tracked, hop]⟩
  · refine (handleRequest_contract hlib hid).bind ?_
    rintro _ response ⟨rfl, hresponds⟩
    refine (trackSubscription_contract hresponds.subscribed).bind ?_
    rintro _ _ rfl
    refine (reply_contract hresponds.encodes).mono ?_
    rintro _ _ ⟨r, hr, rfl⟩
    exact ⟨response, r, hr, hresponds, rfl⟩

/-- Below the limit a frame gets one reply, and the next one is read. -/
theorem handleFrame_contract (hlib : lib.Lawful) {frame : Bytes}
    (h : belowLimit lib v.subscriptions frame = true) :
    Triple (discipline n) (some c) [] v (handleFrame lib c frame) fun v' alive =>
      alive = true ∧ ∃ r, Replies lib frame r ∧
        v' = { v with
          subscriptions := subscriptionsAfter lib v.subscriptions frame
          replies := v.replies ++ [r] } := by
  unfold handleFrame Replies
  unfold belowLimit at h
  unfold subscriptionsAfter
  cases hparse : parseRequest lib frame kMaxRequestBytes with
  | error error =>
      have hmessage := errorText_parseRequest lib frame kMaxRequestBytes error hparse
      refine (reply_contract (encodeError_isSome hlib valid_nil hmessage)).bind ?_
      rintro _ _ ⟨r, hr, rfl⟩
      exact .pure ⟨rfl, r, ⟨_, hr, rfl⟩, rfl⟩
  | ok request =>
      simp only [hparse, decide_eq_true_eq] at h
      refine (refuseSubscription_contract h).bind ?_
      rintro _ _ ⟨rfl, rfl⟩
      refine (dispatch_contract hlib (valid_requestId hlib hparse)).bind ?_
      rintro _ _ ⟨response, r, hr, hresponds, rfl⟩
      exact .pure ⟨rfl, r, ⟨response, hr, hresponds⟩, rfl⟩

/-- No frame asks for a subscription beyond the limit. -/
def withinLimit (lib : JsonLib) : Finset Bytes → List Bytes → Bool
  | _, [] => true
  | subscriptions, frame :: frames =>
      belowLimit lib subscriptions frame &&
        withinLimit lib (subscriptionsAfter lib subscriptions frame) frames

theorem handleFrames_contract (hlib : lib.Lawful) {frames : List Bytes}
    (h : withinLimit lib v.subscriptions frames = true) :
    Triple (discipline n) (some c) [] v (handleFrames lib c frames) fun v' _ =>
      ∃ replies, List.Forall₂ (Replies lib) frames replies ∧
        v' = { v with
          subscriptions := frames.foldl (subscriptionsAfter lib) v.subscriptions
          replies := v.replies ++ replies } := by
  induction frames generalizing v with
  | nil => exact .pure ⟨[], .nil, by simp⟩
  | cons frame frames ih =>
      rw [withinLimit, Bool.and_eq_true] at h
      refine (handleFrame_contract hlib h.1).bind ?_
      rintro _ _ ⟨rfl, r, hr, rfl⟩
      refine (ih h.2).mono ?_
      rintro _ _ ⟨replies, hreplies, rfl⟩
      exact ⟨r :: replies, .cons hr hreplies, by simp⟩

theorem found_contract (hv : v.connected = true) : Triple (discipline n) (some c) [] v
    (.lock .clients (.read fun s => (s.clients c).connected))
    fun v' found => v' = v ∧ found = true :=
  .lock (by simp) (.read fun s _ hs => ⟨rfl, by rw [← hv, ← hs]; rfl⟩)

theorem clientLoop_contract (hlib : lib.Lawful) {frames : List Bytes} (hv : v.connected = true)
    (h : withinLimit lib v.subscriptions frames = true) :
    Triple (discipline n) (some c) [] v (clientLoop lib c frames) fun v' _ =>
      ∃ replies, List.Forall₂ (RepliesTo lib) frames replies ∧
        v'.replies = v.replies ++ replies := by
  refine (found_contract hv).bind ?_
  rintro _ _ ⟨rfl, rfl⟩
  refine (handleFrames_contract hlib h).bind ?_
  rintro _ _ ⟨replies, hreplies, rfl⟩
  refine .lock (by simp) ((modify_own fun _ => rfl).mono ?_)
  rintro _ _ rfl
  exact ⟨replies, hreplies.imp fun _ _ => Replies.repliesTo, rfl⟩

/-! ## Broadcast -/

theorem unseen_subscribers (cs : List (Fin n)) : Unseen t [.clients] v (subscribers cs) := by
  induction cs with
  | nil => exact .pure rfl
  | cons c cs ih =>
      refine unseen_bind (unseen_read _) fun connected => ?_
      split
      · refine unseen_bind (.lock (by simp [discipline]) (unseen_read _)) fun subscribed => ?_
        exact unseen_bind ih fun _ => .pure rfl
      · exact ih

theorem unseen_broadcast {event : Event} (h : (encodeEvent lib event).isSome = true) :
    Unseen t [] v (broadcast lib event) := by
  refine unseen_bind (.lock (by simp) (unseen_subscribers _)) fun clients => ?_
  refine unseen_bind (.orAbort h fun _ _ => rfl) fun encoded => ?_
  refine Triple.forEach ?_ ?_
  · rfl
  · rintro c - _ rfl
    exact unseen_deliver c encoded

end Ezcap.Server
