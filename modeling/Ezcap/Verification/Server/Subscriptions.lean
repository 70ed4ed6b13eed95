import Ezcap.Library.Executions
import Ezcap.Library.JsonRoundTrip
import Ezcap.Verification.Ipc.RoundTrip
import Ezcap.Verification.Server.Completion

/-! Which subscriptions a client holds after its requests, and what a broadcast makes of them.
An unsubscribe request removes the subscription that has its own id, whatever id it names, and
the event types that a subscription lists are never looked at. -/

namespace Ezcap.Server

open StdString Ipc PolicyEngine Discipline

variable {n : ℕ} {lib : JsonLib} {round : ℚ → ℚ} {c : Fin n} {s s' : Server n} {v : Client}

/-! ## Handling the frames of one client -/

/-- The reader of client `c` has handled `frames`, whatever the other threads did meanwhile. -/
def Handles (lib : JsonLib) (c : Fin n) (s : Server n) (frames : List Bytes) (s' : Server n) :
    Prop :=
  (handleFrames lib c frames).Ends ((discipline n).Rely (some c)) [] s () [] s'

/-- A reader that has handled its frames was never beyond the limit. -/
theorem withinLimit_of_handles (hlib : lib.Lawful) (hs : PolicyText s.policy)
    {frames : List Bytes} (h : Handles lib c s frames s') :
    withinLimit lib (s.clients c).subscriptions frames = true := by
  by_contra hlimit
  have hsafe : Safe (discipline n) (some c) SelfAcquiring (ownView (some c) s) []
      (handleFrames lib c frames) :=
    handleFrames_selfAcquiring hlib (Bool.eq_false_iff.mpr hlimit)
  exact hsafe.not_ends (fun _ _ h => h) (fun _ _ _ h => h) hs rfl h

theorem handleFrame_ends (hlib : lib.Lawful) {rely : Server n → Server n → Prop}
    (hrely : ∀ s s', rely s s' → ∀ t, (discipline n).Rely t s s') (hs : PolicyText s.policy)
    {frame : Bytes} (hends : (handleFrame lib c frame).Ends rely [] s true [] s') :
    PolicyText s'.policy ∧
      (s'.clients c).subscriptions =
        subscriptionsAfter lib (s.clients c).subscriptions frame ∧
      (s'.clients c).connected = (s.clients c).connected ∧
      (∃ r, Replies lib frame r ∧ (s'.clients c).replies = (s.clients c).replies ++ [r]) ∧
      ∀ b, b ≠ c → ownView (some b) s' = ownView (some b) s := by
  have hrelyc (s s' : Server n) (h : rely s s') : (discipline n).Rely (some c) s s' :=
    hrely s s' h (some c)
  have hbelow : belowLimit lib (s.clients c).subscriptions frame = true := by
    by_contra hlimit
    have hsafe : Safe (discipline n) (some c) SelfAcquiring (ownView (some c) s) []
        (handleFrame lib c frame) :=
      handleFrame_selfAcquiring hlib (Bool.eq_false_iff.mpr hlimit)
    exact hsafe.not_ends hrelyc (fun _ _ _ h => h) hs rfl hends
  have hcontract : Triple (discipline n) (some c) [] (ownView (some c) s)
      (handleFrame lib c frame) _ := handleFrame_contract hlib hbelow
  obtain ⟨-, hpolicy, -, r, hr, hview⟩ := hcontract.ends hrelyc hends hs rfl
  have hsubscriptions := congrArg Client.subscriptions hview
  have hconnected := congrArg Client.connected hview
  refine ⟨hpolicy, hsubscriptions, hconnected, ⟨r, hr, congrArg Client.replies hview⟩, ?_⟩
  intro b hb
  exact hcontract.ends_frame hrelyc hends hs rfl (by simpa using hb)
    fun s s' h => (hrely s s' h (some b)).2

/-- What client `c` has after its `frames`. -/
structure After (lib : JsonLib) (c : Fin n) (s : Server n) (frames : List Bytes)
    (s' : Server n) : Prop where
  policy : PolicyText s'.policy
  connected : (s'.clients c).connected = (s.clients c).connected
  subscriptions : (s'.clients c).subscriptions =
    frames.foldl (subscriptionsAfter lib) (s.clients c).subscriptions
  replies : ∃ replies, List.Forall₂ (Replies lib) frames replies ∧
    (s'.clients c).replies = (s.clients c).replies ++ replies

theorem After.append {s'' : Server n} {frames more : List Bytes} (h : After lib c s frames s')
    (h' : After lib c s' more s'') : After lib c s (frames ++ more) s'' := by
  obtain ⟨replies, hreplies, hlog⟩ := h.replies
  obtain ⟨replies', hreplies', hlog'⟩ := h'.replies
  refine ⟨h'.policy, h'.connected.trans h.connected, ?_, replies ++ replies', ?_, ?_⟩
  · rw [h'.subscriptions, h.subscriptions, List.foldl_append]
  · exact List.rel_append hreplies hreplies'
  · rw [hlog', hlog, List.append_assoc]

theorem Handles.after (hlib : lib.Lawful) (hs : PolicyText s.policy) {frames : List Bytes}
    (h : Handles lib c s frames s') : After lib c s frames s' := by
  have hcontract : Triple (discipline n) (some c) [] (ownView (some c) s)
      (handleFrames lib c frames) _ :=
    handleFrames_contract hlib (withinLimit_of_handles hlib hs h)
  obtain ⟨-, hpolicy, replies, hreplies, hview⟩ := hcontract.ends (fun _ _ h => h) h hs rfl
  have hconnected := congrArg Client.connected hview
  have hsubscriptions := congrArg Client.subscriptions hview
  exact ⟨hpolicy, hconnected, hsubscriptions, replies, hreplies, congrArg Client.replies hview⟩

theorem exists_handles (hlib : lib.Lawful) (hs : PolicyText s.policy) (c : Fin n)
    (frames : List Bytes)
    (h : withinLimit lib (s.clients c).subscriptions frames = true) :
    ∃ s', Handles lib c s frames s' := by
  have hcontract : Triple (discipline n) (some c) [] (ownView (some c) s)
      (handleFrames lib c frames) _ := handleFrames_contract hlib h
  obtain ⟨_, s', hends⟩ := hcontract.exists_ends ((discipline n).Rely (some c)) hs rfl
  exact ⟨s', hends⟩

/-- Client `c` has connected and not sent anything yet. -/
structure Connected (c : Fin n) (s : Server n) : Prop where
  policy : PolicyText s.policy
  connected : (s.clients c).connected = true
  subscriptions : (s.clients c).subscriptions = ∅

theorem connected_initial (c : Fin n) : Connected c ({} : Server n) where
  policy := by simp [PolicyText]
  connected := rfl
  subscriptions := rfl

/-! ## The scan of a broadcast -/

theorem subscribers_contract (cs : List (Fin n)) :
    Triple (discipline n) (some c) [.clients] v (subscribers cs) fun v' found =>
      v' = v ∧ (c ∈ found ↔ c ∈ cs ∧ v.connected = true ∧ v.subscriptions.Nonempty) := by
  induction cs with
  | nil => exact .pure ⟨rfl, by simp⟩
  | cons b cs ih =>
      have hconnected : Triple (discipline n) (some c) [.clients] v
          (.read fun s => (s.clients b).connected)
          fun v' connected => v' = v ∧ (c = b → connected = v.connected) :=
        .read fun s _ hv => ⟨rfl, by rintro rfl; rw [← hv]; rfl⟩
      refine hconnected.bind ?_
      rintro v connected ⟨rfl, hb⟩
      split
      · rename_i hconn
        have hsubscribed : Triple (discipline n) (some c) [.clients] v
            (.lock (.out b) (.read fun s => decide (s.clients b).subscriptions.Nonempty))
            fun v' subscribed => v' = v ∧
              (c = b → subscribed = decide v.subscriptions.Nonempty) :=
          .lock (by simp [discipline])
            (.read fun s _ hv => ⟨rfl, by rintro rfl; rw [← hv]; rfl⟩)
        refine hsubscribed.bind ?_
        rintro v subscribed ⟨rfl, hsub⟩
        refine ih.bind ?_
        rintro v found ⟨rfl, hfound⟩
        refine .pure ⟨rfl, ?_⟩
        by_cases hcb : c = b
        · have hv : v.connected = true := (hb hcb).symm.trans hconn
          subst hcb
          rw [hsub rfl]
          by_cases hne : v.subscriptions.Nonempty
          · simp [hne, hv]
          · simp [hne, hfound]
        · cases subscribed <;> simp [hcb, hfound]
      · rename_i hconn
        refine ih.mono ?_
        rintro v found ⟨rfl, hfound⟩
        refine ⟨rfl, hfound.trans ?_⟩
        by_cases hcb : c = b
        · simp [← hb hcb, hconn]
        · simp [hcb]

/-- A broadcast that looks for its clients from here on may deliver to client `c`. -/
def Delivers (c : Fin n) (s : Server n) : Prop :=
  ∃ found s', (Prog.lock .clients (subscribers (List.finRange n)) : Run n (List (Fin n))).Ends
    ((discipline n).Rely (some c)) [] s found [] s' ∧ c ∈ found

theorem delivers_iff (hs : PolicyText s.policy) :
    Delivers c s ↔ (s.clients c).connected = true ∧ (s.clients c).subscriptions.Nonempty := by
  have hscan : Triple (discipline n) (some c) [] (ownView (some c) s)
      (.lock .clients (subscribers (List.finRange n))) _ :=
    .lock (by simp) (subscribers_contract _)
  constructor
  · rintro ⟨found, s', hends, hfound⟩
    obtain ⟨-, -, -, hiff⟩ := hscan.ends (fun _ _ h => h) hends hs rfl
    exact (hiff.mp hfound).2
  · intro h
    obtain ⟨found, s', hends⟩ := hscan.exists_ends ((discipline n).Rely (some c)) hs rfl
    obtain ⟨-, -, -, hiff⟩ := hscan.ends (fun _ _ h => h) hends hs rfl
    exact ⟨found, s', hends, hiff.mpr ⟨List.mem_finRange c, h⟩⟩

/-! ## Unsubscribing -/

/-- The request in a frame, if it is accepted. -/
def requestOf (lib : JsonLib) (frame : Bytes) : Option Request :=
  (parseRequest lib frame kMaxRequestBytes).toOption

theorem mem_requestOf {frame : Bytes} {request : Request} :
    request ∈ requestOf lib frame ↔ parseRequest lib frame kMaxRequestBytes = .ok request := by
  unfold requestOf
  cases parseRequest lib frame kMaxRequestBytes <;> simp [Except.toOption]

theorem subscriptionsAfter_eq (subscriptions : Finset Bytes) (frame : Bytes) :
    subscriptionsAfter lib subscriptions frame =
      ((requestOf lib frame).map (tracked · subscriptions)).getD subscriptions := by
  unfold subscriptionsAfter requestOf
  cases parseRequest lib frame kMaxRequestBytes <;> rfl

/-- One of the frames is a request that subscribed under `id`. -/
def Subscribed (lib : JsonLib) (frames : List Bytes) (id : Bytes) : Prop :=
  ∃ frame ∈ frames, ∃ request ∈ requestOf lib frame,
    request.operation = .subscribe ∧ request.requestId = id

/-- If the later frame unsubscribes, it does so under an id of its own. -/
def OwnId (lib : JsonLib) (earlier later : Bytes) : Prop :=
  ∀ request ∈ requestOf lib earlier, ∀ request' ∈ requestOf lib later,
    request'.operation = .unsubscribe → request'.requestId ≠ request.requestId

instance (earlier later : Bytes) : Decidable (OwnId lib earlier later) := by
  unfold OwnId
  infer_instance

theorem mem_tracked {request : Request} {subscriptions : Finset Bytes} {id : Bytes} :
    id ∈ tracked request subscriptions ↔
      (request.operation = .subscribe ∧ request.requestId = id) ∨
        (id ∈ subscriptions ∧ (request.operation = .unsubscribe → request.requestId ≠ id)) := by
  unfold tracked
  cases hop : request.operation with
  | subscribe => simp [eq_comm]
  | unsubscribe => simp [and_comm, eq_comm]
  | _ => simp

/-- With ids of their own, unsubscribe requests take nothing away. -/
theorem mem_foldl_subscriptionsAfter {frames : List Bytes} (h : frames.Pairwise (OwnId lib))
    {id : Bytes} :
    id ∈ frames.foldl (subscriptionsAfter lib) ∅ ↔ Subscribed lib frames id := by
  induction frames using List.reverseRecOn with
  | nil => simp [Subscribed]
  | append_singleton frames frame ih =>
      obtain ⟨hframes, -, hlast⟩ := List.pairwise_append.mp h
      rw [List.foldl_append, List.foldl_cons, List.foldl_nil, subscriptionsAfter_eq]
      have hsplit : Subscribed lib (frames ++ [frame]) id ↔ Subscribed lib frames id ∨
          ∃ request ∈ requestOf lib frame,
            request.operation = .subscribe ∧ request.requestId = id := by
        simp [Subscribed, or_and_right, exists_or]
      rw [hsplit, ← ih hframes]
      cases hrequest : requestOf lib frame with
      | none => simp
      | some request =>
          rw [Option.map_some, Option.getD_some, mem_tracked, or_comm]
          refine or_congr (and_iff_left_of_imp ?_) (by simp)
          intro hmem hop hid
          obtain ⟨earlier, hearlier, first, hfirst, -, hsame⟩ := (ih hframes).mp hmem
          exact hlast earlier hearlier frame (by simp) first hfirst request hrequest hop
            (hid.trans hsame.symm)

theorem Connected.mem_subscriptions_iff (hstart : Connected c s) {frames : List Bytes}
    (h : After lib c s frames s') (hids : frames.Pairwise (OwnId lib)) {id : Bytes} :
    id ∈ (s'.clients c).subscriptions ↔ Subscribed lib frames id := by
  rw [h.subscriptions, hstart.subscriptions, mem_foldl_subscriptionsAfter hids]

/-- The frame is an unsubscribe request whose params name the subscription `id`. -/
def Unsubscribes (lib : JsonLib) (frame id : Bytes) : Prop :=
  ∃ doc, lib.parse frame = some doc ∧
    (doc.field? (cstr "operation")).bind Json.string? = some (cstr "unsubscribe") ∧
    ((doc.field? (cstr "params")).bind (·.field? (cstr "subscription_id"))).bind Json.string? =
      some id

theorem Unsubscribes.operation {frame id : Bytes} (h : Unsubscribes lib frame id)
    {request : Request} (hrequest : request ∈ requestOf lib frame) :
    request.operation = .unsubscribe := by
  obtain ⟨doc, hdoc, hname, -⟩ := h
  obtain ⟨-, doc', hdoc', haccepted⟩ := parseRequest_eq_ok.mp (mem_requestOf.mp hrequest)
  obtain rfl : doc = doc' := Option.some.inj (hdoc.symm.trans hdoc')
  obtain ⟨name, hname', hoperation⟩ := readOperation_eq_ok.mp haccepted.operation
  obtain rfl := Option.some.inj (hname.symm.trans hname')
  exact Option.some.inj (hoperation.symm.trans (by decide +kernel))

/-- What a reply says in its `removed`. -/
def removed (lib : JsonLib) (reply : Bytes) : Option Bool :=
  (((lib.parse reply).bind (·.field? (cstr "result"))).bind
    (·.field? (cstr "removed"))).bind Json.bool?

theorem removed_replies (hround : lib.RoundTrip round) {frame reply : Bytes}
    (h : Replies lib frame reply) {request : Request} (hrequest : request ∈ requestOf lib frame)
    (hop : request.operation = .unsubscribe) : removed lib reply = some true := by
  obtain ⟨response, hencoded, hresponse⟩ := h
  rw [mem_requestOf.mp hrequest] at hresponse
  obtain ⟨hok, hdump⟩ := hresponse.result (unsubscribeJson request.requestId)
    (by simp [knownResult, hop])
  have hwf : (unsubscribeJson request.requestId).isWellFormed = true :=
    Json.isWellFormed_mkObject (by simp) (by simp)
  have hremoved : (unsubscribeJson request.requestId).field? (cstr "removed") =
      some (.bool true) := (Json.field?_mkObject_eq_some (by simp)).mpr (by simp)
  rw [removed, result_encodeResponse hround hok hwf hdump hencoded]
  simp [hremoved, Json.bool?]

theorem Subscribed.mono {frames more : List Bytes} {id : Bytes} (h : Subscribed lib frames id)
    (hsub : frames ⊆ more) : Subscribed lib more id := by
  obtain ⟨frame, hframe, hrequest⟩ := h
  exact ⟨frame, hsub hframe, hrequest⟩

/-- On one connection, an unsubscribe request under an id of its own that names a subscription
leaves it where it was, and so does everything after it. If the request is accepted, the reply
says that the subscription was removed. -/
theorem unsubscribe_removes_nothing (hlib : lib.Lawful) (hround : lib.RoundTrip round)
    {before after : List Bytes} {frame id : Bytes} {s₀ s₁ s₂ s₃ : Server n}
    (hstart : Connected c s₀) (hbefore : Handles lib c s₀ before s₁)
    (hframe : Handles lib c s₁ [frame] s₂) (hafter : Handles lib c s₂ after s₃)
    (hids : (before ++ frame :: after).Pairwise (OwnId lib))
    (hsubscribed : Subscribed lib before id) (hunsubscribes : Unsubscribes lib frame id) :
    id ∈ (s₂.clients c).subscriptions ∧
      (s₂.clients c).subscriptions = (s₁.clients c).subscriptions ∧
      id ∈ (s₃.clients c).subscriptions ∧ Delivers c s₃ ∧
      ((requestOf lib frame).isSome → ∃ reply,
        (s₂.clients c).replies = (s₁.clients c).replies ++ [reply] ∧
          removed lib reply = some true) := by
  have h₁ := hbefore.after hlib hstart.policy
  have hlast := hframe.after hlib h₁.policy
  have h₂ := h₁.append hlast
  have h₃ := h₂.append (hafter.after hlib h₂.policy)
  rw [List.append_cons] at hids
  have hids₂ : (before ++ [frame]).Pairwise (OwnId lib) :=
    hids.sublist (List.sublist_append_left ..)
  have hids₁ : before.Pairwise (OwnId lib) := hids₂.sublist (List.sublist_append_left ..)
  have hsame : (s₂.clients c).subscriptions = (s₁.clients c).subscriptions := by
    ext id'
    rw [hstart.mem_subscriptions_iff h₂ hids₂, hstart.mem_subscriptions_iff h₁ hids₁]
    refine ⟨?_, fun h => h.mono (by simp)⟩
    rintro ⟨f, hf, request, hrequest, hop, hid⟩
    rcases List.mem_append.mp hf with hf | hf
    · exact ⟨f, hf, request, hrequest, hop, hid⟩
    · obtain rfl : f = frame := by simpa using hf
      cases hop.symm.trans (hunsubscribes.operation hrequest)
  have hmem₁ := (hstart.mem_subscriptions_iff h₁ hids₁).mpr hsubscribed
  have hmem₃ := (hstart.mem_subscriptions_iff h₃ hids).mpr (hsubscribed.mono (by simp))
  have hconnected := h₃.connected.trans hstart.connected
  refine ⟨hsame ▸ hmem₁, hsame, hmem₃, (delivers_iff h₃.policy).mpr ⟨hconnected, id, hmem₃⟩, ?_⟩
  intro haccepted
  obtain ⟨request, hrequest⟩ := Option.isSome_iff_exists.mp haccepted
  obtain ⟨replies, hreplies, hlog⟩ := hlast.replies
  obtain _ | ⟨hreply, ⟨⟩⟩ := hreplies
  exact ⟨_, hlog, removed_replies hround hreply hrequest (hunsubscribes.operation hrequest)⟩

/-- The frame of an unsubscribe request under `id` that names the subscription `target`. -/
def unsubscribeFrame (id target : ℕ) : Bytes :=
  cstr "\x7b\"protocol_version\":1,\"operation\":\"unsubscribe\",\"request_id\":\"" ++
    Format.decimal id ++ cstr "\",\"params\":\x7b\"subscription_id\":\"" ++
    Format.decimal target ++ cstr "\"\x7d\x7d"

theorem unsubscribes_unsubscribeFrame :
    Unsubscribes JsonReference.lib (unsubscribeFrame 1 0) (Format.decimal 0) := by
  obtain ⟨doc, hdoc⟩ : ∃ doc, JsonReference.lib.parse (unsubscribeFrame 1 0) = some doc :=
    Option.isSome_iff_exists.mp (by decide +kernel)
  have hoperation : ((JsonReference.lib.parse (unsubscribeFrame 1 0)).bind
      fun doc => (doc.field? (cstr "operation")).bind Json.string?) =
        some (cstr "unsubscribe") := by decide +kernel
  have hnames : ((JsonReference.lib.parse (unsubscribeFrame 1 0)).bind
      fun doc => ((doc.field? (cstr "params")).bind (·.field? (cstr "subscription_id"))).bind
        Json.string?) = some (Format.decimal 0) := by decide +kernel
  rw [hdoc, Option.bind_some] at hoperation hnames
  exact ⟨doc, hdoc, hoperation, hnames⟩

theorem subscribed_requestFrame :
    Subscribed JsonReference.lib [requestFrame (cstr "subscribe") 0] (Format.decimal 0) :=
  ⟨requestFrame (cstr "subscribe") 0, by simp, ⟨.subscribe, Format.decimal 0, []⟩,
    by decide +kernel, rfl, rfl⟩

/-- A client subscribes under `0`, and unsubscribes from `0` under `1`. -/
theorem unsubscribe_removes_nothing_subscriber :
    ∃ s₁ s₂ s₃ : Server 1,
      Handles JsonReference.lib 0 {} [requestFrame (cstr "subscribe") 0] s₁ ∧
      Handles JsonReference.lib 0 s₁ [unsubscribeFrame 1 0] s₂ ∧
      Handles JsonReference.lib 0 s₂ [] s₃ ∧
      Format.decimal 0 ∈ (s₂.clients 0).subscriptions ∧
      (s₂.clients 0).subscriptions = (s₁.clients 0).subscriptions ∧
      Format.decimal 0 ∈ (s₃.clients 0).subscriptions ∧ Delivers 0 s₃ ∧
      ((requestOf JsonReference.lib (unsubscribeFrame 1 0)).isSome → ∃ reply,
        (s₂.clients 0).replies = (s₁.clients 0).replies ++ [reply] ∧
          removed JsonReference.lib reply = some true) := by
  have hlib := JsonReference.lib_lawful
  have hstart := connected_initial (0 : Fin 1)
  obtain ⟨s₁, h₁⟩ := exists_handles hlib hstart.policy 0 [requestFrame (cstr "subscribe") 0]
    (by decide +kernel)
  have hafter₁ := h₁.after hlib hstart.policy
  obtain ⟨s₂, h₂⟩ := exists_handles hlib hafter₁.policy 0 [unsubscribeFrame 1 0]
    (by rw [hafter₁.subscriptions]; decide +kernel)
  have hafter₂ := h₂.after hlib hafter₁.policy
  obtain ⟨s₃, h₃⟩ := exists_handles hlib hafter₂.policy 0 [] rfl
  exact ⟨s₁, s₂, s₃, h₁, h₂, h₃, unsubscribe_removes_nothing hlib JsonReference.lib_roundTrip
    hstart h₁ h₂ h₃ (by decide +kernel) subscribed_requestFrame unsubscribes_unsubscribeFrame⟩

/-- The id that was unsubscribed from is still in the set, and the next event is delivered. -/
theorem unsubscribed_client_receives :
    Unsubscribes JsonReference.lib (unsubscribeFrame 1 0) (Format.decimal 0) ∧
      ∃ s : Server 1, Handles JsonReference.lib 0 {}
        [requestFrame (cstr "subscribe") 0, unsubscribeFrame 1 0] s ∧
        Format.decimal 0 ∈ (s.clients 0).subscriptions ∧ Delivers 0 s := by
  have hlib := JsonReference.lib_lawful
  have hstart := connected_initial (0 : Fin 1)
  obtain ⟨s, h⟩ := exists_handles hlib hstart.policy 0
    [requestFrame (cstr "subscribe") 0, unsubscribeFrame 1 0] (by decide +kernel)
  have hafter := h.after hlib hstart.policy
  have hmem : Format.decimal 0 ∈ (s.clients 0).subscriptions := by
    rw [hafter.subscriptions]
    decide +kernel
  exact ⟨unsubscribes_unsubscribeFrame, s, h, hmem,
    (delivers_iff hafter.policy).mpr ⟨hafter.connected, _, hmem⟩⟩

/-! ## Event types -/

/-- A subscription, with the `event_types` that its request gave. -/
structure Subscription where
  id : Bytes
  eventTypes : Option Json

/-- The subscription gave no event types, or lists this one. -/
def Subscription.admits (subscription : Subscription) (type : EventType) : Bool :=
  match subscription.eventTypes with
  | none => true
  | some types => (types.array?.getD []).any fun t => t.string? == some (eventTypeName type)

/-- The `event_types` in the params of a request. -/
def eventTypesOf (lib : JsonLib) (frame : Bytes) : Option Json :=
  ((lib.parse frame).bind (·.field? (cstr "params"))).bind (·.field? (cstr "event_types"))

/-- The subscriptions in the server's own set after one more frame. As in `tracked`, an unsubscribe
request ends the one of its own id, where `Relay` ends the one that its params name. -/
def liveAfter (lib : JsonLib) (live : List Subscription) (frame : Bytes) : List Subscription :=
  match requestOf lib frame with
  | none => live
  | some request =>
      match request.operation with
      | .subscribe => live ++ [⟨request.requestId, eventTypesOf lib frame⟩]
      | .unsubscribe => live.filter fun subscription => subscription.id != request.requestId
      | _ => live

/-- The live subscriptions of a client that has sent `frames`. -/
def live (lib : JsonLib) (frames : List Bytes) : List Subscription :=
  frames.foldl (liveAfter lib) []

theorem ids_liveAfter (subscriptions : List Subscription) (frame : Bytes) :
    ((liveAfter lib subscriptions frame).map Subscription.id).toFinset =
      subscriptionsAfter lib (subscriptions.map Subscription.id).toFinset frame := by
  rw [subscriptionsAfter_eq, liveAfter]
  cases requestOf lib frame with
  | none => rfl
  | some request =>
      ext id
      rw [Option.map_some, Option.getD_some, mem_tracked]
      cases hop : request.operation with
      | subscribe => simp [hop, eq_comm]
      | unsubscribe =>
          simp only [hop, List.mem_toFinset, List.mem_map, List.mem_filter, bne_iff_ne]
          constructor
          · rintro ⟨subscription, ⟨hmem, hne⟩, rfl⟩
            exact .inr ⟨⟨subscription, hmem, rfl⟩, fun _ => hne.symm⟩
          · rintro (⟨hsub, -⟩ | ⟨⟨subscription, hmem, rfl⟩, hne⟩)
            · cases hsub
            · exact ⟨subscription, ⟨hmem, (hne trivial).symm⟩, rfl⟩
      | _ => simp [hop]

/-- The server keeps the ids of the live subscriptions. -/
theorem foldl_subscriptionsAfter_eq (frames : List Bytes) :
    frames.foldl (subscriptionsAfter lib) ∅ =
      ((live lib frames).map Subscription.id).toFinset := by
  rw [live]
  induction frames using List.reverseRecOn with
  | nil => rfl
  | append_singleton frames frame ih =>
      rw [List.foldl_append, List.foldl_append, List.foldl_cons, List.foldl_cons, List.foldl_nil,
        List.foldl_nil, ids_liveAfter, ih]

/-- However a client has subscribed, an event reaches it only by a subscription that admits its
type exactly when the client has no subscriptions or one that admits the type. -/
theorem delivers_admitted_iff (hlib : lib.Lawful) {frames : List Bytes} (hstart : Connected c s)
    (hframes : Handles lib c s frames s') (event : Event) :
    (Delivers c s' → ∃ subscription ∈ live lib frames, subscription.admits event.type = true) ↔
      (live lib frames ≠ [] →
        ∃ subscription ∈ live lib frames, subscription.admits event.type = true) := by
  have hafter := hframes.after hlib hstart.policy
  have hdelivers : Delivers c s' ↔ live lib frames ≠ [] := by
    rw [delivers_iff hafter.policy, hafter.connected, hstart.connected, hafter.subscriptions,
      hstart.subscriptions, foldl_subscriptionsAfter_eq]
    simp [List.toFinset_nonempty_iff]
  rw [hdelivers]

/-- The frame of a subscribe request under the id `0` for DNS events. -/
def dnsSubscription : Bytes :=
  cstr "\x7b\"protocol_version\":1,\"operation\":\"subscribe\",\"request_id\":\"0\"," ++
    cstr "\"params\":\x7b\"event_types\":[\"dns\"]\x7d\x7d"

theorem exists_handles_dnsSubscription :
    ∃ s : Server 1, Handles JsonReference.lib 0 {} [dnsSubscription] s :=
  exists_handles JsonReference.lib_lawful (connected_initial 0).policy 0 _ (by decide +kernel)

/-- A client that asked for DNS events, when one is broadcast. -/
theorem delivers_admitted_dns :
    ∃ s : Server 1, Handles JsonReference.lib 0 {} [dnsSubscription] s ∧
      ((Delivers 0 s → ∃ subscription ∈ live JsonReference.lib [dnsSubscription],
          subscription.admits .dns = true) ↔
        (live JsonReference.lib [dnsSubscription] ≠ [] →
          ∃ subscription ∈ live JsonReference.lib [dnsSubscription],
            subscription.admits .dns = true)) := by
  obtain ⟨s, h⟩ := exists_handles_dnsSubscription
  exact ⟨s, h, delivers_admitted_iff JsonReference.lib_lawful (connected_initial 0) h
    { type := .dns }⟩

/-- A client that asked for DNS events gets those of connections as well. -/
theorem dns_subscriber_receives_connection :
    ∃ s : Server 1, Handles JsonReference.lib 0 {} [dnsSubscription] s ∧ Delivers 0 s ∧
      ∀ subscription ∈ live JsonReference.lib [dnsSubscription],
        subscription.admits .connection = false := by
  obtain ⟨s, h⟩ := exists_handles_dnsSubscription
  have hafter := h.after JsonReference.lib_lawful (connected_initial 0).policy
  have hmem : Format.decimal 0 ∈ (s.clients 0).subscriptions := by
    rw [hafter.subscriptions]
    decide +kernel
  exact ⟨s, h, (delivers_iff hafter.policy).mpr ⟨hafter.connected, _, hmem⟩, by decide +kernel⟩

end Ezcap.Server
