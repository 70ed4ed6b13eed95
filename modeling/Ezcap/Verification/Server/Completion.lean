import Mathlib.Data.Fin.VecNotation
import Ezcap.Library.JsonReference
import Ezcap.Verification.Server.Contracts

/-! Whether the server answers every frame. A reader that refuses a subscription delivers the
refusal while it holds the mutex that delivery acquires, so the client that asks for one
subscription too many blocks its own reader, and the next broadcast with it. -/

namespace Ezcap.Server

open StdString Utf8 Ipc Discipline

variable {n : ℕ} {lib : JsonLib} {c : Fin n} {held : List (Mutex n)} {v : Client}

/-! ## At the limit -/

/-- The thread is about to acquire a mutex that it holds. -/
def SelfAcquiring {α : Type} (_ : Client) (held : List (Mutex n)) (prog : Run n α) : Prop :=
  ∃ m next, prog = .acquire m next ∧ m ∈ held

theorem selfAcquiring_bind {α β : Type} {t : Option (Fin n)} {prog : Run n α} {k : α → Run n β}
    (h : Safe (discipline n) t SelfAcquiring v held prog) :
    Safe (discipline n) t SelfAcquiring v held (prog.bind k) := by
  refine h.bind ?_
  rintro v' held' _ ⟨m, next, rfl, hm⟩
  exact .exit ⟨m, next.bind k, rfl, hm⟩

theorem deliver_selfAcquiring {t : Option (Fin n)} {encoded : Bytes} (h : .out c ∈ held) :
    Safe (discipline n) t SelfAcquiring v held (deliver c encoded) :=
  .exit ⟨.out c, _, rfl, h⟩

theorem reply_selfAcquiring {encoded : Option Bytes} (hencoded : encoded.isSome = true)
    (h : .out c ∈ held) :
    Safe (discipline n) (some c) SelfAcquiring v held (reply c encoded) := by
  have horAbort : Unseen (some c) held v (Prog.orAbort encoded) := .orAbort hencoded fun _ _ => rfl
  refine horAbort.safe_bind fun v' r _ => ?_
  exact (modify_own fun _ => rfl).safe_bind fun _ _ _ => deliver_selfAcquiring h

theorem refuseSubscription_selfAcquiring {request : Request} (hlib : lib.Lawful)
    (hid : Valid request.requestId) (hop : request.operation = .subscribe)
    (hv : kMaxSubscriptionsPerClient ≤ v.subscriptions.card) :
    Safe (discipline n) (some c) SelfAcquiring v [] (refuseSubscription lib c request) := by
  rw [refuseSubscription, if_pos hop]
  refine .acquire (by simp) (selfAcquiring_bind ?_)
  refine count_contract.safe_bind ?_
  rintro _ _ ⟨rfl, rfl⟩
  rw [if_pos hv]
  exact selfAcquiring_bind
    (reply_selfAcquiring (encodeError_isSome hlib hid (valid_cstr _)) (by simp))

theorem handleFrame_selfAcquiring (hlib : lib.Lawful) {frame : Bytes}
    (h : belowLimit lib v.subscriptions frame = false) :
    Safe (discipline n) (some c) SelfAcquiring v [] (handleFrame lib c frame) := by
  unfold handleFrame
  unfold belowLimit at h
  cases hparse : parseRequest lib frame kMaxRequestBytes with
  | error error => simp [hparse] at h
  | ok request =>
      simp only [hparse, decide_eq_false_iff_not, Classical.not_imp, not_lt] at h
      exact selfAcquiring_bind
        (refuseSubscription_selfAcquiring hlib (valid_requestId hlib hparse) h.1 h.2)

/-- The first frame beyond the limit is reached, since those before it are served. -/
theorem handleFrames_selfAcquiring (hlib : lib.Lawful) {frames : List Bytes}
    (h : withinLimit lib v.subscriptions frames = false) :
    Safe (discipline n) (some c) SelfAcquiring v [] (handleFrames lib c frames) := by
  induction frames generalizing v with
  | nil => cases h
  | cons frame frames ih =>
      cases hbelow : belowLimit lib v.subscriptions frame with
      | false => exact selfAcquiring_bind (handleFrame_selfAcquiring hlib hbelow)
      | true =>
          rw [withinLimit, hbelow, Bool.true_and] at h
          refine (handleFrame_contract hlib hbelow).safe_bind ?_
          rintro _ _ ⟨rfl, r, -, rfl⟩
          exact ih h

theorem clientLoop_selfAcquiring (hlib : lib.Lawful) {frames : List Bytes}
    (hv : v.connected = true) (h : withinLimit lib v.subscriptions frames = false) :
    Safe (discipline n) (some c) SelfAcquiring v [] (clientLoop lib c frames) := by
  refine (found_contract hv).safe_bind ?_
  rintro _ _ ⟨rfl, rfl⟩
  exact selfAcquiring_bind (handleFrames_selfAcquiring hlib h)

/-! ## Events that cannot be encoded -/

/-- The thread has thrown. -/
def Aborting {α : Type} (_ : Client) (_ : List (Mutex n)) (prog : Run n α) : Prop := prog = .abort

theorem aborting_bind {α β : Type} {t : Option (Fin n)} {prog : Run n α} {k : α → Run n β}
    (h : Safe (discipline n) t Aborting v held prog) :
    Safe (discipline n) t Aborting v held (prog.bind k) := by
  refine h.bind ?_
  rintro v' held' _ rfl
  exact .exit rfl

theorem broadcast_aborting {event : Event} (h : encodeEvent lib event = none) :
    Safe (discipline n) none Aborting v [] (broadcast lib event) := by
  have hclients : Unseen none [] v (.lock .clients (subscribers (List.finRange n))) :=
    .lock (by simp) (unseen_subscribers _)
  refine hclients.safe_bind fun v' clients _ => aborting_bind ?_
  rw [h]
  exact .exit rfl

theorem forEach_broadcast_aborting {events : List Event}
    (h : ∃ e ∈ events, encodeEvent lib e = none) :
    Safe (discipline n) none Aborting v [] (.forEach (broadcast lib) events) := by
  induction events generalizing v with
  | nil =>
      obtain ⟨e, he, -⟩ := h
      cases he
  | cons event events ih =>
      by_cases hevent : encodeEvent lib event = none
      · exact aborting_bind (broadcast_aborting hevent)
      · refine (unseen_broadcast (Option.isSome_iff_ne_none.mpr hevent)).safe_bind ?_
        intro v' _ _
        obtain ⟨e, he, hnone⟩ := h
        rcases List.mem_cons.mp he with rfl | he
        · exact absurd hnone hevent
        · exact ih ⟨e, he, hnone⟩

/-! ## The whole server -/

variable {status : DaemonStatus} {frames : Fin n → List Bytes} {events : List Event}

/-- No thread ever tries to acquire a mutex that it holds, and however the threads are scheduled
they all come to their end, with one reply to each frame of each client, in order. -/
structure Serves (lib : JsonLib) (status : DaemonStatus) (frames : Fin n → List Bytes)
    (events : List Event) : Prop where
  noSelfAcquire : ∀ p, (pool lib status frames events).Reach p → ¬ p.SelfAcquire
  completes : (pool lib status frames events).Inevitably fun p =>
    (∀ t, p.code t = .pure ()) ∧
      ∀ c, List.Forall₂ (RepliesTo lib) (frames c) (p.shared.clients c).replies

theorem pool_alone (t : Option (Fin n)) :
    Alone (discipline n) (pool lib status frames events) t {} []
      ((pool lib status frames events).code t) where
  inv := by simp [discipline, pool, PolicyEngine.PolicyText]
  view := by cases t <;> rfl
  code := rfl
  others := by
    intro u _
    cases u with
    | none => cases events <;> simp [pool, Prog.forEach, broadcast, Prog.lock, Bind.bind, Prog.bind]
    | some c => simp [pool, clientLoop, Prog.lock, Bind.bind, Prog.bind]
  holds := ⟨by simp [pool], List.Pairwise.nil⟩
  free := fun _ _ => rfl

/-- A client beyond the limit blocks its own reader. -/
theorem selfAcquire_reachable (hlib : lib.Lawful) {c : Fin n}
    (h : withinLimit lib ∅ (frames c) = false) :
    ∃ p, (pool lib status frames events).Reach p ∧ p.SelfAcquire := by
  have hsafe : Safe (discipline n) (some c) SelfAcquiring {} []
      ((pool lib status frames events).code (some c)) :=
    clientLoop_selfAcquiring hlib rfl h
  obtain ⟨p, v, held, prog, hreach, halone, m, next, hprog, hm⟩ := hsafe.exec (pool_alone (some c))
  exact ⟨p, hreach, some c, m, next, halone.code.trans hprog, (halone.holds.owner m).mpr hm⟩

/-- An event that cannot be encoded ends the process before the threads have ended. -/
theorem not_inevitably_ended (h : ∃ e ∈ events, encodeEvent lib e = none)
    {goal : Pool (Option (Fin n)) (Mutex n) (Server n) → Prop}
    (hgoal : ∀ p, goal p → ∀ t, p.code t = .pure ()) :
    ¬ (pool lib status frames events).Inevitably goal := by
  intro hinevitably
  have hsafe : Safe (discipline n) none Aborting {} []
      ((pool lib status frames events).code none) :=
    forEach_broadcast_aborting h
  obtain ⟨p, v, held, prog, hreach, halone, hprog⟩ := hsafe.exec (pool_alone none)
  have habort : p.code none = .abort := halone.code.trans hprog
  cases hinevitably.of_reach (fun q hq => Pool.not_step_of_ended (hgoal q hq)) hreach with
  | now hp => simp [hgoal p hp none] at habort
  | later hstep _ => exact Pool.not_step_of_abort habort hstep

/-- What each thread has done when it ends. -/
def Served (lib : JsonLib) (frames : Fin n → List Bytes) : Option (Fin n) → Client → Prop
  | none, _ => True
  | some c, v => List.Forall₂ (RepliesTo lib) (frames c) v.replies

theorem pool_good (hlib : lib.Lawful) (hframes : ∀ c, withinLimit lib ∅ (frames c) = true)
    (hevents : ∀ e ∈ events, EventText e) :
    Good (discipline n) (Served lib frames) (pool lib status frames events) := by
  refine good_initial (pool_alone none).inv (fun _ => rfl) fun t => ?_
  rw [(pool_alone t).view]
  cases t with
  | none =>
      refine Triple.forEach trivial fun e he v _ => ?_
      exact (unseen_broadcast ((encodeEvent_isSome hlib e).mpr (hevents e he))).mono
        fun _ _ _ => trivial
  | some c =>
      refine (clientLoop_contract hlib rfl (hframes c)).mono ?_
      rintro v _ ⟨replies, hreplies, hv⟩
      simpa [Served, hv] using hreplies

/-- The server serves all its clients exactly when none of them asks for a subscription while it
holds as many as it may, and every event that is broadcast is text. -/
theorem serves_iff (hlib : lib.Lawful) (status : DaemonStatus) (frames : Fin n → List Bytes)
    (events : List Event) :
    Serves lib status frames events ↔
      (∀ c, withinLimit lib ∅ (frames c) = true) ∧ ∀ e ∈ events, EventText e := by
  constructor
  · rintro ⟨hself, hcompletes⟩
    refine ⟨fun c => ?_, fun e he => ?_⟩
    · by_contra hlimit
      obtain ⟨p, hreach, hp⟩ := selfAcquire_reachable hlib (Bool.eq_false_iff.mpr hlimit)
      exact hself p hreach hp
    · by_contra htext
      have hnone : encodeEvent lib e = none := by
        rw [← encodeEvent_isSome hlib, Option.not_isSome_iff_eq_none] at htext
        exact htext
      exact not_inevitably_ended ⟨e, he, hnone⟩ (fun p hp => hp.1) hcompletes
  · rintro ⟨hframes, hevents⟩
    have hgood : Good (discipline n) (Served lib frames) (pool lib status frames events) :=
      pool_good hlib hframes hevents
    refine ⟨fun p hreach => (hgood.reach hreach).not_selfAcquire, ?_⟩
    refine hgood.inevitably.mono fun p hp => ⟨fun t => (hp t).1, fun c => (hp (some c)).2⟩

/-- The frame of a request for `operation` under the decimal `id`. -/
def requestFrame (operation : Bytes) (id : ℕ) : Bytes :=
  cstr "\x7b\"protocol_version\":1,\"operation\":\"" ++ operation ++
    cstr "\",\"request_id\":\"" ++ Format.decimal id ++ cstr "\"\x7d"

/-- Two clients, one that takes all its subscriptions and exchanges one of them, and one that
sends bytes that are no request. -/
theorem serves_full_client :
    Serves JsonReference.lib {}
      ![(List.range 8).map (requestFrame (cstr "subscribe")) ++
          [requestFrame (cstr "unsubscribe") 3, requestFrame (cstr "subscribe") 8],
        [[0xff], cstr "hello"]]
      [{ eventId := cstr "1" }] :=
  (serves_iff JsonReference.lib_lawful _ _ _).mpr
    ⟨by decide +kernel, by
      simp only [List.mem_singleton, forall_eq]
      exact ⟨valid_cstr _, valid_nil, by simp, by simp, by simp, by simp, by simp⟩⟩

/-- The ninth subscription of a client blocks its reader. -/
theorem ninth_subscription_selfAcquire :
    ∃ p, (pool JsonReference.lib {}
      (fun _ : Fin 1 => (List.range 9).map (requestFrame (cstr "subscribe"))) []).Reach p ∧
      p.SelfAcquire :=
  selfAcquire_reachable (c := 0) JsonReference.lib_lawful (by decide +kernel)

end Ezcap.Server
