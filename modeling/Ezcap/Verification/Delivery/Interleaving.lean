import Ezcap.Verification.Delivery.Accounting
import Mathlib.Algebra.Order.BigOperators.Group.Finset
import Mathlib.Data.Multiset.AddSub

/-! What the bytes on a client's socket are. The queue is sent without its mutex, so the stream
is made of whole messages only as long as no thread sends to a client to which another
one has sent a part of a message. -/

namespace Ezcap.Delivery

open StdString

/-! ## Every message is in one place -/

section Numbers

variable {C T : Type} [Fintype C] [Fintype T]

/-- The messages that are waiting or sent have different numbers, all of them given out. -/
structure Numbered (s : State C T) : Prop where
  nodup : ((waiting s + sent s).map Message.number).Nodup
  lt : ∀ m ∈ waiting s + sent s, m.number < s.handed.length

theorem Numbered.of_le {s s' : State C T} (hs : Numbered s)
    (hle : waiting s' + sent s' ≤ waiting s + sent s)
    (hhanded : s.handed.length ≤ s'.handed.length) : Numbered s' where
  nodup := Multiset.nodup_of_le (Multiset.map_le_map hle) hs.nodup
  lt := fun m hm => (hs.lt m (Multiset.mem_of_le hle hm)).trans_le hhanded

variable [DecidableEq C] [DecidableEq T]

theorem Numbered.push {s : State C T} {t : T} (hs : Numbered s) (hidle : s.phase t = .idle)
    (c : C) (encoded : Bytes) : Numbered (push s t c encoded) := by
  have hsent : sent (Delivery.push s t c encoded) = sent s := by
    unfold Delivery.push
    split <;> rfl
  have hhanded : (Delivery.push s t c encoded).handed.length = s.handed.length + 1 := by
    unfold Delivery.push
    split <;> simp
  by_cases hfull : (s.outQueue c).length ≥ Ipc.kMaxOutgoingQueue
  · refine hs.of_le ?_ (by omega)
    rw [hsent, ← waiting_push_full s t c encoded hfull]
    exact add_le_add_left (Multiset.le_add_right _ _) _
  · have hplaces : waiting (Delivery.push s t c encoded) + sent (Delivery.push s t c encoded) =
        ⟨s.handed.length, encoded ++ cstr "\n"⟩ ::ₘ (waiting s + sent s) := by
      rw [hsent, waiting_push s t c encoded hfull hidle, add_right_comm,
        Multiset.add_comm _ {_}, Multiset.singleton_add]
    constructor
    · rw [hplaces, Multiset.map_cons, Multiset.nodup_cons]
      refine ⟨?_, hs.nodup⟩
      intro hmem
      obtain ⟨m, hm, hnumber⟩ := Multiset.mem_map.mp hmem
      exact absurd (hs.lt m hm) (by simp [hnumber])
    · rw [hplaces, hhanded]
      intro m hm
      rcases Multiset.mem_cons.mp hm with rfl | hm
      · simp
      · exact (hs.lt m hm).trans (Nat.lt_succ_self _)

theorem numbered_step {s s' : State C T} {a : Action C T} (hs : Numbered s)
    (h : step s a = some s') : Numbered s' := by
  cases a with
  | push t c encoded =>
      obtain ⟨hidle, rfl⟩ := step_push h
      exact hs.push hidle c encoded
  | take t =>
      obtain ⟨c, hphase, rfl⟩ := step_take h
      exact hs.of_le (by rw [waiting_take s t c hphase]; rfl) le_rfl
  | send t n =>
      obtain ⟨c, total, message, k, rest, hphase, -, -, rfl⟩ := step_send h
      by_cases hlast : k + n = message.text.length
      · refine hs.of_le (le_of_eq ?_) (by simp [send, hlast])
        rw [sent_send_last hlast, ← waiting_send_last hphase hlast, add_assoc,
          Multiset.add_comm (sent s), ← add_assoc]
      · refine hs.of_le (le_of_eq ?_) (by simp [send, hlast])
        rw [waiting_send_part hphase hlast]
        simp [send, hlast, sent]
  | fail t =>
      obtain ⟨c, total, message, k, rest, hphase, rfl⟩ := step_fail h
      refine hs.of_le ?_ le_rfl
      rw [← waiting_fail hphase]
      exact add_le_add_left (Multiset.le_add_right _ _) _

end Numbers

/-! ## Every message is at its client -/

section Addresses

variable {C T : Type}

/-- The messages in the queue of a client, on the way to it or sent to it were handed over for
this client. -/
structure Addressed (s : State C T) : Prop where
  queue : ∀ c, ∀ m ∈ s.outQueue c, (c, m) ∈ s.handed
  batch : ∀ t c total message k rest, s.phase t = .sending c total message k rest →
    ∀ m ∈ message :: rest, (c, m) ∈ s.handed
  completed : ∀ c, ∀ m ∈ s.completed c, (c, m) ∈ s.handed

variable [DecidableEq C] [DecidableEq T]

omit [DecidableEq T] in
theorem forall_mem_update {f : C → List Message} {handed : List (C × Message)} {c : C}
    {messages : List Message} (hf : ∀ c, ∀ m ∈ f c, (c, m) ∈ handed)
    (hmessages : ∀ m ∈ messages, (c, m) ∈ handed) (c' : C) :
    ∀ m ∈ Function.update f c messages c', (c', m) ∈ handed :=
  (Function.forall_update_iff f fun c messages => ∀ m ∈ messages, (c, m) ∈ handed).mpr
    ⟨hmessages, fun c' _ => hf c'⟩ c'

omit [DecidableEq C] in
/-- The thread `t` goes on with a batch for `c`, and nothing changes for the others. -/
theorem Addressed.update_phase {s : State C T} (hs : Addressed s) {t : T} {phase : Phase C}
    {handed : List (C × Message)} (hhanded : ∀ x ∈ s.handed, x ∈ handed)
    (hphase : ∀ c total message k rest, phase = .sending c total message k rest →
      ∀ m ∈ message :: rest, (c, m) ∈ handed)
    (t' : T) (c : C) (total : ℕ) (message : Message) (k : ℕ) (rest : List Message)
    (ht' : Function.update s.phase t phase t' = .sending c total message k rest) :
    ∀ m ∈ message :: rest, (c, m) ∈ handed := by
  refine (Function.forall_update_iff s.phase fun _ phase =>
    phase = .sending c total message k rest → ∀ m ∈ message :: rest, (c, m) ∈ handed).mpr
      ⟨hphase c total message k rest, ?_⟩ t' ht'
  intro t' _ ht' m hm
  exact hhanded _ (hs.batch t' c total message k rest ht' m hm)

omit [DecidableEq C] [DecidableEq T] in
theorem addressed_start {c c' : C} {total total' k : ℕ} {batch rest : List Message}
    {message : Message} {handed : List (C × Message)} (hbatch : ∀ m ∈ batch, (c, m) ∈ handed)
    (h : start c total batch = .sending c' total' message k rest) :
    ∀ m ∈ message :: rest, (c', m) ∈ handed := by
  cases batch with
  | nil => cases h
  | cons m batch =>
      cases h
      exact hbatch

theorem addressed_step {s s' : State C T} {a : Action C T} (hs : Addressed s)
    (h : step s a = some s') : Addressed s' := by
  cases a with
  | push t c encoded =>
      obtain ⟨-, rfl⟩ := step_push h
      have hold (x : C × Message) (hx : x ∈ s.handed) :
          x ∈ s.handed ++ [(c, ⟨s.handed.length, encoded ++ cstr "\n"⟩)] :=
        List.mem_append_left _ hx
      unfold push
      split
      · exact ⟨forall_mem_update (fun c m hm => hold _ (hs.queue c m hm)) (by simp),
          fun t c total message k rest ht m hm =>
            hold _ (hs.batch t c total message k rest ht m hm),
          fun c m hm => hold _ (hs.completed c m hm)⟩
      · refine ⟨forall_mem_update (fun c m hm => hold _ (hs.queue c m hm)) ?_,
          hs.update_phase hold nofun, fun c m hm => hold _ (hs.completed c m hm)⟩
        intro m hm
        rcases List.mem_append.mp hm with hm | hm
        · exact hold _ (hs.queue c m hm)
        · rw [List.mem_singleton.mp hm]
          simp
  | take t =>
      obtain ⟨c, -, rfl⟩ := step_take h
      refine ⟨forall_mem_update hs.queue (by simp), hs.update_phase (fun _ hx => hx) ?_,
        hs.completed⟩
      intro c' total message k rest hstart
      exact addressed_start (hs.queue c) hstart
  | send t n =>
      obtain ⟨c, total, message, k, rest, hphase, -, -, rfl⟩ := step_send h
      have hbatch := hs.batch t c total message k rest hphase
      unfold send
      simp only
      split
      · refine ⟨hs.queue, hs.update_phase (fun _ hx => hx) ?_,
          forall_mem_update hs.completed ?_⟩
        · intro c' total' message' k' rest' hstart
          exact addressed_start (fun m hm => hbatch m (List.mem_cons_of_mem _ hm)) hstart
        · intro m hm
          rcases List.mem_append.mp hm with hm | hm
          · exact hs.completed c m hm
          · rw [List.mem_singleton.mp hm]
            exact hbatch message (by simp)
      · refine ⟨hs.queue, hs.update_phase (fun _ hx => hx) ?_, hs.completed⟩
        rintro _ _ _ _ _ ⟨⟩
        exact hbatch
  | fail t =>
      obtain ⟨c, total, message, k, rest, -, rfl⟩ := step_fail h
      exact ⟨hs.queue, hs.update_phase (fun _ hx => hx) nofun, hs.completed⟩

end Addresses

/-! ## The stream -/

section Stream

variable {C T : Type}

/-- The thread has sent a part of a message to the client. -/
def Midway (s : State C T) (t : T) (c : C) : Prop :=
  ∃ total message k rest, s.phase t = .sending c total message k rest ∧ 0 < k

/-- After the complete messages the stream ends with nothing, or with what the only thread that
is midway has sent. -/
def Tail (s : State C T) (c : C) (tail : Bytes) : Prop :=
  (tail = [] ∧ ∀ t, ¬ Midway s t c) ∨
    ∃ t total message k rest, s.phase t = .sending c total message k rest ∧ 0 < k ∧
      tail = message.text.take k ∧ ∀ u, Midway s u c → u = t

def Whole (s : State C T) : Prop :=
  ∀ c, ∃ tail, s.stream c = (s.completed c).flatMap Message.text ++ tail ∧ Tail s c tail

/-- A thread sends only if no other one is midway at the same client, and no send fails midway. -/
def Exclusive (s : State C T) : Action C T → Prop
  | .send t _ => ∀ c total message k rest, s.phase t = .sending c total message k rest →
      ∀ u, u ≠ t → ¬ Midway s u c
  | .fail t => ∀ c, ¬ Midway s t c
  | _ => True

/-- The client to which the thread is sending, and what it has sent of its message. -/
def Phase.current : Phase C → Option (C × ℕ)
  | .sending c _ _ k _ => some (c, k)
  | _ => none

theorem current_eq_some {phase : Phase C} {c : C} {k : ℕ} :
    phase.current = some (c, k) ↔
      ∃ total message rest, phase = .sending c total message k rest := by
  cases phase <;> simp [Phase.current]

theorem exclusive_send_iff {s : State C T} {t : T} {n : ℕ} :
    Exclusive s (.send t n) ↔
      ∀ p ∈ (s.phase t).current, ∀ u, u ≠ t → ¬ Midway s u p.1 := by
  constructor
  · rintro h ⟨c, k⟩ hp
    obtain ⟨total, message, rest, hphase⟩ := current_eq_some.mp hp
    exact h c total message k rest hphase
  · intro h c total message k rest hphase
    exact h (c, k) (current_eq_some.mpr ⟨total, message, rest, hphase⟩)

variable [DecidableEq C] [DecidableEq T]

instance (s : State C T) (t : T) (c : C) : Decidable (Midway s t c) :=
  decidable_of_iff (∃ p ∈ (s.phase t).current, p.1 = c ∧ 0 < p.2) (by
    cases hphase : s.phase t <;> simp [Phase.current, Midway, hphase])

instance [Fintype C] [Fintype T] (s : State C T) : DecidablePred (Exclusive s)
  | .send _ _ => decidable_of_iff _ exclusive_send_iff.symm
  | .fail t => inferInstanceAs (Decidable (∀ c, ¬ Midway s t c))
  | .push .. => isTrue trivial
  | .take _ => isTrue trivial

omit [DecidableEq C] [DecidableEq T] in
theorem not_midway_start (c c' : C) (total total' k : ℕ) (batch rest : List Message)
    (message : Message) (h : start c total batch = .sending c' total' message k rest) : k = 0 := by
  cases batch with
  | nil => cases h
  | cons m batch =>
      cases h
      rfl

section Updates

variable {s s' : State C T} {t : T} {phase : Phase C} {c : C}
  (hphase : s'.phase = Function.update s.phase t phase)

include hphase

omit [DecidableEq C] in
theorem midway_of_ne {u : T} (hu : u ≠ t) : Midway s' u c ↔ Midway s u c := by
  simp [Midway, hphase, hu]

omit [DecidableEq C] in
theorem not_midway_update
    (hstart : ∀ c total message k rest, phase = .sending c total message k rest → k = 0) :
    ¬ Midway s' t c := by
  rintro ⟨total, message, k, rest, hk, hpos⟩
  rw [hphase, Function.update_self] at hk
  have hzero := hstart c total message k rest hk
  omega

omit [DecidableEq C] in
/-- The thread that goes on is midway neither before nor afterwards. -/
theorem Tail.update {tail : Bytes} (h : Tail s c tail) (hbefore : ¬ Midway s t c)
    (hafter : ¬ Midway s' t c) : Tail s' c tail := by
  have hmidway (u : T) (hu : Midway s' u c) : Midway s u c := by
    have hut : u ≠ t := by
      rintro rfl
      exact hafter hu
    exact (midway_of_ne hphase hut).mp hu
  rcases h with ⟨hnil, hnone⟩ | ⟨u, total, message, k, rest, hu, hk, hpart, honly⟩
  · exact .inl ⟨hnil, fun u hu => hnone u (hmidway u hu)⟩
  · have hut : u ≠ t := by
      rintro rfl
      exact hbefore ⟨total, message, k, rest, hu, hk⟩
    refine .inr ⟨u, total, message, k, rest, ?_, hk, hpart, fun v hv => honly v (hmidway v hv)⟩
    rw [hphase, Function.update_of_ne hut]
    exact hu

omit [DecidableEq C] in
theorem Whole.of_not_midway (hs : Whole s)
    (hstart : ∀ c total message k rest, phase = .sending c total message k rest → k = 0)
    (hbefore : ∀ c, ¬ Midway s t c) (hstream : s'.stream = s.stream)
    (hcompleted : s'.completed = s.completed) : Whole s' := by
  intro c
  obtain ⟨tail, htail, h⟩ := hs c
  exact ⟨tail, by rw [hstream, hcompleted, htail],
    Tail.update hphase h (hbefore c) (not_midway_update hphase hstart)⟩

end Updates

section Send

variable {s : State C T} {t : T} {c : C} {total k n : ℕ} {message : Message}
  {rest : List Message}

omit [DecidableEq C] [DecidableEq T] in
/-- With no other thread midway, the stream ends with what the sender has sent of its message. -/
theorem Whole.stream_sender (hs : Whole s)
    (hphase : s.phase t = .sending c total message k rest)
    (halone : ∀ u, u ≠ t → ¬ Midway s u c) :
    s.stream c = (s.completed c).flatMap Message.text ++ message.text.take k := by
  obtain ⟨tail, htail, h⟩ := hs c
  rw [htail]
  rcases h with ⟨rfl, hnone⟩ | ⟨u, total', message', k', rest', hu, hk, rfl, -⟩
  · have hk : k = 0 := by
      by_contra hk
      exact hnone t ⟨total, message, k, rest, hphase, by omega⟩
    simp [hk]
  · have hut : u = t := by
      by_contra hut
      exact halone u hut ⟨total', message', k', rest', hu, hk⟩
    subst hut
    cases hphase.symm.trans hu
    rfl

omit [DecidableEq C] [DecidableEq T] in
theorem not_midway_elsewhere (hphase : s.phase t = .sending c total message k rest) {c' : C}
    (hc : c' ≠ c) : ¬ Midway s t c' := by
  rintro ⟨total', message', k', rest', hphase', -⟩
  cases hphase.symm.trans hphase'
  exact hc rfl

theorem Whole.send_last (hs : Whole s) (hphase : s.phase t = .sending c total message k rest)
    (halone : ∀ u, u ≠ t → ¬ Midway s u c) (hlast : k + n = message.text.length) :
    Whole (send s t c total message k rest n) := by
  have hupdate : (send s t c total message k rest n).phase =
      Function.update s.phase t (start c total rest) := by
    simp [send, hlast]
  have hsender (c' : C) : ¬ Midway (send s t c total message k rest n) t c' :=
    not_midway_update hupdate fun c' total' message' k' rest' h =>
      not_midway_start c c' total total' k' rest rest' message' h
  intro c'
  by_cases hc : c' = c
  · subst hc
    refine ⟨[], ?_, .inl ⟨rfl, fun u hu => ?_⟩⟩
    · have htext : message.text.take k ++ (message.text.drop k).take n = message.text := by
        rw [← List.take_add, hlast, List.take_length]
      simp only [send, hlast, if_true, Function.update_self]
      rw [hs.stream_sender hphase halone, List.append_assoc, htext]
      simp
    · have hut : u ≠ t := by
        rintro rfl
        exact hsender c' hu
      exact halone u hut ((midway_of_ne hupdate hut).mp hu)
  · obtain ⟨tail, htail, h⟩ := hs c'
    exact ⟨tail, by simpa [send, hlast, hc] using htail,
      Tail.update hupdate h (not_midway_elsewhere hphase hc) (hsender c')⟩

theorem Whole.send_part (hs : Whole s) (hphase : s.phase t = .sending c total message k rest)
    (halone : ∀ u, u ≠ t → ¬ Midway s u c) (hn : 1 ≤ n)
    (hpart : k + n ≠ message.text.length) : Whole (send s t c total message k rest n) := by
  have hupdate : (send s t c total message k rest n).phase =
      Function.update s.phase t (.sending c total message (k + n) rest) := by
    simp [send, hpart]
  have hsender : (send s t c total message k rest n).phase t =
      .sending c total message (k + n) rest := by
    rw [hupdate, Function.update_self]
  intro c'
  by_cases hc : c' = c
  · subst hc
    refine ⟨message.text.take (k + n), ?_,
      .inr ⟨t, total, message, k + n, rest, hsender, by omega, rfl, fun u hu => ?_⟩⟩
    · simp only [send, if_neg hpart, Function.update_self]
      rw [hs.stream_sender hphase halone, List.append_assoc, ← List.take_add]
    · by_contra hut
      exact halone u hut ((midway_of_ne hupdate hut).mp hu)
  · obtain ⟨tail, htail, h⟩ := hs c'
    exact ⟨tail, by simpa [send, hpart, hc] using htail,
      Tail.update hupdate h (not_midway_elsewhere hphase hc) (not_midway_elsewhere hsender hc)⟩

end Send

theorem whole_step {s s' : State C T} {a : Action C T} (hs : Whole s) (h : step s a = some s')
    (ha : Exclusive s a) : Whole s' := by
  cases a with
  | push t c encoded =>
      obtain ⟨hidle, rfl⟩ := step_push h
      unfold push
      split
      · exact hs
      · refine Whole.of_not_midway rfl hs nofun ?_ rfl rfl
        rintro c ⟨total, message, k, rest, hphase, -⟩
        cases hidle.symm.trans hphase
  | take t =>
      obtain ⟨c, hphase, rfl⟩ := step_take h
      refine Whole.of_not_midway rfl hs ?_ ?_ rfl rfl
      · intro c' total message k rest hstart
        exact not_midway_start c c' _ total k _ rest message hstart
      · rintro c' ⟨total, message, k, rest, hsending, -⟩
        cases hphase.symm.trans hsending
  | send t n =>
      obtain ⟨c, total, message, k, rest, hphase, hn, -, rfl⟩ := step_send h
      have halone := ha c total message k rest hphase
      by_cases hlast : k + n = message.text.length
      · exact hs.send_last hphase halone hlast
      · exact hs.send_part hphase halone hn hlast
  | fail t =>
      obtain ⟨c, total, message, k, rest, -, rfl⟩ := step_fail h
      exact Whole.of_not_midway rfl hs nofun ha rfl rfl

end Stream

/-! ## Whole messages -/

section Unbroken

variable {C T : Type}

/-- The stream to the client is made of complete messages, each handed over for this client and
none twice, and of the beginning of at most one other that a thread is sending. -/
def Unbroken (s : State C T) (c : C) : Prop :=
  ∃ (messages : List Message) (tail : Bytes), s.stream c = messages.flatMap Message.text ++ tail ∧
    (messages.map Message.number).Nodup ∧ (∀ m ∈ messages, (c, m) ∈ s.handed) ∧
    (tail = [] ∨ ∃ t total m k rest, s.phase t = .sending c total m k rest ∧
      (c, m) ∈ s.handed ∧ m ∉ messages ∧ tail = m.text.take k)

variable [Fintype C] [Fintype T]

omit [Fintype T] in
theorem completed_le_sent (s : State C T) (c : C) :
    (s.completed c : Multiset Message) ≤ sent s :=
  Finset.single_le_sum (fun _ _ => Multiset.zero_le _) (Finset.mem_univ c)

theorem batch_le_waiting (s : State C T) (t : T) :
    ((s.phase t).batch : Multiset Message) ≤ waiting s :=
  (Finset.single_le_sum (f := fun t => ((s.phase t).batch : Multiset Message))
    (fun _ _ => Multiset.zero_le _) (Finset.mem_univ t)).trans (Multiset.le_add_left _ _)

theorem unbroken {s : State C T} (hnumbered : Numbered s) (haddressed : Addressed s)
    (hs : Whole s) (c : C) : Unbroken s c := by
  obtain ⟨tail, htail, h⟩ := hs c
  have hnodup : (((s.completed c : Multiset Message)).map Message.number).Nodup :=
    Multiset.nodup_of_le (Multiset.map_le_map
      ((completed_le_sent s c).trans (Multiset.le_add_left _ _))) hnumbered.nodup
  refine ⟨s.completed c, tail, htail, by simpa using hnodup, haddressed.completed c, ?_⟩
  rcases h with ⟨hnil, -⟩ | ⟨t, total, m, k, rest, ht, -, hpart, -⟩
  · exact .inl hnil
  · refine .inr ⟨t, total, m, k, rest, ht, haddressed.batch t c total m k rest ht m (by simp),
      fun hm => ?_, hpart⟩
    -- the message would be in a batch and sent, hence have its number twice
    have hbatch : m ∈ waiting s := by
      refine Multiset.mem_of_le (batch_le_waiting s t) ?_
      simp [ht, Phase.batch]
    have hsent : m ∈ sent s := Multiset.mem_of_le (completed_le_sent s c) (by simpa using hm)
    have hdisjoint := hnumbered.nodup
    rw [Multiset.map_add, Multiset.nodup_add] at hdisjoint
    exact Multiset.disjoint_left.mp hdisjoint.2.2 (Multiset.mem_map_of_mem _ hbatch)
      (Multiset.mem_map_of_mem _ hsent)

variable [DecidableEq C] [DecidableEq T]

/-- Along a run in which the threads take turns at a client, its socket carries whole messages. -/
theorem unbroken_of_exclusive {actions : List (Action C T)} {s : State C T}
    (hrun : Runs.exec step {} actions = some s)
    (h : Runs.Always step (fun s a _ => Exclusive s a) {} actions) (c : C) : Unbroken s c := by
  have hinitial : Numbered ({} : State C T) ∧ Addressed ({} : State C T) ∧
      Whole ({} : State C T) := by
    refine ⟨⟨?_, ?_⟩, ⟨by simp, nofun, by simp⟩, fun c => ⟨[], rfl, .inl ⟨rfl, ?_⟩⟩⟩
    · simp [sent, waiting, inQueues, inBatches, Phase.batch]
    · simp [sent, waiting, inQueues, inBatches, Phase.batch]
    · rintro t ⟨total, message, k, rest, hphase, -⟩
      cases hphase
  obtain ⟨hnumbered, haddressed, hwhole⟩ := Runs.inv_of_always
    (fun s => Numbered s ∧ Addressed s ∧ Whole s) hinitial
    (fun s a s' hs hstep ha => ⟨numbered_step hs.1 hstep, addressed_step hs.2.1 hstep,
      whole_step hs.2.2 hstep ha⟩) hrun h
  exact unbroken hnumbered haddressed hwhole c

end Unbroken

/-- The second thread delivers between the first one's message and its next. -/
def turnTaking : List (Action Unit Bool) :=
  [.push true () (cstr "ab"), .take true, .send true 1, .send true 2, .push false () (cstr "cd"),
    .take false, .send false 3]

theorem unbroken_turnTaking :
    Runs.Always step (fun s a _ => Exclusive s a) {} turnTaking ∧
      ∃ s, Runs.exec step {} turnTaking = some s ∧ Unbroken s () := by
  have hexclusive : Runs.Always step (fun s a _ => Exclusive s a) {} turnTaking := by
    decide +kernel
  have hrun : (Runs.exec step ({} : State Unit Bool) turnTaking).isSome = true := by decide +kernel
  obtain ⟨s, hs⟩ := Option.isSome_iff_exists.mp hrun
  exact ⟨hexclusive, s, hs, unbroken_of_exclusive hs hexclusive ()⟩

/-- The second thread delivers while the first has sent one byte of its message. -/
def interleaved : List (Action Unit Bool) :=
  [.push true () (cstr "ab"), .take true, .send true 1, .push false () (cstr "cd"),
    .take false, .send false 3, .send true 2]

theorem interleaved_breaks_message :
    ∃ s, Runs.exec step {} interleaved = some s ∧ s.stream () = cstr "acd\nb\n" ∧
      ¬ Unbroken s () := by
  have hrun : (Runs.exec step ({} : State Unit Bool) interleaved).map
      (fun s => (s.stream (), s.handed, s.phase true, s.phase false)) =
      some (cstr "acd\nb\n", [((), ⟨0, cstr "ab\n"⟩), ((), ⟨1, cstr "cd\n"⟩)], .idle, .idle) := by
    decide +kernel
  obtain ⟨s, hs, hvalues⟩ := Option.map_eq_some_iff.mp hrun
  simp only [Prod.mk.injEq] at hvalues
  obtain ⟨hstream, hhanded, htrue, hfalse⟩ := hvalues
  refine ⟨s, hs, hstream, ?_⟩
  rintro ⟨messages, tail, hmessages, -, hmem, htail⟩
  have hnil : tail = [] := by
    rcases htail with hnil | ⟨t, total, m, k, rest, ht, -⟩
    · exact hnil
    · cases t
      · cases hfalse.symm.trans ht
      · cases htrue.symm.trans ht
  rw [hstream, hnil, List.append_nil] at hmessages
  cases messages with
  | nil => exact absurd hmessages (by decide)
  | cons m messages =>
      have hm := hmem m (by simp)
      rw [hhanded] at hm
      have hfirst := congrArg (List.take 2) hmessages
      simp only [List.mem_cons, Prod.mk.injEq, true_and, List.not_mem_nil, or_false] at hm
      rcases hm with rfl | rfl
      all_goals
        rw [List.flatMap_cons, List.take_append_of_le_length (by decide)] at hfirst
        exact absurd hfirst (by decide)

end Ezcap.Delivery
