import Ezcap.Library.Runs
import Ezcap.Model.Delivery
import Mathlib.Algebra.BigOperators.Group.Finset.Basic
import Mathlib.Algebra.Order.Group.Multiset
import Mathlib.Data.Fintype.Basic
import Mathlib.Data.Fintype.Sets

/-! Where the messages handed to `deliver` are: waiting in a queue or a batch, or sent. The count
of dropped ones is right exactly as long as no queue is cleared and no batch fails after
one of its messages was sent. -/

namespace Ezcap.Delivery

open StdString Ipc

/-! ## What a step does -/

section Steps

variable {C T : Type} [DecidableEq C] [DecidableEq T] {s s' : State C T} {t : T}

theorem step_push {c : C} {encoded : Bytes} (h : step s (.push t c encoded) = some s') :
    s.phase t = .idle ∧ s' = push s t c encoded := by
  rw [step] at h
  split at h
  · rename_i hphase
    cases h
    exact ⟨hphase, rfl⟩
  · cases h

theorem step_take (h : step s (.take t) = some s') :
    ∃ c, s.phase t = .queued c ∧ s' = take s t c := by
  rw [step] at h
  split at h
  · rename_i c hphase
    cases h
    exact ⟨c, hphase, rfl⟩
  · cases h

theorem step_send {n : ℕ} (h : step s (.send t n) = some s') :
    ∃ c total message sent rest, s.phase t = .sending c total message sent rest ∧ 1 ≤ n ∧
      sent + n ≤ message.text.length ∧ s' = send s t c total message sent rest n := by
  rw [step] at h
  split at h
  · rename_i c total message sent rest hphase
    split_ifs at h with hn
    cases h
    exact ⟨c, total, message, sent, rest, hphase, hn.1, hn.2, rfl⟩
  · cases h

theorem step_fail (h : step s (.fail t) = some s') :
    ∃ c total message sent rest, s.phase t = .sending c total message sent rest ∧
      s' = fail s t total := by
  rw [step] at h
  split at h
  · rename_i c total message sent rest hphase
    cases h
    exact ⟨c, total, message, sent, rest, hphase, rfl⟩
  · cases h

end Steps

/-! ## Where the messages are -/

/-- The messages that a thread has taken and not sent completely. -/
def Phase.batch {C : Type} : Phase C → List Message
  | .sending _ _ message _ rest => message :: rest
  | _ => []

@[simp] theorem batch_start {C : Type} (c : C) (total : ℕ) (batch : List Message) :
    (start c total batch).batch = batch := by
  cases batch <;> rfl

theorem sum_update {ι α M : Type} [Fintype ι] [DecidableEq ι] [AddCommMonoid M] (f : ι → α)
    (g : α → M) (i : ι) (x : α) :
    ∑ j, g (Function.update f i x j) + g (f i) = ∑ j, g (f j) + g x := by
  have hothers : ∑ j ∈ Finset.univ.erase i, g (Function.update f i x j) =
      ∑ j ∈ Finset.univ.erase i, g (f j) :=
    Finset.sum_congr rfl fun j hj => by rw [Function.update_of_ne (Finset.ne_of_mem_erase hj)]
  rw [← Finset.add_sum_erase Finset.univ (fun j => g (Function.update f i x j))
      (Finset.mem_univ i), hothers, ← Finset.add_sum_erase Finset.univ (fun j => g (f j))
      (Finset.mem_univ i), Function.update_self, add_right_comm, add_comm (g x), add_right_comm]

section Places

variable {C T : Type} [Fintype C] [Fintype T]

def inQueues (s : State C T) : Multiset Message := ∑ c, (s.outQueue c : Multiset Message)

def inBatches (s : State C T) : Multiset Message := ∑ t, ((s.phase t).batch : Multiset Message)

/-- The messages still queued: in the queue of a client or in a batch taken from it. -/
def waiting (s : State C T) : Multiset Message := inQueues s + inBatches s

/-- The messages sent completely. -/
def sent (s : State C T) : Multiset Message := ∑ c, (s.completed c : Multiset Message)

variable [DecidableEq C] [DecidableEq T] (s : State C T) (t : T) (c : C)

omit [Fintype T] [DecidableEq T] in
theorem inQueues_update (s' : State C T) (queue : List Message)
    (h : s'.outQueue = Function.update s.outQueue c queue) :
    inQueues s' + (s.outQueue c : Multiset Message) = inQueues s + (queue : Multiset Message) := by
  rw [inQueues, h]
  exact sum_update s.outQueue (fun q => (q : Multiset Message)) c queue

omit [Fintype C] [DecidableEq C] in
theorem inBatches_update (s' : State C T) (phase : Phase C)
    (h : s'.phase = Function.update s.phase t phase) :
    inBatches s' + ((s.phase t).batch : Multiset Message) =
      inBatches s + (phase.batch : Multiset Message) := by
  rw [inBatches, h]
  exact sum_update s.phase (fun p => (p.batch : Multiset Message)) t phase

/-- A full queue is emptied and the message itself is lost. -/
theorem waiting_push_full (encoded : Bytes)
    (hfull : (s.outQueue c).length ≥ kMaxOutgoingQueue) :
    waiting (push s t c encoded) + (s.outQueue c : Multiset Message) = waiting s := by
  have hqueues := inQueues_update s c (push s t c encoded) [] (by simp [push, hfull])
  have hbatches : inBatches (push s t c encoded) = inBatches s := by
    simp [inBatches, push, hfull]
  rw [waiting, waiting, hbatches, add_right_comm, hqueues, Multiset.coe_nil, add_zero]

theorem waiting_push (encoded : Bytes) (hroom : ¬ (s.outQueue c).length ≥ kMaxOutgoingQueue)
    (hidle : s.phase t = .idle) :
    waiting (push s t c encoded) = waiting s + {⟨s.handed.length, encoded ++ cstr "\n"⟩} := by
  have hqueues := inQueues_update s c (push s t c encoded) _ (by simp [push, hroom]; rfl)
  have hbatches := inBatches_update s t (push s t c encoded) (.queued c) (by simp [push, hroom])
  rw [hidle] at hbatches
  simp only [Phase.batch, Multiset.coe_nil, add_zero] at hbatches
  rw [← Multiset.coe_add, ← add_assoc, add_right_comm] at hqueues
  rw [waiting, waiting, hbatches, add_right_cancel hqueues, add_right_comm]
  rfl

theorem waiting_take (hphase : s.phase t = .queued c) : waiting (take s t c) = waiting s := by
  have hqueues := inQueues_update s c (take s t c) [] rfl
  have hbatches := inBatches_update s t (take s t c) _ rfl
  rw [hphase, batch_start] at hbatches
  simp only [Phase.batch, Multiset.coe_nil, add_zero] at hqueues hbatches
  rw [waiting, waiting, hbatches, ← hqueues, add_assoc, add_comm (inBatches s), ← add_assoc]

variable {s t c} {total k n : ℕ} {message : Message} {rest : List Message}

theorem waiting_send_part (hphase : s.phase t = .sending c total message k rest)
    (hpart : k + n ≠ message.text.length) :
    waiting (send s t c total message k rest n) = waiting s := by
  have hbatches := inBatches_update s t (send s t c total message k rest n) _
    (by simp [send, hpart]; rfl)
  rw [hphase] at hbatches
  have hqueues : inQueues (send s t c total message k rest n) = inQueues s := by
    simp [inQueues, send, hpart]
  rw [waiting, waiting, hqueues, add_right_cancel hbatches]

theorem waiting_send_last (hphase : s.phase t = .sending c total message k rest)
    (hlast : k + n = message.text.length) :
    waiting (send s t c total message k rest n) + {message} = waiting s := by
  have hbatches := inBatches_update s t (send s t c total message k rest n) (start c total rest)
    (by simp [send, hlast])
  rw [hphase, batch_start, Phase.batch, ← Multiset.cons_coe, ← Multiset.singleton_add,
    ← add_assoc] at hbatches
  have hqueues : inQueues (send s t c total message k rest n) = inQueues s := by
    simp [inQueues, send, hlast]
  rw [waiting, waiting, hqueues, add_assoc, add_right_cancel hbatches]

omit [DecidableEq C] in
theorem waiting_fail (hphase : s.phase t = .sending c total message k rest) :
    waiting (fail s t total) + ((message :: rest : List Message) : Multiset Message) =
      waiting s := by
  have hbatches := inBatches_update s t (fail s t total) .idle rfl
  rw [hphase] at hbatches
  simp only [Phase.batch, Multiset.coe_nil, add_zero] at hbatches
  rw [waiting, waiting, add_assoc, hbatches]
  rfl

omit [Fintype T] in
theorem sent_send_last (hlast : k + n = message.text.length) :
    sent (send s t c total message k rest n) = sent s + {message} := by
  have hupdate := sum_update s.completed (fun q => (q : Multiset Message)) c
    (s.completed c ++ [message])
  rw [← Multiset.coe_add, ← add_assoc, add_right_comm] at hupdate
  rw [sent, show (send s t c total message k rest n).completed = Function.update s.completed c
    (s.completed c ++ [message]) by simp [send, hlast]]
  exact add_right_cancel hupdate

end Places

/-! ## Bounds -/

section Bounds

variable {C T : Type}

/-- Queues and batches hold no more than a queue may. -/
structure Bounded (s : State C T) : Prop where
  queue : ∀ c, (s.outQueue c).length ≤ kMaxOutgoingQueue
  batch : ∀ t c total message k rest, s.phase t = .sending c total message k rest →
    rest.length + 1 ≤ total ∧ total ≤ kMaxOutgoingQueue

theorem bounded_start {c c' : C} {total total' k : ℕ} {batch rest : List Message}
    {message : Message} (hbatch : batch.length ≤ total) (htotal : total ≤ kMaxOutgoingQueue)
    (h : start c total batch = .sending c' total' message k rest) :
    rest.length + 1 ≤ total' ∧ total' ≤ kMaxOutgoingQueue := by
  cases batch with
  | nil => cases h
  | cons m batch =>
      cases h
      exact ⟨by simpa using hbatch, htotal⟩

variable [DecidableEq C] [DecidableEq T]

omit [DecidableEq T] in
theorem Bounded.update_queue {s : State C T} (h : Bounded s) {c : C} {queue : List Message}
    (hqueue : queue.length ≤ kMaxOutgoingQueue) (c' : C) :
    (Function.update s.outQueue c queue c').length ≤ kMaxOutgoingQueue :=
  (Function.forall_update_iff s.outQueue fun _ queue => queue.length ≤ kMaxOutgoingQueue).mpr
    ⟨hqueue, fun c' _ => h.queue c'⟩ c'

omit [DecidableEq C] in
theorem Bounded.update_phase {s : State C T} (h : Bounded s) {t : T} {phase : Phase C}
    (hphase : ∀ c total message k rest, phase = .sending c total message k rest →
      rest.length + 1 ≤ total ∧ total ≤ kMaxOutgoingQueue)
    (t' : T) (c : C) (total : ℕ) (message : Message) (k : ℕ) (rest : List Message)
    (ht' : Function.update s.phase t phase t' = .sending c total message k rest) :
    rest.length + 1 ≤ total ∧ total ≤ kMaxOutgoingQueue :=
  (Function.forall_update_iff s.phase fun _ phase => phase = .sending c total message k rest →
    rest.length + 1 ≤ total ∧ total ≤ kMaxOutgoingQueue).mpr
      ⟨hphase c total message k rest, fun t' _ => h.batch t' c total message k rest⟩ t' ht'

theorem bounded_step {s s' : State C T} {a : Action C T} (hs : Bounded s)
    (h : step s a = some s') : Bounded s' := by
  cases a with
  | push t c encoded =>
      obtain ⟨-, rfl⟩ := step_push h
      unfold push
      split
      · exact ⟨hs.update_queue (by simp), hs.batch⟩
      · rename_i hroom
        exact ⟨hs.update_queue (by simp; omega), hs.update_phase nofun⟩
  | take t =>
      obtain ⟨c, -, rfl⟩ := step_take h
      refine ⟨hs.update_queue (by simp), hs.update_phase ?_⟩
      intro c' total' message k rest hstart
      exact bounded_start le_rfl (hs.queue c) hstart
  | send t n =>
      obtain ⟨c, total, message, k, rest, hphase, -, -, rfl⟩ := step_send h
      have hbatch := hs.batch t c total message k rest hphase
      unfold send
      simp only
      split
      · refine ⟨hs.queue, hs.update_phase ?_⟩
        intro c' total' message' k' rest' hstart
        exact bounded_start (by omega) hbatch.2 hstart
      · refine ⟨hs.queue, hs.update_phase ?_⟩
        rintro _ _ _ _ _ ⟨⟩
        exact hbatch
  | fail t =>
      obtain ⟨c, total, message, k, rest, -, rfl⟩ := step_fail h
      exact ⟨hs.queue, hs.update_phase nofun⟩

end Bounds

/-! ## The count of dropped messages -/

section Count

variable {C T : Type} [Fintype C] [Fintype T]

/-- Every message handed over is sent, queued or counted as dropped, exactly once. -/
def Exact (s : State C T) : Prop :=
  UInt64.ofNat s.handed.length =
    UInt64.ofNat ((sent s).card + (waiting s).card) + s.droppedEvents

instance (s : State C T) : Decidable (Exact s) := inferInstanceAs (Decidable (_ = _))

theorem exact_iff (s : State C T) :
    Exact s ↔ s.handed.length % 2 ^ 64 =
      ((sent s).card + (waiting s).card + s.droppedEvents.toNat) % 2 ^ 64 := by
  rw [Exact, ← UInt64.toNat_inj, UInt64.toNat_add, UInt64.toNat_ofNat', UInt64.toNat_ofNat']
  omega

/-- No queue is cleared, and no send fails after a message of its batch was sent. -/
def Harmless (s : State C T) : Action C T → Prop
  | .push _ c _ => (s.outQueue c).length < kMaxOutgoingQueue
  | .fail t => ∀ c total message k rest, s.phase t = .sending c total message k rest →
      total = (message :: rest).length
  | _ => True

variable [DecidableEq C] [DecidableEq T]

theorem exact_push_iff {s : State C T} {t : T} {c : C} {encoded : Bytes} (hs : Exact s)
    (hbounded : Bounded s) (hidle : s.phase t = .idle) :
    Exact (push s t c encoded) ↔ Harmless s (.push t c encoded) := by
  have hhanded : (push s t c encoded).handed.length = s.handed.length + 1 := by
    unfold push
    split <;> simp
  have hsent : sent (push s t c encoded) = sent s := by
    unfold push
    split <;> rfl
  rw [exact_iff] at hs ⊢
  rw [hhanded, hsent, Harmless]
  by_cases hfull : (s.outQueue c).length ≥ kMaxOutgoingQueue
  · have hwaiting := congrArg Multiset.card (waiting_push_full s t c encoded hfull)
    have hdropped : (push s t c encoded).droppedEvents = s.droppedEvents + 1 := by
      simp [push, hfull]
    have hmax := hbounded.queue c
    rw [Multiset.card_add, Multiset.coe_card] at hwaiting
    rw [hdropped, UInt64.toNat_add, UInt64.toNat_one]
    simp only [kMaxOutgoingQueue] at hfull hmax ⊢
    omega
  · have hwaiting := congrArg Multiset.card (waiting_push s t c encoded hfull hidle)
    have hdropped : (push s t c encoded).droppedEvents = s.droppedEvents := by
      simp [push, hfull]
    rw [Multiset.card_add, Multiset.card_singleton] at hwaiting
    rw [hdropped, hwaiting]
    omega

omit [DecidableEq C] in
theorem exact_fail_iff {s : State C T} {t : T} {c : C} {total k : ℕ} {message : Message}
    {rest : List Message} (hs : Exact s) (hbounded : Bounded s)
    (hphase : s.phase t = .sending c total message k rest) :
    Exact (fail s t total) ↔ Harmless s (.fail t) := by
  have hwaiting := congrArg Multiset.card (waiting_fail hphase)
  have hsent : sent (fail s t total) = sent s := rfl
  have hhanded : (fail s t total).handed = s.handed := rfl
  have hdropped : (fail s t total).droppedEvents = s.droppedEvents + UInt64.ofNat total := rfl
  have hbatch := hbounded.batch t c total message k rest hphase
  have hharmless : Harmless s (.fail t) ↔ total = rest.length + 1 := by
    constructor
    · exact fun h => h c total message k rest hphase
    · rintro htotal _ _ _ _ _ hphase'
      cases hphase.symm.trans hphase'
      exact htotal
  rw [exact_iff] at hs ⊢
  rw [Multiset.card_add, Multiset.coe_card, List.length_cons] at hwaiting
  rw [hharmless, hsent, hhanded, hdropped, UInt64.toNat_add, UInt64.toNat_ofNat']
  simp only [kMaxOutgoingQueue] at hbatch
  omega

theorem exact_send {s : State C T} {t : T} {c : C} {total k n : ℕ} {message : Message}
    {rest : List Message} (hs : Exact s) (hphase : s.phase t = .sending c total message k rest) :
    Exact (send s t c total message k rest n) := by
  rw [exact_iff] at hs ⊢
  by_cases hlast : k + n = message.text.length
  · have hwaiting := congrArg Multiset.card (waiting_send_last hphase hlast)
    have hrest : (send s t c total message k rest n).handed = s.handed ∧
        (send s t c total message k rest n).droppedEvents = s.droppedEvents := by
      simp [send, hlast]
    rw [Multiset.card_add, Multiset.card_singleton] at hwaiting
    rw [hrest.1, hrest.2, sent_send_last hlast, Multiset.card_add, Multiset.card_singleton]
    omega
  · have hrest : (send s t c total message k rest n).handed = s.handed ∧
        (send s t c total message k rest n).droppedEvents = s.droppedEvents ∧
        sent (send s t c total message k rest n) = sent s := by
      simp [send, hlast, sent]
    rw [hrest.1, hrest.2.1, hrest.2.2, waiting_send_part hphase hlast]
    exact hs

theorem exact_step_iff {s s' : State C T} {a : Action C T} (hs : Exact s)
    (hbounded : Bounded s) (h : step s a = some s') : Exact s' ↔ Harmless s a := by
  cases a with
  | push t c encoded =>
      obtain ⟨hidle, rfl⟩ := step_push h
      exact exact_push_iff hs hbounded hidle
  | take t =>
      obtain ⟨c, hphase, rfl⟩ := step_take h
      refine iff_of_true ?_ trivial
      rw [Exact, waiting_take s t c hphase]
      exact hs
  | send t n =>
      obtain ⟨c, total, message, k, rest, hphase, -, -, rfl⟩ := step_send h
      exact iff_of_true (exact_send hs hphase) trivial
  | fail t =>
      obtain ⟨c, total, message, k, rest, hphase, rfl⟩ := step_fail h
      exact exact_fail_iff hs hbounded hphase

omit [DecidableEq C] [DecidableEq T] in
theorem exact_initial : Exact ({} : State C T) := by
  simp [Exact, sent, waiting, inQueues, inBatches, Phase.batch]

/-- Along a run the count stays exact just as long as no step clears a queue or fails behind a
sent message of its batch. -/
theorem accounting_exact_iff (actions : List (Action C T)) :
    Runs.Always step (fun _ _ s' => Exact s') ({} : State C T) actions ↔
      Runs.Always step (fun s a _ => Harmless s a) ({} : State C T) actions := by
  refine Runs.always_congr (fun s => Exact s ∧ Bounded s) ?_ ?_ ?_ actions
  · exact ⟨exact_initial, ⟨by simp, nofun⟩⟩
  · intro s a s' hs h
    exact exact_step_iff hs.1 hs.2 h
  · intro s a s' hs h hexact
    exact ⟨hexact, bounded_step hs.2 h⟩

end Count

/-- Two messages are taken as one batch, the first is sent and the second fails: one is sent and
two are counted as dropped. -/
def halfSentBatch : List (Action Unit Bool) :=
  [.push true () (cstr "a"), .push false () (cstr "b"), .take true, .send true 2, .fail true]

theorem halfSentBatch_counted_twice :
    (Runs.exec step ({} : State Unit Bool) halfSentBatch).map
      (fun s => (s.handed.length, (sent s).card, (waiting s).card, s.droppedEvents,
        decide (Exact s))) = some (2, 1, 0, 2, false) := by
  decide +kernel

end Ezcap.Delivery
