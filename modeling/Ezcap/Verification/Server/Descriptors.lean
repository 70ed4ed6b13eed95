import Ezcap.Model.Connections
import Ezcap.Verification.Delivery.Interleaving

/-! Who gets the bytes of an event. A broadcast writes by descriptor number to the clients it
found, so they reach the subscribers only as long as the kernel does not give the number
of one of them to a new connection. -/

namespace Ezcap.Connections

open Delivery (Message Phase Addressed)

/-! ## What a step does -/

/-- What an action can do, and what it needs for that. -/
inductive Effect (s : State) : Action → State → Prop where
  | accept {f} (h : s.table.fds f = none) :
      Effect s (.accept f) { s with table := s.table.accept f }
  | close {a c} (h : s.table.progress c = .accepted ∨ s.table.progress c = .erased) :
      Effect s a { s with table := s.table.close c }
  | register {c} (h : s.table.progress c = .accepted) :
      Effect s (.register c) { s with table := s.table.register c }
  | subscriptions {a subscriptions} : Effect s a { s with subscriptions := subscriptions }
  | reply {c encoded delivery} (h : s.table.progress c = .running)
      (hpush : Delivery.step s.delivery (.push (some c) c encoded) = some delivery) :
      Effect s (.reply c encoded) { s with delivery := delivery }
  | erase {c} (h : s.table.progress c = .running) (hidle : s.delivery.phase (some c) = .idle) :
      Effect s (.erase c) { s with table := s.table.erase c }
  | scan (h : s.broadcast = .idle) : Effect s .scan { s with
      broadcast := .scanning (s.table.clients.map Prod.snd) [] }
  | found {c todo subscribers} (h : s.broadcast = .scanning (c :: todo) subscribers)
      (hc : (s.subscriptions c).Nonempty) : Effect s .check { s with
        broadcast := .scanning todo (subscribers ++ [c])
        subscribed :=
          Function.update s.subscribed s.broadcasts (s.subscribed s.broadcasts ++ [c]) }
  | skipped {c todo subscribers} (h : s.broadcast = .scanning (c :: todo) subscribers) :
      Effect s .check { s with broadcast := .scanning todo subscribers }
  | unlock {encoded subscribers} (h : s.broadcast = .scanning [] subscribers) :
      Effect s (.unlock encoded) { s with broadcast := .delivering encoded subscribers }
  | event {encoded c todo delivery} (h : s.broadcast = .delivering encoded (c :: todo))
      (hpush : Delivery.step s.delivery (.push none c encoded) = some delivery) :
      Effect s .event { s with
        broadcast := .delivering encoded todo
        origin := Function.update s.origin s.delivery.handed.length (some s.broadcasts)
        delivery := delivery }
  | finish {encoded} (h : s.broadcast = .delivering encoded [])
      (hidle : s.delivery.phase none = .idle) :
      Effect s .finish { s with broadcast := .idle, broadcasts := s.broadcasts + 1 }
  | deliver {a call delivery} (hcall : Delivery.step s.delivery call = some delivery)
      (hpush : ∀ t c encoded, call ≠ .push t c encoded) :
      Effect s a { s with delivery := delivery }
  | send {t n c total message k rest r delivery}
      (hphase : s.delivery.phase t = .sending c total message k rest)
      (hr : s.table.fds (s.table.fd c) = some r)
      (hsend : Delivery.step s.delivery (.send t n) = some delivery) :
      Effect s (.send t n) { s with
        delivery := delivery, received := s.received ++ [(r, message.number)] }

theorem effect_of_step {s s' : State} {a : Action} (h : step s a = some s') : Effect s a s' := by
  cases a with
  | accept f =>
      obtain ⟨hf, ⟨⟩⟩ := Option.ite_none_right_eq_some.mp h
      exact .accept hf
  | reject c =>
      obtain ⟨hc, ⟨⟩⟩ := Option.ite_none_right_eq_some.mp h
      exact .close (.inl hc)
  | register c =>
      obtain ⟨hc, ⟨⟩⟩ := Option.ite_none_right_eq_some.mp h
      unfold register
      split
      · exact .close (.inl hc.1)
      · exact .register hc.1
  | subscribe c id =>
      obtain ⟨-, ⟨⟩⟩ := Option.ite_none_right_eq_some.mp h
      exact .subscriptions
  | unsubscribe c id =>
      obtain ⟨-, ⟨⟩⟩ := Option.ite_none_right_eq_some.mp h
      exact .subscriptions
  | reply c encoded =>
      obtain ⟨hc, h⟩ := Option.ite_none_right_eq_some.mp h
      obtain ⟨delivery, hpush, rfl⟩ := Option.map_eq_some_iff.mp h
      exact .reply hc hpush
  | erase c =>
      obtain ⟨hc, ⟨⟩⟩ := Option.ite_none_right_eq_some.mp h
      exact .erase hc.1 hc.2.2
  | close c =>
      obtain ⟨hc, ⟨⟩⟩ := Option.ite_none_right_eq_some.mp h
      exact .close (.inr hc)
  | scan =>
      rw [step] at h
      split at h
      · rename_i hidle
        cases h
        exact .scan hidle
      · cases h
  | check =>
      rw [step] at h
      split at h
      · rename_i c todo subscribers hscan
        cases h
        unfold check
        split
        · rename_i hc
          exact .found hscan hc
        · exact .skipped hscan
      · cases h
  | unlock encoded =>
      rw [step] at h
      split at h
      · rename_i subscribers hscan
        cases h
        exact .unlock hscan
      · cases h
  | event =>
      rw [step] at h
      split at h
      · rename_i encoded c todo hdeliver
        obtain ⟨delivery, hpush, rfl⟩ := Option.map_eq_some_iff.mp h
        exact .event hdeliver hpush
      · cases h
  | finish =>
      rw [step] at h
      split at h
      · rename_i encoded hdeliver
        obtain ⟨hidle, ⟨⟩⟩ := Option.ite_none_right_eq_some.mp h
        exact .finish hdeliver hidle
      · cases h
  | take t =>
      obtain ⟨delivery, htake, rfl⟩ := Option.map_eq_some_iff.mp h
      exact .deliver htake nofun
  | send t n =>
      rw [step, send] at h
      split at h
      · rename_i c total message k rest hphase
        obtain ⟨r, hr, h⟩ := Option.bind_eq_some_iff.mp h
        obtain ⟨delivery, hsend, rfl⟩ := Option.map_eq_some_iff.mp h
        exact .send hphase hr hsend
      · cases h
  | fail t =>
      obtain ⟨delivery, hfail, rfl⟩ := Option.map_eq_some_iff.mp h
      exact .deliver hfail nofun

/-! ## Descriptors -/

def Progress.isOpen : Progress → Bool
  | .accepted | .running | .erased => true
  | _ => false

/-- A descriptor belongs to the connection that has it, and the map has running clients only. -/
structure Table.Consistent (table : Table) : Prop where
  open_iff : ∀ f c, table.fds f = some c ↔ (table.progress c).isOpen = true ∧ table.fd c = f
  absent : ∀ c, table.accepted ≤ c → table.progress c = .absent
  mapped : ∀ f c, (f, c) ∈ table.clients → table.progress c = .running ∧ table.fd c = f

section Table

variable {table : Table} {f c : ℕ}

theorem Table.Consistent.accept (h : table.Consistent) (hf : table.fds f = none) :
    (table.accept f).Consistent := by
  have hnew := h.absent table.accepted le_rfl
  have hunused (c : ℕ) : ¬ ((table.progress c).isOpen = true ∧ table.fd c = f) := by
    rw [← h.open_iff, hf]
    simp
  refine ⟨fun f' c => ?_, fun c hc => ?_, fun f' c hmem => ?_⟩
  · by_cases hc : c = table.accepted
    · subst hc
      have hold : table.fds f' ≠ some table.accepted := fun hfds => by
        simpa [hnew, Progress.isOpen] using ((h.open_iff f' _).mp hfds).1
      by_cases hf' : f' = f
      · simp [Table.accept, hf', Progress.isOpen]
      · simp [Table.accept, hf', hold, Ne.symm hf']
    · by_cases hf' : f' = f
      · subst hf'
        simpa [Table.accept, hc, Ne.symm hc] using hunused c
      · simpa [Table.accept, hc, hf'] using h.open_iff f' c
  · have hne : c ≠ table.accepted := by
      rintro rfl
      exact absurd hc (by simp [Table.accept])
    simpa [Table.accept, hne] using h.absent c (Nat.le_of_succ_le hc)
  · obtain ⟨hrunning, hfd⟩ := h.mapped f' c hmem
    have hne : c ≠ table.accepted := by
      rintro rfl
      simp [hnew] at hrunning
    simp [Table.accept, hne, hrunning, hfd]

theorem Table.Consistent.not_absent (h : table.Consistent) (hc : table.progress c ≠ .absent) :
    c < table.accepted := by
  by_contra hle
  exact hc (h.absent c (Nat.not_lt.mp hle))

theorem Table.Consistent.ne_of_isOpen (h : table.Consistent)
    (hopen : (table.progress c).isOpen = true) {c' : ℕ} (hc' : table.accepted ≤ c') : c' ≠ c := by
  have habsent : table.progress c ≠ .absent := by
    intro habsent
    simp [habsent, Progress.isOpen] at hopen
  have hlt := h.not_absent habsent
  omega

/-- A connection that stays open and goes on, whatever becomes of its place in the map. -/
theorem Table.Consistent.advance {progress : Progress} {clients : List (ℕ × ℕ)}
    (h : table.Consistent) (hopen : (table.progress c).isOpen = true)
    (hprogress : progress.isOpen = true)
    (hclients : ∀ e ∈ clients, e = (table.fd c, c) ∧ progress = .running ∨
      e ∈ table.clients ∧ e.1 ≠ table.fd c) :
    ({ table with
      clients := clients
      progress := Function.update table.progress c progress } : Table).Consistent := by
  refine ⟨fun f c' => ?_, fun c' hc' => ?_, fun f c' hmem => ?_⟩
  · by_cases hc : c' = c
    · subst hc
      simpa [hopen, hprogress] using h.open_iff f c'
    · simpa [hc] using h.open_iff f c'
  · have hne := h.ne_of_isOpen hopen hc'
    simpa [hne] using h.absent c' hc'
  · rcases hclients (f, c') hmem with ⟨heq, hrunning⟩ | ⟨hold, hkey⟩
    · cases heq
      simp [hrunning]
    · obtain ⟨hrunning, hfd⟩ := h.mapped f c' hold
      have hne : c' ≠ c := by
        rintro rfl
        exact hkey hfd.symm
      simp [hne, hrunning, hfd]

theorem Table.Consistent.register (h : table.Consistent) (hc : table.progress c = .accepted) :
    (table.register c).Consistent := by
  refine h.advance (by simp [hc, Progress.isOpen]) rfl fun e he => ?_
  rcases (List.mem_orderedInsert ..).mp he with rfl | he
  · exact .inl ⟨rfl, rfl⟩
  · exact .inr (by simpa using List.mem_filter.mp he)

theorem Table.Consistent.erase (h : table.Consistent) (hc : table.progress c = .running) :
    (table.erase c).Consistent := by
  refine h.advance (by simp [hc, Progress.isOpen]) rfl fun e he => ?_
  exact .inr (by simpa using List.mem_filter.mp he)

theorem Table.Consistent.close (h : table.Consistent) (hopen : (table.progress c).isOpen = true)
    (hc : table.progress c ≠ .running) : (table.close c).Consistent := by
  refine ⟨fun f c' => ?_, fun c' hc' => ?_, fun f c' hmem => ?_⟩
  · have hown := (h.open_iff (table.fd c) c).mpr ⟨hopen, rfl⟩
    by_cases hc : c' = c
    · subst hc
      by_cases hf : f = table.fd c'
      · simp [Table.close, hf, Progress.isOpen]
      · have hfds : table.fds f ≠ some c' := fun hfds => hf ((h.open_iff f c').mp hfds).2.symm
        simp [Table.close, hf, hfds, Progress.isOpen]
    · by_cases hf : f = table.fd c
      · subst hf
        have hother : ¬ ((table.progress c').isOpen = true ∧ table.fd c' = table.fd c) := by
          rw [← h.open_iff, hown]
          simpa using Ne.symm hc
        simpa [Table.close, hc] using hother
      · simpa [Table.close, hf, hc] using h.open_iff f c'
  · have hne := h.ne_of_isOpen hopen hc'
    simpa [Table.close, hne] using h.absent c' hc'
  · obtain ⟨hrunning, hfd⟩ := h.mapped f c' hmem
    have hne : c' ≠ c := by
      rintro rfl
      exact hc hrunning
    simp [Table.close, hne, hrunning, hfd]

end Table

theorem consistent_step {s s' : State} {a : Action} (hs : s.table.Consistent)
    (h : Effect s a s') : s'.table.Consistent := by
  cases h with
  | accept hf => exact hs.accept hf
  | close hc => rcases hc with hc | hc <;> exact hs.close (by rw [hc]; rfl) (by simp [hc])
  | register hc => exact hs.register hc
  | erase hc => exact hs.erase hc
  | _ => exact hs

/-! ## Threads in `deliver` -/

/-- The client to which a thread is delivering. -/
def target : Phase ℕ → Option ℕ
  | .idle => none
  | .queued c => some c
  | .sending c _ _ _ _ => some c

theorem target_start {c c' total : ℕ} {batch : List Message}
    (h : target (Delivery.start c total batch) = some c') : c' = c := by
  cases batch with
  | nil => cases h
  | cons m batch =>
      cases h
      rfl

section Deliver

variable {d d' : Delivery.State ℕ Thread}

theorem handed_push {t : Thread} {c : ℕ} {encoded : Bytes}
    (h : Delivery.step d (.push t c encoded) = some d') :
    d'.handed = d.handed ++ [(c, ⟨d.handed.length, encoded ++ StdString.cstr "\n"⟩)] := by
  obtain ⟨-, rfl⟩ := Delivery.step_push h
  unfold Delivery.push
  split <;> rfl

theorem handed_of_not_push {a : Delivery.Action ℕ Thread} (h : Delivery.step d a = some d')
    (ha : ∀ t c encoded, a ≠ .push t c encoded) : d'.handed = d.handed := by
  cases a with
  | push t c encoded => exact absurd rfl (ha t c encoded)
  | take t =>
      obtain ⟨c, -, rfl⟩ := Delivery.step_take h
      rfl
  | send t n =>
      obtain ⟨c, total, message, k, rest, -, -, -, rfl⟩ := Delivery.step_send h
      simp only [Delivery.send]
      split <;> rfl
  | fail t =>
      obtain ⟨c, total, message, k, rest, -, rfl⟩ := Delivery.step_fail h
      rfl

theorem target_step {a : Delivery.Action ℕ Thread} (h : Delivery.step d a = some d')
    {t : Thread} {c : ℕ} (ht : target (d'.phase t) = some c) :
    target (d.phase t) = some c ∨ ∃ encoded, a = .push t c encoded := by
  have hother {u : Thread} {phase : Phase ℕ} (hne : t ≠ u)
      (hd' : d'.phase = Function.update d.phase u phase) : target (d.phase t) = some c := by
    rwa [hd', Function.update_of_ne hne] at ht
  cases a with
  | push u c' encoded =>
      obtain ⟨-, rfl⟩ := Delivery.step_push h
      unfold Delivery.push at ht hother
      split at ht
      · exact .inl ht
      · rename_i hroom
        by_cases hu : t = u
        · subst hu
          simp only [Function.update_self, target, Option.some.injEq] at ht
          exact .inr ⟨encoded, by rw [ht]⟩
        · exact .inl (hother hu (by simp [hroom]; rfl))
  | take u =>
      obtain ⟨c', hphase, rfl⟩ := Delivery.step_take h
      by_cases hu : t = u
      · subst hu
        simp only [Delivery.take, Function.update_self] at ht
        exact .inl (by rw [hphase, target_start ht]; rfl)
      · exact .inl (hother hu rfl)
  | send u n =>
      obtain ⟨c', total, message, k, rest, hphase, -, -, rfl⟩ := Delivery.step_send h
      by_cases hu : t = u
      · subst hu
        refine .inl ?_
        rw [hphase]
        simp only [Delivery.send] at ht
        split at ht
        · simp only [Function.update_self] at ht
          rw [target_start ht]
          rfl
        · simpa [target] using ht
      · refine .inl ?_
        simp only [Delivery.send] at ht
        split at ht <;> simpa [hu] using ht
  | fail u =>
      obtain ⟨c', total, message, k, rest, hphase, rfl⟩ := Delivery.step_fail h
      by_cases hu : t = u
      · subst hu
        simp [Delivery.fail, target] at ht
      · exact .inl (hother hu rfl)

end Deliver

/-! ## Readers -/

/-- A reader delivers to its own client only, and only while it runs. -/
def ReadersAtHome (s : State) : Prop :=
  ∀ c c', target (s.delivery.phase (some c)) = some c' → c' = c ∧ s.table.progress c = .running

/-- A change of the table at a connection whose reader is not delivering. -/
theorem ReadersAtHome.of_idle {s : State} (hs : ReadersAtHome s) {c : ℕ}
    (hc : s.table.progress c ≠ .running ∨ s.delivery.phase (some c) = .idle) {table : Table}
    (htable : ∀ c', c' ≠ c → table.progress c' = s.table.progress c') :
    ReadersAtHome { s with table := table } := by
  intro c' c'' htarget
  obtain ⟨rfl, hrunning⟩ := hs c' c'' htarget
  refine ⟨rfl, ?_⟩
  have hne : c'' ≠ c := by
    rintro rfl
    rcases hc with hc | hidle
    · exact hc hrunning
    · simp [hidle, target] at htarget
  exact (htable c'' hne).trans hrunning

theorem ReadersAtHome.of_deliver {s : State} (hs : ReadersAtHome s)
    {a : Delivery.Action ℕ Thread} {d : Delivery.State ℕ Thread}
    (h : Delivery.step s.delivery a = some d)
    (ha : ∀ c c' encoded, a = .push (some c) c' encoded →
      c' = c ∧ s.table.progress c = .running) :
    ∀ c c', target (d.phase (some c)) = some c' → c' = c ∧ s.table.progress c = .running := by
  intro c c' htarget
  rcases target_step h htarget with hold | ⟨encoded, rfl⟩
  · exact hs c c' hold
  · exact ha c c' encoded rfl

theorem readersAtHome_step {s s' : State} {a : Action} (htable : s.table.Consistent)
    (hs : ReadersAtHome s) (h : Effect s a s') : ReadersAtHome s' := by
  have hupdate (table : Table) (c : ℕ) (progress : Progress) (c' : ℕ) (hne : c' ≠ c) :
      Function.update table.progress c progress c' = table.progress c' :=
    Function.update_of_ne hne _ _
  cases h with
  | accept hf =>
      refine hs.of_idle (c := s.table.accepted) (.inl ?_) fun c' hne => hupdate _ _ _ c' hne
      rw [htable.absent _ le_rfl]
      decide
  | close hc =>
      refine hs.of_idle (.inl ?_) fun c' hne => hupdate _ _ _ c' hne
      rcases hc with hc | hc <;> simp [hc]
  | register hc => exact hs.of_idle (.inl (by simp [hc])) fun c' hne => hupdate _ _ _ c' hne
  | erase hc hidle => exact hs.of_idle (.inr hidle) fun c' hne => hupdate _ _ _ c' hne
  | reply hc hpush =>
      refine hs.of_deliver hpush ?_
      rintro c c' encoded ⟨⟩
      exact ⟨rfl, hc⟩
  | event hdeliver hpush => exact hs.of_deliver hpush nofun
  | deliver hcall hpush =>
      exact hs.of_deliver hcall fun c c' encoded heq => absurd heq (hpush _ c' encoded)
  | send hphase hr hsend => exact hs.of_deliver hsend nofun
  | _ => exact hs

/-! ## Clients that a broadcast still has to serve -/

/-- The clients that the running broadcast has found or not looked at. -/
def Broadcast.pending : Broadcast → List ℕ
  | .idle => []
  | .scanning todo subscribers => todo ++ subscribers
  | .delivering _ todo => todo

/-- The running broadcast may still send to the client. -/
def Awaiting (s : State) (c : ℕ) : Prop :=
  c ∈ s.broadcast.pending ∨ target (s.delivery.phase none) = some c

/-- The kernel gives a new connection no descriptor that the running broadcast may still use. -/
def Unused (s : State) : Action → Prop
  | .accept f => ∀ c, Awaiting s c → s.table.fd c ≠ f
  | _ => True

instance (s : State) : DecidablePred (Unused s)
  | .accept f => decidable_of_iff
      (∀ c ∈ s.broadcast.pending ++ (target (s.delivery.phase none)).toList, s.table.fd c ≠ f)
      (by simp [Unused, Awaiting, or_imp, forall_and])
  | .reject _ | .register _ | .subscribe .. | .unsubscribe .. | .reply .. | .erase _ | .close _
  | .scan | .check | .unlock _ | .event | .finish | .take _ | .send .. | .fail _ => isTrue trivial

/-- The descriptor of a client that the broadcast may still use is closed or its own. -/
structure Reserved (s : State) : Prop where
  own : ∀ c, Awaiting s c → ∀ r, s.table.fds (s.table.fd c) = some r → r = c
  known : ∀ c, Awaiting s c → c < s.table.accepted

/-- The broadcast goes on with some of its clients, and the table stays. -/
theorem Reserved.of_awaiting {s s' : State} (hs : Reserved s) (htable : s'.table = s.table)
    (h : ∀ c, Awaiting s' c → Awaiting s c) : Reserved s' where
  own := fun c hc => htable ▸ hs.own c (h c hc)
  known := fun c hc => htable ▸ hs.known c (h c hc)

theorem Reserved.accept {s : State} (hs : Reserved s) {f : ℕ}
    (hf : ∀ c, Awaiting s c → s.table.fd c ≠ f) :
    Reserved { s with table := s.table.accept f } where
  own := by
    intro c hc r hr
    have hne : c ≠ s.table.accepted := (hs.known c hc).ne
    simp only [Table.accept, Function.update_of_ne hne, Function.update_of_ne (hf c hc)] at hr
    exact hs.own c hc r hr
  known := fun c hc => (hs.known c hc).trans (Nat.lt_succ_self _)

theorem Reserved.close {s : State} (hs : Reserved s) (c : ℕ) :
    Reserved { s with table := s.table.close c } where
  own := by
    intro c' hc' r hr
    by_cases hf : s.table.fd c' = s.table.fd c
    · simp [Table.close, hf] at hr
    · simp only [Table.close, Function.update_of_ne hf] at hr
      exact hs.own c' hc' r hr
  known := hs.known

/-- Every client in the map has a descriptor of its own. -/
theorem Reserved.scan {s : State} (htable : s.table.Consistent) (hs : Reserved s) :
    Reserved { s with broadcast := .scanning (s.table.clients.map Prod.snd) [] } := by
  have hmapped (c : ℕ) (hc : c ∈ s.table.clients.map Prod.snd) :
      s.table.progress c = .running := by
    obtain ⟨e, he, rfl⟩ := List.mem_map.mp hc
    exact (htable.mapped e.1 e.2 he).1
  constructor
  · intro c hc r hr
    rcases hc with hc | hc
    · have hopen := (htable.open_iff (s.table.fd c) c).mpr
        ⟨by rw [hmapped c (by simpa [Broadcast.pending] using hc)]; rfl, rfl⟩
      exact Option.some.inj (hr.symm.trans hopen)
    · exact hs.own c (.inr hc) r hr
  · intro c hc
    rcases hc with hc | hc
    · exact htable.not_absent (by rw [hmapped c (by simpa [Broadcast.pending] using hc)]; decide)
    · exact hs.known c (.inr hc)

/-- A step of `deliver` other than the broadcast's own calls. -/
theorem Reserved.of_deliver {s : State} (hs : Reserved s) {a : Delivery.Action ℕ Thread}
    {d : Delivery.State ℕ Thread} (h : Delivery.step s.delivery a = some d)
    (ha : ∀ c encoded, a ≠ .push none c encoded) {s' : State} (htable : s'.table = s.table)
    (hbroadcast : s'.broadcast = s.broadcast) (hd : s'.delivery = d) : Reserved s' := by
  refine hs.of_awaiting htable fun c hc => ?_
  rcases hc with hc | hc
  · exact .inl (hbroadcast ▸ hc)
  · rcases target_step h (hd ▸ hc) with hold | ⟨encoded, rfl⟩
    · exact .inr hold
    · exact absurd rfl (ha c encoded)

theorem reserved_step {s s' : State} {a : Action} (htable : s.table.Consistent)
    (hs : Reserved s) (h : Effect s a s') (ha : Unused s a) : Reserved s' := by
  cases h with
  | accept hf => exact hs.accept ha
  | close hc => exact hs.close _
  | register hc => exact ⟨hs.own, hs.known⟩
  | erase hc hidle => exact ⟨hs.own, hs.known⟩
  | subscriptions => exact ⟨hs.own, hs.known⟩
  | reply hc hpush => exact hs.of_deliver hpush (by simp) rfl rfl rfl
  | scan hidle => exact hs.scan htable
  | found hscan hsub =>
      refine hs.of_awaiting rfl fun c hc => hc.imp ?_ id
      simp only [hscan, Broadcast.pending, List.mem_append, List.mem_cons, List.not_mem_nil,
        or_false]
      tauto
  | skipped hscan =>
      refine hs.of_awaiting rfl fun c hc => hc.imp ?_ id
      simp only [hscan, Broadcast.pending, List.mem_append, List.mem_cons]
      tauto
  | unlock hscan =>
      refine hs.of_awaiting rfl fun c hc => hc.imp ?_ id
      simp [hscan, Broadcast.pending]
  | event hdeliver hpush =>
      refine hs.of_awaiting rfl fun c hc => ?_
      rcases hc with hc | hc
      · refine .inl ?_
        simp only [hdeliver, Broadcast.pending] at hc ⊢
        exact List.mem_cons_of_mem _ hc
      · rcases target_step hpush hc with hold | ⟨encoded, heq⟩
        · exact .inr hold
        · cases heq
          exact .inl (by simp [hdeliver, Broadcast.pending])
  | finish hdeliver hidle =>
      exact hs.of_awaiting rfl fun c hc => hc.imp (by simp [Broadcast.pending]) id
  | deliver hcall hpush => exact hs.of_deliver hcall (hpush none) rfl rfl rfl
  | send hphase hr hsend => exact hs.of_deliver hsend (by simp) rfl rfl rfl

/-! ## Events -/

/-- The messages of a broadcast are handed over for its subscribers only. -/
structure Origins (s : State) : Prop where
  scanned : ∀ todo subscribers, s.broadcast = .scanning todo subscribers →
    ∀ c ∈ subscribers, c ∈ s.subscribed s.broadcasts
  pending : ∀ encoded todo, s.broadcast = .delivering encoded todo →
    ∀ c ∈ todo, c ∈ s.subscribed s.broadcasts
  handed : ∀ c m b, (c, m) ∈ s.delivery.handed → s.origin m.number = some b → c ∈ s.subscribed b
  number : ∀ c m, (c, m) ∈ s.delivery.handed → m.number < s.delivery.handed.length
  unborn : ∀ n, s.delivery.handed.length ≤ n → s.origin n = none

theorem Origins.of_handed {s s' : State} (hs : Origins s) (hbroadcast : s'.broadcast = s.broadcast)
    (hcount : s'.broadcasts = s.broadcasts) (hsubscribed : s'.subscribed = s.subscribed)
    (horigin : s'.origin = s.origin) (hhanded : s'.delivery.handed = s.delivery.handed) :
    Origins s' where
  scanned := by
    rw [hbroadcast, hcount, hsubscribed]
    exact hs.scanned
  pending := by
    rw [hbroadcast, hcount, hsubscribed]
    exact hs.pending
  handed := by
    rw [hhanded, horigin, hsubscribed]
    exact hs.handed
  number := by
    rw [hhanded]
    exact hs.number
  unborn := by
    rw [hhanded, horigin]
    exact hs.unborn

/-- A new message of a broadcast, or of a reader, handed over for client `c`. -/
theorem Origins.push {s : State} (hs : Origins s) {t : Thread} {c : ℕ} {encoded : Bytes}
    {d : Delivery.State ℕ Thread} (h : Delivery.step s.delivery (.push t c encoded) = some d)
    {origin : Option ℕ} (horigin : ∀ b ∈ origin, c ∈ s.subscribed b) {broadcast : Broadcast}
    (hscanned : ∀ todo subscribers, broadcast = .scanning todo subscribers →
      ∀ c ∈ subscribers, c ∈ s.subscribed s.broadcasts)
    (hpending : ∀ encoded todo, broadcast = .delivering encoded todo →
      ∀ c ∈ todo, c ∈ s.subscribed s.broadcasts) :
    Origins { s with
      broadcast := broadcast
      origin := Function.update s.origin s.delivery.handed.length origin
      delivery := d } := by
  have hhanded := handed_push h
  refine ⟨hscanned, hpending, fun c' m b hmem hb => ?_, fun c' m hmem => ?_, fun n hn => ?_⟩
  · simp only [hhanded, List.mem_append, List.mem_singleton, Prod.mk.injEq] at hmem
    rcases hmem with hmem | ⟨rfl, rfl⟩
    · have hne : m.number ≠ s.delivery.handed.length := (hs.number c' m hmem).ne
      simp only [Function.update_of_ne hne] at hb
      exact hs.handed c' m b hmem hb
    · simp only [Function.update_self] at hb
      exact horigin b hb
  · simp only [hhanded, List.mem_append, List.mem_singleton, Prod.mk.injEq, List.length_append,
      List.length_singleton] at hmem ⊢
    rcases hmem with hmem | ⟨rfl, rfl⟩
    · exact (hs.number c' m hmem).trans (Nat.lt_succ_self _)
    · exact Nat.lt_succ_self _
  · simp only [hhanded, List.length_append, List.length_singleton] at hn
    have hne : n ≠ s.delivery.handed.length := by omega
    simpa [hne] using hs.unborn n (by omega)

theorem Origins.reply {s : State} (hs : Origins s) {t : Thread} {c : ℕ} {encoded : Bytes}
    {d : Delivery.State ℕ Thread} (h : Delivery.step s.delivery (.push t c encoded) = some d) :
    Origins { s with delivery := d } := by
  have hnone : ∀ b ∈ (none : Option ℕ), c ∈ s.subscribed b := by simp
  have hnew := hs.push h hnone hs.scanned hs.pending
  rwa [← hs.unborn s.delivery.handed.length le_rfl, Function.update_eq_self] at hnew

theorem mem_subscribed_of_check {s : State} {c c' b : ℕ} (h : c' ∈ s.subscribed b) :
    c' ∈ Function.update s.subscribed s.broadcasts (s.subscribed s.broadcasts ++ [c]) b := by
  by_cases hb : b = s.broadcasts
  · subst hb
    simp [h]
  · simpa [hb] using h

theorem origins_step {s s' : State} {a : Action} (hs : Origins s) (h : Effect s a s') :
    Origins s' := by
  cases h with
  | reply hc hpush => exact hs.reply hpush
  | scan hidle =>
      refine ⟨?_, nofun, hs.handed, hs.number, hs.unborn⟩
      rintro _ _ ⟨⟩
      simp
  | found hscan hsub =>
      refine ⟨?_, nofun, fun c' m b hmem hb => mem_subscribed_of_check (hs.handed c' m b hmem hb),
        hs.number, hs.unborn⟩
      rintro _ _ ⟨⟩ c' hc'
      rcases List.mem_append.mp hc' with hold | hnew
      · exact mem_subscribed_of_check (hs.scanned _ _ hscan c' hold)
      · rw [List.mem_singleton.mp hnew]
        simp
  | skipped hscan =>
      refine ⟨?_, nofun, hs.handed, hs.number, hs.unborn⟩
      rintro _ _ ⟨⟩
      exact hs.scanned _ _ hscan
  | unlock hscan =>
      refine ⟨nofun, ?_, hs.handed, hs.number, hs.unborn⟩
      rintro _ _ ⟨⟩
      exact hs.scanned _ _ hscan
  | event hdeliver hpush =>
      have hall := hs.pending _ _ hdeliver
      refine hs.push hpush ?_ nofun ?_
      · rintro _ ⟨⟩
        exact hall _ (by simp)
      · rintro _ _ ⟨⟩ c' hc'
        exact hall c' (List.mem_cons_of_mem _ hc')
  | finish hdeliver hidle => exact ⟨nofun, nofun, hs.handed, hs.number, hs.unborn⟩
  | deliver hcall hpush => exact hs.of_handed rfl rfl rfl rfl (handed_of_not_push hcall hpush)
  | send hphase hr hsend => exact hs.of_handed rfl rfl rfl rfl (handed_of_not_push hsend nofun)
  | _ => exact hs.of_handed rfl rfl rfl rfl rfl

theorem addressed_effect {s s' : State} {a : Action} (hs : Addressed s.delivery)
    (h : Effect s a s') : Addressed s'.delivery := by
  cases h with
  | reply hc hpush => exact Delivery.addressed_step hs hpush
  | event hdeliver hpush => exact Delivery.addressed_step hs hpush
  | deliver hcall => exact Delivery.addressed_step hs hcall
  | send hphase hr hsend => exact Delivery.addressed_step hs hsend
  | _ => exact hs

/-- Every send of an event reached a connection whose client had a live subscription when the
broadcast looked at it. -/
def Confined (s : State) : Prop :=
  ∀ r n b, (r, n) ∈ s.received → s.origin n = some b → r ∈ s.subscribed b

instance (s : State) : Decidable (Confined s) :=
  decidable_of_iff (∀ e ∈ s.received, ∀ b ∈ s.origin e.2, e.1 ∈ s.subscribed b)
    ⟨fun h r n b hmem hb => h (r, n) hmem b hb, fun h e he b hb => h e.1 e.2 b he hb⟩

structure Inv (s : State) : Prop where
  table : s.table.Consistent
  readers : ReadersAtHome s
  reserved : Reserved s
  origins : Origins s
  addressed : Addressed s.delivery
  sent : ∀ r n, (r, n) ∈ s.received → n < s.delivery.handed.length
  confined : Confined s

/-- The connection that has the client's descriptor while a thread sends to it is its own. -/
theorem Inv.receiver {s : State} (hs : Inv s) {t : Thread} {c r total k : ℕ} {message : Message}
    {rest : List Message} (hphase : s.delivery.phase t = .sending c total message k rest)
    (hr : s.table.fds (s.table.fd c) = some r) : r = c := by
  have htarget : target (s.delivery.phase t) = some c := by
    rw [hphase]
    rfl
  cases t with
  | none => exact hs.reserved.own c (.inr htarget) r hr
  | some c' =>
      obtain ⟨rfl, hrunning⟩ := hs.readers c' c htarget
      have hown := (hs.table.open_iff (s.table.fd c) c).mpr ⟨by rw [hrunning]; rfl, rfl⟩
      exact Option.some.inj (hr.symm.trans hown)

theorem Inv.send {s : State} (hs : Inv s) {t : Thread} {c r total k : ℕ} {message : Message}
    {rest : List Message} (hphase : s.delivery.phase t = .sending c total message k rest)
    (hr : s.table.fds (s.table.fd c) = some r) :
    ∀ r' n b, (r', n) ∈ s.received ++ [(r, message.number)] → s.origin n = some b →
      r' ∈ s.subscribed b := by
  intro r' n b hmem hb
  rcases List.mem_append.mp hmem with hold | hnew
  · exact hs.confined r' n b hold hb
  · cases List.mem_singleton.mp hnew
    rw [hs.receiver hphase hr]
    exact hs.origins.handed c message b
      (hs.addressed.batch t c total message k rest hphase message (by simp)) hb

theorem confined_effect {s s' : State} {a : Action} (hs : Inv s) (h : Effect s a s') :
    (∀ r n, (r, n) ∈ s'.received → n < s'.delivery.handed.length) ∧ Confined s' := by
  cases h with
  | reply hc hpush =>
      refine ⟨fun r n hmem => (hs.sent r n hmem).trans_le ?_, hs.confined⟩
      simp [handed_push hpush]
  | found hscan hsub =>
      exact ⟨hs.sent, fun r n b hmem hb => mem_subscribed_of_check (hs.confined r n b hmem hb)⟩
  | event hdeliver hpush =>
      refine ⟨fun r n hmem => (hs.sent r n hmem).trans_le (by simp [handed_push hpush]), ?_⟩
      intro r n b hmem hb
      have hne : n ≠ s.delivery.handed.length := (hs.sent r n hmem).ne
      simp only [Function.update_of_ne hne] at hb
      exact hs.confined r n b hmem hb
  | deliver hcall hpush =>
      exact ⟨fun r n hmem => (handed_of_not_push hcall hpush).symm ▸ hs.sent r n hmem, hs.confined⟩
  | send hphase hr hsend =>
      refine ⟨fun r n hmem => ?_, hs.send hphase hr⟩
      simp only [handed_of_not_push hsend nofun]
      rcases List.mem_append.mp hmem with hold | hnew
      · exact hs.sent r n hold
      · cases List.mem_singleton.mp hnew
        exact hs.origins.number _ _
          (hs.addressed.batch _ _ _ _ _ _ hphase _ (List.mem_cons_self ..))
  | _ => exact ⟨hs.sent, hs.confined⟩

theorem inv_step {s s' : State} {a : Action} (hs : Inv s) (hstep : step s a = some s')
    (ha : Unused s a) : Inv s' := by
  have h := effect_of_step hstep
  obtain ⟨hsent, hconfined⟩ := confined_effect hs h
  exact ⟨consistent_step hs.table h, readersAtHome_step hs.table hs.readers h,
    reserved_step hs.table hs.reserved h ha, origins_step hs.origins h,
    addressed_effect hs.addressed h, hsent, hconfined⟩

theorem inv_initial : Inv {} where
  table := ⟨by simp [Progress.isOpen], by simp, by simp⟩
  readers := by simp [ReadersAtHome, target]
  reserved := ⟨by simp, by simp [Awaiting, Broadcast.pending, target]⟩
  origins := ⟨nofun, nofun, by simp, by simp, by simp⟩
  addressed := ⟨by simp, nofun, by simp⟩
  sent := by simp
  confined := by simp [Confined]

/-- Along a run in which no descriptor of a client of the running broadcast is given out again,
events reach subscribers only. -/
theorem events_confined_of_unused {actions : List Action} {s : State}
    (hrun : Runs.exec step {} actions = some s)
    (h : Runs.Always step (fun s a _ => Unused s a) {} actions) : Confined s := by
  have hinv : Inv s :=
    Runs.inv_of_always Inv inv_initial (fun _ _ _ hs hstep ha => inv_step hs hstep ha) hrun h
  exact hinv.confined

/-- One of two subscribers leaves during the broadcast and its descriptor stays closed. -/
def departed : List Action :=
  [.accept 5, .register 0, .subscribe 0 (StdString.cstr "s"), .accept 6, .register 1,
    .subscribe 1 (StdString.cstr "t"), .scan, .check, .check, .unlock (StdString.cstr "e"),
    .erase 0, .close 0, .event, .take none, .fail none, .event, .take none, .send none 2]

/-- The other one receives the event. -/
theorem events_confined_departed :
    Runs.Always step (fun s a _ => Unused s a) {} departed ∧
      ∃ s, Runs.exec step {} departed = some s ∧ s.received = [(1, 1)] ∧ Confined s := by
  have hunused : Runs.Always step (fun s a _ => Unused s a) {} departed := by decide +kernel
  have hrun : (Runs.exec step {} departed).map State.received = some [(1, 1)] := by decide +kernel
  obtain ⟨s, hs, hreceived⟩ := Option.map_eq_some_iff.mp hrun
  exact ⟨hunused, s, hs, hreceived, events_confined_of_unused hs hunused⟩

/-- The subscriber leaves during the broadcast, and a new connection gets its descriptor. -/
def replaced : List Action :=
  [.accept 5, .register 0, .subscribe 0 (StdString.cstr "s"), .scan, .check,
    .unlock (StdString.cstr "e"), .erase 0, .close 0, .accept 5, .register 1, .event, .take none,
    .send none 2]

/-- The new connection, which never subscribed, receives the event. -/
theorem replaced_receives_event :
    (Runs.exec step {} replaced).map (fun s => (s.received, s.origin 0, s.subscribed 0,
      decide (s.subscriptions 1).Nonempty, decide (Confined s))) =
        some ([(1, 0)], some 0, [0], false, false) := by
  decide +kernel

end Ezcap.Connections
