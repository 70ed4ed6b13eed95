import Mathlib.Data.List.Induction
import Ezcap.Library.JsonReference
import Ezcap.Model.Storage

/-! Runs of the store. The writer never clears its batch, so the second swap puts the rows
of the first batch back into the queue: every accepted event is written once, and in
order, exactly as long as no second iteration is completed. -/

namespace Ezcap.SqliteStore

open StdString

/-! ## Steps -/

/-- What a step can do. -/
inductive Transition (s : SqliteStore) : Action → SqliteStore → Prop where
  | disabled (event u) : Transition s (.store event u) s
  | dropped (event u) : Transition s (.store event u) { s with dropped := s.dropped + 1 }
  | accepted (event u) (w : PendingWrite) (hid : w.eventId = event.eventId)
      (hroom : s.queue.length < kMaxQueuedWrites) :
      Transition s (.store event u)
        { s with queue := s.queue ++ [w], accepted := s.accepted ++ [w] }
  | shutdown : Transition s .shutdown { s with shutdown := true }
  | swap (hw : s.writer = .waiting) (hq : s.queue ≠ []) :
      Transition s .swap
        { s with queue := s.batch, batch := s.queue, writer := .inserting s.queue }
  | inserted (w todo) (hw : s.writer = .inserting (w :: todo))
      (hnew : w.row.eventId ∉ s.table.map Row.eventId) :
      Transition s .write
        { s with
          table := s.table ++ [w.row]
          stored := s.stored + 1
          writer := .inserting todo }
  | conflict (w todo) (hw : s.writer = .inserting (w :: todo))
      (hold : w.row.eventId ∈ s.table.map Row.eventId) :
      Transition s .write { s with failed := true, writer := .returned }
  | finish (hw : s.writer = .inserting []) : Transition s .finish { s with writer := .waiting }
  | exit (hw : s.writer = .waiting) (hq : s.queue = []) :
      Transition s .exit { s with writer := .returned }

theorem transition_store {lib : JsonLib} {s t : SqliteStore} {event : Event} {u : ℤ} {b : Bool}
    (h : s.store lib event u = some (t, b)) : Transition s (.store event u) t := by
  unfold store at h
  split_ifs at h with hfailed hfull
  · cases h
    exact .disabled event u
  · obtain ⟨w, -, h⟩ := Option.map_eq_some_iff.mp h
    cases h
    exact .dropped event u
  · obtain ⟨w, hw, h⟩ := Option.map_eq_some_iff.mp h
    cases h
    obtain ⟨json, -, rfl⟩ := Option.map_eq_some_iff.mp hw
    exact .accepted event u _ rfl (not_le.mp hfull)

theorem transition_write {s t : SqliteStore} (h : s.write = some t) : Transition s .write t := by
  unfold write at h
  split at h
  · rename_i w todo hw
    by_cases hrow : w.row.eventId ∈ s.table.map Row.eventId
    · simp only [writeOne, hrow, if_true, Option.some.injEq] at h
      exact h ▸ .conflict w todo hw hrow
    · simp only [writeOne, hrow, if_false, Option.some.injEq] at h
      exact h ▸ .inserted w todo hw hrow
  · cases h

theorem transition_of_step {lib : JsonLib} {s t : SqliteStore} {a : Action}
    (h : s.step lib a = some t) : Transition s a t := by
  cases a with
  | store event u =>
      obtain ⟨⟨t, b⟩, hstore, rfl⟩ := Option.map_eq_some_iff.mp h
      exact transition_store hstore
  | shutdown =>
      cases h
      exact .shutdown
  | swap =>
      simp only [step, swap] at h
      split at h
      · split_ifs at h with hq
        cases h
        exact .swap ‹_› hq
      · cases h
  | write => exact transition_write h
  | finish =>
      simp only [step, finish] at h
      split at h
      · cases h
        exact .finish ‹_›
      · cases h
  | exit =>
      simp only [step, exit] at h
      split at h
      · split_ifs at h with hq
        cases h
        exact .exit ‹_› hq.1
      · cases h

theorem Transition.failed {s t : SqliteStore} {a : Action} (h : Transition s a t)
    (ht : t.failed = false) : s.failed = false := by
  cases h with
  | conflict => cases ht
  | _ => exact ht

/-! ## Runs -/

theorem run_append (lib : JsonLib) (s : SqliteStore) (actions more : List Action) :
    run lib s (actions ++ more) = (run lib s actions).bind (run lib · more) := by
  induction actions generalizing s with
  | nil => rfl
  | cons a actions ih =>
      simp only [List.cons_append, run]
      cases s.step lib a with
      | none => rfl
      | some t => exact ih t

theorem run_concat {lib : JsonLib} {s t : SqliteStore} {actions : List Action} {a : Action}
    (h : run lib s (actions ++ [a]) = some t) :
    ∃ r, run lib s actions = some r ∧ Transition r a t := by
  rw [run_append] at h
  obtain ⟨r, hr, h⟩ := Option.bind_eq_some_iff.mp h
  obtain ⟨t', hstep, h⟩ := Option.bind_eq_some_iff.mp h
  cases h
  exact ⟨r, hr, transition_of_step hstep⟩

/-- The ids of the events that are handed to `store`. -/
def storedIds (actions : List Action) : List Bytes :=
  actions.filterMap fun
    | .store event _ => some event.eventId
    | _ => none

/-- The iterations that the writer completes. -/
def iterations (actions : List Action) : ℕ := actions.count .finish

theorem iterations_le_append (actions more : List Action) :
    iterations actions ≤ iterations (actions ++ more) := by
  rw [iterations, iterations, List.count_append]
  exact Nat.le_add_right _ _

/-- The rows that the writer tries to insert. -/
def writes (actions : List Action) : ℕ := actions.count .write

/-- The accepted writes are those of some of the calls, in their order. -/
theorem accepted_sublist {lib : JsonLib} {s : SqliteStore} {actions : List Action}
    (h : run lib {} actions = some s) :
    (s.accepted.map PendingWrite.eventId).Sublist (storedIds actions) := by
  induction actions using List.reverseRecOn generalizing s with
  | nil =>
      cases h
      exact List.nil_sublist _
  | append_singleton actions a ih =>
      obtain ⟨r, hr, hstep⟩ := run_concat h
      have hr := ih hr
      rw [storedIds, List.filterMap_append]
      cases hstep with
      | accepted event u w hid hroom =>
          simpa [hid, storedIds] using hr.append_right [event.eventId]
      | _ => exact hr.trans (List.sublist_append_left _ _)

theorem accepted_isPrefix {s t : SqliteStore} {a : Action} (h : Transition s a t) :
    s.accepted <+: t.accepted := by
  cases h with
  | accepted => exact List.prefix_append _ _
  | _ => exact List.prefix_rfl

/-! ## Exactly once -/

/-- The rows of the batch that the writer has still to insert. -/
def todo (s : SqliteStore) : List PendingWrite :=
  match s.writer with
  | .inserting todo => todo
  | _ => []

/-- The table holds the first accepted events in their order, one row each; the others are
still to be inserted; the store is enabled; and between iterations the counter is the
number of accepted events that are not queued. -/
structure ExactlyOnce (s : SqliteStore) : Prop where
  inserted : s.table = (s.accepted.take s.table.length).map PendingWrite.row
  pending : ∀ w ∈ s.accepted.drop s.table.length, w ∈ s.todo ++ s.queue
  enabled : s.failed = false
  counted : s.writer = .waiting →
    s.stored.toNat = (s.accepted.filter fun w => decide (w ∉ s.queue)).length

/-! ## The first iteration and the second -/

/-- What holds all along a run of an enabled store. -/
structure Enabled (s : SqliteStore) : Prop where
  failed : s.failed = false
  stored : s.stored = UInt64.ofNat s.table.length
  queue : s.queue.length ≤ kMaxQueuedWrites
  batch : s.batch.length ≤ kMaxQueuedWrites

/-- The rows `old` of the batch before are back in the queue, and the rows `new` of this one are
inserted. Between iterations the batch still holds them. -/
structure During (s : SqliteStore) (old new fresh : List PendingWrite) : Prop where
  table : s.table = (old ++ new).map PendingWrite.row
  batch : s.batch = new ++ s.todo
  queue : s.queue = old ++ fresh
  accepted : s.accepted = old ++ new ++ s.todo ++ fresh

/-- The state of an enabled store after `k` iterations, for `k` at most one. -/
def Phase (k : ℕ) (s : SqliteStore) : Prop :=
  ∃ old new fresh, During s old new fresh ∧
    match s.writer with
    | .inserting todo => new ++ todo ≠ [] ∧ (old = [] ↔ k = 0)
    | _ => old = [] ∧ (new = [] ↔ k = 0)

theorem Enabled.step {s t : SqliteStore} {a : Action} (h : Enabled s) (hstep : Transition s a t)
    (ht : t.failed = false) : Enabled t := by
  obtain ⟨hfailed, hstored, hqueue, hbatch⟩ := h
  cases hstep with
  | accepted event u w hid hroom =>
      refine ⟨hfailed, hstored, ?_, hbatch⟩
      rw [List.length_append]
      exact hroom
  | swap => exact ⟨hfailed, hstored, hbatch, hqueue⟩
  | inserted w todo hw hnew =>
      refine ⟨hfailed, ?_, hqueue, hbatch⟩
      rw [hstored, List.length_append, UInt64.ofNat_add]
      rfl
  | conflict => cases ht
  | _ => exact ⟨hfailed, hstored, hqueue, hbatch⟩

theorem todo_inserting {s : SqliteStore} {todo : List PendingWrite}
    (hw : s.writer = .inserting todo) : s.todo = todo := by
  rw [SqliteStore.todo, hw]

theorem todo_waiting {s : SqliteStore} (hw : s.writer = .waiting) : s.todo = [] := by
  rw [todo, hw]

/-- Every step but the end of a second iteration keeps the phase. -/
theorem Phase.step {k : ℕ} {s t : SqliteStore} {a : Action} (h : Phase k s)
    (hstep : Transition s a t) (ht : t.failed = false) (hk : k + iterations [a] ≤ 1) :
    Phase (k + iterations [a]) t := by
  obtain ⟨old, new, fresh, ⟨htable, hbatch, hqueue, haccepted⟩, hphase⟩ := h
  cases hstep with
  | disabled | dropped | shutdown =>
      exact ⟨old, new, fresh, ⟨htable, hbatch, hqueue, haccepted⟩, hphase⟩
  | accepted event u w hid hroom =>
      refine ⟨old, new, fresh ++ [w], ⟨htable, hbatch, ?_, ?_⟩, hphase⟩
      · simp [hqueue]
      · simp [haccepted, todo]
  | swap hw hq =>
      rw [hw] at hphase
      rw [todo_waiting hw] at hbatch haccepted
      obtain ⟨rfl, hk⟩ := hphase
      refine ⟨new, [], [], ⟨?_, rfl, hbatch, ?_⟩, hq, hk⟩
      · simpa using htable
      · simpa [hqueue, todo] using haccepted
  | inserted w todo hw hnew =>
      rw [hw] at hphase
      rw [todo_inserting hw] at hbatch haccepted
      refine ⟨old, new ++ [w], fresh, ⟨?_, ?_, hqueue, ?_⟩, ?_, hphase.2⟩
      · simp [htable]
      · simp [hbatch, SqliteStore.todo]
      · simp [haccepted, SqliteStore.todo]
      · simp
  | conflict => cases ht
  | finish hw =>
      rw [hw] at hphase
      rw [todo_inserting hw] at hbatch haccepted
      have hzero : k = 0 := by
        have : iterations [Action.finish] = 1 := rfl
        omega
      refine ⟨old, new, fresh, ⟨htable, hbatch, hqueue, haccepted⟩, hphase.2.mpr hzero, ?_⟩
      simpa [hzero, iterations] using hphase.1
  | exit hw hq =>
      rw [hw] at hphase
      rw [todo_waiting hw] at hbatch haccepted
      exact ⟨old, new, fresh, ⟨htable, hbatch, hqueue, haccepted⟩, hphase⟩

/-! ## Exactly once as long as no second iteration ends -/

theorem Enabled.stored_toNat {s : SqliteStore} (h : Enabled s) {n : ℕ}
    (hn : s.table.length = n) (hlt : n < 2 ^ 64) : s.stored.toNat = n := by
  rw [h.stored, hn]
  exact Nat.mod_eq_of_lt hlt

/-- Between iterations the accepted events that are not queued are those inserted. -/
theorem During.notQueued {s : SqliteStore} {new fresh : List PendingWrite}
    (h : During s [] new fresh) (hw : s.writer = .waiting) (hnodup : s.accepted.Nodup) :
    (s.accepted.filter fun w => decide (w ∉ s.queue)) = new := by
  have haccepted := h.accepted
  rw [todo_waiting hw, List.nil_append, List.append_nil] at haccepted
  have hdisjoint := (List.nodup_append.mp (haccepted ▸ hnodup)).2.2
  have hnew : (new.filter fun w => decide (w ∉ fresh)) = new := by
    refine List.filter_eq_self.mpr fun w hw => ?_
    simpa using fun hf => hdisjoint w hw w hf rfl
  have hfresh : (fresh.filter fun w => decide (w ∉ fresh)) = [] := by
    refine List.filter_eq_nil_iff.mpr fun w hw => ?_
    simpa using hw
  rw [haccepted, h.queue, List.nil_append, List.filter_append, hnew, hfresh, List.append_nil]

theorem Phase.exactlyOnce {k : ℕ} {s : SqliteStore} (h : Phase k s) (he : Enabled s)
    (hnodup : s.accepted.Nodup) : ExactlyOnce s := by
  obtain ⟨old, new, fresh, hd, hphase⟩ := h
  have hlen : s.table.length = (old ++ new).length := by simp [hd.table]
  have hsplit : s.accepted = (old ++ new) ++ (s.todo ++ fresh) := by
    rw [hd.accepted, List.append_assoc]
  refine ⟨?_, ?_, he.failed, fun hw => ?_⟩
  · rw [hlen, hsplit, List.take_left, hd.table]
  · rw [hlen, hsplit, List.drop_left, hd.queue]
    intro w hmem
    simp only [List.mem_append] at hmem ⊢
    exact hmem.imp_right .inr
  · rw [hw] at hphase
    obtain ⟨rfl, -⟩ := hphase
    rw [hd.notQueued hw hnodup]
    refine he.stored_toNat hlen ?_
    have hsmall := he.batch
    rw [hd.batch, todo_waiting hw, List.append_nil] at hsmall
    exact hsmall.trans_lt (by decide)

/-- The end of a second iteration finds the rows of the first one queued again. -/
theorem During.not_exactlyOnce {s : SqliteStore} {old new fresh : List PendingWrite}
    (h : During s old new fresh) (hw : s.writer = .inserting []) (he : Enabled s)
    (hold : old ≠ []) :
    ¬ ExactlyOnce { s with writer := .waiting } := by
  intro honce
  have hcounted : s.stored.toNat = (s.accepted.filter fun w => decide (w ∉ s.queue)).length :=
    honce.counted rfl
  have hlen : s.table.length = old.length + new.length := by simp [h.table]
  have hqueue := he.queue
  have hbatch := he.batch
  have hpos := List.length_pos_of_ne_nil hold
  rw [h.queue, List.length_append] at hqueue
  rw [h.batch, todo_inserting hw, List.append_nil] at hbatch
  have hmax : kMaxQueuedWrites = 4096 := rfl
  have hstored := he.stored_toNat hlen (by omega)
  have hfilter : (s.accepted.filter fun w => decide (w ∉ s.queue)).length ≤ new.length := by
    have hold : (old.filter fun w => decide (w ∉ old ++ fresh)) = [] := by
      refine List.filter_eq_nil_iff.mpr fun w hw => ?_
      simp [hw]
    have hfresh : (fresh.filter fun w => decide (w ∉ old ++ fresh)) = [] := by
      refine List.filter_eq_nil_iff.mpr fun w hw => ?_
      simp [hw]
    rw [h.accepted, h.queue, todo_inserting hw, List.append_nil, List.filter_append,
      List.filter_append, hold, hfresh, List.append_nil, List.nil_append]
    exact List.length_filter_le _ _
  omega

/-- As long as the store is enabled and no second iteration has ended, the phase is known, and
every insert that was tried has been made. -/
theorem phase_run {lib : JsonLib} {s : SqliteStore} {actions : List Action}
    (h : run lib {} actions = some s) (hs : s.failed = false) (hk : iterations actions ≤ 1) :
    Phase (iterations actions) s ∧ Enabled s ∧ s.table.length = writes actions := by
  induction actions using List.reverseRecOn generalizing s with
  | nil =>
      cases h
      exact ⟨⟨[], [], [], ⟨rfl, rfl, rfl, rfl⟩, rfl, by simp [iterations]⟩,
        ⟨rfl, rfl, Nat.zero_le _, Nat.zero_le _⟩, rfl⟩
  | append_singleton actions a ih =>
      obtain ⟨r, hr, hstep⟩ := run_concat h
      obtain ⟨hphase, henabled, hwrites⟩ :=
        ih hr (hstep.failed hs) ((iterations_le_append actions [a]).trans hk)
      rw [iterations, List.count_append] at hk ⊢
      refine ⟨hphase.step hstep hs hk, henabled.step hstep hs, ?_⟩
      rw [writes, List.count_append]
      cases hstep with
      | inserted => simpa [writes] using hwrites
      | conflict => cases hs
      | _ => exact hwrites

theorem nodup_table {lib : JsonLib} {s : SqliteStore} {actions : List Action}
    (h : run lib {} actions = some s) : (s.table.map Row.eventId).Nodup := by
  induction actions using List.reverseRecOn generalizing s with
  | nil =>
      cases h
      exact List.nodup_nil
  | append_singleton actions a ih =>
      obtain ⟨r, hr, hstep⟩ := run_concat h
      have hbefore := ih hr
      cases hstep with
      | inserted w todo hw hnew =>
          rw [List.map_append, List.map_singleton]
          refine List.nodup_append.mpr ⟨hbefore, List.nodup_singleton _, ?_⟩
          rintro id hid _ hmem rfl
          exact hnew (List.mem_singleton.mp hmem ▸ hid)
      | _ => exact hbefore

/-- The ids, as the table sees them, of the writes that a run tries when all goes well. -/
def attempted (s : SqliteStore) (actions : List Action) : List Bytes :=
  (s.accepted.take (writes actions)).map fun w => w.row.eventId

theorem attempted_isPrefix {s t : SqliteStore} {actions more : List Action}
    (h : t.accepted <+: s.accepted) :
    attempted t actions <+: attempted s (actions ++ more) := by
  refine List.IsPrefix.map _ (List.prefix_take_iff.mpr ⟨(List.take_prefix _ _).trans h, ?_⟩)
  rw [writes, writes, List.count_append, List.length_take]
  omega

theorem run_accepted_isPrefix {lib : JsonLib} {s t : SqliteStore} {actions : List Action}
    (h : run lib s actions = some t) : s.accepted <+: t.accepted := by
  induction actions generalizing s with
  | nil =>
      cases h
      exact List.prefix_rfl
  | cons a actions ih =>
      obtain ⟨r, hstep, hr⟩ := Option.bind_eq_some_iff.mp h
      exact (accepted_isPrefix (transition_of_step hstep)).trans (ih hr)

/-- Distinct ids and a single iteration keep the store enabled. -/
theorem failed_of_distinct {lib : JsonLib} {s : SqliteStore} {actions : List Action}
    (h : run lib {} actions = some s) (hk : iterations actions ≤ 1)
    (hids : (attempted s actions).Nodup) : s.failed = false := by
  induction actions using List.reverseRecOn generalizing s with
  | nil =>
      cases h
      rfl
  | append_singleton actions a ih =>
      obtain ⟨r, hr, hstep⟩ := run_concat h
      have hbefore := (iterations_le_append actions [a]).trans hk
      have hfailed := ih hr hbefore
        (hids.sublist (attempted_isPrefix (accepted_isPrefix hstep)).sublist)
      cases hstep with
      | conflict w todo hw hold =>
          -- the row that is refused is the next of the accepted ones
          obtain ⟨hphase, -, hwrites⟩ := phase_run hr hfailed hbefore
          obtain ⟨old, new, fresh, hd, -⟩ := hphase
          have hcount : writes (actions ++ [.write]) = (old ++ new ++ [w]).length := by
            rw [writes, List.count_append, ← writes, ← hwrites, hd.table]
            simp [Nat.add_assoc]
          have haccepted : r.accepted = old ++ new ++ [w] ++ (todo ++ fresh) := by
            simp [hd.accepted, todo_inserting hw]
          simp only [attempted, hcount, haccepted, List.take_left] at hids
          rw [List.map_append, List.nodup_append] at hids
          rw [hd.table, List.map_map] at hold
          exact absurd rfl (hids.2.2 _ hold _ (by simp))
      | _ => exact hfailed

theorem iterations_le_one {lib : JsonLib} {s : SqliteStore} {actions : List Action}
    (h : run lib {} actions = some s)
    (honce : ∀ pre, pre <+: actions → ∀ t, run lib {} pre = some t → ExactlyOnce t) :
    iterations actions ≤ 1 := by
  induction actions using List.reverseRecOn generalizing s with
  | nil => exact Nat.zero_le _
  | append_singleton actions a ih =>
      obtain ⟨r, hr, hstep⟩ := run_concat h
      have hpre := List.prefix_append actions [a]
      have hk := ih hr fun pre hp => honce pre (hp.trans hpre)
      rw [iterations, List.count_append, ← iterations]
      cases hstep with
      | finish hw =>
          by_contra htwo
          have hone : iterations actions ≠ 0 := fun hzero => htwo (by simp [hzero])
          obtain ⟨hphase, henabled, -⟩ := phase_run hr (honce actions hpre r hr).enabled hk
          obtain ⟨old, new, fresh, hd, hold⟩ := hphase
          rw [hw] at hold
          exact hd.not_exactlyOnce hw henabled (fun hnil => hone (hold.2.mp hnil))
            (honce _ List.prefix_rfl _ h)
      | _ => exact hk

/-- Every state of a run with distinct event ids has each accepted event written exactly once
and in order, and the counter right, exactly when the writer completes at most one
iteration and no two of the ids it writes agree up to their first NUL. -/
theorem exactly_once_iff (lib : JsonLib) (actions : List Action) (s : SqliteStore)
    (hids : (storedIds actions).Nodup) (hrun : run lib {} actions = some s) :
    (∀ pre, pre <+: actions → ∀ t, run lib {} pre = some t → ExactlyOnce t) ↔
      iterations actions ≤ 1 ∧ (attempted s actions).Nodup := by
  constructor
  · intro honce
    have hk := iterations_le_one hrun honce
    have hfinal := honce actions List.prefix_rfl s hrun
    obtain ⟨-, -, hwrites⟩ := phase_run hrun hfinal.enabled hk
    refine ⟨hk, ?_⟩
    have htable := nodup_table hrun
    rw [hfinal.inserted, hwrites, List.map_map] at htable
    exact htable
  · rintro ⟨hk, hdistinct⟩ pre ⟨rest, rfl⟩ t ht
    have hrest : run lib t rest = some s := by simpa [run_append, ht] using hrun
    have hpre := (iterations_le_append pre rest).trans hk
    have hfailed := failed_of_distinct ht hpre
      (hdistinct.sublist (attempted_isPrefix (run_accepted_isPrefix hrest)).sublist)
    obtain ⟨hphase, henabled, -⟩ := phase_run ht hfailed hpre
    refine hphase.exactlyOnce henabled (List.Nodup.of_map PendingWrite.eventId ?_)
    refine ((accepted_sublist ht).trans ?_).nodup hids
    rw [storedIds, storedIds, List.filterMap_append]
    exact List.sublist_append_left _ _

/-- One iteration, with a store between its two inserts. -/
def singleIteration : List Action :=
  [.store { eventId := cstr "a" } 0, .store { eventId := cstr "b" } 0, .swap, .write,
    .store { eventId := cstr "c" } 0, .write, .finish]

theorem exactly_once_singleIteration :
    (run JsonReference.lib {} singleIteration).isSome = true ∧
      ∀ pre, pre <+: singleIteration → ∀ t, run JsonReference.lib {} pre = some t →
        ExactlyOnce t := by
  have hrun : (run JsonReference.lib {} singleIteration).isSome = true := by decide +kernel
  refine ⟨hrun, ?_⟩
  obtain ⟨s, hs⟩ := Option.isSome_iff_exists.mp hrun
  have hdistinct : (run JsonReference.lib {} singleIteration).map
      (fun s => decide (attempted s singleIteration).Nodup) = some true := by
    decide +kernel
  rw [hs, Option.map_some, Option.some.injEq, decide_eq_true_eq] at hdistinct
  exact (exactly_once_iff JsonReference.lib singleIteration s (by decide) hs).mpr
    ⟨by decide, hdistinct⟩

/-- Two iterations of one event each, and the insert that the third one starts with. -/
def thirdIteration : List Action :=
  [.store { eventId := cstr "a" } 0, .swap, .write, .finish,
    .store { eventId := cstr "b" } 0, .swap, .write, .finish, .swap, .write]

/-- The third iteration inserts the first event again, and the store disables itself. -/
theorem thirdIteration_conflict :
    (storedIds thirdIteration).Nodup ∧
      ∃ s, run JsonReference.lib {} thirdIteration = some s ∧ s.failed = true ∧
        s.table.map Row.eventId = [cstr "a", cstr "b"] ∧ ¬ ExactlyOnce s := by
  have hrun : (run JsonReference.lib {} thirdIteration).map
      (fun s => (s.failed, s.table.map Row.eventId)) = some (true, [cstr "a", cstr "b"]) := by
    decide +kernel
  obtain ⟨s, hs, hresult⟩ := Option.map_eq_some_iff.mp hrun
  obtain ⟨hfailed, htable⟩ := Prod.mk.inj hresult
  refine ⟨by decide, s, hs, hfailed, htable, fun honce => ?_⟩
  rw [honce.enabled] at hfailed
  cases hfailed

end Ezcap.SqliteStore
