import Ezcap.Library.Threads

/-! A logic for threads that acquire their mutexes in the order of a rank. Each thread has a
view of the shared state that no other thread changes; what it does may depend on its
view, and every access keeps an invariant of the whole state. -/

/-- The rank of the mutexes, the invariant of the shared state, and the threads' views of it. -/
structure Discipline (T M S V : Type) where
  rank : M → ℕ
  bound : ℕ
  rank_le : ∀ m, rank m ≤ bound
  inv : S → Prop
  view : T → S → V

namespace Discipline

variable {T M S V α β : Type} (d : Discipline T M S V) (t : T)

/-- The access `f` of thread `t` from view `v` keeps the invariant and the other views. -/
structure Keeps (v : V) (f : S → S) : Prop where
  inv : ∀ s, d.inv s → d.view t s = v → d.inv (f s)
  frame : ∀ s, d.inv s → d.view t s = v → ∀ u, u ≠ t → d.view u (f s) = d.view u s

/-- From view `v` and with the mutexes `held`, latest first, thread `t` follows the discipline
until it gets to an `exit`. -/
inductive Safe (exit : V → List M → Prog M S α → Prop) : V → List M → Prog M S α → Prop where
  | exit {v held prog} (h : exit v held prog) : Safe exit v held prog
  | acquire {v held m next} (hrank : ∀ n ∈ held, d.rank n < d.rank m)
      (h : Safe exit v (m :: held) next) : Safe exit v held (.acquire m next)
  | release {v held m next} (h : Safe exit v held next) :
      Safe exit v (m :: held) (.release m next)
  | access {v held f next} (hkeeps : Keeps d t v f)
      (h : ∀ s, d.inv s → d.view t s = v → Safe exit (d.view t (f s)) held (next s)) :
      Safe exit v held (.access f next)
  | choose {v held next} (h : ∀ b, Safe exit v held (next b)) : Safe exit v held (.choose next)

/-- The thread answers, with `post` of its view and its answer, and holds what it held before. -/
def Triple (held : List M) (v : V) (prog : Prog M S α) (post : V → α → Prop) : Prop :=
  Safe d t (fun v' held' prog' => held' = held ∧ ∃ a, prog' = .pure a ∧ post v' a) v held prog

/-! ## Rules -/

variable {d t} {held : List M} {v : V} {post : V → α → Prop}

theorem Safe.bind {exit : V → List M → Prog M S α → Prop} {exit' : V → List M → Prog M S β → Prop}
    {prog : Prog M S α} {k : α → Prog M S β} (h : Safe d t exit v held prog)
    (hk : ∀ v' held' prog', exit v' held' prog' → Safe d t exit' v' held' (prog'.bind k)) :
    Safe d t exit' v held (prog.bind k) := by
  induction h with
  | exit h => exact hk _ _ _ h
  | acquire hrank _ ih => exact .acquire hrank ih
  | release _ ih => exact .release ih
  | access hkeeps _ ih => exact .access hkeeps ih
  | choose _ ih => exact .choose ih

theorem Triple.safe_bind {exit : V → List M → Prog M S β → Prop} {prog : Prog M S α}
    {k : α → Prog M S β} (h : Triple d t held v prog post)
    (hk : ∀ v' a, post v' a → Safe d t exit v' held (k a)) :
    Safe d t exit v held (prog.bind k) := by
  refine Safe.bind h ?_
  rintro v' _ _ ⟨rfl, a, rfl, ha⟩
  exact hk v' a ha

theorem Triple.pure {a : α} (h : post v a) : Triple d t held v (.pure a) post :=
  .exit ⟨rfl, a, rfl, h⟩

theorem Triple.bind {post' : V → β → Prop} {prog : Prog M S α} {k : α → Prog M S β}
    (h : Triple d t held v prog post) (hk : ∀ v' a, post v' a → Triple d t held v' (k a) post') :
    Triple d t held v (prog.bind k) post' :=
  h.safe_bind hk

theorem Safe.mono {exit exit' : V → List M → Prog M S α → Prop} {prog : Prog M S α}
    (h : Safe d t exit v held prog) (hexit : ∀ v' held' prog', exit v' held' prog' →
      exit' v' held' prog') : Safe d t exit' v held prog := by
  induction h with
  | exit h => exact .exit (hexit _ _ _ h)
  | acquire hrank _ ih => exact .acquire hrank ih
  | release _ ih => exact .release ih
  | access hkeeps _ ih => exact .access hkeeps ih
  | choose _ ih => exact .choose ih

theorem Triple.mono {post' : V → α → Prop} {prog : Prog M S α} (h : Triple d t held v prog post)
    (hpost : ∀ v' a, post v' a → post' v' a) : Triple d t held v prog post' := by
  refine Safe.mono h ?_
  rintro v' _ _ ⟨rfl, a, rfl, ha⟩
  exact ⟨rfl, a, rfl, hpost v' a ha⟩

theorem Triple.lock {m : M} {body : Prog M S α} (hrank : ∀ n ∈ held, d.rank n < d.rank m)
    (h : Triple d t (m :: held) v body post) : Triple d t held v (.lock m body) post := by
  refine .acquire hrank (h.safe_bind fun v' a ha => ?_)
  exact .release (.exit ⟨rfl, a, rfl, ha⟩)

theorem Triple.exchange {f : S → S} {g : S → α} (hkeeps : Keeps d t v f)
    (h : ∀ s, d.inv s → d.view t s = v → post (d.view t (f s)) (g s)) :
    Triple d t held v (.exchange f g) post :=
  .access hkeeps fun s hs hv => .exit ⟨rfl, g s, rfl, h s hs hv⟩

theorem Keeps.id : Keeps d t v (id : S → S) :=
  ⟨fun _ hs _ => hs, fun _ _ _ _ _ => rfl⟩

theorem Triple.read {g : S → α} (h : ∀ s, d.inv s → d.view t s = v → post v (g s)) :
    Triple d t held v (.read g) post := by
  refine .access Keeps.id fun s hs hv => .exit ⟨rfl, g s, rfl, ?_⟩
  exact hv.symm ▸ h s hs hv

theorem Triple.modify {f : S → S} {post : V → Unit → Prop} (hkeeps : Keeps d t v f)
    (h : ∀ s, d.inv s → d.view t s = v → post (d.view t (f s)) ()) :
    Triple d t held v (.modify f) post :=
  .access hkeeps fun s hs hv => .exit ⟨rfl, (), rfl, h s hs hv⟩

theorem Triple.ask {post : V → Bool → Prop} (h : ∀ b, post v b) :
    Triple d t held v .ask post :=
  .choose fun b => .exit ⟨rfl, b, rfl, h b⟩

theorem Triple.orAbort {a : Option α} (ha : a.isSome = true) (h : ∀ x ∈ a, post v x) :
    Triple d t held v (.orAbort a) post := by
  obtain ⟨x, rfl⟩ := Option.isSome_iff_exists.mp ha
  exact .pure (h x rfl)

theorem Triple.forEach {f : α → Prog M S Unit} {inv : V → Prop} {as : List α} (hv : inv v)
    (h : ∀ a ∈ as, ∀ v, inv v → Triple d t held v (f a) fun v' _ => inv v') :
    Triple d t held v (.forEach f as) fun v' _ => inv v' := by
  induction as generalizing v with
  | nil => exact .pure hv
  | cons a as ih =>
      refine .bind (h a (by simp) v hv) fun v' _ hv' => ?_
      exact ih hv' fun b hb => h b (by simp [hb])

/-! ## Pools that follow the discipline -/

section Pools

variable {pool next : Pool T M S} {goal : T → V → Prop}

/-- The mutexes that thread `t` holds, latest first. -/
structure Holds (d : Discipline T M S V) (pool : Pool T M S) (t : T) (held : List M) : Prop where
  owner : ∀ m, pool.owner m = some t ↔ m ∈ held
  ordered : held.Pairwise fun m n => d.rank n < d.rank m

theorem Holds.head_notMem {m : M} (h : Holds d pool t (m :: held)) : m ∉ held := fun hm =>
  lt_irrefl _ ((List.pairwise_cons.mp h.ordered).1 m hm)

/-- Thread `t` has ended, and its view meets its goal. -/
def Ended (goal : T → V → Prop) (t : T) (v : V) (held : List M) (prog : Prog M S Unit) : Prop :=
  held = [] ∧ ∃ a, prog = .pure a ∧ goal t v

/-- Thread `t` follows the discipline to its end. -/
def Follows (d : Discipline T M S V) (goal : T → V → Prop) (pool : Pool T M S) (t : T)
    (held : List M) : Prop :=
  Safe d t (Ended goal t) (d.view t pool.shared) held (pool.code t)

structure Good (d : Discipline T M S V) (goal : T → V → Prop) (pool : Pool T M S) : Prop where
  inv : d.inv pool.shared
  thread : ∀ t, ∃ held, Holds d pool t held ∧ Follows d goal pool t held

/-- A pool that starts with every mutex free and every thread before a call that answers. -/
theorem good_initial (hinv : d.inv pool.shared) (hfree : ∀ m, pool.owner m = none)
    (h : ∀ t, Triple d t [] (d.view t pool.shared) (pool.code t) fun v _ => goal t v) :
    Good d goal pool :=
  ⟨hinv, fun t => ⟨[], ⟨by simp [hfree], List.Pairwise.nil⟩, h t⟩⟩

section Follows

variable (h : Follows d goal pool t held)

include h

theorem Follows.acquire {m : M} {prog : Prog M S Unit} (hcode : pool.code t = .acquire m prog) :
    (∀ n ∈ held, d.rank n < d.rank m) ∧
      Safe d t (Ended goal t) (d.view t pool.shared) (m :: held) prog := by
  rw [Follows, hcode] at h
  cases h with
  | exit hended => obtain ⟨-, _, ⟨⟩, -⟩ := hended
  | acquire hrank hnext => exact ⟨hrank, hnext⟩

theorem Follows.release {m : M} {prog : Prog M S Unit} (hcode : pool.code t = .release m prog) :
    ∃ rest, held = m :: rest ∧ Safe d t (Ended goal t) (d.view t pool.shared) rest prog := by
  rw [Follows, hcode] at h
  cases h with
  | exit hended => obtain ⟨-, _, ⟨⟩, -⟩ := hended
  | release hnext => exact ⟨_, rfl, hnext⟩

theorem Follows.access {f : S → S} {prog : S → Prog M S Unit}
    (hcode : pool.code t = .access f prog) :
    Keeps d t (d.view t pool.shared) f ∧ (d.inv pool.shared →
      Safe d t (Ended goal t) (d.view t (f pool.shared)) held (prog pool.shared)) := by
  rw [Follows, hcode] at h
  cases h with
  | exit hended => obtain ⟨-, _, ⟨⟩, -⟩ := hended
  | access hkeeps hnext => exact ⟨hkeeps, fun hinv => hnext _ hinv rfl⟩

theorem Follows.choose {prog : Bool → Prog M S Unit} (hcode : pool.code t = .choose prog)
    (b : Bool) :
    Safe d t (Ended goal t) (d.view t pool.shared) held (prog b) := by
  rw [Follows, hcode] at h
  cases h with
  | exit hended => obtain ⟨-, _, ⟨⟩, -⟩ := hended
  | choose hnext => exact hnext b

theorem Follows.not_abort : pool.code t ≠ .abort := by
  intro hcode
  rw [Follows, hcode] at h
  cases h with
  | exit hended => obtain ⟨-, _, ⟨⟩, -⟩ := hended

theorem Follows.pure {a : Unit} (hcode : pool.code t = .pure a) :
    held = [] ∧ goal t (d.view t pool.shared) := by
  rw [Follows, hcode] at h
  cases h with
  | exit hended => obtain ⟨hheld, -, -, hgoal⟩ := hended; exact ⟨hheld, hgoal⟩

theorem Follows.frame (hold : Holds d pool t held) (hcode : next.code t = pool.code t)
    (howner : ∀ m, next.owner m = some t ↔ pool.owner m = some t)
    (hview : d.view t next.shared = d.view t pool.shared) :
    ∃ held, Holds d next t held ∧ Follows d goal next t held := by
  refine ⟨held, ⟨fun m => (howner m).trans (hold.owner m), hold.ordered⟩, ?_⟩
  rw [Follows, hcode, hview]
  exact h

end Follows

theorem Good.not_selfAcquire (h : Good d goal pool) : ¬ pool.SelfAcquire := by
  rintro ⟨t, m, prog, hcode, howner⟩
  obtain ⟨held, hold, hfollows⟩ := h.thread t
  exact lt_irrefl _ ((hfollows.acquire hcode).1 m ((hold.owner m).mp howner))

section Steps

variable [DecidableEq T] (h : Good d goal pool)

include h

theorem Good.acquire [DecidableEq M] {m : M} {prog : Prog M S Unit}
    (hcode : pool.code t = .acquire m prog) (hfree : pool.owner m = none) :
    Good d goal { pool with
      owner := Function.update pool.owner m (some t)
      code := Function.update pool.code t prog } := by
  refine ⟨h.inv, fun u => ?_⟩
  obtain ⟨held, hold, hfollows⟩ := h.thread u
  by_cases hu : u = t
  · subst hu
    obtain ⟨hrank, hnext⟩ := hfollows.acquire hcode
    refine ⟨m :: held, ⟨fun n => ?_, List.pairwise_cons.mpr ⟨hrank, hold.ordered⟩⟩, ?_⟩
    · by_cases hn : n = m
      · simp [hn]
      · simp [hn, hold.owner]
    · simpa [Follows] using hnext
  · refine hfollows.frame hold (Function.update_of_ne hu _ _) (fun n => ?_) rfl
    by_cases hn : n = m
    · simp [hn, hfree, Ne.symm hu]
    · simp [hn]

theorem Good.release [DecidableEq M] {m : M} {prog : Prog M S Unit}
    (hcode : pool.code t = .release m prog) :
    Good d goal { pool with
      owner := Function.update pool.owner m none
      code := Function.update pool.code t prog } := by
  have howner : pool.owner m = some t := by
    obtain ⟨held, hold, hfollows⟩ := h.thread t
    obtain ⟨rest, rfl, -⟩ := hfollows.release hcode
    exact (hold.owner m).mpr (by simp)
  refine ⟨h.inv, fun u => ?_⟩
  obtain ⟨held, hold, hfollows⟩ := h.thread u
  by_cases hu : u = t
  · subst hu
    obtain ⟨rest, rfl, hnext⟩ := hfollows.release hcode
    refine ⟨rest, ⟨fun n => ?_, (List.pairwise_cons.mp hold.ordered).2⟩, ?_⟩
    · by_cases hn : n = m
      · simp [hn, hold.head_notMem]
      · simp [hn, hold.owner]
    · simpa [Follows] using hnext
  · refine hfollows.frame hold (Function.update_of_ne hu _ _) (fun n => ?_) rfl
    by_cases hn : n = m
    · simp [hn, howner, Ne.symm hu]
    · simp [hn]

theorem Good.access {f : S → S} {prog : S → Prog M S Unit}
    (hcode : pool.code t = .access f prog) :
    Good d goal { pool with
      shared := f pool.shared
      code := Function.update pool.code t (prog pool.shared) } := by
  obtain ⟨held, hold, hfollows⟩ := h.thread t
  obtain ⟨hkeeps, hnext⟩ := hfollows.access hcode
  refine ⟨hkeeps.inv _ h.inv rfl, fun u => ?_⟩
  by_cases hu : u = t
  · subst hu
    refine ⟨held, ⟨hold.owner, hold.ordered⟩, ?_⟩
    simpa [Follows] using hnext h.inv
  · obtain ⟨held, hold, hfollows⟩ := h.thread u
    exact hfollows.frame hold (Function.update_of_ne hu _ _) (fun _ => Iff.rfl)
      (hkeeps.frame _ h.inv rfl u hu)

theorem Good.choose {prog : Bool → Prog M S Unit} (hcode : pool.code t = .choose prog) (b : Bool) :
    Good d goal { pool with code := Function.update pool.code t (prog b) } := by
  refine ⟨h.inv, fun u => ?_⟩
  obtain ⟨held, hold, hfollows⟩ := h.thread u
  by_cases hu : u = t
  · subst hu
    refine ⟨held, ⟨hold.owner, hold.ordered⟩, ?_⟩
    simpa [Follows] using hfollows.choose hcode b
  · exact hfollows.frame hold (Function.update_of_ne hu _ _) (fun _ => Iff.rfl) rfl

end Steps

variable [DecidableEq T] [DecidableEq M]

theorem Good.step (h : Good d goal pool) (hstep : Pool.Step pool next) : Good d goal next := by
  obtain ⟨-, t, b, hstep⟩ := hstep
  unfold Pool.step at hstep
  split at hstep
  · cases hstep
  · cases hstep
  · rename_i hcode
    split_ifs at hstep with hfree
    cases hstep
    exact h.acquire hcode hfree
  · rename_i hcode
    cases hstep
    exact h.release hcode
  · rename_i hcode
    cases hstep
    exact h.access hcode
  · rename_i hcode
    cases hstep
    exact h.choose hcode b

theorem Good.reach (h : Good d goal pool) (hreach : Pool.Reach pool next) : Good d goal next := by
  induction hreach with
  | refl => exact h
  | tail _ hstep ih => exact ih.step hstep

/-! ## No deadlock -/

/-- A thread that has not ended and is not blocked can take a step. -/
theorem Good.step_or_blocked (h : Good d goal pool) (t : T) (hcode : ∀ a, pool.code t ≠ .pure a) :
    (∃ next, pool.Step next) ∨
      ∃ m prog, pool.code t = .acquire m prog ∧ pool.owner m ≠ none := by
  have habort : ∀ u, pool.code u ≠ .abort := fun u =>
    let ⟨_, _, hfollows⟩ := h.thread u
    hfollows.not_abort
  have hstep (next) (hnext : pool.step t true = some next) : ∃ next, pool.Step next :=
    ⟨next, habort, t, true, hnext⟩
  cases hprog : pool.code t with
  | pure a => exact absurd hprog (hcode a)
  | abort => exact absurd hprog (habort t)
  | acquire m prog =>
      by_cases hfree : pool.owner m = none
      · exact .inl (hstep _ (Pool.step_acquire hprog hfree true))
      · exact .inr ⟨m, prog, rfl, hfree⟩
  | release m prog => exact .inl (hstep _ (Pool.step_release hprog true))
  | access f prog => exact .inl (hstep _ (Pool.step_access hprog true))
  | choose prog => exact .inl (hstep _ (Pool.step_choose hprog true))

/-- Somebody can take a step while a mutex is held: its holder, or the holder of the mutex of
higher rank that its holder waits for. -/
theorem Good.step_of_owner (h : Good d goal pool) {m : M} {t : T} (howner : pool.owner m = some t) :
    ∃ next, pool.Step next := by
  induction hn : d.bound - d.rank m using Nat.strong_induction_on generalizing m t with
  | _ n ih =>
      obtain ⟨held, hold, hfollows⟩ := h.thread t
      have hheld : m ∈ held := (hold.owner m).mp howner
      have hcode : ∀ a, pool.code t ≠ .pure a := by
        intro a hpure
        rw [(hfollows.pure hpure).1] at hheld
        cases hheld
      rcases h.step_or_blocked t hcode with hstep | ⟨m', prog, hprog, hblocked⟩
      · exact hstep
      · obtain ⟨u, hu⟩ := Option.ne_none_iff_exists'.mp hblocked
        have hrank := (hfollows.acquire hprog).1 m hheld
        have hle := d.rank_le m'
        exact ih (d.bound - d.rank m') (by omega) hu rfl

theorem Good.progress (h : Good d goal pool) :
    (∀ t, pool.code t = .pure () ∧ goal t (d.view t pool.shared)) ∨ ∃ next, pool.Step next := by
  by_cases hdone : ∀ t, pool.code t = .pure ()
  · left
    intro t
    obtain ⟨held, -, hfollows⟩ := h.thread t
    exact ⟨hdone t, (hfollows.pure (hdone t)).2⟩
  · right
    obtain ⟨t, ht⟩ := not_forall.mp hdone
    rcases h.step_or_blocked t fun _ => ht with hstep | ⟨m, prog, -, hblocked⟩
    · exact hstep
    · obtain ⟨u, hu⟩ := Option.ne_none_iff_exists'.mp hblocked
      exact h.step_of_owner hu

/-- Every schedule brings all threads to their ends and goals. -/
theorem Good.inevitably [Fintype T] (h : Good d goal pool) :
    pool.Inevitably fun p => ∀ t, p.code t = .pure () ∧ goal t (d.view t p.shared) := by
  revert h
  apply Pool.wellFounded_step.induction pool
  intro pool ih h
  rcases h.progress with hdone | hstep
  · exact .now hdone
  · exact .later hstep fun next hnext => ih next hnext (h.step hnext)

/-! ## One thread alone -/

/-- Thread `t` is at `prog` in view `v` with the mutexes `held`; no other mutex is held, and no
other thread has thrown. -/
structure Alone (d : Discipline T M S V) (pool : Pool T M S) (t : T) (v : V) (held : List M)
    (prog : Prog M S Unit) : Prop where
  inv : d.inv pool.shared
  view : d.view t pool.shared = v
  code : pool.code t = prog
  others : ∀ u, u ≠ t → pool.code u ≠ .abort
  holds : Holds d pool t held
  free : ∀ m, m ∉ held → pool.owner m = none

section Alone

variable {prog : Prog M S Unit}

theorem Alone.step {b : Bool} (h : Alone d pool t v held prog) (hprog : prog ≠ .abort)
    (hstep : pool.step t b = some next) : pool.Step next := by
  refine ⟨fun u => ?_, t, b, hstep⟩
  by_cases hu : u = t
  · rw [hu, h.code]
    exact hprog
  · exact h.others u hu

omit [DecidableEq M] in
theorem Alone.others_update {p : Prog M S Unit} (h : Alone d pool t v held prog) :
    ∀ u, u ≠ t → Function.update pool.code t p u ≠ .abort := by
  intro u hu
  rw [Function.update_of_ne hu]
  exact h.others u hu

theorem Alone.acquire {m : M} (h : Alone d pool t v held (.acquire m prog))
    (hrank : ∀ n ∈ held, d.rank n < d.rank m) :
    ∃ next, pool.Step next ∧ Alone d next t v (m :: held) prog := by
  have hm : m ∉ held := fun hm => lt_irrefl _ (hrank m hm)
  refine ⟨_, h.step (by simp) (Pool.step_acquire h.code (h.free m hm) true), h.inv, h.view,
    Function.update_self .., h.others_update,
    ⟨fun n => ?_, List.pairwise_cons.mpr ⟨hrank, h.holds.ordered⟩⟩, fun n hn => ?_⟩
  · by_cases hn : n = m
    · simp [hn]
    · simp [hn, h.holds.owner]
  · rw [List.mem_cons, not_or] at hn
    simpa [hn.1] using h.free n hn.2

theorem Alone.release {m : M} (h : Alone d pool t v (m :: held) (.release m prog)) :
    ∃ next, pool.Step next ∧ Alone d next t v held prog := by
  refine ⟨_, h.step (by simp) (Pool.step_release h.code true), h.inv, h.view,
    Function.update_self .., h.others_update,
    ⟨fun n => ?_, (List.pairwise_cons.mp h.holds.ordered).2⟩, fun n hn => ?_⟩
  · by_cases hn : n = m
    · simp [hn, h.holds.head_notMem]
    · simp [hn, h.holds.owner]
  · by_cases hm : n = m
    · simp [hm]
    · simpa [hm] using h.free n (by simp [hm, hn])

theorem Alone.access {f : S → S} {prog : S → Prog M S Unit}
    (h : Alone d pool t v held (.access f prog)) (hkeeps : Keeps d t v f) :
    ∃ next, pool.Step next ∧
      Alone d next t (d.view t (f pool.shared)) held (prog pool.shared) :=
  ⟨_, h.step (by simp) (Pool.step_access h.code true), hkeeps.inv _ h.inv h.view, rfl,
    Function.update_self .., h.others_update, ⟨h.holds.owner, h.holds.ordered⟩, h.free⟩

theorem Alone.choose {prog : Bool → Prog M S Unit} (h : Alone d pool t v held (.choose prog)) :
    ∃ next, pool.Step next ∧ Alone d next t v held (prog true) :=
  ⟨_, h.step (by simp) (Pool.step_choose h.code true), h.inv, h.view, Function.update_self ..,
    h.others_update, ⟨h.holds.owner, h.holds.ordered⟩, h.free⟩

end Alone

theorem Safe.exec {exit : V → List M → Prog M S Unit → Prop} {prog : Prog M S Unit}
    (h : Safe d t exit v held prog) (halone : Alone d pool t v held prog) :
    ∃ next v' held' prog', pool.Reach next ∧ Alone d next t v' held' prog' ∧
      exit v' held' prog' := by
  induction h generalizing pool with
  | exit h => exact ⟨pool, _, _, _, .refl, halone, h⟩
  | acquire hrank _ ih =>
      obtain ⟨mid, hstep, hmid⟩ := halone.acquire hrank
      obtain ⟨next, v', held', prog', hreach, hnext⟩ := ih hmid
      exact ⟨next, v', held', prog', .head hstep hreach, hnext⟩
  | release _ ih =>
      obtain ⟨mid, hstep, hmid⟩ := halone.release
      obtain ⟨next, v', held', prog', hreach, hnext⟩ := ih hmid
      exact ⟨next, v', held', prog', .head hstep hreach, hnext⟩
  | access hkeeps _ ih =>
      obtain ⟨mid, hstep, hmid⟩ := halone.access hkeeps
      obtain ⟨next, v', held', prog', hreach, hnext⟩ := ih _ halone.inv halone.view hmid
      exact ⟨next, v', held', prog', .head hstep hreach, hnext⟩
  | choose _ ih =>
      obtain ⟨mid, hstep, hmid⟩ := halone.choose
      obtain ⟨next, v', held', prog', hreach, hnext⟩ := ih true hmid
      exact ⟨next, v', held', prog', .head hstep hreach, hnext⟩

end Pools

end Discipline
