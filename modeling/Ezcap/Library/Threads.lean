import Mathlib.Data.Fintype.Basic
import Mathlib.Logic.Hydra

/-! Threads over a shared state and non-recursive mutexes. A thread is the tree of what it
does next; a pool interleaves the threads one operation at a time. -/

/-- A thread that answers with an `α`. Each access to the shared state is atomic, `choose` is
an answer of the environment, and `abort` an exception that nobody catches. -/
inductive Prog (M S α : Type) where
  | pure (a : α)
  | abort
  | acquire (m : M) (next : Prog M S α)
  | release (m : M) (next : Prog M S α)
  | access (f : S → S) (next : S → Prog M S α)
  | choose (next : Bool → Prog M S α)

namespace Prog

variable {M S α β : Type}

def bind : Prog M S α → (α → Prog M S β) → Prog M S β
  | pure a, k => k a
  | abort, _ => abort
  | acquire m next, k => acquire m (next.bind k)
  | release m next, k => release m (next.bind k)
  | access f next, k => access f fun s => (next s).bind k
  | choose next, k => choose fun b => (next b).bind k

instance : Monad (Prog M S) where
  pure := pure
  bind := bind

/-- The scope of a lock guard. -/
def lock (m : M) (body : Prog M S α) : Prog M S α :=
  acquire m (body.bind fun a => release m (pure a))

def read (g : S → α) : Prog M S α := access id fun s => pure (g s)

def modify (f : S → S) : Prog M S Unit := access f fun _ => pure ()

/-- Change the state, and answer with a part of what it was before. -/
def exchange (f : S → S) (g : S → α) : Prog M S α := access f fun s => pure (g s)

def ask : Prog M S Bool := choose pure

/-- A call that throws instead of answering. -/
def orAbort : Option α → Prog M S α
  | none => abort
  | some a => pure a

/-- One pass over a list, one call after another. -/
def forEach (f : α → Prog M S Unit) : List α → Prog M S Unit
  | [] => pure ()
  | a :: as => (f a).bind fun _ => forEach f as

/-! ## Every thread ends -/

/-- What a thread goes on with after its next operation. -/
inductive Next : Prog M S α → Prog M S α → Prop where
  | acquire (m next) : Next next (acquire m next)
  | release (m next) : Next next (release m next)
  | access (f next s) : Next (next s) (access f next)
  | choose (next b) : Next (next b) (choose next)

theorem wellFounded_next : WellFounded (Next : Prog M S α → Prog M S α → Prop) := by
  constructor
  intro prog
  induction prog with
  | pure a => exact ⟨_, fun q h => by cases h⟩
  | abort => exact ⟨_, fun q h => by cases h⟩
  | acquire m next ih => exact ⟨_, fun q h => by cases h; exact ih⟩
  | release m next ih => exact ⟨_, fun q h => by cases h; exact ih⟩
  | access f next ih => exact ⟨_, fun q h => by cases h with | access _ _ s => exact ih s⟩
  | choose next ih => exact ⟨_, fun q h => by cases h with | choose _ b => exact ih b⟩

end Prog

/-- The threads `T`, the thread that holds each mutex, and the shared state. -/
structure Pool (T M S : Type) where
  shared : S
  owner : M → Option T
  code : T → Prog M S Unit

namespace Pool

variable {T M S : Type} [DecidableEq T] [DecidableEq M]

/-- The next operation of thread `t`, if it is not blocked; `b` is what the environment answers.
A mutex that is held blocks its holder like everyone else. -/
def step (pool : Pool T M S) (t : T) (b : Bool) : Option (Pool T M S) :=
  match pool.code t with
  | .pure _ | .abort => none
  | .acquire m next =>
      if pool.owner m = none then
        some { pool with
          owner := Function.update pool.owner m (some t)
          code := Function.update pool.code t next }
      else none
  | .release m next =>
      some { pool with
        owner := Function.update pool.owner m none
        code := Function.update pool.code t next }
  | .access f next =>
      some { pool with
        shared := f pool.shared
        code := Function.update pool.code t (next pool.shared) }
  | .choose next => some { pool with code := Function.update pool.code t (next b) }

section Step

variable {pool : Pool T M S} {t : T}

theorem step_acquire {m : M} {next : Prog M S Unit} (hcode : pool.code t = .acquire m next)
    (hfree : pool.owner m = none) (b : Bool) :
    pool.step t b = some { pool with
      owner := Function.update pool.owner m (some t)
      code := Function.update pool.code t next } := by
  simp only [step, hcode, hfree, if_true]

theorem step_release {m : M} {next : Prog M S Unit} (hcode : pool.code t = .release m next)
    (b : Bool) :
    pool.step t b = some { pool with
      owner := Function.update pool.owner m none
      code := Function.update pool.code t next } := by
  simp only [step, hcode]

theorem step_access {f : S → S} {next : S → Prog M S Unit} (hcode : pool.code t = .access f next)
    (b : Bool) :
    pool.step t b = some { pool with
      shared := f pool.shared
      code := Function.update pool.code t (next pool.shared) } := by
  simp only [step, hcode]

theorem step_choose {next : Bool → Prog M S Unit} (hcode : pool.code t = .choose next) (b : Bool) :
    pool.step t b = some { pool with code := Function.update pool.code t (next b) } := by
  simp only [step, hcode]

end Step

/-- A step of some thread; an uncaught exception ends the process. -/
def Step (pool next : Pool T M S) : Prop :=
  (∀ u, pool.code u ≠ .abort) ∧ ∃ t b, pool.step t b = some next

abbrev Reach : Pool T M S → Pool T M S → Prop := Relation.ReflTransGen Step

/-- Some thread tries to acquire a mutex that it holds. -/
def SelfAcquire (pool : Pool T M S) : Prop :=
  ∃ t m next, pool.code t = .acquire m next ∧ pool.owner m = some t

/-- However the threads are scheduled, the pool gets to a state with `goal`. -/
inductive Inevitably (goal : Pool T M S → Prop) : Pool T M S → Prop where
  | now {pool} (h : goal pool) : Inevitably goal pool
  | later {pool} (hstep : ∃ next, Step pool next)
      (h : ∀ next, Step pool next → Inevitably goal next) : Inevitably goal pool

theorem Inevitably.mono {goal goal' : Pool T M S → Prop} {pool : Pool T M S}
    (h : Inevitably goal pool) (hgoal : ∀ p, goal p → goal' p) : Inevitably goal' pool := by
  induction h with
  | now h => exact .now (hgoal _ h)
  | later hstep _ ih => exact .later hstep ih

/-- A goal that ends the run is still ahead as long as the run goes on. -/
theorem Inevitably.of_reach {goal : Pool T M S → Prop} {pool later : Pool T M S}
    (h : Inevitably goal pool) (hgoal : ∀ p, goal p → ¬ ∃ q, Step p q)
    (hreach : Reach pool later) : Inevitably goal later := by
  induction hreach with
  | refl => exact h
  | tail _ hstep ih =>
      cases ih with
      | now hnow => exact absurd ⟨_, hstep⟩ (hgoal _ hnow)
      | later _ hnext => exact hnext _ hstep

theorem not_step_of_ended {pool : Pool T M S} (h : ∀ t, pool.code t = .pure ()) :
    ¬ ∃ next, Step pool next := by
  rintro ⟨next, -, t, b, hstep⟩
  simp [step, h t] at hstep

theorem not_step_of_abort {pool : Pool T M S} {t : T} (h : pool.code t = .abort) :
    ¬ ∃ next, Step pool next :=
  fun ⟨_, hthrown, _⟩ => hthrown t h

/-! ## Every run ends -/

/-- A step replaces the code of one thread by what that thread goes on with. -/
theorem step_code {pool next : Pool T M S} {t : T} {b : Bool} (h : pool.step t b = some next) :
    ∃ prog, Prog.Next prog (pool.code t) ∧ next.code = Function.update pool.code t prog := by
  unfold step at h
  split at h
  · cases h
  · cases h
  · split_ifs at h
    cases h
    rename_i hcode _
    exact ⟨_, hcode ▸ .acquire _ _, rfl⟩
  · cases h
    rename_i hcode
    exact ⟨_, hcode ▸ .release _ _, rfl⟩
  · cases h
    rename_i hcode
    exact ⟨_, hcode ▸ .access _ _ _, rfl⟩
  · cases h
    rename_i hcode
    exact ⟨_, hcode ▸ .choose _ _, rfl⟩

/-- No schedule runs forever: the multiset of the threads' codes descends with every step. -/
theorem wellFounded_step [Fintype T] :
    WellFounded fun next pool : Pool T M S => Step pool next := by
  let codes (pool : Pool T M S) : Multiset (Prog M S Unit) := Finset.univ.val.map pool.code
  refine Subrelation.wf ?_ (InvImage.wf codes Prog.wellFounded_next.cutExpand)
  rintro next pool ⟨-, t, b, hstep⟩
  obtain ⟨prog, hprog, hcode⟩ := step_code hstep
  refine ⟨{prog}, pool.code t, by simpa using hprog, ?_⟩
  have hothers : (Finset.univ.val.erase t).map next.code =
      (Finset.univ.val.erase t).map pool.code := by
    refine Multiset.map_congr rfl fun u hu => ?_
    rw [hcode, Function.update_of_ne]
    exact ((Multiset.Nodup.mem_erase_iff Finset.univ.nodup).mp hu).1
  have hself : next.code t = prog := by rw [hcode, Function.update_self]
  have huniv : Finset.univ.val = t ::ₘ Finset.univ.val.erase t :=
    (Multiset.cons_erase (Finset.mem_univ_val t)).symm
  simp only [codes]
  rw [huniv, Multiset.map_cons, Multiset.map_cons, hothers, hself, Multiset.add_comm,
    Multiset.add_comm _ {prog}, Multiset.singleton_add, Multiset.singleton_add]
  exact Multiset.cons_swap _ _ _

end Pool
