import Mathlib.Logic.Basic

/-! A connection to a store with transactions. What is stored changes when a transaction is
committed, or with a change outside of one; a command that fails may end the transaction. -/

namespace Transaction

variable {D : Type}

/-- What is stored, and what it is in an open transaction. -/
structure Connection (D : Type) where
  stored : D
  working : Option D := none

inductive Command (D : Type) where
  | begin
  | commit
  | rollback
  | change (f : D → D)

inductive Outcome where
  | done
  | failed (rolledBack : Bool)
  deriving DecidableEq

def execute (c : Connection D) : Command D → Outcome → Connection D
  | _, .failed true => { c with working := none }
  | _, .failed false => c
  | .begin, .done => { c with working := some c.stored }
  | .commit, .done => { stored := c.working.getD c.stored }
  | .rollback, .done => { c with working := none }
  | .change f, .done =>
      match c.working with
      | some d => { c with working := some (f d) }
      | none => { c with stored := f c.stored }

@[simp] theorem stored_execute_failed (c : Connection D) (command : Command D) (b : Bool) :
    (execute c command (.failed b)).stored = c.stored := by
  cases b <;> rfl

@[simp] theorem stored_execute_rollback (c : Connection D) (outcome : Outcome) :
    (execute c .rollback outcome).stored = c.stored := by
  cases outcome with
  | done => rfl
  | failed b => exact stored_execute_failed c .rollback b

theorem execute_change {c : Connection D} {d : D} (h : c.working = some d) (f : D → D) :
    execute c (.change f) .done = { c with working := some (f d) } := by
  rw [execute, h]

theorem execute_commit {c : Connection D} {d : D} (h : c.working = some d) :
    execute c .commit .done = { stored := d } := by
  rw [execute, h, Option.getD_some]

end Transaction
