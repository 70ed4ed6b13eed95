import Mathlib.Data.Fin.Basic
import Mathlib.Data.List.FinRange
import Mathlib.Logic.Function.Basic

/-! The extension's ring of recent events, from `storage.ts`. Loading and storing are separate
asynchronous operations of the browser's storage, each of them atomic; the calls that run at the
same time are the `n` places of a schedule. -/

namespace Ezcap.EventRing

variable {n : ℕ} {E : Type}

def maxEvents : ℕ := 5000

/-- What `loadEvents` makes of the stored value, which is missing or no array in `none`. -/
def loadEvents (stored : Option (List E)) : List E := stored.getD []

/-- The combined events without the oldest of them beyond the cap. -/
def bounded (combined : List E) : List E :=
  let overflow := combined.length - maxEvents
  if overflow > 0 then combined.drop overflow else combined

inductive Call (E : Type) where
  | appendEvents (events : List E)
  | clearEvents

def Call.events : Call E → List E
  | .appendEvents events => events
  | .clearEvents => []

inductive Step (n : ℕ) where
  /-- A call without events returns. -/
  | skip (c : Fin n)
  | get (c : Fin n)
  | set (c : Fin n)
  | remove (c : Fin n)
  deriving DecidableEq, Repr

def Step.call : Step n → Fin n
  | .skip c | .get c | .set c | .remove c => c

/-- What a call does, in order. -/
def Call.steps (c : Fin n) : Call E → List (Step n)
  | .appendEvents [] => [.skip c]
  | .appendEvents (_ :: _) => [.get c, .set c]
  | .clearEvents => [.remove c]

/-- The stored value, and what each call has loaded. -/
structure Ring (n : ℕ) (E : Type) where
  stored : Option (List E)
  existing : Fin n → List E := fun _ => []

variable (calls : Fin n → Call E)

def step (ring : Ring n E) : Step n → Ring n E
  | .skip _ => ring
  | .get c => { ring with existing := Function.update ring.existing c (loadEvents ring.stored) }
  | .set c => { ring with stored := some (bounded (ring.existing c ++ (calls c).events)) }
  | .remove _ => { ring with stored := none }

def run (ring : Ring n E) (schedule : List (Step n)) : Ring n E := schedule.foldl (step calls) ring

/-- The calls one after another. -/
def serial (stored : Option (List E)) (order : List (Fin n)) : Option (List E) :=
  order.foldl (fun stored c => (run calls { stored } ((calls c).steps c)).stored) stored

/-- The schedule interleaves the steps of the calls. -/
def Interleaves (schedule : List (Step n)) : Prop :=
  ∀ c, schedule.filter (fun s => s.call = c) = (calls c).steps c

instance (schedule : List (Step n)) : Decidable (Interleaves calls schedule) :=
  inferInstanceAs (Decidable (∀ c, _ = (calls c).steps c))

end Ezcap.EventRing
