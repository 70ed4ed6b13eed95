import Mathlib.Logic.Basic

/-! Steps that write into one object and may fail. What was written before a failure stays. -/

namespace InPlace

variable {σ ε α : Type*}

/-- What a step leaves in the object, and its error. -/
abbrev Step (σ ε : Type*) := σ → σ × Option ε

/-- One step after the other, up to the first that fails. -/
def run : List (Step σ ε) → Step σ ε
  | [], out => (out, none)
  | step :: steps, out =>
      match step out with
      | (out, none) => run steps out
      | (out, some error) => (out, some error)

/-- The step succeeds on the objects that it accepts and on no others, and `fill` is what it makes
of them. -/
structure Meets (step : Step σ ε) (accepts : σ → Prop) (fill : σ → σ) : Prop where
  result : ∀ out, accepts out → step out = (fill out, none)
  accepted : ∀ out, (step out).2 = none → accepts out

namespace Meets

variable {step : Step σ ε} {steps : List (Step σ ε)} {accepts accepts' : σ → Prop}
  {fill fill' : σ → σ}

theorem iff (h : Meets step accepts fill) (out : σ) : (step out).2 = none ↔ accepts out :=
  ⟨h.accepted out, fun haccepts => by rw [h.result out haccepts]⟩

theorem fst (h : Meets step accepts fill) {out : σ} (hout : (step out).2 = none) :
    (step out).1 = fill out := by rw [h.result out (h.accepted out hout)]

theorem nil : Meets (run ([] : List (Step σ ε))) (fun _ => True) id where
  result _ _ := rfl
  accepted _ _ := trivial

theorem cons (h : Meets step accepts fill) (hrest : Meets (run steps) accepts' fill') :
    Meets (run (step :: steps)) (fun out => accepts out ∧ accepts' (fill out))
      (fun out => fill' (fill out)) where
  result out haccepts := by
    rw [run, h.result out haccepts.1]
    exact hrest.result _ haccepts.2
  accepted out hout := by
    rw [run] at hout
    cases hstep : step out with
    | mk out' error =>
        rw [hstep] at hout
        cases error with
        | some error => cases hout
        | none =>
            have haccepts : accepts out := h.accepted out (by rw [hstep])
            have hfill : out' = fill out := by rw [← h.fst (by rw [hstep]), hstep]
            exact ⟨haccepts, hfill ▸ hrest.accepted out' hout⟩

theorem congr (h : Meets step accepts fill) (haccepts : ∀ out, accepts out ↔ accepts' out)
    (hfill : ∀ out, fill out = fill' out) : Meets step accepts' fill' where
  result out hout := by rw [← hfill, h.result out ((haccepts out).mpr hout)]
  accepted out hout := (haccepts out).mp (h.accepted out hout)

end Meets

/-- What every step keeps is kept, also where a step fails. -/
theorem run_keeps {f : σ → α} {steps : List (Step σ ε)}
    (h : ∀ step ∈ steps, ∀ out, f (step out).1 = f out) (out : σ) :
    f (run steps out).1 = f out := by
  induction steps generalizing out with
  | nil => rfl
  | cons step steps ih =>
      have hstep := h step (by simp) out
      rw [run]
      cases hout : step out with
      | mk out' error =>
          rw [hout] at hstep
          cases error with
          | some error => exact hstep
          | none => exact (ih (fun step hmem => h step (by simp [hmem])) out').trans hstep

end InPlace
