import Mathlib.Data.Nat.Notation
import Mathlib.Logic.Relation

/-! Runs of a machine that takes one action after another. An action that is not enabled ends
the run. -/

namespace Runs

variable {S A : Type} (step : S → A → Option S)

/-- The state after the actions, if all of them are enabled. -/
def exec (s : S) : List A → Option S
  | [] => some s
  | a :: as => (step s a).bind fun s' => exec s' as

/-- Every step of the run has `P` of the state before it, the action and the state after it. -/
def Always (P : S → A → S → Prop) (s : S) : List A → Prop
  | [] => True
  | a :: as => ∀ s' ∈ step s a, P s a s' ∧ Always P s' as

instance Always.decidable (P : S → A → S → Prop) [∀ s a s', Decidable (P s a s')] :
    (s : S) → (as : List A) → Decidable (Always step P s as)
  | _, [] => isTrue trivial
  | s, a :: as =>
      match h : step s a with
      | none => isTrue fun s' hs' => by simp [h] at hs'
      | some next =>
          have := Always.decidable P next as
          decidable_of_iff (P s a next ∧ Always step P next as) (by simp [Always, h])

/-- The number of steps of the run with `p`. -/
def count (p : S → A → S → Bool) (s : S) : List A → ℕ
  | [] => 0
  | a :: as => (step s a).elim 0 fun s' => (p s a s').toNat + count p s' as

variable {step} {P Q : S → A → S → Prop} (inv : S → Prop) {s : S}

/-- Two conditions on steps that agree as long as one of them keeps an invariant hold along the
same runs. -/
theorem always_congr (hs : inv s)
    (hiff : ∀ s a s', inv s → step s a = some s' → (P s a s' ↔ Q s a s'))
    (hinv : ∀ s a s', inv s → step s a = some s' → P s a s' → inv s') (as : List A) :
    Always step P s as ↔ Always step Q s as := by
  induction as generalizing s with
  | nil => exact Iff.rfl
  | cons a as ih =>
      refine forall₂_congr fun s' hstep => ?_
      constructor
      · rintro ⟨hP, hlater⟩
        exact ⟨(hiff s a s' hs hstep).mp hP, (ih (hinv s a s' hs hstep hP)).mp hlater⟩
      · rintro ⟨hQ, hlater⟩
        have hP := (hiff s a s' hs hstep).mpr hQ
        exact ⟨hP, (ih (hinv s a s' hs hstep hP)).mpr hlater⟩

/-- What every step of the run has under an invariant that it keeps, the run has. -/
theorem always_of_inv (hs : inv s) {as : List A}
    (hstep : ∀ s, ∀ a ∈ as, ∀ s', inv s → step s a = some s' → P s a s' ∧ inv s') :
    Always step P s as := by
  induction as generalizing s with
  | nil => trivial
  | cons a as ih =>
      intro s' hs'
      obtain ⟨hP, hinv⟩ := hstep s a List.mem_cons_self s' hs hs'
      exact ⟨hP, ih hinv fun s a ha => hstep s a (List.mem_cons_of_mem _ ha)⟩

/-- An invariant that is kept by every step with `Q` holds after a run of such steps. -/
theorem inv_of_always (hs : inv s)
    (hinv : ∀ s a s', inv s → step s a = some s' → Q s a s' → inv s') {as : List A} {s' : S}
    (hrun : exec step s as = some s') (h : Always step Q s as) : inv s' := by
  induction as generalizing s with
  | nil =>
      cases hrun
      exact hs
  | cons a as ih =>
      obtain ⟨next, hstep, hlater⟩ := Option.bind_eq_some_iff.mp hrun
      obtain ⟨hQ, hnext⟩ := h next hstep
      exact ih (hinv s a next hs hstep hQ) hlater hnext

theorem exec_append {s' : S} {as : List A} (h : exec step s as = some s') (bs : List A) :
    exec step s (as ++ bs) = exec step s' bs := by
  induction as generalizing s with
  | nil =>
      cases h
      rfl
  | cons a as ih =>
      obtain ⟨next, hstep, hlater⟩ := Option.bind_eq_some_iff.mp h
      rw [List.cons_append, exec, hstep, Option.bind_some, ih hlater]

/-- An invariant that is kept by every step holds after every run, which no step ends. -/
theorem exec_of_inv (hs : inv s) {as : List A}
    (hstep : ∀ s, ∀ a ∈ as, inv s → ∃ s', step s a = some s' ∧ inv s') :
    ∃ s', exec step s as = some s' ∧ inv s' := by
  induction as generalizing s with
  | nil => exact ⟨s, rfl, hs⟩
  | cons a as ih =>
      obtain ⟨next, hnext, hinv⟩ := hstep s a List.mem_cons_self hs
      obtain ⟨last, hlast, hkept⟩ := ih hinv fun s a ha => hstep s a (List.mem_cons_of_mem _ ha)
      exact ⟨last, by rw [exec, hnext, Option.bind_some, hlast], hkept⟩

section Count

variable {p : S → A → S → Bool} {a : A}

theorem count_cons {s' : S} (h : step s a = some s') (as : List A) :
    count step p s (a :: as) = (p s a s').toNat + count step p s' as := by
  rw [count, h, Option.elim_some]

theorem count_append {s' : S} {as : List A} (h : exec step s as = some s') (bs : List A) :
    count step p s (as ++ bs) = count step p s as + count step p s' bs := by
  induction as generalizing s with
  | nil =>
      cases h
      rw [count, Nat.zero_add, List.nil_append]
  | cons a as ih =>
      obtain ⟨next, hstep, hlater⟩ := Option.bind_eq_some_iff.mp h
      rw [List.cons_append, count_cons hstep, count_cons hstep, ih hlater, Nat.add_assoc]

/-- Steps with `p` that raise a bounded measure are few. -/
theorem count_add_le (measure : S → ℕ) {bound : ℕ} (hs : inv s)
    (hstep : ∀ s a s', inv s → step s a = some s' →
      inv s' ∧ measure s + (p s a s').toNat ≤ measure s')
    (hbound : ∀ s, inv s → measure s ≤ bound) (as : List A) :
    measure s + count step p s as ≤ bound := by
  induction as generalizing s with
  | nil => exact hbound s hs
  | cons a as ih =>
      cases h : step s a with
      | none =>
          rw [count, h, Option.elim_none]
          exact hbound s hs
      | some s' =>
          obtain ⟨hinv, hmeasure⟩ := hstep s a s' hs h
          have hlater := ih hinv
          rw [count_cons h]
          omega

end Count

end Runs
