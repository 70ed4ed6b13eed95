import Mathlib.Data.Nat.Notation
import Mathlib.Tactic.TypeStar

/-! Control flow: inversion rules for computations that can fail, and loops whose turns go on, leave
the loop or return from the function around it. A turn or a loop that has not ended with the fuel it
was given has no result. -/

namespace Except

variable {ε α β : Type*}

theorem map_map {γ : Type*} (f : α → β) (g : β → γ) (x : Except ε α) :
    (x.map f).map g = x.map (g ∘ f) := by
  cases x <;> rfl

theorem map_eq_ok_iff {f : α → β} {x : Except ε α} {b : β} :
    x.map f = .ok b ↔ ∃ a, x = .ok a ∧ f a = b := by
  cases x <;> simp [Except.map]

theorem bind_eq_ok_iff {x : Except ε α} {f : α → Except ε β} {b : β} :
    x.bind f = .ok b ↔ ∃ a, x = .ok a ∧ f a = .ok b := by
  cases x <;> simp [Except.bind]

theorem check_bind_eq_ok_iff {x : Except ε Unit} {f : Unit → Except ε β} {b : β} :
    x.bind f = .ok b ↔ x = .ok () ∧ f () = .ok b := by
  cases x <;> simp [Except.bind]

end Except

namespace Loop

variable {S R : Type}

inductive Turn (S R : Type) where
  | next (s : S)
  | leave (s : S)
  | ret (r : R)

/-- The state in which the loop is left, or what is returned from it. -/
def run (turn : S → Option (Turn S R)) : ℕ → S → Option (S ⊕ R)
  | 0, _ => none
  | fuel + 1, s =>
      (turn s).bind fun
        | .next s' => run turn fuel s'
        | .leave s' => some (.inl s')
        | .ret r => some (.inr r)

/-- What a turn leads to from a state with the invariant. -/
def Turn.Keeps (inv : S → Prop) (variant : S → ℕ) (post : S ⊕ R → Prop) (s : S) :
    Turn S R → Prop
  | .next s' => inv s' ∧ variant s' < variant s
  | .leave s' => post (.inl s')
  | .ret r => post (.inr r)

/-- A loop whose turns end, keep an invariant and lower a variant ends with enough fuel. -/
theorem run_total {turn : S → Option (Turn S R)} (inv : S → Prop) (variant : S → ℕ)
    {post : S ⊕ R → Prop}
    (hturn : ∀ s, inv s → ∃ t, turn s = some t ∧ t.Keeps inv variant post s) {fuel : ℕ} {s : S}
    (hs : inv s) (hfuel : variant s < fuel) : ∃ result, run turn fuel s = some result ∧
      post result := by
  induction fuel generalizing s with
  | zero => omega
  | succ fuel ih =>
      obtain ⟨t, ht, hkeeps⟩ := hturn s hs
      rw [run, ht, Option.bind_some]
      cases t with
      | next s' => exact ih hkeeps.1 (Nat.lt_of_lt_of_le hkeeps.2 (Nat.le_of_lt_succ hfuel))
      | leave s' => exact ⟨_, rfl, hkeeps⟩
      | ret r => exact ⟨_, rfl, hkeeps⟩

end Loop
