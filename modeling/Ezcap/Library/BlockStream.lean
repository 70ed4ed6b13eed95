import Mathlib.Data.List.Basic

/-! A stream that is taken in whole blocks, with the elements that do not fill one left over. -/

namespace BlockStream

variable {α σ : Type*}

/-- Takes blocks from the front as long as there is a whole one. -/
def absorb (f : σ → List α → σ) (b : ℕ) (s : σ) (xs : List α) : σ × List α :=
  if 0 < b ∧ b ≤ xs.length then absorb f b (f s (xs.take b)) (xs.drop b) else (s, xs)
termination_by xs.length
decreasing_by
  rw [List.length_drop]
  omega

variable {f : σ → List α → σ} {b : ℕ} {s : σ} {xs : List α}

theorem absorb_of_lt (h : xs.length < b) : absorb f b s xs = (s, xs) := by
  rw [absorb, if_neg (by omega)]

theorem absorb_of_le (hb : 0 < b) (h : b ≤ xs.length) :
    absorb f b s xs = absorb f b (f s (xs.take b)) (xs.drop b) := by
  rw [absorb, if_pos ⟨hb, h⟩]

theorem absorb_block_append (hb : 0 < b) (h : xs.length = b) (ys : List α) :
    absorb f b s (xs ++ ys) = absorb f b (f s xs) ys := by
  rw [absorb_of_le hb (by simp [h]), List.take_left' h, List.drop_left' h]

theorem absorb_append (hb : 0 < b) (s : σ) (xs ys : List α) :
    absorb f b s (xs ++ ys) = absorb f b (absorb f b s xs).1 ((absorb f b s xs).2 ++ ys) := by
  induction s, xs using absorb.induct f b with
  | case1 s xs h ih =>
      have htake : (xs ++ ys).take b = xs.take b := List.take_append_of_le_length h.2
      have hdrop : (xs ++ ys).drop b = xs.drop b ++ ys := List.drop_append_of_le_length h.2
      have hlen : b ≤ (xs ++ ys).length := by
        rw [List.length_append]
        omega
      rw [absorb_of_le hb hlen, absorb_of_le hb h.2, htake, hdrop, ih]
  | case2 s xs h => rw [absorb_of_lt (show xs.length < b by omega)]

theorem length_rest (f : σ → List α → σ) (hb : 0 < b) (s : σ) (xs : List α) :
    (absorb f b s xs).2.length = xs.length % b := by
  induction s, xs using absorb.induct f b with
  | case1 s xs h ih =>
      rw [absorb_of_le hb h.2, ih, List.length_drop, ← Nat.mod_eq_sub_mod h.2]
  | case2 s xs h =>
      have hlt : xs.length < b := by omega
      rw [absorb_of_lt hlt, Nat.mod_eq_of_lt hlt]

end BlockStream
