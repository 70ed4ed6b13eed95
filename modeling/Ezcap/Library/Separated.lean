import Mathlib.Data.List.Infix

/-! Lists cut at a separator. The pieces of one list end the pieces of another exactly if the list
is the other one or stands behind a separator at its end. -/

namespace Separated

variable {α : Type*} [BEq α] [LawfulBEq α] {x : α} {s t : List α}

theorem splitOn_inj (h : s.splitOn x = t.splitOn x) : s = t := by
  rw [← @List.intercalate_splitOn α s _ _ x, h, List.intercalate_splitOn]

theorem notMem_of_mem_splitOn {p : List α} (h : p ∈ s.splitOn x) : x ∉ p := by
  induction s generalizing p with
  | nil =>
      rw [List.splitOn_nil, List.mem_singleton] at h
      simp [h]
  | cons c s ih =>
      rw [List.splitOn_cons_eq_if_modifyHead] at h
      split_ifs at h with hc
      · rcases List.mem_cons.mp h with rfl | h
        · simp
        · exact ih h
      · cases hpieces : s.splitOn x with
        | nil => simp [hpieces] at h
        | cons q pieces =>
            rw [hpieces, List.modifyHead_cons] at h
            rw [hpieces] at ih
            rcases List.mem_cons.mp h with rfl | h
            · have hne : x ≠ c := fun heq => hc (by simp [heq])
              simpa [hne] using ih (List.mem_cons_self ..)
            · exact ih (List.mem_cons_of_mem _ h)

theorem eq_or_exists_of_mem {c : α} (h : c ∈ s) : c = x ∨ ∃ p ∈ s.splitOn x, c ∈ p := by
  induction s with
  | nil => cases h
  | cons a s ih =>
      rw [List.splitOn_cons_eq_if_modifyHead]
      split_ifs with ha
      · rcases List.mem_cons.mp h with rfl | h
        · exact .inl (eq_of_beq ha)
        · exact (ih h).imp_right fun ⟨p, hp, hc⟩ => ⟨p, List.mem_cons_of_mem _ hp, hc⟩
      · cases hpieces : s.splitOn x with
        | nil => exact absurd hpieces (List.splitOn_ne_nil x s)
        | cons q pieces =>
            rw [hpieces] at ih
            rw [List.modifyHead_cons]
            rcases List.mem_cons.mp h with rfl | h
            · exact .inr ⟨c :: q, List.mem_cons_self, List.mem_cons_self⟩
            · refine (ih h).imp_right fun ⟨p, hp, hc⟩ => ?_
              rcases List.mem_cons.mp hp with rfl | hp
              · exact ⟨a :: p, List.mem_cons_self, List.mem_cons_of_mem _ hc⟩
              · exact ⟨p, List.mem_cons_of_mem _ hp, hc⟩

/-- Joined pieces are found again exactly if none of them has the separator. -/
theorem splitOn_intercalate_iff {ps : List (List α)} (hne : ps ≠ []) :
    ([x].intercalate ps).splitOn x = ps ↔ ∀ p ∈ ps, x ∉ p := by
  constructor
  · intro h p hp
    rw [← h] at hp
    exact notMem_of_mem_splitOn hp
  · intro h
    exact List.splitOn_intercalate x h hne

/-- Pieces that end those of `c :: t` are all of them, or pieces of `t`; and those of `t` are all
used only behind a separator. -/
theorem suffix_splitOn_cons {c : α} {ps : List (List α)} (h : ps <:+ (c :: t).splitOn x) :
    ps = (c :: t).splitOn x ∨ ps <:+ t.splitOn x ∧ (ps = t.splitOn x → c = x) := by
  rw [List.splitOn_cons_eq_if_modifyHead] at h ⊢
  split_ifs at h ⊢ with hc
  · exact (List.suffix_cons_iff.mp h).imp_right fun h => ⟨h, fun _ => eq_of_beq hc⟩
  · cases hpieces : t.splitOn x with
    | nil => exact absurd hpieces (List.splitOn_ne_nil x t)
    | cons p pieces =>
        rw [hpieces, List.modifyHead_cons] at h
        refine (List.suffix_cons_iff.mp h).imp_right fun h => ⟨h.trans (List.suffix_cons p _), ?_⟩
        rintro rfl
        exact absurd h.length_le (by simp)

theorem splitOn_suffix_iff : s.splitOn x <:+ t.splitOn x ↔ s = t ∨ x :: s <:+ t := by
  constructor
  · intro h
    induction t with
    | nil =>
        rw [List.splitOn_nil, List.suffix_cons_iff, List.suffix_nil] at h
        rcases h with h | h
        · exact .inl (splitOn_inj h)
        · exact absurd h (List.splitOn_ne_nil x s)
    | cons c t ih =>
        rcases suffix_splitOn_cons h with h | ⟨h, hsep⟩
        · exact .inl (splitOn_inj h)
        · rcases ih h with rfl | hs
          · rw [hsep rfl]
            exact .inr List.suffix_rfl
          · exact .inr (hs.trans (List.suffix_cons c t))
  · rintro (rfl | ⟨u, rfl⟩)
    · exact List.suffix_rfl
    · rw [List.splitOn_append_cons_self]
      exact List.suffix_append _ _

end Separated
