import Mathlib.Data.List.MinMax

/-! The first minimum of a list under a linear order, by what stands before it and what stands after
it. -/

namespace FirstMin

open List

variable {α β : Type} [LinearOrder β] {f : α → β} {p : α → Bool} {l : List α} {m : α}

/-- The first element with the least value. -/
def firstMin (f : α → β) (l : List α) : Option α := l.argmin f

@[simp] theorem firstMin_nil : firstMin f [] = none := rfl

theorem firstMin_eq_none : firstMin f l = none ↔ l = [] := argmin_eq_none

theorem firstMin_mem (h : firstMin f l = some m) : m ∈ l := argmin_mem h

theorem firstMin_le (h : firstMin f l = some m) {a : α} (ha : a ∈ l) : f m ≤ f a :=
  le_of_mem_argmin ha h

theorem firstMin_concat (f : α → β) (l : List α) (a : α) :
    firstMin f (l ++ [a]) =
      some ((firstMin f l).elim a fun c => if f a < f c then a else c) := by
  rw [firstMin, argmin_concat, ← firstMin]
  cases firstMin f l with
  | none => rfl
  | some c => exact (apply_ite some _ _ _).symm

theorem firstMin_append_cons {before after : List α} (hbefore : ∀ x ∈ before, f m < f x)
    (hafter : ∀ x ∈ after, f m ≤ f x) : firstMin f (before ++ m :: after) = some m := by
  induction after using List.reverseRecOn with
  | nil =>
      rw [firstMin_concat]
      cases hbest : firstMin f before with
      | none => rfl
      | some c => simp [hbefore c (firstMin_mem hbest)]
  | append_singleton after a ih =>
      have hbest := ih fun x hx => hafter x (mem_append_left _ hx)
      have ha : f m ≤ f a := hafter a (by simp)
      rw [← cons_append, ← append_assoc, firstMin_concat, hbest]
      simp [ha.not_gt]

theorem exists_split_of_firstMin (h : firstMin f l = some m) :
    ∃ before after, l = before ++ m :: after ∧ (∀ x ∈ before, f m < f x) ∧
      ∀ x ∈ after, f m ≤ f x := by
  induction l using List.reverseRecOn with
  | nil => simp at h
  | append_singleton l a ih =>
      rw [firstMin_concat] at h
      cases hbest : firstMin f l with
      | none =>
          rw [firstMin_eq_none.mp hbest]
          simp only [hbest, Option.elim_none, Option.some.injEq] at h
          exact ⟨[], [], by simp [h], by simp, by simp⟩
      | some c =>
          simp only [hbest, Option.elim_some, Option.some.injEq] at h
          split_ifs at h with ha
          · -- The new last one is below the best so far, and so below all.
            subst h
            exact ⟨l, [], rfl, fun x hx => ha.trans_le (firstMin_le hbest hx), by simp⟩
          · subst h
            obtain ⟨before, after, hl, hbefore, hafter⟩ := ih hbest
            refine ⟨before, after ++ [a], by simp [hl], hbefore, fun x hx => ?_⟩
            rcases mem_append.mp hx with hx | hx
            · exact hafter x hx
            · exact mem_singleton.mp hx ▸ not_lt.mp ha

theorem firstMin_filter_eq_some_iff :
    firstMin f (l.filter p) = some m ↔
      ∃ before after, l = before ++ m :: after ∧ p m = true ∧
        (∀ x ∈ before, p x = true → f m < f x) ∧ ∀ x ∈ after, p x = true → f m ≤ f x := by
  constructor
  · intro h
    obtain ⟨kept, rest, hsplit, hbefore, hafter⟩ := exists_split_of_firstMin h
    obtain ⟨l₁, l₂, rfl, rfl, hrest⟩ := filter_eq_append_iff.mp hsplit
    obtain ⟨gap, after, rfl, hgap, hm, rfl⟩ := filter_eq_cons_iff.mp hrest
    refine ⟨l₁ ++ gap, after, by simp, hm, fun x hx hpx => ?_, fun x hx hpx => ?_⟩
    · rcases mem_append.mp hx with hx | hx
      · exact hbefore x (mem_filter.mpr ⟨hx, hpx⟩)
      · exact absurd hpx (hgap x hx)
    · exact hafter x (mem_filter.mpr ⟨hx, hpx⟩)
  · rintro ⟨before, after, rfl, hm, hbefore, hafter⟩
    rw [filter_append, filter_cons_of_pos hm]
    refine firstMin_append_cons (fun x hx => ?_) fun x hx => ?_
    · exact hbefore x (mem_filter.mp hx).1 (mem_filter.mp hx).2
    · exact hafter x (mem_filter.mp hx).1 (mem_filter.mp hx).2

end FirstMin
