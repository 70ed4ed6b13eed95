import Mathlib.Data.List.Basic

/-! Maximal runs: the pieces of a list whose elements satisfy a predicate and that cannot be
extended on either side. -/

namespace MaximalRun

variable {α : Type*}

/-- `run` stands in `s`, and what is next to it on either side does not satisfy the predicate. -/
def IsRun (p : α → Prop) (s run : List α) : Prop :=
  run ≠ [] ∧ (∀ x ∈ run, p x) ∧
    ∃ before after, s = before ++ (run ++ after) ∧ (∀ x ∈ before.getLast?, ¬ p x) ∧
      ∀ x ∈ after.head?, ¬ p x

variable {p : α → Prop} {s run token rest : List α} {c : α}

theorem eq_nil_of_getLast? (h : ∀ x ∈ s.getLast?, ¬ p x) (hs : ∀ x ∈ s, p x) : s = [] := by
  by_contra hne
  have hlast := List.getLast?_eq_some_getLast hne
  exact h _ hlast (hs _ (List.mem_of_getLast? hlast))

theorem eq_nil_of_head? (h : ∀ x ∈ s.head?, ¬ p x) (hs : ∀ x ∈ s, p x) : s = [] := by
  cases s with
  | nil => rfl
  | cons x s => exact absurd (hs x (by simp)) (h x rfl)

/-- A list of such elements is its only run. -/
theorem isRun_of_forall (hs : ∀ x ∈ s, p x) : IsRun p s run ↔ s ≠ [] ∧ run = s := by
  constructor
  · rintro ⟨hne, -, before, after, rfl, hbefore, hafter⟩
    simp only [List.forall_mem_append] at hs
    rw [eq_nil_of_getLast? hbefore hs.1, eq_nil_of_head? hafter hs.2.2]
    simpa using hne
  · rintro ⟨hne, rfl⟩
    exact ⟨hne, hs, [], [], by simp, by simp, by simp⟩

/-- The run that an other element ends is the one in front of it, or stands behind it. -/
theorem isRun_append_cons (htoken : ∀ x ∈ token, p x) (hc : ¬ p c) :
    IsRun p (token ++ c :: rest) run ↔ (token ≠ [] ∧ run = token) ∨ IsRun p rest run := by
  constructor
  · rintro ⟨hne, hrun, before, after, heq, hbefore, hafter⟩
    rcases List.append_eq_append_iff.mp heq with ⟨skipped, rfl, hrest⟩ | ⟨token', rfl, hrest⟩
    · -- The run begins at the element or behind it.
      cases skipped with
      | nil =>
          obtain ⟨x, run, rfl⟩ := List.exists_cons_of_ne_nil hne
          rw [List.nil_append, List.cons_append, List.cons.injEq] at hrest
          exact absurd (hrun x (by simp)) (hrest.1 ▸ hc)
      | cons x skipped =>
          rw [List.cons_append, List.cons.injEq] at hrest
          refine .inr ⟨hne, hrun, skipped, after, hrest.2, fun y hy => hbefore y ?_, hafter⟩
          rw [List.getLast?_append, List.getLast?_cons]
          simp [Option.mem_def.mp hy]
    · -- It begins in the token, and so with it.
      rw [List.forall_mem_append] at htoken
      obtain rfl := eq_nil_of_getLast? hbefore htoken.1
      rw [List.nil_append]
      rcases List.append_eq_append_iff.mp hrest with ⟨more, rfl, hmore⟩ | ⟨more, rfl, hmore⟩
      · rw [List.forall_mem_append] at htoken
        have hnil : more = [] := by
          refine eq_nil_of_head? (fun x hx => hafter x ?_) htoken.2.2
          rw [hmore, List.head?_append]
          simp [Option.mem_def.mp hx]
        subst hnil
        rw [List.append_nil]
        exact .inl ⟨hne, rfl⟩
      · cases more with
        | nil =>
            rw [List.append_nil] at hne ⊢
            exact .inl ⟨hne, rfl⟩
        | cons x more =>
            rw [List.cons_append, List.cons.injEq] at hmore
            exact absurd (hrun x (by simp)) (hmore.1 ▸ hc)
  · rintro (⟨hne, rfl⟩ | ⟨hne, hrun, before, after, rfl, hbefore, hafter⟩)
    · exact ⟨hne, htoken, [], c :: rest, by simp, by simp, by simpa using hc⟩
    · refine ⟨hne, hrun, token ++ c :: before, after, by simp, fun x hx => ?_, hafter⟩
      rw [List.getLast?_append, List.getLast?_cons] at hx
      cases hlast : before.getLast? with
      | none =>
          simp only [hlast, Option.getD_none, Option.some_or, Option.mem_some] at hx
          exact hx ▸ hc
      | some y =>
          simp only [hlast, Option.getD_some, Option.some_or, Option.mem_some] at hx
          exact hbefore x (hx ▸ hlast)

end MaximalRun
