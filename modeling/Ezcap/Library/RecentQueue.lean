import Mathlib.Data.List.DropRight

/-! A queue that keeps the last `n` elements of a history and drops elements that are gone from its
front. -/

namespace RecentQueue

variable {α : Type} {n : ℕ} {gone gone' : α → Prop} {history queue : List α}

/-! ## The last elements of a list -/

theorem rtake_append (older newer : List α) (n : ℕ) :
    (older ++ newer).rtake n =
      older.drop (older.length + newer.length - n) ++ newer.rtake n := by
  have hdrop : older.length + newer.length - n - older.length = newer.length - n := by omega
  rw [List.rtake, List.drop_append, List.length_append, hdrop, List.rtake]

theorem length_rtake_le (l : List α) (n : ℕ) : (l.rtake n).length ≤ n := by
  rw [List.rtake, List.length_drop]
  omega

theorem rtake_suffix (l : List α) (n : ℕ) : l.rtake n <:+ l := List.drop_suffix _ _

theorem rtake_rtake_append (older newer : List α) (n : ℕ) :
    (older.rtake n ++ newer).rtake n = (older ++ newer).rtake n := by
  rw [List.rtake_eq_reverse_take_reverse, List.rtake_eq_reverse_take_reverse,
    List.rtake_eq_reverse_take_reverse]
  simp only [List.reverse_append, List.reverse_reverse, List.take_append, List.take_take]
  simp

/-! ## The queue and its history -/

/-- The queue with the elements dropped from its front is the last part of the history. -/
def KeepsLast (n : ℕ) (gone : α → Prop) (history queue : List α) : Prop :=
  ∃ dropped, history.rtake n = dropped ++ queue ∧ ∀ x ∈ dropped, gone x

theorem keepsLast_nil : KeepsLast n gone [] [] := ⟨[], by simp, by simp⟩

theorem KeepsLast.suffix (h : KeepsLast n gone history queue) : queue <:+ history := by
  obtain ⟨dropped, hlast, -⟩ := h
  exact (hlast ▸ List.suffix_append dropped queue).trans (rtake_suffix history n)

theorem KeepsLast.length_le (h : KeepsLast n gone history queue) : queue.length ≤ n := by
  obtain ⟨dropped, hlast, -⟩ := h
  have hle := hlast ▸ length_rtake_le history n
  rw [List.length_append] at hle
  omega

theorem KeepsLast.mono (h : KeepsLast n gone history queue) (himp : ∀ x, gone x → gone' x) :
    KeepsLast n gone' history queue := by
  obtain ⟨dropped, hlast, hgone⟩ := h
  exact ⟨dropped, hlast, fun x hx => himp x (hgone x hx)⟩

theorem KeepsLast.push (h : KeepsLast n gone history queue) (x : α) :
    KeepsLast n gone (history ++ [x]) ((queue ++ [x]).rtake n) := by
  obtain ⟨dropped, hlast, hgone⟩ := h
  have hcut : (history ++ [x]).rtake n =
      dropped.drop (dropped.length + (queue ++ [x]).length - n) ++ (queue ++ [x]).rtake n := by
    rw [← rtake_rtake_append, hlast, List.append_assoc, rtake_append]
  exact ⟨_, hcut, fun y hy => hgone y (List.mem_of_mem_drop hy)⟩

theorem KeepsLast.dropWhile (h : KeepsLast n gone history queue) {p : α → Bool}
    (hp : ∀ x, p x = true → gone x) : KeepsLast n gone history (queue.dropWhile p) := by
  obtain ⟨dropped, hlast, hgone⟩ := h
  refine ⟨dropped ++ queue.takeWhile p, ?_, fun x hx => ?_⟩
  · rw [hlast, List.append_assoc, List.takeWhile_append_dropWhile]
  · rcases List.mem_append.mp hx with hx | hx
    · exact hgone x hx
    · exact hp x (List.mem_takeWhile_imp hx)

end RecentQueue
