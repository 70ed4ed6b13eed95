import Mathlib.Data.List.Basic

/-! Reading from and writing to a descriptor whose calls move only a part of what they are asked
to move, or nothing when a signal interrupts them. The answers of the calls are given as a list,
and a loop that needs more of them than there are has not come back yet. -/

namespace Transfer

/-- What a call answers. One that moves data moves at least one element of what is there, and at
most `extra` more. -/
inductive Answer where
  | interrupted
  | failed
  | moved (extra : ℕ)
  deriving DecidableEq, Repr

def Answer.isMoved : Answer → Bool
  | .moved _ => true
  | _ => false

/-- No call fails, and at least `n` of them move data. -/
def Grants (n : ℕ) (answers : List Answer) : Prop :=
  .failed ∉ answers ∧ n ≤ answers.countP Answer.isMoved

instance (n : ℕ) (answers : List Answer) : Decidable (Grants n answers) :=
  inferInstanceAs (Decidable (_ ∧ _))

section Grants

variable {n : ℕ} {answers : List Answer}

theorem Grants.mono {m : ℕ} (h : Grants n answers) (hm : m ≤ n) : Grants m answers :=
  ⟨h.1, Nat.le_trans hm h.2⟩

theorem grants_interrupted : Grants n (.interrupted :: answers) ↔ Grants n answers := by
  simp [Grants, Answer.isMoved]

theorem grants_moved {extra : ℕ} :
    Grants n (.moved extra :: answers) ↔ Grants (n - 1) answers := by
  simp [Grants, List.countP_cons, Answer.isMoved]

theorem not_grants_failed : ¬ Grants n (.failed :: answers) := by simp [Grants]

theorem not_grants_nil : ¬ Grants (n + 1) [] := by simp [Grants]

end Grants

variable {α : Type*}

/-! ## Writing -/

/-- What a writing loop has written, whether it wrote everything, and the answers that are left;
a loop that has not come back has no result. -/
structure Written (α : Type*) where
  output : List α
  result : Option Bool
  answers : List Answer
  deriving DecidableEq, Repr

/-- Write until everything is written. -/
def writeAll : List Answer → List α → Written α
  | answers, [] => ⟨[], some true, answers⟩
  | [], _ :: _ => ⟨[], none, []⟩
  | .interrupted :: answers, a :: data => writeAll answers (a :: data)
  | .failed :: answers, _ :: _ => ⟨[], some false, answers⟩
  | .moved extra :: answers, a :: data =>
      let later := writeAll answers (data.drop extra)
      { later with output := a :: data.take extra ++ later.output }

theorem writeAll_of_grants {m : ℕ} {answers : List Answer} {data : List α}
    (h : Grants (m + data.length) answers) :
    ∃ rest, writeAll answers data = ⟨data, some true, rest⟩ ∧ Grants m rest := by
  induction answers generalizing data with
  | nil =>
      cases data with
      | nil => exact ⟨[], by rw [writeAll], h⟩
      | cons a data => exact absurd h not_grants_nil
  | cons answer answers ih =>
      cases data with
      | nil => exact ⟨_, by rw [writeAll], h⟩
      | cons a data =>
          cases answer with
          | interrupted =>
              rw [writeAll]
              exact ih (grants_interrupted.mp h)
          | failed => exact absurd h not_grants_failed
          | moved extra =>
              have hlater : Grants (m + (data.drop extra).length) answers := by
                refine (grants_moved.mp h).mono ?_
                rw [List.length_drop, List.length_cons]
                omega
              obtain ⟨rest, hrest, hgrants⟩ := ih hlater
              refine ⟨rest, ?_, hgrants⟩
              rw [writeAll, hrest]
              simp

/-! ## Reading -/

/-- What a reading loop has read, whether it read as much as it was asked to, what is left to
read, and the answers that are left. -/
structure Read (α : Type*) where
  data : List α
  result : Option Bool
  stream : List α
  answers : List Answer
  deriving DecidableEq, Repr

/-- Read exactly `count` elements of the stream. At its end a call moves nothing, which ends the
loop. -/
def readExact : List Answer → ℕ → List α → Read α
  | answers, 0, stream => ⟨[], some true, stream, answers⟩
  | [], _ + 1, stream => ⟨[], none, stream, []⟩
  | .interrupted :: answers, count + 1, stream => readExact answers (count + 1) stream
  | .failed :: answers, _ + 1, stream => ⟨[], some false, stream, answers⟩
  | .moved _ :: answers, _ + 1, [] => ⟨[], some false, [], answers⟩
  | .moved extra :: answers, count + 1, a :: stream =>
      let more := min extra (min count stream.length)
      let later := readExact answers (count - more) (stream.drop more)
      { later with data := a :: stream.take more ++ later.data }

theorem readExact_of_grants {m count : ℕ} {answers : List Answer} {stream : List α}
    (h : Grants (m + count) answers) (hcount : count ≤ stream.length) :
    ∃ rest, readExact answers count stream =
        ⟨stream.take count, some true, stream.drop count, rest⟩ ∧ Grants m rest := by
  induction answers generalizing count stream with
  | nil =>
      cases count with
      | zero => exact ⟨[], by simp [readExact], h⟩
      | succ count => exact absurd h not_grants_nil
  | cons answer answers ih =>
      cases count with
      | zero => exact ⟨_, by simp [readExact], h⟩
      | succ count =>
          cases answer with
          | interrupted =>
              rw [readExact]
              exact ih (grants_interrupted.mp h) hcount
          | failed => exact absurd h not_grants_failed
          | moved extra =>
              cases stream with
              | nil => cases hcount
              | cons a stream =>
                  rw [List.length_cons, Nat.succ_le_succ_iff] at hcount
                  have hmore : min extra (min count stream.length) = min extra count := by
                    rw [Nat.min_eq_left hcount]
                  have hlater : Grants (m + (count - min extra count)) answers :=
                    (grants_moved.mp h).mono (by omega)
                  have hleft :
                      count - min extra count ≤ (stream.drop (min extra count)).length := by
                    rw [List.length_drop]
                    omega
                  obtain ⟨rest, hrest, hgrants⟩ := ih hlater hleft
                  refine ⟨rest, ?_, hgrants⟩
                  rw [readExact, hmore, hrest, List.take_succ_cons, List.drop_succ_cons]
                  have hsplit : stream.take (min extra count) ++
                      (stream.drop (min extra count)).take (count - min extra count) =
                        stream.take count := by
                    rw [← List.take_add]
                    congr 1
                    omega
                  have hdrop : min extra count + (count - min extra count) = count := by omega
                  simp [hsplit, hdrop]

theorem readExact_of_length_lt {count : ℕ} {answers : List Answer} {stream : List α}
    (h : Grants (stream.length + 1) answers) (hcount : stream.length < count) :
    (readExact answers count stream).result = some false := by
  induction answers generalizing count stream with
  | nil => exact absurd h not_grants_nil
  | cons answer answers ih =>
      cases count with
      | zero => cases hcount
      | succ count =>
          cases answer with
          | interrupted =>
              rw [readExact]
              exact ih (grants_interrupted.mp h) hcount
          | failed => exact absurd h not_grants_failed
          | moved extra =>
              cases stream with
              | nil => rw [readExact]
              | cons a stream =>
                  rw [List.length_cons] at hcount
                  rw [readExact]
                  apply ih
                  · refine (grants_moved.mp h).mono ?_
                    rw [List.length_drop, List.length_cons]
                    omega
                  · rw [List.length_drop]
                    omega

end Transfer
