import Mathlib.Data.List.Basic

/-! Streams of records that each end in a delimiter. -/

namespace Lines

variable {α : Type*}

/-- The records, each with its delimiter. -/
def join (d : α) (records : List (List α)) : List α := records.flatMap (· ++ [d])

variable {d : α}

@[simp] theorem join_nil : join d [] = [] := rfl

@[simp] theorem join_cons (record : List α) (records : List (List α)) :
    join d (record :: records) = record ++ d :: join d records := by
  simp [join]

@[simp] theorem join_append (records records' : List (List α)) :
    join d (records ++ records') = join d records ++ join d records' := by
  simp [join]

variable [DecidableEq α]

/-- The complete records of a stream, without their delimiter, and what follows the last one. -/
def split (d : α) : List α → List (List α) × List α
  | [] => ([], [])
  | c :: s =>
      if c = d then ([] :: (split d s).1, (split d s).2)
      else
        match (split d s).1 with
        | [] => ([], c :: (split d s).2)
        | record :: records => ((c :: record) :: records, (split d s).2)

theorem split_delimiter (s : List α) : split d (d :: s) = ([] :: (split d s).1, (split d s).2) := by
  simp [split]

theorem split_of_notMem {s : List α} (h : d ∉ s) : split d s = ([], s) := by
  induction s with
  | nil => rfl
  | cons c s ih =>
      rw [List.mem_cons, not_or] at h
      simp [split, Ne.symm h.1, ih h.2]

theorem split_record {record : List α} (h : d ∉ record) (s : List α) :
    split d (record ++ d :: s) = (record :: (split d s).1, (split d s).2) := by
  induction record with
  | nil => exact split_delimiter s
  | cons c record ih =>
      rw [List.mem_cons, not_or] at h
      simp [split, Ne.symm h.1, ih h.2]

theorem split_join {records : List (List α)} (h : ∀ record ∈ records, d ∉ record) (s : List α) :
    split d (join d records ++ s) = (records ++ (split d s).1, (split d s).2) := by
  induction records with
  | nil => simp
  | cons record records ih =>
      have hrest := ih fun r hr => h r (by simp [hr])
      rw [join_cons, List.append_assoc, List.cons_append, split_record (h record (by simp)), hrest]
      rfl

/-- Splitting loses nothing, and leaves no delimiter in a record or in the rest. -/
theorem split_spec (s : List α) :
    join d (split d s).1 ++ (split d s).2 = s ∧
      (∀ record ∈ (split d s).1, d ∉ record) ∧ d ∉ (split d s).2 := by
  induction s with
  | nil => simp [split]
  | cons c s ih =>
      obtain ⟨hjoin, hrecords, htail⟩ := ih
      by_cases hc : c = d
      · subst hc
        rw [split_delimiter]
        refine ⟨by simp [hjoin], ?_, htail⟩
        intro record hr
        rcases List.mem_cons.mp hr with rfl | hr
        · simp
        · exact hrecords record hr
      · simp only [split, if_neg hc]
        split
        · rename_i hnil
          rw [hnil] at hjoin
          simp only [join_nil, List.nil_append] at hjoin
          exact ⟨by simp [hjoin], by simp, by simp [Ne.symm hc, htail]⟩
        · rename_i record records hcons
          rw [hcons] at hjoin hrecords
          refine ⟨by simpa using hjoin, ?_, htail⟩
          intro r hr
          rcases List.mem_cons.mp hr with rfl | hr
          · simp [Ne.symm hc, hrecords record (by simp)]
          · exact hrecords r (by simp [hr])

theorem join_split (s : List α) : join d (split d s).1 ++ (split d s).2 = s := (split_spec s).1

theorem notMem_of_mem_split {s record : List α} (h : record ∈ (split d s).1) : d ∉ record :=
  (split_spec s).2.1 record h

theorem notMem_rest (s : List α) : d ∉ (split d s).2 := (split_spec s).2.2

/-- A stream that goes on: the records already complete stay, the rest is completed. -/
theorem split_append (s t : List α) :
    split d (s ++ t) =
      ((split d s).1 ++ (split d ((split d s).2 ++ t)).1, (split d ((split d s).2 ++ t)).2) := by
  conv_lhs => rw [← join_split (d := d) s, List.append_assoc]
  exact split_join (fun record hr => notMem_of_mem_split hr) _

/-- Of a stream of whole records, the beginning has the first ones. -/
theorem split_prefix {records : List (List α)} (h : ∀ record ∈ records, d ∉ record)
    {s : List α} (hs : s <+: join d records) : (split d s).1 <+: records := by
  obtain ⟨t, ht⟩ := hs
  have hsplit := split_join h []
  rw [List.append_nil, ← ht, split_append] at hsplit
  simp only [split, List.append_nil, Prod.mk.injEq] at hsplit
  exact ⟨_, hsplit.1⟩

/-- Records are in the stream as soon as their bytes are. -/
theorem join_prefix_iff {records : List (List α)} (h : ∀ record ∈ records, d ∉ record)
    {s : List α} : join d records <+: s ↔ records <+: (split d s).1 := by
  constructor
  · rintro ⟨t, rfl⟩
    rw [split_join h]
    exact List.prefix_append ..
  · rintro ⟨more, hmore⟩
    refine ⟨join d more ++ (split d s).2, ?_⟩
    rw [← List.append_assoc, ← join_append, hmore, join_split]

theorem length_lt_of_mem_split {s record : List α} (h : record ∈ (split d s).1) :
    record.length < s.length := by
  obtain ⟨before, after, hsplit⟩ := List.append_of_mem h
  have hlen := congrArg List.length (join_split (d := d) s)
  rw [hsplit] at hlen
  simp only [join_append, join_cons, List.length_append, List.length_cons] at hlen
  omega

theorem length_rest_le (s : List α) : (split d s).2.length ≤ s.length := by
  have hlen := congrArg List.length (join_split (d := d) s)
  rw [List.length_append] at hlen
  omega

end Lines
