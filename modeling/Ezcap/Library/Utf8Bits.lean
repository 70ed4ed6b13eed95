import Ezcap.Library.Utf8

/-! UTF-8 by the bits of its bytes. A lead byte says how many bytes follow and each of them adds
six bits; a text spelled so is well formed exactly when every character is in its shortest form,
not a surrogate and at most U+10FFFF. -/

namespace Utf8

open StdString

/-! ## Characters by their bits -/

/-- How many bytes a lead byte announces, and the bits of the character that it holds. -/
def leadBits (a : UInt8) : Option (ℕ × ℕ) :=
  if a.toNat < 0x80 then some (0, a.toNat)
  else if a.toNat < 0xC0 then none
  else if a.toNat < 0xE0 then some (1, a.toNat - 0xC0)
  else if a.toNat < 0xF0 then some (2, a.toNat - 0xE0)
  else if a.toNat < 0xF8 then some (3, a.toNat - 0xF0)
  else none

def IsTail (b : UInt8) : Prop := 0x80 ≤ b.toNat ∧ b.toNat < 0xC0

instance (b : UInt8) : Decidable (IsTail b) := inferInstanceAs (Decidable (_ ∧ _))

/-- Six more bits from each byte of the tail. -/
def codePoint (high : ℕ) (tail : Bytes) : ℕ :=
  tail.foldl (fun value b => 64 * value + (b.toNat - 0x80)) high

/-- A character as its bits spell it: how many bytes its tail has, and its code point. -/
structure Spelled where
  extra : ℕ
  codePoint : ℕ
  deriving DecidableEq, Repr

/-- The bytes have the bit patterns of these characters. -/
inductive Spells : Bytes → List Spelled → Prop
  | nil : Spells [] []
  | char {a : UInt8} {tail rest : Bytes} {high : ℕ} {chars : List Spelled}
      (hlead : leadBits a = some (tail.length, high)) (htail : ∀ b ∈ tail, IsTail b)
      (hrest : Spells rest chars) :
      Spells (a :: (tail ++ rest)) (⟨tail.length, codePoint high tail⟩ :: chars)

/-- The least code point that needs a tail of this length. -/
def leastCodePoint : ℕ → ℕ
  | 0 => 0
  | 1 => 0x80
  | 2 => 0x800
  | _ => 0x10000

namespace Spelled

/-- Neither overlong nor a surrogate nor above U+10FFFF. -/
@[mk_iff]
structure Proper (c : Spelled) : Prop where
  shortest : leastCodePoint c.extra ≤ c.codePoint
  not_surrogate : c.codePoint < 0xD800 ∨ 0xDFFF < c.codePoint
  bounded : c.codePoint ≤ 0x10FFFF

end Spelled

/-! ## Proper characters are the well-formed ones -/

theorem run_cons_owed (low high : UInt8) (owed : Owed) (b : UInt8) (rest : Bytes) :
    run ((low, high) :: owed) (b :: rest) =
      if low.toNat ≤ b.toNat ∧ b.toNat ≤ high.toNat then run owed rest else none := by
  simp only [run, step, UInt8.le_iff_toNat_le]
  split_ifs <;> rfl

theorem run_tail {b : UInt8} (hb : IsTail b) (owed : Owed) (rest : Bytes) :
    run ((0x80, 0xBF) :: owed) (b :: rest) = run owed rest := by
  rw [run_cons_owed, if_pos]
  exact ⟨hb.1, Nat.le_of_lt_succ hb.2⟩

theorem leadBits_cases {a : UInt8} {extra high : ℕ} (h : leadBits a = some (extra, high)) :
    (extra = 0 ∧ a.toNat < 0x80 ∧ high = a.toNat) ∨
    (extra = 1 ∧ 0xC0 ≤ a.toNat ∧ a.toNat < 0xE0 ∧ high = a.toNat - 0xC0) ∨
    (extra = 2 ∧ 0xE0 ≤ a.toNat ∧ a.toNat < 0xF0 ∧ high = a.toNat - 0xE0) ∨
    (extra = 3 ∧ 0xF0 ≤ a.toNat ∧ a.toNat < 0xF8 ∧ high = a.toNat - 0xF0) := by
  unfold leadBits at h
  split_ifs at h <;> simp only [Option.some.injEq, Prod.mk.injEq] at h <;> omega

section Lead

variable {a : UInt8}

theorem lead_two (ha : 0xC0 ≤ a.toNat) (ha' : a.toNat < 0xE0) :
    lead a = if a.toNat < 0xC2 then none else some [(0x80, 0xBF)] := by
  rw [lead_eq, if_neg (by omega), if_pos (show a.toNat ≤ 0xDF by omega)]

theorem lead_three (ha : 0xE0 ≤ a.toNat) (ha' : a.toNat < 0xF0) :
    lead a = some [(if a.toNat = 0xE0 then 0xA0 else 0x80, if a.toNat = 0xED then 0x9F else 0xBF),
      (0x80, 0xBF)] := by
  rw [lead_eq, if_neg (by omega), if_neg (by omega), if_neg (by omega)]
  by_cases hlow : a.toNat = 0xE0
  · rw [if_pos hlow, if_pos hlow, if_neg (show ¬ a.toNat = 0xED by omega)]
  · rw [if_neg hlow, if_neg hlow]
    by_cases hhigh : a.toNat = 0xED
    · rw [if_pos hhigh, if_pos hhigh]
    · rw [if_neg hhigh, if_neg hhigh, if_pos (by omega)]

theorem lead_four (ha : 0xF0 ≤ a.toNat) (ha' : a.toNat < 0xF8) :
    lead a = if 0xF4 < a.toNat then none else
      some [(if a.toNat = 0xF0 then 0x90 else 0x80, if a.toNat = 0xF4 then 0x8F else 0xBF),
        (0x80, 0xBF), (0x80, 0xBF)] := by
  rw [lead_eq, if_neg (by omega), if_neg (by omega), if_neg (by omega), if_neg (by omega),
    if_neg (by omega), if_neg (by omega)]
  by_cases hlow : a.toNat = 0xF0
  · rw [if_pos hlow, if_pos hlow, if_neg (show ¬ 0xF4 < a.toNat by omega),
      if_neg (show ¬ a.toNat = 0xF4 by omega)]
  · rw [if_neg hlow, if_neg hlow]
    by_cases hhigh : a.toNat = 0xF4
    · rw [if_neg (by omega), if_pos hhigh, if_pos hhigh, if_neg (by omega)]
    · by_cases hlarge : 0xF4 < a.toNat
      · rw [if_neg (by omega), if_neg hhigh, if_pos hlarge]
      · rw [if_pos (by omega), if_neg hhigh, if_neg hlarge]

end Lead

section Char

variable {a b c d : UInt8}

theorem valid_two (ha : 0xC0 ≤ a.toNat) (ha' : a.toNat < 0xE0) (hb : IsTail b) (rest : Bytes) :
    Valid (a :: b :: rest) ↔
      Spelled.Proper ⟨1, codePoint (a.toNat - 0xC0) [b]⟩ ∧ Valid rest := by
  have hproper : Spelled.Proper ⟨1, codePoint (a.toNat - 0xC0) [b]⟩ ↔ ¬ a.toNat < 0xC2 := by
    simp only [Spelled.proper_iff, leastCodePoint, codePoint, List.foldl_cons, List.foldl_nil]
    unfold IsTail at hb
    omega
  rw [hproper, Valid, run, step, lead_two ha ha']
  by_cases hlong : a.toNat < 0xC2
  · simp [hlong]
  · simp [hlong, run_tail hb, Valid]

theorem valid_three (ha : 0xE0 ≤ a.toNat) (ha' : a.toNat < 0xF0) (hb : IsTail b) (hc : IsTail c)
    (rest : Bytes) :
    Valid (a :: b :: c :: rest) ↔
      Spelled.Proper ⟨2, codePoint (a.toNat - 0xE0) [b, c]⟩ ∧ Valid rest := by
  have hproper : Spelled.Proper ⟨2, codePoint (a.toNat - 0xE0) [b, c]⟩ ↔
      (if a.toNat = 0xE0 then 0xA0 else 0x80 : UInt8).toNat ≤ b.toNat ∧
        b.toNat ≤ (if a.toNat = 0xED then 0x9F else 0xBF : UInt8).toNat := by
    simp only [Spelled.proper_iff, leastCodePoint, codePoint, List.foldl_cons, List.foldl_nil]
    unfold IsTail at hb hc
    split_ifs <;> simp only [UInt8.reduceToNat] <;> omega
  rw [hproper, Valid, run, step, lead_three ha ha', Option.bind_some, run_cons_owed, run_tail hc,
    Option.ite_none_right_eq_some]
  rfl

theorem valid_four (ha : 0xF0 ≤ a.toNat) (ha' : a.toNat < 0xF8) (hb : IsTail b) (hc : IsTail c)
    (hd : IsTail d) (rest : Bytes) :
    Valid (a :: b :: c :: d :: rest) ↔
      Spelled.Proper ⟨3, codePoint (a.toNat - 0xF0) [b, c, d]⟩ ∧ Valid rest := by
  have hproper : Spelled.Proper ⟨3, codePoint (a.toNat - 0xF0) [b, c, d]⟩ ↔ ¬ 0xF4 < a.toNat ∧
      (if a.toNat = 0xF0 then 0x90 else 0x80 : UInt8).toNat ≤ b.toNat ∧
        b.toNat ≤ (if a.toNat = 0xF4 then 0x8F else 0xBF : UInt8).toNat := by
    simp only [Spelled.proper_iff, leastCodePoint, codePoint, List.foldl_cons, List.foldl_nil]
    unfold IsTail at hb hc hd
    split_ifs <;> simp only [UInt8.reduceToNat] <;> omega
  rw [hproper, Valid, run, step, lead_four ha ha']
  by_cases hlarge : 0xF4 < a.toNat
  · simp [hlarge]
  · rw [if_neg hlarge, Option.bind_some, run_cons_owed, run_tail hc, run_tail hd,
      Option.ite_none_right_eq_some, and_iff_right hlarge]
    rfl

end Char

/-- A character spelled by its bits is well formed when it is a proper one. -/
theorem valid_char {a : UInt8} {tail : Bytes} {high : ℕ}
    (hlead : leadBits a = some (tail.length, high)) (htail : ∀ b ∈ tail, IsTail b) (rest : Bytes) :
    Valid (a :: (tail ++ rest)) ↔
      Spelled.Proper ⟨tail.length, codePoint high tail⟩ ∧ Valid rest := by
  rcases leadBits_cases hlead with ⟨hextra, ha, hhigh⟩ | ⟨hextra, ha, ha', hhigh⟩ |
    ⟨hextra, ha, ha', hhigh⟩ | ⟨hextra, ha, ha', hhigh⟩
  · rw [List.length_eq_zero_iff] at hextra
    rw [hhigh, hextra]
    have hproper : Spelled.Proper ⟨0, a.toNat⟩ := by
      simp only [Spelled.proper_iff, leastCodePoint]
      omega
    have hascii := valid_append_ascii (UInt8.lt_iff_toNat_lt.mpr ha) [] rest
    rw [and_iff_right valid_nil] at hascii
    exact hascii.trans (and_iff_right hproper).symm
  · obtain ⟨b, rfl⟩ := List.length_eq_one_iff.mp hextra
    rw [hhigh]
    exact valid_two ha ha' (htail b (by simp)) rest
  · obtain ⟨b, c, rfl⟩ := List.length_eq_two.mp hextra
    rw [hhigh]
    exact valid_three ha ha' (htail b (by simp)) (htail c (by simp)) rest
  · obtain ⟨b, c, d, rfl⟩ := List.length_eq_three.mp hextra
    rw [hhigh]
    exact valid_four ha ha' (htail b (by simp)) (htail c (by simp)) (htail d (by simp)) rest

/-- A text is well formed exactly when its bits spell proper characters. -/
theorem Spells.valid_iff {s : Bytes} {chars : List Spelled} (h : Spells s chars) :
    Valid s ↔ ∀ c ∈ chars, c.Proper := by
  induction h with
  | nil => simp
  | char hlead htail _ ih => rw [valid_char hlead htail, List.forall_mem_cons, ih]

end Utf8
