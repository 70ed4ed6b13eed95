import Ezcap.Library.StdString

/-! Well-formed UTF-8 (RFC 3629): a lead byte announces the ranges its continuation
bytes must lie in, and a text is well formed when none is left owing at its end. -/

namespace Utf8

open StdString

/-- The ranges the next bytes must lie in before a new character may start. -/
abbrev Owed := List (UInt8 × UInt8)

/-- What a lead byte announces; `none` for a byte that starts no character. -/
def lead (a : UInt8) : Option Owed :=
  if a ≤ 0x7F then some []
  else if a < 0xC2 then none
  else if a ≤ 0xDF then some [(0x80, 0xBF)]
  else if a = 0xE0 then some [(0xA0, 0xBF), (0x80, 0xBF)]
  else if a = 0xED then some [(0x80, 0x9F), (0x80, 0xBF)]
  else if a ≤ 0xEF then some [(0x80, 0xBF), (0x80, 0xBF)]
  else if a = 0xF0 then some [(0x90, 0xBF), (0x80, 0xBF), (0x80, 0xBF)]
  else if a ≤ 0xF3 then some [(0x80, 0xBF), (0x80, 0xBF), (0x80, 0xBF)]
  else if a = 0xF4 then some [(0x80, 0x8F), (0x80, 0xBF), (0x80, 0xBF)]
  else none

def step : Owed → UInt8 → Option Owed
  | [], a => lead a
  | (low, high) :: owed, b => if low ≤ b ∧ b ≤ high then some owed else none

def run : Owed → Bytes → Option Owed
  | owed, [] => some owed
  | owed, b :: s => (step owed b).bind fun next => run next s

/-- The text is a sequence of complete, well-formed characters. -/
def Valid (s : Bytes) : Prop := run [] s = some []

instance (s : Bytes) : Decidable (Valid s) := inferInstanceAs (Decidable (_ = _))

/-! ## Runs over concatenated texts -/

theorem run_append (owed : Owed) (s t : Bytes) :
    run owed (s ++ t) = (run owed s).bind fun next => run next t := by
  induction s generalizing owed with
  | nil => rfl
  | cons b s ih =>
      simp only [List.cons_append, run]
      cases step owed b with
      | none => rfl
      | some next => exact ih next

@[simp] theorem valid_nil : Valid [] := rfl

theorem Valid.append_iff {s : Bytes} (hs : Valid s) (t : Bytes) :
    Valid (s ++ t) ↔ Valid t := by
  unfold Valid at *
  rw [run_append, hs]
  rfl

theorem Valid.append {s t : Bytes} (hs : Valid s) (ht : Valid t) : Valid (s ++ t) :=
  (hs.append_iff t).mpr ht

/-! ## ASCII characters stand at character boundaries -/

theorem lead_of_ascii {c : UInt8} (hc : c < 0x80) : lead c = some [] := by
  have : c ≤ 0x7F := by
    rw [UInt8.le_iff_toNat_le]
    rw [UInt8.lt_iff_toNat_lt] at hc
    exact Nat.lt_succ_iff.mp hc
  simp [lead, this]

/-- Continuation bytes are never ASCII. -/
def Continuing (owed : Owed) : Prop := ∀ r ∈ owed, 0x80 ≤ r.1

theorem continuing_lead {a : UInt8} {owed : Owed} (h : lead a = some owed) :
    Continuing owed := by
  have hlead := @forall_byte
    (fun a => (lead a).all fun owed => owed.all fun r => decide (0x80 ≤ r.1)) (by decide +kernel) a
  simp only [h, Option.all_some, List.all_eq_true, decide_eq_true_eq] at hlead
  exact hlead

theorem continuing_step {owed next : Owed} {b : UInt8} (ho : Continuing owed)
    (h : step owed b = some next) : Continuing next := by
  cases owed with
  | nil => exact continuing_lead h
  | cons r owed =>
      simp only [step] at h
      split at h
      · cases h
        exact fun q hq => ho q (List.mem_cons_of_mem _ hq)
      · cases h

theorem continuing_run {owed next : Owed} {s : Bytes} (ho : Continuing owed)
    (h : run owed s = some next) : Continuing next := by
  induction s generalizing owed with
  | nil =>
      cases h
      exact ho
  | cons b s ih =>
      simp only [run, Option.bind_eq_some_iff] at h
      obtain ⟨mid, hmid, hrest⟩ := h
      exact ih (continuing_step ho hmid) hrest

theorem step_of_ascii {owed next : Owed} {c : UInt8} (hc : c < 0x80) (ho : Continuing owed)
    (h : step owed c = some next) : owed = [] ∧ next = [] := by
  cases owed with
  | nil =>
      simp only [step, lead_of_ascii hc, Option.some.injEq] at h
      exact ⟨rfl, h.symm⟩
  | cons r owed =>
      have hr : 0x80 ≤ r.1 := ho r (by simp)
      have hlow : ¬ r.1 ≤ c := by
        rw [UInt8.le_iff_toNat_le] at hr ⊢
        rw [UInt8.lt_iff_toNat_lt] at hc
        exact Nat.not_le.mpr (Nat.lt_of_lt_of_le hc hr)
      simp [step, hlow] at h

/-- A text is well formed exactly when its parts around an ASCII character are. -/
theorem valid_append_ascii {c : UInt8} (hc : c < 0x80) (s t : Bytes) :
    Valid (s ++ c :: t) ↔ Valid s ∧ Valid t := by
  unfold Valid
  rw [run_append]
  constructor
  · intro h
    obtain ⟨owed, hs, ht⟩ := Option.bind_eq_some_iff.mp h
    simp only [run, Option.bind_eq_some_iff] at ht
    obtain ⟨next, hstep, hrest⟩ := ht
    obtain ⟨rfl, rfl⟩ := step_of_ascii hc (continuing_run (by simp [Continuing]) hs) hstep
    exact ⟨hs, hrest⟩
  · rintro ⟨hs, ht⟩
    rw [hs]
    simp [run, step, lead_of_ascii hc, ht]

theorem valid_of_ascii {s : Bytes} (h : ∀ c ∈ s, c < 0x80) : Valid s := by
  induction s with
  | nil => rfl
  | cons c s ih =>
      have hs := ih fun d hd => h d (List.mem_cons_of_mem _ hd)
      simpa using (valid_append_ascii (h c (by simp)) [] s).mpr ⟨rfl, hs⟩

/-- Only an ASCII character leaves nothing owing. -/
theorem lt_of_lead_eq_nil {a : UInt8} (h : lead a = some []) : a < 0x80 := by
  have hlead := @forall_byte (fun a => lead a != some [] || decide (a < 0x80)) (by decide +kernel) a
  simpa [h] using hlead

/-- A lead byte outside ASCII cannot be followed by an ASCII character. -/
theorem not_valid_cons_ascii {a c : UInt8} (ha : ¬ a < 0x80) (hc : c < 0x80) (s : Bytes) :
    ¬ Valid (a :: c :: s) := by
  intro h
  have h1 : Valid [a] := ((valid_append_ascii hc [a] s).mp h).1
  simp only [Valid, run, step, Option.bind_eq_some_iff] at h1
  obtain ⟨owed, hlead, hrun⟩ := h1
  cases hrun
  exact ha (lt_of_lead_eq_nil hlead)

/-! ## Cutting at an ASCII character -/

/-- The first character outside `p` is ASCII, so both parts around it are well formed. -/
theorem Valid.takeWhile {s : Bytes} {p : UInt8 → Bool} (hs : Valid s)
    (hp : ∀ c, p c = false → c < 0x80) :
    Valid (s.takeWhile p) ∧ Valid (s.dropWhile p) := by
  rw [← List.takeWhile_append_dropWhile (p := p) (l := s)] at hs
  cases h : s.dropWhile p with
  | nil =>
      rw [h, List.append_nil] at hs
      exact ⟨hs, valid_nil⟩
  | cons c rest =>
      rw [h] at hs
      have hc : c < 0x80 := hp c (by simpa [h] using List.head?_dropWhile_not p s)
      obtain ⟨hleft, hright⟩ := (valid_append_ascii hc _ _).mp hs
      exact ⟨hleft, (valid_append_ascii hc [] rest).mpr ⟨valid_nil, hright⟩⟩

/-- The parts of a text around an ASCII character, which may go to either of them, are well
formed. -/
theorem Valid.cut {s : Bytes} {c : UInt8} {i : ℕ} (hs : Valid s) (hc : c < 0x80)
    (hi : s[i]? = some c) :
    (Valid (s.take i) ∧ Valid (s.drop i)) ∧ Valid (s.take (i + 1)) ∧ Valid (s.drop (i + 1)) := by
  obtain ⟨hlt, hget⟩ := List.getElem?_eq_some_iff.mp hi
  have hsplit : s = s.take i ++ c :: s.drop (i + 1) := by
    rw [← hget, ← List.drop_eq_getElem_cons hlt, List.take_append_drop]
  rw [hsplit] at hs
  obtain ⟨hleft, hright⟩ := (valid_append_ascii hc _ _).mp hs
  refine ⟨⟨hleft, ?_⟩, ?_, hright⟩
  · rw [List.drop_eq_getElem_cons hlt, hget]
    exact (valid_append_ascii hc [] _).mpr ⟨valid_nil, hright⟩
  · rw [List.take_add_one, hi]
    exact (valid_append_ascii hc _ []).mpr ⟨hleft, valid_nil⟩

/-! ## Encoded characters -/

theorem toNat_ofNat_of_lt {n : ℕ} (h : n < 256) : (UInt8.ofNat n).toNat = n := by
  rw [UInt8.toNat_ofNat']
  exact Nat.mod_eq_of_lt h

theorem run_owed {low high : UInt8} {n : ℕ} (hl : low.toNat ≤ n) (hh : n ≤ high.toNat)
    (owed : Owed) (s : Bytes) : run ((low, high) :: owed) (UInt8.ofNat n :: s) = run owed s := by
  have hn := toNat_ofNat_of_lt (hh.trans_lt high.toNat_lt)
  simp [run, step, UInt8.le_iff_toNat_le, hn, hl, hh]

theorem run_continuation (n : ℕ) (owed : Owed) (s : Bytes) :
    run ((0x80, 0xBF) :: owed) (UInt8.ofNat (n % 64 + 128) :: s) = run owed s :=
  run_owed (by simp) (by simp; omega) owed s

theorem lead_eq (a : UInt8) : lead a =
    if a.toNat ≤ 0x7F then some []
    else if a.toNat < 0xC2 then none
    else if a.toNat ≤ 0xDF then some [(0x80, 0xBF)]
    else if a.toNat = 0xE0 then some [(0xA0, 0xBF), (0x80, 0xBF)]
    else if a.toNat = 0xED then some [(0x80, 0x9F), (0x80, 0xBF)]
    else if a.toNat ≤ 0xEF then some [(0x80, 0xBF), (0x80, 0xBF)]
    else if a.toNat = 0xF0 then some [(0x90, 0xBF), (0x80, 0xBF), (0x80, 0xBF)]
    else if a.toNat ≤ 0xF3 then some [(0x80, 0xBF), (0x80, 0xBF), (0x80, 0xBF)]
    else if a.toNat = 0xF4 then some [(0x80, 0x8F), (0x80, 0xBF), (0x80, 0xBF)]
    else none := by
  simp only [lead, UInt8.le_iff_toNat_le, UInt8.lt_iff_toNat_lt, ← UInt8.toNat_inj]
  rfl

theorem valid_utf8EncodeChar (c : Char) : Valid (String.utf8EncodeChar c) := by
  have hv : c.val.toNat < 0xd800 ∨ (0xdfff < c.val.toNat ∧ c.val.toNat < 0x110000) := c.valid
  unfold String.utf8EncodeChar Valid
  generalize c.val.toNat = v at hv
  dsimp only
  split_ifs with h1 h2 h3
  all_goals rw [run, step, lead_eq, toNat_ofNat_of_lt (by omega)]
  · rw [if_pos h1]
    rfl
  · rw [if_neg (by omega), if_neg (by omega), if_pos (by omega), Option.bind_some,
      run_continuation]
    rfl
  · rw [if_neg (by omega), if_neg (by omega), if_neg (by omega)]
    split_ifs
    -- overlong forms and surrogates are what the narrower second range leaves out
    · rw [Option.bind_some, run_owed (by simp; omega) (by simp; omega), run_continuation]
      rfl
    · rw [Option.bind_some, run_owed (by simp) (by simp; omega), run_continuation]
      rfl
    · rw [Option.bind_some, run_continuation, run_continuation]
      rfl
    all_goals omega
  · rw [if_neg (by omega), if_neg (by omega), if_neg (by omega), if_neg (by omega),
      if_neg (by omega), if_neg (by omega)]
    split_ifs
    · rw [Option.bind_some, run_owed (by simp; omega) (by simp; omega), run_continuation,
        run_continuation]
      rfl
    · rw [Option.bind_some, run_continuation, run_continuation, run_continuation]
      rfl
    · rw [Option.bind_some, run_owed (by simp) (by simp; omega), run_continuation,
        run_continuation]
      rfl
    · omega

@[simp] theorem valid_cstr (s : String) : Valid (cstr s) := by
  obtain ⟨chars, hchars⟩ := s.isValidUTF8
  have hbytes : cstr s = chars.flatMap String.utf8EncodeChar := by
    simp [cstr, String.toUTF8, hchars, List.utf8Encode]
  rw [hbytes]
  clear hchars hbytes
  induction chars with
  | nil => rfl
  | cons c chars ih =>
      rw [List.flatMap_cons]
      exact (valid_utf8EncodeChar c).append ih

end Utf8
