import Ezcap.Library.Format

/-! `inet_ntop` for both address families, after the algorithm of the C library. -/

namespace Inet

open StdString

/-- `"%u.%u.%u.%u"` of four bytes. -/
def ntop4 (bytes : Bytes) : Bytes :=
  List.intercalate (cstr ".") ((bytes.take 4).map fun b => Format.decimal b.toNat)

/-- The eight 16-bit words of an address. -/
def words : Bytes → List ℕ
  | a :: b :: rest => (a.toNat * 256 + b.toNat) :: words rest
  | _ => []

/-- The first longest run of zero words from index `i` on, as its base and length; `run` is
the length of the run that ends at `i`, `best` the best one before it. -/
def longestRun (best : ℕ × ℕ) (run : ℕ) : ℕ → List ℕ → ℕ × ℕ
  | i, [] => if run > best.2 then (i - run, run) else best
  | i, w :: ws =>
      if w = 0 then longestRun best (run + 1) (i + 1) ws
      else longestRun (if run > best.2 then (i - run, run) else best) 0 (i + 1) ws

/-- The run that `::` stands for; a single zero word is written out. -/
def compressed (ws : List ℕ) : Option (ℕ × ℕ) :=
  let best := longestRun (0, 0) 0 0 ws
  if best.2 < 2 then none else some best

/-- The text of the words from index `i` on. -/
def wordsText (bytes : Bytes) (best : Option (ℕ × ℕ)) (ws : List ℕ) : ℕ → List ℕ → Bytes
  | _, [] => []
  | i, w :: rest =>
      let inside := best.any fun r => decide (r.1 ≤ i ∧ i < r.1 + r.2)
      if inside then
        (if best.any fun r => decide (i = r.1) then cstr ":" else []) ++
          wordsText bytes best ws (i + 1) rest
      else
        let colon := if i = 0 then [] else cstr ":"
        -- the embedded IPv4 form of `::a.b.c.d` and `::ffff:a.b.c.d`
        let embedded := i = 6 ∧
          best.any fun r => decide (r.1 = 0 ∧ (r.2 = 6 ∨ r.2 = 5 ∧ ws.getD 5 0 = 0xffff))
        if embedded then colon ++ ntop4 (bytes.drop 12)
        else colon ++ Format.hex w ++ wordsText bytes best ws (i + 1) rest

def ntop6 (bytes : Bytes) : Bytes :=
  let ws := words (bytes.take 16)
  let best := compressed ws
  wordsText bytes best ws 0 ws ++
    if best.any fun r => decide (r.1 + r.2 = 8) then cstr ":" else []

/-! ## The two forms of text -/

theorem mem_intercalate_decimal {c : UInt8} {bytes : Bytes}
    (h : c ∈ List.intercalate (cstr ".") (bytes.map fun b => Format.decimal b.toNat)) :
    c = '.'.toUInt8 ∨ ∃ d < 10, c = Format.digit d := by
  induction bytes with
  | nil => simp at h
  | cons b bytes ih =>
      cases bytes with
      | nil =>
          simp only [List.map_cons, List.map_nil, List.intercalate_singleton] at h
          exact .inr (Format.mem_fixed (by decide) h)
      | cons b' bytes =>
          simp only [List.map_cons, List.intercalate_cons_cons, List.mem_append] at h ih
          rcases h with (h | h) | h
          · exact .inr (Format.mem_fixed (by decide) h)
          · exact .inl (List.mem_singleton.mp h)
          · exact ih h

theorem colon_notMem_ntop4 (bytes : Bytes) : ':'.toUInt8 ∉ ntop4 bytes := by
  intro h
  rcases mem_intercalate_decimal h with h | ⟨d, hd, h⟩
  · exact absurd h (by decide)
  · revert d
    decide

theorem dot_notMem_decimal (n : ℕ) : '.'.toUInt8 ∉ Format.decimal n := by
  intro h
  obtain ⟨d, hd, h⟩ := Format.mem_fixed (by decide) h
  revert d
  decide

theorem decimal_append_inj {m n : ℕ} {s t : Bytes}
    (h : Format.decimal m ++ '.'.toUInt8 :: s = Format.decimal n ++ '.'.toUInt8 :: t) :
    m = n ∧ s = t := by
  have hspan (k : ℕ) (u : Bytes) :
      (Format.decimal k ++ '.'.toUInt8 :: u).takeWhile (· ≠ '.'.toUInt8) = Format.decimal k := by
    apply takeWhile_append_delimiter
    · intro c hc
      simpa using fun hdot : c = '.'.toUInt8 => dot_notMem_decimal k (hdot ▸ hc)
    · simp
  have hdecimal := congrArg (List.takeWhile (· ≠ '.'.toUInt8)) h
  rw [hspan, hspan] at hdecimal
  rw [hdecimal, List.append_cancel_left_eq] at h
  exact ⟨Format.decimal_injective hdecimal, List.tail_eq_of_cons_eq h⟩

theorem intercalate_decimal_inj {s t : Bytes} (hlength : s.length = t.length)
    (h : List.intercalate (cstr ".") (s.map fun b => Format.decimal b.toNat) =
      List.intercalate (cstr ".") (t.map fun b => Format.decimal b.toNat)) : s = t := by
  induction s generalizing t with
  | nil => exact (List.length_eq_zero_iff.mp hlength.symm).symm
  | cons a s ih =>
      obtain ⟨b, t, rfl⟩ := List.exists_cons_of_length_eq_add_one hlength.symm
      have hrest : s.length = t.length := by simpa using hlength
      cases s with
      | nil =>
          obtain rfl : t = [] := List.length_eq_zero_iff.mp hrest.symm
          simp only [List.map_cons, List.map_nil, List.intercalate_singleton] at h
          rw [UInt8.toNat_inj.mp (Format.decimal_injective h)]
      | cons a' s =>
          obtain ⟨b', t, rfl⟩ := List.exists_cons_of_length_eq_add_one hrest.symm
          simp only [List.map_cons, List.intercalate_cons_cons, List.append_assoc] at h
          obtain ⟨hhead, htail⟩ := decimal_append_inj h
          rw [UInt8.toNat_inj.mp hhead, ih hrest (by simpa using htail)]

theorem ntop4_inj {s t : Bytes} (hs : s.length = 4) (ht : t.length = 4) (h : ntop4 s = ntop4 t) :
    s = t := by
  rw [ntop4, ntop4, List.take_of_length_le hs.le, List.take_of_length_le ht.le] at h
  exact intercalate_decimal_inj (hs.trans ht.symm) h

theorem colon_mem_wordsText (bytes : Bytes) (best : Option (ℕ × ℕ)) (ws rest : List ℕ) (v w : ℕ) :
    ':'.toUInt8 ∈ wordsText bytes best ws 0 (v :: w :: rest) := by
  have hcolon : ':'.toUInt8 ∈ cstr ":" := by decide
  cases best with
  | none => simp [wordsText, hcolon]
  | some r =>
      obtain ⟨base, len⟩ := r
      -- a run that starts at one of the two words brings its colon, and otherwise the
      -- second word has one before it
      by_cases hfirst : base = 0 ∧ 0 < len
      · simp [wordsText, hfirst, hcolon]
      · by_cases hsecond : base = 1 ∧ 0 < len
        · simp [wordsText, hsecond, hcolon]
        · have houtside : ¬ (base ≤ 1 ∧ 1 < base + len) := by omega
          simp only [wordsText, Option.any_some, houtside, decide_false, Bool.false_eq_true]
          split <;> simp [hcolon]

theorem words_cons_cons {bytes : Bytes} (h : 4 ≤ bytes.length) :
    ∃ v w rest, words bytes = v :: w :: rest := by
  match bytes, h with
  | a :: b :: c :: d :: bytes, _ => exact ⟨_, _, _, rfl⟩

theorem colon_mem_ntop6 {bytes : Bytes} (h : bytes.length = 16) : ':'.toUInt8 ∈ ntop6 bytes := by
  have hlength : 4 ≤ (bytes.take 16).length := by simp [h]
  obtain ⟨v, w, rest, hwords⟩ := words_cons_cons hlength
  rw [ntop6, hwords]
  exact List.mem_append_left _ (colon_mem_wordsText ..)

end Inet
