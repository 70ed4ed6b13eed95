import Mathlib.Data.List.Basic
import Mathlib.Data.List.TakeWhile

/-! Byte strings with the search and slicing operations of `std::string`.
Positions are natural numbers and `npos` is `none`. -/

/-- The contents of a `std::string`: a sequence of bytes, NUL included. -/
abbrev Bytes := List UInt8

instance Bytes.decidableMem (s : Bytes) (l : List Bytes) : Decidable (s ∈ l) := inferInstance

namespace StdString

/-- The bytes of a string literal. -/
def cstr (s : String) : Bytes := s.toUTF8.data.toList

/-- A condition on every element of a list, by evaluation. -/
theorem forall_mem_of_all {α : Type} {l : List α} {p : α → Prop} [DecidablePred p]
    (h : l.all (fun a => decide (p a)) = true) : ∀ a ∈ l, p a := by
  simpa using h

@[simp] theorem cstr_inj {s t : String} : cstr s = cstr t ↔ s = t := by
  constructor
  · intro h
    have hdata : s.toUTF8.data = t.toUTF8.data := Array.toList_inj.mp h
    exact String.toByteArray_inj.mp (ByteArray.ext hdata)
  · exact congrArg cstr

/-- `s.c_str()` read by a function that stops at the first NUL. -/
def untilNul (s : Bytes) : Bytes := s.takeWhile (· ≠ 0)

/-- `s.find_first_of(set, pos)`. -/
def findFirstOf (s set : Bytes) (pos : ℕ) : Option ℕ :=
  ((s.drop pos).findIdx? (set.contains ·)).map (pos + ·)

/-- `s.find(c, pos)` for a single character. -/
def find (s : Bytes) (c : UInt8) (pos : ℕ) : Option ℕ := findFirstOf s [c] pos

/-- `s.find(pattern)` for a non-empty pattern. -/
def findSub (pattern : Bytes) : Bytes → Option ℕ
  | [] => none
  | c :: s =>
      if pattern.isPrefixOf (c :: s) then some 0 else (findSub pattern s).map (· + 1)

/-- `s.find_last_of(c, pos)`: the last occurrence at an index of at most `pos`. -/
def findLastOf (s : Bytes) (c : UInt8) (pos : ℕ) : Option ℕ :=
  ((s.take (pos + 1)).reverse.findIdx? (· == c)).map
    fun i => (s.take (pos + 1)).length - 1 - i

/-- `s.substr(pos, n)`, for `pos` inside the string; no `n` means up to its end. -/
def substr (s : Bytes) (pos : ℕ) (n : Option ℕ) : Bytes :=
  match n with
  | none => s.drop pos
  | some n => (s.drop pos).take n

/-- Lower-case one ASCII character; every other byte is kept. -/
def lowerChar (c : UInt8) : UInt8 :=
  if 'A'.toUInt8 ≤ c ∧ c ≤ 'Z'.toUInt8 then c - 'A'.toUInt8 + 'a'.toUInt8 else c

/-- `std::isdigit` in the C locale. -/
def isdigit (c : UInt8) : Bool := '0'.toUInt8 ≤ c && c ≤ '9'.toUInt8

/-- `std::isupper` in the C locale. -/
def isupper (c : UInt8) : Bool := 'A'.toUInt8 ≤ c && c ≤ 'Z'.toUInt8

/-- `std::isalnum` in the C locale. -/
def isalnum (c : UInt8) : Bool :=
  isdigit c || isupper c || ('a'.toUInt8 ≤ c && c ≤ 'z'.toUInt8)

/-- `std::isxdigit` in the C locale. -/
def isxdigit (c : UInt8) : Bool :=
  isdigit c || ('A'.toUInt8 ≤ c && c ≤ 'F'.toUInt8) || ('a'.toUInt8 ≤ c && c ≤ 'f'.toUInt8)

/-- What holds of each of the 256 bytes holds of every byte. -/
theorem forall_byte {p : UInt8 → Bool}
    (h : (List.range 256).all (fun n => p (UInt8.ofNat n)) = true) (c : UInt8) : p c = true := by
  have hc := List.all_eq_true.mp h c.toNat (List.mem_range.mpr c.toNat_lt)
  rwa [UInt8.ofNat_toNat] at hc

/-! ## Cutting a string at a character -/

theorem findIdx?_eq_none_iff_takeWhile {α : Type*} (p : α → Bool) (s : List α) :
    s.findIdx? p = none ↔ s.takeWhile (fun x => !p x) = s := by
  simp [List.findIdx?_eq_none_iff, List.takeWhile_eq_self_iff]

theorem take_findIdx? {α : Type*} (p : α → Bool) (s : List α) (i : ℕ)
    (h : s.findIdx? p = some i) : s.take i = s.takeWhile (fun x => !p x) := by
  rw [List.takeWhile_eq_take_findIdx_not]
  simp only [Bool.not_not, (List.findIdx?_eq_some_iff_findIdx_eq.mp h).2]

theorem takeWhile_append_delimiter {α : Type*} (p : α → Bool) (s rest : List α)
    (hs : ∀ c ∈ s, p c = true) (hrest : ∀ c ∈ rest.head?, p c = false) :
    (s ++ rest).takeWhile p = s := by
  rw [List.takeWhile_append_of_pos hs]
  cases rest with
  | nil => simp
  | cons c rest => simp [hrest c rfl]

/-- The first occurrence of a pattern whose first character does not occur before it. -/
theorem findSub_append {pattern s : Bytes} {c : UInt8} (rest : Bytes)
    (hc : pattern.head? = some c) (hs : c ∉ s) :
    findSub pattern (s ++ (pattern ++ rest)) = some s.length := by
  have hpattern : pattern ≠ [] := by
    rintro rfl
    simp at hc
  obtain ⟨d, pattern, rfl⟩ := List.exists_cons_of_ne_nil hpattern
  obtain rfl : d = c := by simpa using hc
  induction s with
  | nil => simp [findSub]
  | cons x s ih =>
      simp only [List.mem_cons, not_or] at hs
      have hno : (d :: pattern).isPrefixOf (x :: (s ++ (d :: pattern ++ rest))) = false := by
        simp [List.isPrefixOf, hs.1]
      simp only [List.cons_append, findSub] at hno ih ⊢
      simp [hno, ih hs.2]

/-- A pattern that was found stands where it was found. -/
theorem findSub_isPrefix {pattern s : Bytes} {i : ℕ} (h : findSub pattern s = some i) :
    pattern <+: s.drop i := by
  induction s generalizing i with
  | nil => simp [findSub] at h
  | cons c s ih =>
      simp only [findSub] at h
      split at h
      · rename_i hfound
        cases h
        exact List.isPrefixOf_iff_prefix.mp hfound
      · obtain ⟨j, hj, rfl⟩ := Option.map_eq_some_iff.mp h
        exact ih hj

theorem takeWhile_append_of_head {α : Type*} {p : α → Bool} (s : List α) {rest : List α}
    (hrest : ∀ c ∈ rest.head?, p c = false) : (s ++ rest).takeWhile p = s.takeWhile p := by
  induction s with
  | nil => exact takeWhile_append_delimiter p [] rest (by simp) hrest
  | cons c s ih => rw [List.cons_append, List.takeWhile_cons, List.takeWhile_cons, ih]

/-- A pattern does not reach into text that starts with a character foreign to it. -/
theorem isPrefix_append_iff_of_head {pattern s rest : Bytes}
    (hrest : ∀ c ∈ rest.head?, c ∉ pattern) : pattern <+: s ++ rest ↔ pattern <+: s := by
  refine ⟨fun h => ?_, fun h => h.trans (List.prefix_append s rest)⟩
  rcases List.prefix_or_prefix_of_prefix h (List.prefix_append s rest) with hs | ⟨t, ht⟩
  · exact hs
  · cases t with
    | nil => exact (List.append_nil s ▸ ht) ▸ List.prefix_rfl
    | cons c t =>
        obtain ⟨u, hu⟩ := h
        rw [← ht, List.append_assoc, List.append_cancel_left_eq] at hu
        exact absurd (ht ▸ by simp : c ∈ pattern) (hrest c (by simp [← hu]))

theorem findSub_append_of_head {pattern : Bytes} (s : Bytes) {rest : Bytes}
    (hrest : ∀ c ∈ rest.head?, c ∉ pattern) :
    findSub pattern (s ++ rest) =
      (findSub pattern s).or ((findSub pattern rest).map (· + s.length)) := by
  induction s with
  | nil => simp [findSub]
  | cons c s ih =>
      have hfound : pattern.isPrefixOf (c :: (s ++ rest)) = pattern.isPrefixOf (c :: s) := by
        rw [Bool.eq_iff_iff, List.isPrefixOf_iff_prefix, List.isPrefixOf_iff_prefix]
        exact isPrefix_append_iff_of_head (s := c :: s) hrest
      rw [List.cons_append, findSub, hfound, ih, findSub]
      split
      · rfl
      · cases findSub pattern s <;> cases findSub pattern rest <;> simp [Nat.add_assoc]

theorem findFirstOf_getElem? {s set : Bytes} {pos i : ℕ} (h : findFirstOf s set pos = some i) :
    ∃ c ∈ set, s[i]? = some c := by
  obtain ⟨j, hj, rfl⟩ := Option.map_eq_some_iff.mp h
  obtain ⟨hlt, hmem, -⟩ := List.findIdx?_eq_some_iff_getElem.mp hj
  exact ⟨_, by simpa using hmem, List.getElem?_eq_getElem _⟩

theorem findLastOf_eq_some_iff {s : Bytes} {c : UInt8} {pos i : ℕ} :
    findLastOf s c pos = some i ↔
      i ≤ pos ∧ s[i]? = some c ∧ ∀ j ≤ pos, s[j]? = some c → j ≤ i := by
  have hget (j : ℕ) (hj : j ≤ pos) : (s.take (pos + 1))[j]? = s[j]? :=
    List.getElem?_take_of_lt (by omega)
  generalize ht : s.take (pos + 1) = t at hget
  have hlen : t.length ≤ pos + 1 := by rw [← ht]; exact List.length_take_le ..
  rw [findLastOf, ht, Option.map_eq_some_iff]
  constructor
  · rintro ⟨k, hk, rfl⟩
    obtain ⟨hlt, hfound, hbefore⟩ := List.findIdx?_eq_some_iff_getElem.mp hk
    rw [List.length_reverse] at hlt
    rw [List.getElem_reverse, beq_iff_eq] at hfound
    refine ⟨by omega, ?_, ?_⟩
    · rw [← hget _ (by omega), List.getElem?_eq_getElem (by omega), hfound]
    · intro j hj hc
      by_contra hlater
      rw [← hget j hj] at hc
      obtain ⟨hjt, hc⟩ := List.getElem?_eq_some_iff.mp hc
      have := hbefore (t.length - 1 - j) (by omega)
      rw [List.getElem_reverse] at this
      simp [show t.length - 1 - (t.length - 1 - j) = j by omega, hc] at this
  · rintro ⟨hi, hc, hlast⟩
    rw [← hget i hi] at hc
    obtain ⟨hit, hc⟩ := List.getElem?_eq_some_iff.mp hc
    refine ⟨t.length - 1 - i, ?_, by omega⟩
    rw [List.findIdx?_eq_some_iff_getElem]
    refine ⟨by rw [List.length_reverse]; omega, ?_, ?_⟩
    · rw [List.getElem_reverse]
      simp [show t.length - 1 - (t.length - 1 - i) = i by omega, hc]
    · intro j hj
      rw [List.getElem_reverse, beq_iff_eq]
      intro hfound
      have := hlast (t.length - 1 - j) (by omega)
        (by rw [← hget _ (by omega), List.getElem?_eq_getElem (by omega), hfound])
      omega

theorem findLastOf_eq_none_iff {s : Bytes} {c : UInt8} {pos : ℕ} :
    findLastOf s c pos = none ↔ ∀ j ≤ pos, s[j]? ≠ some c := by
  rw [findLastOf, Option.map_eq_none_iff, List.findIdx?_eq_none_iff]
  constructor
  · intro h j hj hc
    have hmem : c ∈ s.take (pos + 1) :=
      List.mem_of_getElem? (by rw [List.getElem?_take_of_lt (Nat.lt_succ_of_le hj), hc])
    simpa using h c (List.mem_reverse.mpr hmem)
  · intro h x hx
    rw [beq_eq_false_iff_ne]
    rintro rfl
    obtain ⟨j, hj⟩ := List.mem_iff_getElem?.mp (List.mem_reverse.mp hx)
    rw [List.getElem?_take] at hj
    split_ifs at hj with hlt
    exact h j (Nat.le_of_lt_succ hlt) hj

/-- The places of a character. -/
def places (s : Bytes) (c : UInt8) : List ℕ :=
  (List.range s.length).filter fun i => s[i]? == some c

theorem mem_places {s : Bytes} {c : UInt8} {i : ℕ} : i ∈ places s c ↔ s[i]? = some c := by
  rw [places, List.mem_filter, List.mem_range, beq_iff_eq, and_iff_right_iff_imp]
  intro h
  exact (List.getElem?_eq_some_iff.mp h).1

theorem pairwise_places (s : Bytes) (c : UInt8) : (places s c).Pairwise (· < ·) :=
  List.pairwise_lt_range.filter _

theorem findLastOf_eq_find? (s : Bytes) (c : UInt8) (pos : ℕ) :
    findLastOf s c pos = (places s c).reverse.find? (· ≤ pos) := by
  cases hfind : (places s c).reverse.find? (· ≤ pos) with
  | none =>
      rw [findLastOf_eq_none_iff]
      intro j hj hc
      simpa [hj] using List.find?_eq_none.mp hfind j (List.mem_reverse.mpr (mem_places.mpr hc))
  | some i =>
      obtain ⟨hi, later, earlier, hplaces, hlater⟩ := List.find?_eq_some_iff_append.mp hfind
      have hmem (j : ℕ) : s[j]? = some c ↔ j ∈ later ∨ j = i ∨ j ∈ earlier := by
        rw [← mem_places, ← List.mem_reverse, hplaces, List.mem_append, List.mem_cons]
      have hsorted := List.pairwise_reverse.mpr (pairwise_places s c)
      rw [hplaces, List.pairwise_append, List.pairwise_cons] at hsorted
      rw [findLastOf_eq_some_iff]
      refine ⟨of_decide_eq_true hi, (hmem i).mpr (.inr (.inl rfl)), ?_⟩
      intro j hj hc
      rcases (hmem j).mp hc with hj' | rfl | hj'
      · simpa [hj] using hlater j hj'
      · exact Nat.le_refl _
      · exact (hsorted.2.1.1 j hj').le

/-- A suffix without the character `c` lies after the last `c`. -/
theorem suffix_append_cons_iff {α : Type*} {s t u : List α} {c : α} (hc : c ∉ s) :
    s <:+ t ++ c :: u ↔ s <:+ u := by
  constructor
  · intro h
    rcases List.suffix_or_suffix_of_suffix h (List.suffix_append t (c :: u)) with hs | hs
    · rcases List.suffix_cons_iff.mp hs with rfl | hs
      · simp at hc
      · exact hs
    · exact absurd (hs.subset (by simp)) hc
  · intro h
    exact h.trans ((List.suffix_cons c u).trans (List.suffix_append t (c :: u)))

/-- Two strings are the same from `i` on if their next `n` bytes are and the rest is. -/
theorem drop_eq_of_substr {s t : Bytes} {i n : ℕ} (h : substr s i (some n) = substr t i (some n))
    (hrest : s.drop (i + n) = t.drop (i + n)) : s.drop i = t.drop i := by
  rw [← List.take_append_drop n (s.drop i), ← List.take_append_drop n (t.drop i),
    List.drop_drop, List.drop_drop, hrest]
  exact congrArg (· ++ _) h

theorem untilNul_eq_self_iff {s : Bytes} : untilNul s = s ↔ 0 ∉ s := by
  rw [untilNul, List.takeWhile_eq_self_iff]
  constructor
  · intro h hmem
    simpa using h 0 hmem
  · intro h c hc
    exact decide_eq_true fun heq => h (heq ▸ hc)

theorem length_untilNul_le (s : Bytes) : (untilNul s).length ≤ s.length :=
  (List.takeWhile_sublist _).length_le

theorem ext_getD {s t : Bytes} {n : ℕ} (hs : s.length = n) (ht : t.length = n)
    (h : ∀ i < n, s.getD i 0 = t.getD i 0) : s = t := by
  apply List.ext_getElem (hs.trans ht.symm)
  intro i hi hi'
  simpa [List.getElem?_eq_getElem hi, List.getElem?_eq_getElem hi'] using h i (hs ▸ hi)

theorem drop_eq_getD_cons {s : Bytes} {i : ℕ} (h : i < s.length) :
    s.drop i = s.getD i 0 :: s.drop (i + 1) := by
  rw [List.drop_eq_getElem_cons h, List.getD_eq_getElem?_getD, List.getElem?_eq_getElem h]
  rfl

theorem getD_of_drop {s rest : Bytes} {i : ℕ} {c : UInt8} (h : s.drop i = c :: rest) :
    i < s.length ∧ s.getD i 0 = c := by
  have hlen := congrArg List.length h
  have hget := congrArg (·[0]?) h
  simp only [List.length_drop, List.length_cons] at hlen
  simp only [List.getElem?_drop, Nat.add_zero, List.getElem?_cons_zero] at hget
  exact ⟨by omega, by simp [hget]⟩

/-! ## Strings that agree up to a position -/

/-- The first `n` bytes of both strings are the same. -/
def AgreeUpTo (n : ℕ) (s t : Bytes) : Prop := s.take n = t.take n

instance (n : ℕ) (s t : Bytes) : Decidable (AgreeUpTo n s t) :=
  inferInstanceAs (Decidable (s.take n = t.take n))

namespace AgreeUpTo

variable {n : ℕ} {s t : Bytes}

theorem mono {m : ℕ} (h : AgreeUpTo n s t) (hm : m ≤ n) : AgreeUpTo m s t := by
  have htake := congrArg (List.take m) h
  rwa [List.take_take, List.take_take, min_eq_left hm] at htake

theorem le_length (h : AgreeUpTo n s t) (hs : n ≤ s.length) : n ≤ t.length := by
  have hlen := congrArg List.length h
  rw [List.length_take, List.length_take] at hlen
  omega

theorem getD (h : AgreeUpTo n s t) {i : ℕ} (hi : i < n) : s.getD i 0 = t.getD i 0 := by
  have hget : (s.take n)[i]? = (t.take n)[i]? := congrArg (·[i]?) h
  rw [List.getElem?_take_of_lt hi, List.getElem?_take_of_lt hi] at hget
  simp only [List.getD_eq_getElem?_getD, hget]

theorem of_getD (hs : n ≤ s.length) (ht : n ≤ t.length)
    (h : ∀ i < n, s.getD i 0 = t.getD i 0) : AgreeUpTo n s t := by
  refine ext_getD (List.length_take_of_le hs) (List.length_take_of_le ht) fun i hi => ?_
  simpa [List.getElem?_take_of_lt hi] using h i hi

theorem substr (h : AgreeUpTo n s t) {i k : ℕ} (hi : i + k ≤ n) :
    substr s i (some k) = substr t i (some k) := by
  have hdrop := congrArg (List.drop i) (h.mono hi)
  rwa [List.drop_take, List.drop_take, Nat.add_sub_cancel_left] at hdrop

theorem drop (h : AgreeUpTo n s t) (i : ℕ) : AgreeUpTo (n - i) (s.drop i) (t.drop i) := by
  have hdrop := congrArg (List.drop i) h
  rwa [List.drop_take, List.drop_take] at hdrop

end AgreeUpTo

end StdString
