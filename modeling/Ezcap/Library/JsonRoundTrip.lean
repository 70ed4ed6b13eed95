import Ezcap.Library.JsonReference
import Ezcap.Library.JsonText
import Mathlib.Data.Nat.Digits.Lemmas
import Mathlib.Tactic.IntervalCases

/-! The reference implementation reads back what it writes. Every reader is shown to stop right
after the text of a value, whatever comes then. -/

namespace JsonReference

open StdString Format

/-! ## Strings -/

theorem string_control : ∀ c : UInt8, c < 0x20 → ∀ rest : Bytes,
    string 0 (quoteChar c ++ rest) = (string 0 rest).map fun r => (c :: r.1, r.2) := by
  intro c hc rest
  obtain ⟨n, hn, rfl⟩ : ∃ n < 32, c = UInt8.ofNat n :=
    ⟨c.toNat, UInt8.lt_iff_toNat_lt.mp hc, by simp⟩
  interval_cases n <;> rfl

theorem escaped_mem : ∀ e ∈ escapes.filter fun e => e.1 != '/'.toUInt8,
    e.2 = 0x22 ∨ e.2 = 0x5c ∨ e.2 < 0x20 :=
  forall_mem_of_all (by decide)

theorem quoteChar_plain {c : UInt8} (hc : ¬ c < 0x20) (hquote : c ≠ 0x22) (hback : c ≠ 0x5c) :
    quoteChar c = [c] := by
  have hmiss : (escapes.filter fun e => e.1 != '/'.toUInt8).find? (fun e => e.2 == c) = none := by
    rw [List.find?_eq_none]
    intro e he heq
    rw [beq_iff_eq] at heq
    subst heq
    rcases escaped_mem e he with h | h | h
    · exact hquote h
    · exact hback h
    · exact hc h
  rw [quoteChar, hmiss]
  simp [hc]

theorem string_quoteChar (c : UInt8) (rest : Bytes) :
    string 0 (quoteChar c ++ rest) = (string 0 rest).map fun r => (c :: r.1, r.2) := by
  by_cases hc : c < 0x20
  · exact string_control c hc rest
  · by_cases hquote : c = 0x22
    · subst hquote
      rfl
    · by_cases hback : c = 0x5c
      · subst hback
        rfl
      · rw [quoteChar_plain hc hquote hback, List.singleton_append, string, if_neg hquote,
          if_neg hc, if_neg hback]

theorem string_quote (s rest : Bytes) :
    string 0 (s.flatMap quoteChar ++ 0x22 :: rest) = some (s, rest) := by
  induction s with
  | nil => rfl
  | cons c s ih =>
      rw [List.flatMap_cons, List.append_assoc, string_quoteChar, ih]
      rfl

/-! ## Numbers -/

/-- What may follow a value: nothing, or the end of an element or a member. -/
def Ends (rest : Bytes) : Prop := ∀ c ∈ rest.head?, c = 0x2c ∨ c = 0x5d ∨ c = 0x7d

theorem isDigit_digit : ∀ d < 10, isDigit (digit d) = true := by decide

theorem toNat_digit : ∀ d < 10, (digit d).toNat - '0'.toNat = d := by decide

theorem isDigit_of_mem_fixed {w n : ℕ} {c : UInt8} (h : c ∈ fixed 10 w n) :
    isDigit c = true := by
  obtain ⟨d, hd, rfl⟩ := mem_fixed (by decide) h
  exact isDigit_digit d hd

theorem natOf_fixed (w n : ℕ) : natOf (fixed 10 w n) = n % 10 ^ w := by
  induction w generalizing n with
  | zero => simp [fixed, natOf, Nat.mod_one]
  | succ w ih =>
      have hlow := toNat_digit (n % 10) (Nat.mod_lt n (by decide))
      have hhigh := ih (n / 10)
      rw [natOf] at hhigh
      rw [natOf, fixed, List.foldl_append, hhigh, List.foldl_cons, List.foldl_nil, hlow,
        pow_succ', Nat.mod_mul]
      omega

/-- A scanner for digits takes all of a run of them and nothing else. -/
theorem span_fixed (w n : ℕ) {rest : Bytes} (hrest : ∀ c ∈ rest.head?, isDigit c = false) :
    (fixed 10 w n ++ rest).takeWhile isDigit = fixed 10 w n ∧
      (fixed 10 w n ++ rest).dropWhile isDigit = rest := by
  have hdigits : ∀ c ∈ fixed 10 w n, isDigit c = true := fun c hc => isDigit_of_mem_fixed hc
  rw [List.takeWhile_append_of_pos hdigits, List.dropWhile_append_of_pos hdigits]
  cases rest with
  | nil => simp
  | cons c rest => simp [hrest c (by simp)]

theorem natOf_decimal (n : ℕ) : natOf (decimal n) = n := by
  rw [decimal, natOf_fixed, Nat.mod_eq_of_lt (lt_pow_width (by decide) n)]

theorem head?_fixed (w n : ℕ) :
    (fixed 10 (w + 1) n).head? = some (digit (n / 10 ^ w % 10)) := by
  induction w generalizing n with
  | zero => simp [fixed]
  | succ w ih =>
      rw [fixed, List.head?_append, ih, Nat.div_div_eq_div_mul, pow_succ']
      rfl

theorem decimal_ne_nil (n : ℕ) : decimal n ≠ [] := by
  rw [← List.length_pos_iff, decimal, length_fixed, width]
  omega

theorem digit_zero_iff : ∀ d < 10, digit d = '0'.toUInt8 → d = 0 := by decide

/-- A number of several digits does not start with a zero. -/
theorem decimal_leading (n : ℕ) :
    ¬ ((decimal n).head? = some '0'.toUInt8 ∧ (decimal n).length > 1) := by
  rintro ⟨hhead, hlen⟩
  rw [decimal, length_fixed] at hlen
  obtain ⟨w, hw⟩ : ∃ w, width 10 n = w + 1 := ⟨width 10 n - 1, by omega⟩
  rw [decimal, hw, head?_fixed, Option.some.injEq] at hhead
  have hlength : w < (Nat.digits 10 n).length := by
    rw [width] at hw hlen
    omega
  have hle : 10 ^ w ≤ n := (Nat.lt_digits_length_iff (by decide) n).mp hlength
  have hlt : n < 10 ^ w * 10 := by
    rw [← pow_succ, ← hw]
    exact lt_pow_width (by decide) n
  have hpos : 0 < n / 10 ^ w := Nat.div_pos hle (Nat.pow_pos (by decide))
  have htop : n / 10 ^ w < 10 := Nat.div_lt_of_lt_mul hlt
  have hzero := digit_zero_iff _ (Nat.mod_lt _ (by decide)) hhead
  rw [Nat.mod_eq_of_lt htop] at hzero
  omega

theorem Ends.not_digit {rest : Bytes} (h : Ends rest) : ∀ c ∈ rest.head?, isDigit c = false := by
  intro c hc
  rcases h c hc with rfl | rfl | rfl <;> rfl

theorem scale_ends (q : ℚ) {rest : Bytes} (h : Ends rest) : scale q rest = some (none, rest) := by
  cases rest with
  | nil => rfl
  | cons c rest =>
      rcases h c rfl with rfl | rfl | rfl <;> rfl

theorem number_decimal (negative : Bool) (n : ℕ) {rest : Bytes} (h : Ends rest) :
    number negative (decimal n ++ rest) =
      some (if negative then if n ≤ 2 ^ 63 then .integer (-n) else .float (-n)
        else if n < 2 ^ 64 then .unsigned n else .float n, rest) := by
  obtain ⟨htake, hdrop⟩ := span_fixed (width 10 n) n h.not_digit
  rw [← decimal] at htake hdrop
  rw [number, htake, hdrop, if_neg (not_or.mpr ⟨decimal_ne_nil n, decimal_leading n⟩)]
  simp only [scale_ends _ h, natOf_decimal, Option.map_some]

theorem scale_fraction (q : ℚ) (k m : ℕ) {rest : Bytes} (h : Ends rest) :
    scale q (0x2e :: (fixed 10 (k + 1) m ++ rest)) =
      some (some (q + ((m % 10 ^ (k + 1) : ℕ) : ℚ) / 10 ^ (k + 1)), rest) := by
  obtain ⟨htake, hdrop⟩ := span_fixed (k + 1) m h.not_digit
  have hne : fixed 10 (k + 1) m ≠ [] := by
    rw [← List.length_pos_iff, length_fixed]
    omega
  simp only [scale, htake, hdrop, if_neg hne, natOf_fixed, length_fixed, Option.bind_some]
  cases rest with
  | nil => rfl
  | cons c rest =>
      rcases h c rfl with rfl | rfl | rfl <;> rfl

theorem number_fraction (negative : Bool) (n k m : ℕ) {rest : Bytes} (h : Ends rest) :
    number negative (decimal n ++ 0x2e :: (fixed 10 (k + 1) m ++ rest)) =
      some (.float
        (if negative then -(n + ((m % 10 ^ (k + 1) : ℕ) : ℚ) / 10 ^ (k + 1))
        else n + ((m % 10 ^ (k + 1) : ℕ) : ℚ) / 10 ^ (k + 1)), rest) := by
  have hdot : ∀ c ∈ (0x2e :: (fixed 10 (k + 1) m ++ rest)).head?, isDigit c = false := by
    rintro _ ⟨⟩
    rfl
  obtain ⟨htake, hdrop⟩ := span_fixed (width 10 n) n hdot
  rw [← decimal] at htake hdrop
  rw [number, htake, hdrop, if_neg (not_or.mpr ⟨decimal_ne_nil n, decimal_leading n⟩)]
  simp only [natOf_decimal, scale_fraction _ _ _ h, Option.map_some]

/-- The places that are written of a float. -/
def places (q : ℚ) : ℕ :=
  ((List.range 18).find? fun k => (q * 10 ^ k).den == 1 && k != 0).getD 17

/-- The float that is read back: its digits up to the last place that is written. -/
def round (q : ℚ) : ℚ :=
  let n := (q * 10 ^ places q).num.natAbs
  let value : ℚ := (n / 10 ^ places q : ℕ) + ((n % 10 ^ places q : ℕ) : ℚ) / 10 ^ places q
  if q < 0 then -value else value

theorem exists_places (q : ℚ) : ∃ k, places q = k + 1 := by
  have hne : places q ≠ 0 := by
    rw [places]
    cases hfind : (List.range 18).find? fun k => (q * 10 ^ k).den == 1 && k != 0 with
    | none => decide
    | some k =>
        have hk := List.find?_some hfind
        simp only [Bool.and_eq_true, bne_iff_ne] at hk
        exact hk.2
  exact ⟨places q - 1, by omega⟩

theorem decimalText_eq (q : ℚ) (rest : Bytes) :
    decimalText q ++ rest =
      (if q < 0 then [0x2d] else []) ++
        (decimal ((q * 10 ^ places q).num.natAbs / 10 ^ places q) ++ 0x2e ::
          (fixed 10 (places q) (q * 10 ^ places q).num.natAbs ++ rest)) := by
  have hminus : cstr "-" = [0x2d] := by decide
  have hdot : cstr "." = [0x2e] := by decide
  rw [decimalText, hminus, hdot, ← places]
  simp [List.append_assoc]

/-! ## Single values -/

theorem skipSpace_cons {c : UInt8}
    (hc : (c == 0x20 || c == 0x09 || c == 0x0a || c == 0x0d) = false) (rest : Bytes) :
    skipSpace (c :: rest) = c :: rest := by
  rw [skipSpace, List.dropWhile_cons_of_neg (by simpa using hc)]

theorem digit_cases {c : UInt8} (h : isDigit c = true) :
    (c == 0x20 || c == 0x09 || c == 0x0a || c == 0x0d) = false ∧ c ≠ 0x7b ∧ c ≠ 0x5b ∧
      c ≠ 0x22 ∧ c ≠ 0x2d ∧ c ≠ 0x5d := by
  have hne (d : UInt8) (hd : isDigit d = false) : c ≠ d := by
    rintro rfl
    rw [h] at hd
    cases hd
  refine ⟨?_, hne _ rfl, hne _ rfl, hne _ rfl, hne _ rfl, hne _ rfl⟩
  simp [hne 0x20 rfl, hne 0x09 rfl, hne 0x0a rfl, hne 0x0d rfl]

theorem exists_decimal_cons (n : ℕ) :
    ∃ c rest, decimal n = c :: rest ∧ isDigit c = true := by
  cases hn : decimal n with
  | nil => exact absurd hn (decimal_ne_nil n)
  | cons c rest =>
      have hmem : c ∈ fixed 10 (width 10 n) n := by
        rw [← decimal, hn]
        simp
      exact ⟨c, rest, rfl, isDigit_of_mem_fixed hmem⟩

variable {fuel : ℕ}

theorem read_digits (n : ℕ) (rest : Bytes) :
    read (fuel + 1) .value (decimal n ++ rest) =
      number false (decimal n ++ rest) := by
  obtain ⟨c, digits, hn, hc⟩ := exists_decimal_cons n
  obtain ⟨hspace, hbrace, hbracket, hquote, hminus, -⟩ := digit_cases hc
  rw [hn, List.cons_append, read, skipSpace_cons hspace]
  simp only [if_neg hbrace, if_neg hbracket, if_neg hquote, if_neg hminus, hc, if_true]

theorem read_minus (s : Bytes) : read (fuel + 1) .value (0x2d :: s) = number true s := by
  rw [read, skipSpace_cons (by decide)]
  rfl

theorem read_quote (s rest : Bytes) :
    read (fuel + 1) .value (quote s ++ rest) = some (.string s, rest) := by
  have hquote : quote s ++ rest = 0x22 :: (s.flatMap quoteChar ++ 0x22 :: rest) := by
    simp [quote]
  rw [hquote, read, skipSpace_cons (by decide)]
  simp only [show ¬ ((0x22 : UInt8) = 0x7b) by decide, show ¬ ((0x22 : UInt8) = 0x5b) by decide,
    if_false, if_true, string_quote, Option.map_some]

theorem read_float (q : ℚ) {rest : Bytes} (h : Ends rest) :
    read (fuel + 1) .value (decimalText q ++ rest) = some (.float (round q), rest) := by
  obtain ⟨k, hk⟩ := exists_places q
  rw [decimalText_eq, round]
  by_cases hq : q < 0
  · rw [if_pos hq, List.singleton_append, read_minus, hk, number_fraction _ _ _ _ h]
    simp [hq]
  · rw [if_neg hq, List.nil_append, read_digits, hk, number_fraction _ _ _ _ h]
    simp [hq]

theorem decimalPadded_one (i : ℤ) :
    decimalPadded 1 i =
      if 0 ≤ i then decimal i.natAbs else 0x2d :: decimal i.natAbs := by
  have hwidth : 1 ≤ width 10 i.natAbs := le_max_left ..
  rw [decimalPadded, Nat.max_eq_right hwidth, Nat.max_eq_right (Nat.zero_le _)]
  rfl

theorem read_integer {i : ℤ} (hi : -2 ^ 63 ≤ i ∧ i < 2 ^ 63) {rest : Bytes} (h : Ends rest) :
    read (fuel + 1) .value (decimalPadded 1 i ++ rest) =
      some ((Json.integer i).reread round, rest) := by
  rw [decimalPadded_one, Json.reread]
  by_cases hneg : i < 0
  · have habs : -(i.natAbs : ℤ) = i := by omega
    rw [if_neg (by omega), if_pos hneg, List.cons_append, read_minus, number_decimal _ _ h,
      if_pos rfl, if_pos (by omega), habs]
  · have habs : i.natAbs = i.toNat := by omega
    rw [if_pos (by omega), if_neg hneg, read_digits, number_decimal _ _ h, if_neg (by decide),
      if_pos (by omega), habs]

theorem read_unsigned {n : ℕ} (hn : n < 2 ^ 64) {rest : Bytes} (h : Ends rest) :
    read (fuel + 1) .value (decimal n ++ rest) = some (.unsigned n, rest) := by
  rw [read_digits, number_decimal _ _ h, if_neg (by decide), if_pos hn]

/-! ## Arrays and objects -/

/-- The text of a value starts with neither space nor the end of an array. -/
theorem exists_render_cons (doc : Json) : ∃ c rest, render doc = c :: rest ∧
    (c == 0x20 || c == 0x09 || c == 0x0a || c == 0x0d) = false ∧ c ≠ 0x5d := by
  have hdecimal (n : ℕ) (text : Bytes) : ∃ c rest, decimal n ++ text = c :: rest ∧
      (c == 0x20 || c == 0x09 || c == 0x0a || c == 0x0d) = false ∧ c ≠ 0x5d := by
    obtain ⟨c, rest, hn, hc⟩ := exists_decimal_cons n
    obtain ⟨hspace, -, -, -, -, hend⟩ := digit_cases hc
    exact ⟨c, rest ++ text, by rw [hn, List.cons_append], hspace, hend⟩
  cases doc with
  | null => exact ⟨_, _, rfl, by decide, by decide⟩
  | bool b => cases b <;> exact ⟨_, _, rfl, by decide, by decide⟩
  | integer i =>
      rw [render_integer, decimalPadded_one]
      split
      · simpa using hdecimal i.natAbs []
      · exact ⟨_, _, rfl, by decide, by decide⟩
  | unsigned n =>
      rw [render_unsigned]
      simpa using hdecimal n []
  | float q =>
      rw [render_float, ← List.append_nil (decimalText q), decimalText_eq]
      split
      · exact ⟨_, _, rfl, by decide, by decide⟩
      · exact hdecimal _ _
  | string s => exact ⟨_, _, rfl, by decide, by decide⟩
  | array xs => exact ⟨_, _, rfl, by decide, by decide⟩
  | object fields => exact ⟨_, _, rfl, by decide, by decide⟩

/-- The value is read back from its text, with fuel for each byte. -/
def ReadsBack (doc : Json) : Prop :=
  ∀ (fuel : ℕ) (rest : Bytes), (render doc).length ≤ fuel → Ends rest →
    read fuel .value (render doc ++ rest) = some (doc.reread round, rest)

theorem ends_comma (rest : Bytes) : Ends (0x2c :: rest) := by
  rintro _ ⟨⟩
  exact .inl rfl

theorem ends_bracket (rest : Bytes) : Ends (0x5d :: rest) := by
  rintro _ ⟨⟩
  exact .inr (.inl rfl)

theorem ends_brace (rest : Bytes) : Ends (0x7d :: rest) := by
  rintro _ ⟨⟩
  exact .inr (.inr rfl)

theorem read_elements {xs : List Json} (hxs : xs ≠ []) (h : ∀ x ∈ xs, ReadsBack x)
    (done : List Json) (rest : Bytes) (hfuel : (renderList xs).length < fuel) :
    read fuel (.elements done) (renderList xs ++ 0x5d :: rest) =
      some (.array (done ++ xs.map (Json.reread round)), rest) := by
  induction xs generalizing fuel done with
  | nil => exact absurd rfl hxs
  | cons x xs ih =>
      obtain ⟨fuel, rfl⟩ : ∃ n, fuel = n + 1 := ⟨fuel - 1, by omega⟩
      cases xs with
      | nil =>
          rw [renderList] at hfuel ⊢
          rw [read, h x (by simp) fuel _ (by omega) (ends_bracket rest), Option.bind_some,
            skipSpace_cons (by decide)]
          simp
      | cons y ys =>
          rw [renderList] at hfuel ⊢
          simp only [List.length_append, List.length_cons, List.length_nil] at hfuel
          rw [read, List.append_assoc, List.append_assoc, List.singleton_append,
            h x (by simp) fuel _ (by omega) (ends_comma _),
            Option.bind_some, skipSpace_cons (by decide)]
          simp only
          rw [ih (by simp) (fun z hz => h z (by simp [hz])) _ (by omega)]
          simp

theorem assign_last {done : List (Bytes × Json)} {key : Bytes} (value : Json)
    (h : ∀ f ∈ done, f.1 < key) : assign key value done = done ++ [(key, value)] := by
  induction done with
  | nil => rfl
  | cons f done ih =>
      have hf := h f (by simp)
      rw [assign, if_neg (Std.ne_of_lt hf), if_neg (List.lt_asymm hf),
        ih fun g hg => h g (by simp [hg]), List.cons_append]

/-- A member is followed by another one, or by the end of its object. -/
theorem read_member (key : Bytes) {value : Json} (h : ReadsBack value)
    (done : List (Bytes × Json)) (rest : Bytes) (hfuel : (render value).length ≤ fuel) :
    read (fuel + 1) (.members done) (quote key ++ 0x3a :: (render value ++ 0x2c :: rest)) =
        read fuel (.members (assign key (value.reread round) done)) rest ∧
      read (fuel + 1) (.members done) (quote key ++ 0x3a :: (render value ++ 0x7d :: rest)) =
        some (.object (assign key (value.reread round) done), rest) := by
  have hquote (text : Bytes) :
      quote key ++ text = 0x22 :: (key.flatMap quoteChar ++ 0x22 :: text) := by
    simp [quote]
  constructor
  · rw [hquote, read, skipSpace_cons (by decide)]
    simp only [string_quote, Option.bind_some, skipSpace_cons (c := 0x3a) (by decide),
      h fuel _ hfuel (ends_comma rest), skipSpace_cons (c := 0x2c) (by decide)]
  · rw [hquote, read, skipSpace_cons (by decide)]
    simp only [string_quote, Option.bind_some, skipSpace_cons (c := 0x3a) (by decide),
      h fuel _ hfuel (ends_brace rest), skipSpace_cons (c := 0x7d) (by decide)]

theorem read_members {fields : List (Bytes × Json)} (hne : fields ≠ [])
    (hkeys : fields.Pairwise fun f g => f.1 < g.1) (h : ∀ f ∈ fields, ReadsBack f.2)
    {done : List (Bytes × Json)} (hdone : ∀ f ∈ done, ∀ g ∈ fields, f.1 < g.1) (rest : Bytes)
    (hfuel : (renderFields fields).length < fuel) :
    read fuel (.members done) (renderFields fields ++ 0x7d :: rest) =
      some (.object (done ++ fields.map fun f => (f.1, f.2.reread round)), rest) := by
  induction fields generalizing fuel done with
  | nil => exact absurd rfl hne
  | cons f fields ih =>
      obtain ⟨key, value⟩ := f
      obtain ⟨fuel, rfl⟩ : ∃ n, fuel = n + 1 := ⟨fuel - 1, by omega⟩
      have hvalue : ReadsBack value := h (key, value) (by simp)
      have hassign : assign key (value.reread round) done = done ++ [(key, value.reread round)] :=
        assign_last _ fun g hg => hdone g hg (key, value) (by simp)
      cases fields with
      | nil =>
          simp only [renderFields, List.append_assoc, List.nil_append, List.cons_append,
            List.length_append, List.length_cons] at hfuel ⊢
          rw [(read_member key hvalue done rest (by omega)).2, hassign]
          simp
      | cons g fields =>
          simp only [renderFields, List.append_assoc, List.nil_append, List.cons_append,
            List.length_append, List.length_cons] at hfuel ⊢
          rw [(read_member key hvalue done _ (by omega)).1, hassign]
          obtain ⟨hfirst, hlater⟩ := List.pairwise_cons.mp hkeys
          have hnext : ∀ f ∈ done ++ [(key, value.reread round)], ∀ z ∈ g :: fields, f.1 < z.1 := by
            intro f hf
            rcases List.mem_append.mp hf with hf | hf
            · exact fun z hz => hdone f hf z (List.mem_cons_of_mem _ hz)
            · rw [List.mem_singleton.mp hf]
              exact hfirst
          rw [ih (by simp) hlater (fun z hz => h z (by simp [hz])) hnext (by omega)]
          simp

theorem readsBack_of_succ {doc : Json}
    (h : ∀ (fuel : ℕ) (rest : Bytes), (render doc).length ≤ fuel + 1 → Ends rest →
      read (fuel + 1) .value (render doc ++ rest) = some (doc.reread round, rest)) :
    ReadsBack doc := by
  intro fuel rest hfuel hrest
  obtain ⟨c, text, htext, -⟩ := exists_render_cons doc
  obtain ⟨fuel, rfl⟩ : ∃ n, fuel = n + 1 := by
    rw [htext, List.length_cons] at hfuel
    exact ⟨fuel - 1, by omega⟩
  exact h fuel rest hfuel hrest

theorem readsBack_array {xs : List Json} (h : ∀ x ∈ xs, ReadsBack x) : ReadsBack (.array xs) := by
  refine readsBack_of_succ fun fuel rest hfuel _ => ?_
  rw [render_array, List.append_assoc, List.append_assoc, List.singleton_append,
    List.singleton_append, read, skipSpace_cons (by decide), Json.reread_array]
  simp only [show ¬ ((0x5b : UInt8) = 0x7b) by decide, if_false, if_true]
  cases xs with
  | nil =>
      rw [renderList, List.nil_append, skipSpace_cons (by decide)]
      rfl
  | cons x xs =>
      have hlen : (renderList (x :: xs)).length < fuel := by
        simp only [render_array, List.length_append, List.length_cons, List.length_nil] at hfuel
        omega
      have hlist := read_elements (by simp) h [] rest hlen
      obtain ⟨c, text, htext, hspace, hend⟩ : ∃ c text, renderList (x :: xs) ++ 0x5d :: rest =
          c :: text ∧ (c == 0x20 || c == 0x09 || c == 0x0a || c == 0x0d) = false ∧ c ≠ 0x5d := by
        obtain ⟨c, text, htext, hc⟩ := exists_render_cons x
        cases xs <;> exact ⟨c, _, by simp [renderList, htext]; rfl, hc⟩
      rw [htext] at hlist ⊢
      rw [skipSpace_cons hspace]
      split
      · rename_i hcons
        exact absurd (List.head_eq_of_cons_eq hcons) hend
      · exact hlist

theorem readsBack_object {fields : List (Bytes × Json)}
    (hkeys : fields.Pairwise fun f g => f.1 < g.1) (h : ∀ f ∈ fields, ReadsBack f.2) :
    ReadsBack (.object fields) := by
  refine readsBack_of_succ fun fuel rest hfuel _ => ?_
  rw [render_object, List.append_assoc, List.append_assoc, List.singleton_append,
    List.singleton_append, read, skipSpace_cons (by decide), Json.reread_object]
  simp only [if_true]
  cases fields with
  | nil =>
      rw [renderFields, List.nil_append, skipSpace_cons (by decide)]
      rfl
  | cons f fields =>
      have hlen : (renderFields (f :: fields)).length < fuel := by
        simp only [render_object, List.length_append, List.length_cons, List.length_nil] at hfuel
        omega
      have hlist := read_members (by simp) hkeys h (List.forall_mem_nil _) rest hlen
      obtain ⟨text, htext⟩ : ∃ text, renderFields (f :: fields) ++ 0x7d :: rest = 0x22 :: text := by
        cases fields <;> exact ⟨_, by simp [renderFields, quote]; rfl⟩
      rw [htext] at hlist ⊢
      rw [skipSpace_cons (by decide)]
      exact hlist

theorem readsBack (doc : Json) (hdoc : doc.isWellFormed = true) : ReadsBack doc := by
  induction doc using Json.induction with
  | null => exact readsBack_of_succ fun fuel rest _ _ => rfl
  | bool b =>
      refine readsBack_of_succ fun fuel rest _ _ => ?_
      cases b <;> rfl
  | integer i =>
      refine readsBack_of_succ fun fuel rest _ hrest => ?_
      rw [render_integer]
      exact read_integer ((Json.isWellFormed_integer i).mp hdoc) hrest
  | unsigned n =>
      refine readsBack_of_succ fun fuel rest _ hrest => ?_
      rw [render_unsigned]
      exact read_unsigned ((Json.isWellFormed_unsigned n).mp hdoc) hrest
  | float q =>
      refine readsBack_of_succ fun fuel rest _ hrest => ?_
      rw [render_float]
      exact read_float q hrest
  | string s =>
      refine readsBack_of_succ fun fuel rest _ _ => ?_
      rw [render_string, Json.reread_string]
      exact read_quote s rest
  | array xs ih =>
      rw [Json.isWellFormed_array] at hdoc
      exact readsBack_array fun x hx => ih x hx (hdoc x hx)
  | object fields ih =>
      rw [Json.isWellFormed_object] at hdoc
      exact readsBack_object hdoc.1 fun f hf => ih f hf (hdoc.2 f hf)

theorem document_render {doc : Json} (h : doc.isWellFormed = true) :
    document (render doc) = some (doc.reread round) := by
  have hread := readsBack doc h ((render doc).length + 1) [] (by omega) (by simp [Ends])
  rw [List.append_nil] at hread
  rw [document, hread]
  rfl

/-! ## One line of text -/

theorem printable_of_all {s : Bytes} (h : (s.all fun c => decide (0x20 ≤ c)) = true) :
    ∀ c ∈ s, 0x20 ≤ c :=
  fun c hc => of_decide_eq_true (List.all_eq_true.mp h c hc)

theorem printable_digit : ∀ d < 16, 0x20 ≤ digit d := by decide

theorem printable_fixed {b w n : ℕ} (hb : 0 < b) (h16 : b ≤ 16) {c : UInt8}
    (h : c ∈ fixed b w n) : 0x20 ≤ c := by
  obtain ⟨d, hd, rfl⟩ := mem_fixed hb h
  exact printable_digit d (hd.trans_le h16)

theorem printable_quoteChar (b : UInt8) : ∀ c ∈ quoteChar b, 0x20 ≤ c := by
  rw [quoteChar]
  split
  · rename_i e he
    have hall : ((escapes.filter fun e => e.1 != '/'.toUInt8).all fun e =>
        [0x5c, e.1].all fun c => decide (0x20 ≤ c)) = true := by decide
    exact printable_of_all (List.all_eq_true.mp hall e (List.mem_of_find?_eq_some he))
  · split
    · rw [List.forall_mem_append]
      exact ⟨printable_of_all (by decide), fun c hc => printable_fixed (by decide) (by decide) hc⟩
    · rename_i hb
      rw [List.forall_mem_singleton]
      exact UInt8.not_lt.mp hb

theorem printable_quote (s : Bytes) : ∀ c ∈ quote s, 0x20 ≤ c := by
  intro c hc
  simp only [quote, List.mem_append, List.mem_singleton, List.mem_flatMap] at hc
  rcases hc with (rfl | ⟨b, -, hc⟩) | rfl
  · decide
  · exact printable_quoteChar b c hc
  · decide

theorem printable_decimal {n : ℕ} {c : UInt8} (h : c ∈ decimal n) : 0x20 ≤ c :=
  printable_fixed (by decide) (by decide) h

theorem printable_renderList {xs : List Json} (h : ∀ x ∈ xs, ∀ c ∈ render x, 0x20 ≤ c) :
    ∀ c ∈ renderList xs, 0x20 ≤ c := by
  induction xs with
  | nil => simp [renderList]
  | cons x xs ih =>
      cases xs with
      | nil => simpa [renderList] using h
      | cons y ys =>
          simp only [renderList, List.forall_mem_append, List.forall_mem_singleton]
          exact ⟨⟨h x (by simp), by decide⟩, ih fun z hz => h z (by simp [hz])⟩

theorem printable_renderFields {fields : List (Bytes × Json)}
    (h : ∀ f ∈ fields, ∀ c ∈ render f.2, 0x20 ≤ c) : ∀ c ∈ renderFields fields, 0x20 ≤ c := by
  induction fields with
  | nil => simp [renderFields]
  | cons f fields ih =>
      have hf := h f (by simp)
      cases fields with
      | nil =>
          simp only [renderFields, List.forall_mem_append, List.forall_mem_singleton]
          exact ⟨⟨printable_quote f.1, by decide⟩, hf⟩
      | cons g fields =>
          simp only [renderFields, List.forall_mem_append, List.forall_mem_singleton]
          exact ⟨⟨⟨⟨printable_quote f.1, by decide⟩, hf⟩, by decide⟩,
            ih fun z hz => h z (by simp [hz])⟩

theorem printable_render (doc : Json) : ∀ c ∈ render doc, 0x20 ≤ c := by
  induction doc using Json.induction with
  | null =>
      exact printable_of_all (by decide)
  | bool b =>
      cases b <;> exact printable_of_all (by decide)
  | integer i =>
      intro c hc
      rw [render_integer, decimalPadded_one] at hc
      split at hc
      · exact printable_decimal hc
      · rcases List.mem_cons.mp hc with rfl | hc
        · decide
        · exact printable_decimal hc
  | unsigned n =>
      intro c hc
      rw [render_unsigned] at hc
      exact printable_decimal hc
  | float q =>
      rw [render_float, ← List.append_nil (decimalText q), decimalText_eq]
      simp only [List.forall_mem_append, List.forall_mem_cons]
      refine ⟨?_, fun c hc => printable_decimal hc, by decide,
        fun c hc => printable_fixed (by decide) (by decide) hc, by simp⟩
      split <;> exact printable_of_all (by decide)
  | string s =>
      rw [render_string]
      exact printable_quote s
  | array xs ih =>
      rw [render_array]
      simp only [List.forall_mem_append, List.forall_mem_singleton]
      exact ⟨⟨by decide, printable_renderList ih⟩, by decide⟩
  | object fields ih =>
      rw [render_object]
      simp only [List.forall_mem_append, List.forall_mem_singleton]
      exact ⟨⟨by decide, printable_renderFields ih⟩, by decide⟩

/-! ## What the parser makes is well formed -/

theorem isWellFormed_number {negative : Bool} {s rest : Bytes} {doc : Json}
    (h : number negative s = some (doc, rest)) : doc.isWellFormed = true := by
  rw [number] at h
  split at h
  · cases h
  · simp only [Option.map_eq_some_iff] at h
    obtain ⟨⟨value, rest'⟩, -, hdoc⟩ := h
    rw [← (Prod.mk.inj hdoc).1]
    cases value with
    | some q => simp
    | none =>
        simp only
        split_ifs
        · rw [Json.isWellFormed_integer]
          omega
        · simp
        · rwa [Json.isWellFormed_unsigned]
        · simp

theorem mem_assign {key : Bytes} {value : Json} {fields : List (Bytes × Json)}
    {f : Bytes × Json} (h : f ∈ assign key value fields) : f = (key, value) ∨ f ∈ fields := by
  induction fields with
  | nil => exact .inl (List.mem_singleton.mp h)
  | cons g fields ih =>
      rw [assign] at h
      split_ifs at h
      · rcases List.mem_cons.mp h with rfl | h
        · exact .inl rfl
        · exact .inr (List.mem_cons_of_mem _ h)
      · rcases List.mem_cons.mp h with rfl | h
        · exact .inl rfl
        · exact .inr h
      · rcases List.mem_cons.mp h with rfl | h
        · exact .inr (by simp)
        · exact (ih h).imp id (List.mem_cons_of_mem _)

theorem pairwise_assign (key : Bytes) (value : Json) {fields : List (Bytes × Json)}
    (h : fields.Pairwise fun f g => f.1 < g.1) :
    (assign key value fields).Pairwise fun f g => f.1 < g.1 := by
  induction fields with
  | nil => exact List.pairwise_singleton _ _
  | cons g fields ih =>
      obtain ⟨hg, hfields⟩ := List.pairwise_cons.mp h
      rw [assign]
      split_ifs with heq hlt
      · subst heq
        exact List.pairwise_cons.mpr ⟨hg, hfields⟩
      · refine List.pairwise_cons.mpr ⟨?_, h⟩
        intro f hf
        rcases List.mem_cons.mp hf with rfl | hf
        · exact hlt
        · exact List.lt_trans hlt (hg f hf)
      · refine List.pairwise_cons.mpr ⟨?_, ih hfields⟩
        intro f hf
        rcases mem_assign hf with rfl | hf
        · exact Std.lt_of_le_of_ne (List.not_lt.mp hlt) heq
        · exact hg f hf

theorem isWellFormed_assign (key : Bytes) {value : Json} {fields : List (Bytes × Json)}
    (hvalue : value.isWellFormed = true) (h : (Json.object fields).isWellFormed = true) :
    (Json.object (assign key value fields)).isWellFormed = true := by
  rw [Json.isWellFormed_object] at h ⊢
  refine ⟨pairwise_assign key value h.1, ?_⟩
  intro f hf
  rcases mem_assign hf with rfl | hf
  · exact hvalue
  · exact h.2 f hf

/-- What was read of the array or object so far is well formed. -/
def Goal.WellFormed : Goal → Prop
  | .value => True
  | .elements done => (Json.array done).isWellFormed = true
  | .members done => (Json.object done).isWellFormed = true

theorem isWellFormed_literal : ∀ l ∈ literals, l.2.isWellFormed = true := by
  simp [literals]

theorem isWellFormed_read {g : Goal} {s rest : Bytes} {doc : Json} (hgoal : g.WellFormed)
    (h : read fuel g s = some (doc, rest)) : doc.isWellFormed = true := by
  induction fuel generalizing g s rest doc with
  | zero => simp at h
  | succ fuel ih =>
      cases g with
      | value =>
          rw [read] at h
          split at h
          · cases h
          · split_ifs at h
            · split at h
              · cases h
                simp
              · exact ih (g := .members []) (by simp [Goal.WellFormed]) h
            · split at h
              · cases h
                simp
              · exact ih (g := .elements []) (by simp [Goal.WellFormed]) h
            · simp only [Option.map_eq_some_iff] at h
              obtain ⟨r, -, hr⟩ := h
              rw [← (Prod.mk.inj hr).1]
              simp
            · exact isWellFormed_number h
            · exact isWellFormed_number h
            · simp only [Option.map_eq_some_iff] at h
              obtain ⟨l, hl, hdoc⟩ := h
              rw [← (Prod.mk.inj hdoc).1]
              exact isWellFormed_literal l (List.mem_of_find?_eq_some hl)
      | elements done =>
          rw [read] at h
          obtain ⟨r, hr, h⟩ := Option.bind_eq_some_iff.mp h
          have hvalue := ih (g := .value) trivial hr
          have hdone : (Json.array (done ++ [r.1])).isWellFormed = true := by
            simpa [or_imp, forall_and, hvalue, Goal.WellFormed] using hgoal
          split at h
          · exact ih (g := .elements _) hdone h
          · cases h
            exact hdone
          · cases h
      | members done =>
          rw [read] at h
          split at h
          · obtain ⟨key, -, h⟩ := Option.bind_eq_some_iff.mp h
            split at h
            · obtain ⟨r, hr, h⟩ := Option.bind_eq_some_iff.mp h
              have hvalue := ih (g := .value) trivial hr
              have hdone := isWellFormed_assign key.1 hvalue hgoal
              split at h
              · exact ih (g := .members _) hdone h
              · cases h
                exact hdone
              · cases h
            · cases h
          · cases h

theorem isText_reread {doc : Json} (f : ℚ → ℚ) (h : doc.isText = true) :
    (doc.reread f).isText = true := by
  induction doc using Json.induction with
  | integer i =>
      rw [Json.reread]
      split <;> simp
  | array xs ih =>
      rw [Json.isText_array] at h
      rw [Json.reread_array, Json.isText_array, List.forall_mem_map]
      exact fun x hx => ih x hx (h x hx)
  | object fields ih =>
      rw [Json.isText_object] at h
      rw [Json.reread_object, Json.isText_object, List.forall_mem_map]
      exact fun f hf => ⟨(h f hf).1, ih f hf (h f hf).2⟩
  | string s => simpa using h
  | _ => simp [Json.reread]

/-- The reference implementation reads back what it writes. -/
theorem lib_roundTrip : lib.RoundTrip round where
  isWellFormed_of_parse := by
    intro text doc h
    obtain ⟨hdocument, -⟩ := Option.filter_eq_some_iff.mp h
    rw [document] at hdocument
    split at hdocument
    · rename_i hread
      split_ifs at hdocument
      cases hdocument
      exact isWellFormed_read (g := .value) trivial hread
    · cases hdocument
  parse_dump := by
    intro doc text hdoc hdump
    simp only [lib] at hdump
    split_ifs at hdump with htext
    cases hdump
    exact Option.filter_eq_some_iff.mpr ⟨document_render hdoc, isText_reread round htext⟩
  newline_notMem := by
    intro doc text hdump hnewline
    simp only [lib] at hdump
    split_ifs at hdump
    cases hdump
    exact absurd (printable_render doc _ hnewline) (by decide)
  parse_nil := rfl

theorem parse_render {doc : Json} (hdoc : doc.isWellFormed = true) (htext : doc.isText = true) :
    lib.parse (render doc) = some (doc.reread round) :=
  lib_roundTrip.parse_dump hdoc (if_pos htext)

end JsonReference
