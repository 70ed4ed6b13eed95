import Ezcap.Library.Control
import Ezcap.Library.MaximalRun
import Ezcap.Model.PcapBackend

/-! The filters the validator accepts. -/

namespace Ezcap.FilterLanguage

open StdString PcapFilterValidator MaximalRun

/-! ## The language -/

def IsDigit (c : UInt8) : Prop := '0'.toUInt8 ≤ c ∧ c ≤ '9'.toUInt8

def IsLetter (c : UInt8) : Prop :=
  ('a'.toUInt8 ≤ c ∧ c ≤ 'z'.toUInt8) ∨ ('A'.toUInt8 ≤ c ∧ c ≤ 'Z'.toUInt8)

def IsHexDigit (c : UInt8) : Prop :=
  IsDigit c ∨ ('a'.toUInt8 ≤ c ∧ c ≤ 'f'.toUInt8) ∨ ('A'.toUInt8 ≤ c ∧ c ≤ 'F'.toUInt8)

def IsWord (c : UInt8) : Prop :=
  IsLetter c ∨ IsDigit c ∨ c = '.'.toUInt8 ∨ c = ':'.toUInt8 ∨ c = '/'.toUInt8

def IsSeparator (c : UInt8) : Prop :=
  c = ' '.toUInt8 ∨ c = '\t'.toUInt8 ∨ c = '\n'.toUInt8 ∨ c = '('.toUInt8 ∨ c = ')'.toUInt8

/-- A number, or an address with at least one point or colon. -/
def IsLiteral (token : Bytes) : Prop :=
  (∀ c ∈ token, IsDigit c) ∨
    (∀ c ∈ token, IsHexDigit c ∨ c = '/'.toUInt8 ∨ c = '.'.toUInt8 ∨ c = ':'.toUInt8) ∧
      ('.'.toUInt8 ∈ token ∨ ':'.toUInt8 ∈ token)

def IsToken (token : Bytes) : Prop := token ∈ allowedTokens ∨ IsLiteral token

/-- A filter of at most 256 characters whose maximal words are keywords and literals. -/
structure InLanguage (filter : Bytes) : Prop where
  nonempty : 1 ≤ filter.length
  short : filter.length ≤ 256
  characters : ∀ c ∈ filter, IsWord c ∨ IsSeparator c
  tokens : ∀ word, IsRun IsWord filter word → IsToken word

/-! ## The tests on characters and tokens -/

theorem isdigit_iff {c : UInt8} : isdigit c = true ↔ IsDigit c := by
  simp [isdigit, IsDigit]

theorem isxdigit_iff {c : UInt8} : isxdigit c = true ↔ IsHexDigit c := by
  simp only [isxdigit, IsHexDigit, ← isdigit_iff, Bool.or_eq_true, Bool.and_eq_true,
    decide_eq_true_eq]
  tauto

theorem isWordChar_iff {c : UInt8} : isWordChar c = true ↔ IsWord c := by
  simp only [isWordChar, isalnum, isupper, IsWord, IsLetter, ← isdigit_iff, Bool.or_eq_true,
    Bool.and_eq_true, decide_eq_true_eq, beq_iff_eq]
  tauto

theorem looksLikeLiteral_iff {token : Bytes} (hne : token ≠ []) :
    looksLikeLiteral token = true ↔ IsLiteral token := by
  simp only [looksLikeLiteral, isNumber, IsLiteral, Bool.or_eq_true, Bool.and_eq_true,
    List.all_eq_true, bne_iff_ne, beq_iff_eq, decide_eq_true_eq, gt_iff_lt, List.count_pos_iff,
    isdigit_iff, isxdigit_iff]
  refine or_congr (and_iff_right hne) (and_congr (forall₂_congr fun c _ => ?_) Iff.rfl)
  tauto

theorem flush_none_iff {token : Bytes} :
    flush token none = .ok () ↔ (token ≠ [] → IsToken token) := by
  by_cases hnil : token = []
  · simp [flush, hnil]
  rw [IsToken, ← looksLikeLiteral_iff hnil]
  simp only [flush, bne_iff_ne.mpr hnil, Bool.true_and, Bool.not_eq_true', Bool.or_eq_false_iff,
    List.contains_eq_mem, decide_eq_false_iff_not]
  split_ifs with hunknown
  · exact iff_of_false (fun h => by cases h) fun h => by simp [hnil, hunknown] at h
  · exact iff_of_true rfl fun _ => by simpa [or_iff_not_imp_left] using hunknown

theorem flush_some_ne {token : Bytes} {c : UInt8} {u : Unit} : flush token (some c) ≠ .ok u := by
  unfold flush
  split <;> nofun

/-! ## The loop -/

theorem not_isWord_of_isSeparator {c : UInt8} (h : IsSeparator c) : ¬ IsWord c := by
  rw [← isWordChar_iff]
  rcases h with rfl | rfl | rfl | rfl | rfl <;> decide

/-- A word character goes to the token, a separator ends it and any other one is an error. -/
theorem validateLoop_cons {c : UInt8} {rest token : Bytes} :
    validateLoop (c :: rest) token = .ok () ↔
      (IsWord c ∧ validateLoop rest (token ++ [c]) = .ok ()) ∨
      (IsSeparator c ∧ (token ≠ [] → IsToken token) ∧ validateLoop rest [] = .ok ()) := by
  have hends : (((flush token none).bind fun _ => validateLoop rest []) = .ok ()) ↔
      (token ≠ [] → IsToken token) ∧ validateLoop rest [] = .ok () := by
    rw [Except.bind_eq_ok_iff, ← flush_none_iff]
    exact ⟨fun ⟨(), h⟩ => h, fun h => ⟨(), h⟩⟩
  by_cases hword : IsWord c
  · have hsep : ¬ IsSeparator c := fun h => not_isWord_of_isSeparator h hword
    simp [validateLoop, isWordChar_iff, hword, hsep]
  rw [validateLoop, if_neg (mt isWordChar_iff.mp hword)]
  by_cases hsep : IsSeparator c
  · have hbranch : (c = ' '.toUInt8 ∨ c = '\t'.toUInt8 ∨ c = '\n'.toUInt8) ∨
        (c = '('.toUInt8 ∨ c = ')'.toUInt8) := by
      unfold IsSeparator at hsep
      tauto
    rw [← ite_or, if_pos hbranch, hends]
    simp [hword, hsep]
  · have hspace : ¬ (c = ' '.toUInt8 ∨ c = '\t'.toUInt8 ∨ c = '\n'.toUInt8) := by
      unfold IsSeparator at hsep
      tauto
    have hparen : ¬ (c = '('.toUInt8 ∨ c = ')'.toUInt8) := by
      unfold IsSeparator at hsep
      tauto
    rw [if_neg hspace, if_neg hparen, Except.bind_eq_ok_iff]
    simp [hword, hsep, flush_some_ne]

/-- With a token begun, the loop judges the words of the token and the rest together. -/
theorem validateLoop_eq_ok_iff {rest token : Bytes} (htoken : ∀ c ∈ token, IsWord c) :
    validateLoop rest token = .ok () ↔
      (∀ c ∈ rest, IsWord c ∨ IsSeparator c) ∧
        ∀ word, IsRun IsWord (token ++ rest) word → IsToken word := by
  induction rest generalizing token with
  | nil =>
      simp only [validateLoop, flush_none_iff, List.append_nil, isRun_of_forall htoken]
      simp
  | cons c rest ih =>
      rw [validateLoop_cons, List.forall_mem_cons]
      by_cases hword : IsWord c
      · have hsep : ¬ IsSeparator c := fun h => not_isWord_of_isSeparator h hword
        have htoken' : ∀ x ∈ token ++ [c], IsWord x := by
          simpa [or_imp, forall_and, hword] using htoken
        rw [ih htoken']
        simp [hword, hsep]
      · rw [@ih [] (by simp)]
        simp only [isRun_append_cons htoken hword, hword, false_and, false_or, List.nil_append,
          or_imp, forall_and, and_imp]
        constructor
        · rintro ⟨hsep, hflush, hchars, hwords⟩
          exact ⟨⟨hsep, hchars⟩, fun word hne heq => heq ▸ hflush hne, hwords⟩
        · rintro ⟨⟨hsep, hchars⟩, hflush, hwords⟩
          exact ⟨hsep, fun hne => hflush token hne rfl, hchars, hwords⟩

/-- The validator accepts exactly the language. -/
theorem validate_eq_ok_iff (filter : Bytes) : validate filter = .ok () ↔ InLanguage filter := by
  unfold validate
  split_ifs with hempty hlong
  · refine iff_of_false (fun h => by cases h) fun h => ?_
    simpa [hempty] using h.nonempty
  · refine iff_of_false (fun h => by cases h) fun h => ?_
    exact absurd h.short (by omega)
  · rw [validateLoop_eq_ok_iff (by simp), List.nil_append]
    constructor
    · rintro ⟨hchars, hwords⟩
      exact ⟨List.length_pos_iff.mpr hempty, by omega, hchars, hwords⟩
    · intro h
      exact ⟨h.characters, h.tokens⟩

end Ezcap.FilterLanguage
