import Ezcap.Library.Inet
import Ezcap.Library.Utf8

/-! What the formatting functions print is well-formed text. -/

open StdString Utf8

namespace Format

theorem digit_ascii : ∀ d < 16, digit d < 0x80 := by decide

theorem valid_fixed {b : ℕ} (hb : 0 < b) (h16 : b ≤ 16) (w n : ℕ) : Valid (fixed b w n) := by
  apply valid_of_ascii
  intro c hc
  obtain ⟨d, hd, rfl⟩ := mem_fixed hb hc
  exact digit_ascii d (hd.trans_le h16)

@[simp] theorem valid_decimal (n : ℕ) : Valid (decimal n) := valid_fixed (by decide) (by decide) _ _

@[simp] theorem valid_hex (n : ℕ) : Valid (hex n) := valid_fixed (by decide) le_rfl _ _

@[simp] theorem valid_decimalPadded (w : ℕ) (n : ℤ) : Valid (decimalPadded w n) := by
  have hfixed (w n : ℕ) : Valid (fixed 10 w n) := valid_fixed (by decide) (by decide) w n
  unfold decimalPadded
  split_ifs
  · exact hfixed _ _
  · exact (valid_append_ascii (by decide) [] _).mpr ⟨valid_nil, hfixed _ _⟩

end Format

namespace Inet

theorem valid_intercalate {sep : Bytes} (hsep : Valid sep) {parts : List Bytes}
    (hparts : ∀ part ∈ parts, Valid part) : Valid (List.intercalate sep parts) := by
  induction parts with
  | nil => exact valid_nil
  | cons part parts ih =>
      have hpart := hparts part (by simp)
      have hrest := ih fun t ht => hparts t (by simp [ht])
      cases parts with
      | nil => simpa using hpart
      | cons next parts =>
          rw [List.intercalate_cons_cons]
          exact (hpart.append hsep).append hrest

@[simp] theorem valid_ntop4 (bytes : Bytes) : Valid (ntop4 bytes) := by
  apply valid_intercalate (valid_cstr _)
  intro part hpart
  obtain ⟨b, -, rfl⟩ := List.mem_map.mp hpart
  exact Format.valid_decimal _

theorem valid_wordsText (bytes : Bytes) (best : Option (ℕ × ℕ)) (ws : List ℕ) (i : ℕ)
    (rest : List ℕ) : Valid (wordsText bytes best ws i rest) := by
  induction rest generalizing i with
  | nil => exact valid_nil
  | cons w rest ih =>
      unfold wordsText
      dsimp only
      split_ifs
      all_goals
        simp only [List.append_assoc, List.nil_append, (valid_cstr _).append_iff,
          (Format.valid_hex _).append_iff, ih, valid_ntop4]

@[simp] theorem valid_ntop6 (bytes : Bytes) : Valid (ntop6 bytes) := by
  unfold ntop6
  refine (valid_wordsText ..).append ?_
  split_ifs <;> simp

end Inet
