import Ezcap.Library.Utf8Bits
import Ezcap.Verification.NativeHost.Messages

/-! Which texts the reader lets through. It looks at the bit patterns of lead and continuation
bytes and at nothing else, so that overlong forms, surrogates and what is above U+10FFFF pass. -/

namespace Ezcap.NativeHost

open StdString Transfer MessageWriter Utf8

namespace MessageReader

theorem extraOf_eq (c : UInt8) : extraOf c = (leadBits c).map Prod.fst := by
  have hall := forall_byte (p := fun c => extraOf c = (leadBits c).map Prod.fst)
    (by decide +kernel) c
  simpa using hall

theorem continues_iff (cc : UInt8) : continues cc = true ↔ IsTail cc := by
  have hall := forall_byte (p := fun cc => continues cc = decide (IsTail cc)) (by decide +kernel) cc
  rw [decide_eq_true_iff] at hall
  rw [hall, decide_eq_true_iff]

theorem scanLoop_of_spells {fuel : ℕ} {text : Bytes} {chars : List Spelled}
    (hfuel : text.length ≤ fuel) (h : Spells text chars) : scanLoop fuel text = true := by
  induction h generalizing fuel with
  | nil => rw [scanLoop]
  | @char a tail rest high chars hlead htail _ ih =>
      cases fuel with
      | zero => cases hfuel
      | succ fuel =>
          have hextra : extraOf a = some tail.length := by rw [extraOf_eq, hlead, Option.map_some]
          have hall : tail.all continues = true :=
            List.all_eq_true.mpr fun b hb => (continues_iff b).mpr (htail b hb)
          have hrest : scanLoop fuel rest = true := by
            apply ih
            simp only [List.length_cons, List.length_append] at hfuel
            omega
          simp [scanLoop, hextra, hall, hrest]

theorem spells_of_scanLoop {fuel : ℕ} {text : Bytes} (h : scanLoop fuel text = true) :
    ∃ chars, Spells text chars := by
  induction fuel generalizing text with
  | zero =>
      cases text with
      | nil => exact ⟨[], .nil⟩
      | cons c rest => cases h
  | succ fuel ih =>
      cases text with
      | nil => exact ⟨[], .nil⟩
      | cons c rest =>
          rw [scanLoop, extraOf_eq] at h
          cases hlead : leadBits c with
          | none =>
              rw [hlead] at h
              cases h
          | some bits =>
              rw [hlead, Option.map_some] at h
              simp only [Bool.if_false_left, Bool.and_eq_true, Bool.not_eq_true',
                decide_eq_false_iff_not, Nat.not_lt, List.all_eq_true] at h
              obtain ⟨hlength, htail, hrest⟩ := h
              obtain ⟨chars, hchars⟩ := ih hrest
              have htake : (rest.take bits.1).length = bits.1 := List.length_take_of_le hlength
              have hspells := @Spells.char c _ _ bits.2 _ (by rw [htake, hlead])
                (fun b hb => (continues_iff b).mp (htail b hb)) hchars
              rw [List.take_append_drop] at hspells
              exact ⟨_, hspells⟩

theorem scan_iff (text : Bytes) : scan text = true ↔ ∃ chars, Spells text chars :=
  ⟨spells_of_scanLoop, fun ⟨_, h⟩ => scanLoop_of_spells le_rfl h⟩

end MessageReader

open MessageReader

/-- Of the texts of one byte to one mebibyte, the reader lets through exactly the well-formed ones
as long as no character that their bits spell is overlong, a surrogate or above U+10FFFF. -/
theorem reader_accepts_utf8_iff {body : Bytes} (hpositive : 1 ≤ body.length)
    (hbounded : body.length ≤ 1024 * 1024) {answers : List Answer}
    (hanswers : Grants (frame body).length answers) (stream : Bytes) :
    ((∃ out, (read answers (frame body ++ stream)).result = some (.ok out)) ↔ Valid body) ↔
      ∀ chars, Spells body chars → ∀ c ∈ chars, c.Proper := by
  rw [← Nat.zero_add (frame body).length] at hanswers
  obtain ⟨rest, hread, -⟩ := read_of_grants hpositive hbounded hanswers stream
  have haccepts : (∃ out, (read answers (frame body ++ stream)).result = some (.ok out)) ↔
      ∃ chars, Spells body chars := by
    rw [hread, ← scan_iff]
    cases scan body <;> simp
  rw [haccepts]
  constructor
  · intro h chars hchars
    exact hchars.valid_iff.mp (h.mp ⟨chars, hchars⟩)
  · intro h
    constructor
    · intro hspells
      obtain ⟨chars, hchars⟩ := hspells
      exact hchars.valid_iff.mpr (h chars hchars)
    · intro hvalid
      exact (scan_iff body).mp (scan_of_valid hvalid)

theorem reader_accepts_utf8_accent :
    let body : Bytes := [0xC3, 0xA9]
    (∃ out, (read (List.replicate 6 (.moved 0)) (frame body ++ [])).result = some (.ok out)) ↔
      Valid body :=
  (reader_accepts_utf8_iff (by decide) (by decide) (by decide) []).mpr
    fun _ hchars => hchars.valid_iff.mp (by decide)

/-- An overlong form of the null character, a surrogate and the number after U+10FFFF are let
through. -/
theorem ill_formed_text_accepted :
    ((read (List.replicate 6 (.moved 0)) (frame [0xC0, 0x80])).result = some (.ok [0xC0, 0x80]) ∧
      ¬ Valid [0xC0, 0x80]) ∧
    ((read (List.replicate 7 (.moved 0)) (frame [0xED, 0xA0, 0x80])).result =
      some (.ok [0xED, 0xA0, 0x80]) ∧ ¬ Valid [0xED, 0xA0, 0x80]) ∧
    (read (List.replicate 8 (.moved 0)) (frame [0xF4, 0x90, 0x80, 0x80])).result =
      some (.ok [0xF4, 0x90, 0x80, 0x80]) ∧ ¬ Valid [0xF4, 0x90, 0x80, 0x80] :=
  ⟨⟨rfl, by decide⟩, ⟨rfl, by decide⟩, rfl, by decide⟩

end Ezcap.NativeHost
