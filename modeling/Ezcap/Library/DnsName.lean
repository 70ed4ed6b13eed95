import Ezcap.Library.StdString

/-! Domain names as lists of labels: the wire form, each label behind its length, and the
dotted text. -/

namespace DnsName

open StdString

/-- What the wire form can carry as one label. -/
def IsLabel (label : Bytes) : Prop := 0 < label.length ∧ label.length ≤ 63

/-- The labels on the wire, without the zero that ends a name. -/
def encode : List Bytes → Bytes
  | [] => []
  | label :: labels => label.length.toUInt8 :: (label ++ encode labels)

def dotted (labels : List Bytes) : Bytes := List.intercalate (cstr ".") labels

theorem mem_dotted {labels : List Bytes} {c : UInt8} (h : c ∈ dotted labels) :
    c = '.'.toUInt8 ∨ ∃ label ∈ labels, c ∈ label := by
  induction labels with
  | nil => simp [dotted] at h
  | cons label labels ih =>
      cases labels with
      | nil => exact .inr ⟨label, by simp, by simpa [dotted] using h⟩
      | cons next labels =>
          simp only [dotted, List.intercalate_cons_cons, List.mem_append] at h
          rcases h with (h | h) | h
          · exact .inr ⟨label, by simp, h⟩
          · exact .inl (List.mem_singleton.mp h)
          · rcases ih h with h | ⟨l, hl, hc⟩
            · exact .inl h
            · exact .inr ⟨l, List.mem_cons_of_mem _ hl, hc⟩

/-- The dotted text grown by one label. -/
def extend (out label : Bytes) : Bytes := if out = [] then label else out ++ '.'.toUInt8 :: label

@[simp] theorem encode_nil : encode [] = [] := rfl

@[simp] theorem encode_cons (label : Bytes) (labels : List Bytes) :
    encode (label :: labels) = label.length.toUInt8 :: (label ++ encode labels) := rfl

theorem encode_cons_append (label : Bytes) (labels : List Bytes) (rest : Bytes) :
    encode (label :: labels) ++ rest = encode [label] ++ (encode labels ++ rest) := by
  simp

theorem extend_ne_nil (out : Bytes) {label : Bytes} (h : IsLabel label) :
    extend out label ≠ [] := by
  unfold extend
  split
  · exact List.ne_nil_of_length_pos h.1
  · simp

theorem length_extend (out label : Bytes) :
    (extend out label).length = out.length + label.length + if out = [] then 0 else 1 := by
  unfold extend
  split
  · rename_i h
    simp [h]
  · simp only [List.length_append, List.length_cons]
    omega

theorem foldl_extend_of_ne_nil {labels : List Bytes} {out : Bytes} (hout : out ≠ [])
    (hlabels : labels ≠ []) : labels.foldl extend out = out ++ '.'.toUInt8 :: dotted labels := by
  induction labels generalizing out with
  | nil => exact absurd rfl hlabels
  | cons label labels ih =>
      have hextend : extend out label = out ++ '.'.toUInt8 :: label := if_neg hout
      cases labels with
      | nil => simp [dotted, hextend]
      | cons next labels =>
          rw [List.foldl_cons, hextend, ih (by simp) (by simp)]
          simp [dotted, List.intercalate_cons_cons, show cstr "." = ['.'.toUInt8] from rfl]

theorem foldl_extend_nil {labels : List Bytes} (h : ∀ label ∈ labels, IsLabel label) :
    labels.foldl extend [] = dotted labels := by
  cases labels with
  | nil => rfl
  | cons label labels =>
      have hlabel : label ≠ [] := List.ne_nil_of_length_pos (h label (by simp)).1
      cases labels with
      | nil => simp [extend, dotted]
      | cons next labels =>
          rw [List.foldl_cons, show extend [] label = label from rfl,
            foldl_extend_of_ne_nil hlabel (by simp)]
          simp [dotted, List.intercalate_cons_cons, show cstr "." = ['.'.toUInt8] from rfl]

theorem length_foldl_extend {labels : List Bytes} (h : ∀ label ∈ labels, IsLabel label)
    (out : Bytes) :
    (labels.foldl extend out).length + (if out = [] ∧ labels ≠ [] then 1 else 0) =
      out.length + (encode labels).length := by
  induction labels generalizing out with
  | nil => simp
  | cons label labels ih =>
      have hgrown : ¬ (extend out label = [] ∧ labels ≠ []) := fun hnil =>
        extend_ne_nil out (h label (by simp)) hnil.1
      have hrest := ih (fun l hl => h l (by simp [hl])) (extend out label)
      rw [if_neg hgrown, length_extend] at hrest
      simp only [List.foldl_cons, encode_cons, List.length_cons, List.length_append]
      by_cases hout : out = [] <;> simp [hout] at hrest ⊢ <;> omega

theorem length_extend_le {label : Bytes} {labels : List Bytes}
    (h : ∀ l ∈ label :: labels, IsLabel l) (out : Bytes) :
    (extend out label).length ≤ ((label :: labels).foldl extend out).length := by
  have hgrown : ¬ (extend out label = [] ∧ labels ≠ []) := fun hnil =>
    extend_ne_nil out (h label (by simp)) hnil.1
  have hlabels : ∀ l ∈ labels, IsLabel l := fun l hl => h l (List.mem_cons_of_mem _ hl)
  have hlength := length_foldl_extend hlabels (extend out label)
  rw [if_neg hgrown] at hlength
  rw [List.foldl_cons]
  omega

theorem length_dotted {labels : List Bytes} (h : ∀ label ∈ labels, IsLabel label)
    (hne : labels ≠ []) : (dotted labels).length + 1 = (encode labels).length := by
  have hlength := length_foldl_extend h []
  rw [foldl_extend_nil h] at hlength
  simpa [hne] using hlength

theorem two_mul_length_le {labels : List Bytes} (h : ∀ label ∈ labels, IsLabel label) :
    2 * labels.length ≤ (dotted labels).length + 1 := by
  have hencode : 2 * labels.length ≤ (encode labels).length := by
    induction labels with
    | nil => simp
    | cons label labels ih =>
        have hpos := (h label (by simp)).1
        have hrest := ih fun l hl => h l (by simp [hl])
        simp only [encode_cons, List.length_cons, List.length_append]
        omega
  rcases eq_or_ne labels [] with rfl | hne
  · simp
  · rwa [length_dotted h hne]

/-! ## Reading one label -/

theorem toNat_length_toUInt8 {label : Bytes} (h : IsLabel label) :
    label.length.toUInt8.toNat = label.length := by
  have hle := h.2
  rw [show label.length.toUInt8.toNat = label.length % 2 ^ 8 from rfl]
  omega

theorem length_check_iff (b : UInt8) : (b &&& 0xC0 ≠ 0 ∨ b > 63) ↔ 63 < b.toNat := by
  have hall : ∀ n < 256, (UInt8.ofNat n &&& 0xC0 ≠ 0 ∨ UInt8.ofNat n > 63) ↔ 63 < n := by
    decide +kernel
  simpa using hall b.toNat b.toNat_lt

/-- The length byte of a label passes the check and does not end the name. -/
theorem IsLabel.length_byte {label : Bytes} (h : IsLabel label) {b : UInt8}
    (hb : b.toNat = label.length) : b ≠ 0 ∧ ¬ (b &&& 0xC0 ≠ 0 ∨ b > 63) := by
  constructor
  · rintro rfl
    exact absurd hb h.1.ne
  · rw [length_check_iff, hb]
    exact Nat.not_lt.mpr h.2

theorem length_toUInt8_ne_zero {label : Bytes} (h : IsLabel label) : label.length.toUInt8 ≠ 0 :=
  (h.length_byte (toNat_length_toUInt8 h)).1

/-- A length byte with room behind it reads as one label. -/
theorem label_at {data : Bytes} {i : ℕ} (hne : data.getD i 0 ≠ 0)
    (hle : (data.getD i 0).toNat ≤ 63) (hend : i + 1 + (data.getD i 0).toNat ≤ data.length) :
    IsLabel (substr data (i + 1) (some (data.getD i 0).toNat)) ∧
      data.drop i = encode [substr data (i + 1) (some (data.getD i 0).toNat)] ++
        data.drop (i + 1 + (data.getD i 0).toNat) := by
  have hlength : (substr data (i + 1) (some (data.getD i 0).toNat)).length =
      (data.getD i 0).toNat := by
    simp only [substr, List.length_take, List.length_drop]
    omega
  have hpos : 0 < (data.getD i 0).toNat := by
    rw [Nat.pos_iff_ne_zero]
    exact fun h => hne (UInt8.toNat_inj.mp h)
  have hrest : data.drop (i + 1 + (data.getD i 0).toNat) =
      (data.drop (i + 1)).drop (data.getD i 0).toNat := List.drop_drop.symm
  refine ⟨⟨hpos.trans_eq hlength.symm, hlength.trans_le hle⟩, ?_⟩
  rw [drop_eq_getD_cons (by omega), encode_cons, hlength,
    show (data.getD i 0).toNat.toUInt8 = data.getD i 0 by simp]
  simp only [encode_nil, List.append_nil, List.cons_append, substr, hrest, List.take_append_drop]

theorem at_label {data label rest : Bytes} {i : ℕ} (hlabel : IsLabel label)
    (h : data.drop i = encode [label] ++ rest) :
    (data.getD i 0).toNat = label.length ∧ i + 1 + label.length ≤ data.length ∧
      substr data (i + 1) (some label.length) = label ∧
      data.drop (i + 1 + label.length) = rest := by
  have hdrop : data.drop (i + 1) = label ++ rest := by
    rw [← List.drop_drop, h]
    simp
  have hlen := congrArg List.length h
  have hget : data.getD i 0 = label.length.toUInt8 := by
    have hhead := congrArg (·[0]?) h
    simp only [List.getElem?_drop, encode_cons, List.cons_append, List.getElem?_cons_zero,
      Nat.add_zero] at hhead
    simp [hhead]
  simp only [encode_cons, encode_nil, List.append_nil, List.cons_append, List.length_cons,
    List.length_append, List.length_drop] at hlen
  refine ⟨by rw [hget, toNat_length_toUInt8 hlabel], by omega, ?_, ?_⟩
  · simp [substr, hdrop]
  · rw [← List.drop_drop, hdrop]
    simp

/-- The labels up to the zero byte are those of the data. -/
theorem encode_zero_inj {labels labels' : List Bytes} {rest rest' : Bytes}
    (h : ∀ label ∈ labels, IsLabel label) (h' : ∀ label ∈ labels', IsLabel label)
    (heq : encode labels ++ 0 :: rest = encode labels' ++ 0 :: rest') : labels = labels' := by
  induction labels generalizing labels' with
  | nil =>
      cases labels' with
      | nil => rfl
      | cons label' labels' =>
          have hhead := (List.cons.inj heq).1
          exact absurd hhead.symm (length_toUInt8_ne_zero (h' label' (by simp)))
  | cons label labels ih =>
      cases labels' with
      | nil =>
          have hhead := (List.cons.inj heq).1
          exact absurd hhead (length_toUInt8_ne_zero (h label (by simp)))
      | cons label' labels' =>
          simp only [encode_cons, List.cons_append, List.append_assoc, List.cons.injEq] at heq
          have hlength : label.length = label'.length := by
            rw [← toNat_length_toUInt8 (h label (by simp)), heq.1,
              toNat_length_toUInt8 (h' label' (by simp))]
          obtain ⟨hlabel, hrest⟩ := List.append_inj heq.2 hlength
          rw [hlabel, ih (fun l hl => h l (by simp [hl])) (fun l hl => h' l (by simp [hl])) hrest]

end DnsName
