import Ezcap.Verification.Capture.DnsDecoders
import Ezcap.Verification.Redactor.Equations

/-! Which names the frame parser decodes, and what a decoded name says about the labels on the
wire. The length test leaves out the longest legal names, and the characters it allows inside a
label include the dot that separates labels in the text. -/

namespace Ezcap.PacketParser

open StdString DnsName

/-! ## Long names -/

theorem length_parseDnsQname_le (data : Bytes) : (parseDnsQname data).length ≤ 252 := by
  by_cases hnil : parseDnsQname data = []
  · simp [hnil]
  · obtain ⟨labels, hdecodes, hname⟩ := decodesTo_of_parseDnsQname hnil
    rw [hname]
    exact hdecodes.length_le

/-- Letters, digits, hyphens and underscores. -/
def legalChar (c : UInt8) : Bool := isalnum c || c == '-'.toUInt8 || c == '_'.toUInt8

theorem qnameChar_of_legalChar {c : UInt8} (h : legalChar c = true) : qnameChar c = true := by
  simp only [legalChar, isalnum, isdigit, isupper, qnameChar, Bool.or_eq_true] at h ⊢
  tauto

/-- A name within the limits of the protocol. -/
structure LegalName (labels : List Bytes) : Prop where
  nonempty : 1 ≤ labels.length
  count_le : labels.length ≤ 127
  isLabel : ∀ label ∈ labels, IsLabel label
  chars : ∀ label ∈ labels, ∀ c ∈ label, legalChar c = true
  length_le : (dotted labels).length ≤ 253

theorem LegalName.decodesTo {labels : List Bytes} (h : LegalName labels)
    (hlength : (dotted labels).length ≤ 252) (rest : Bytes) :
    DecodesTo (encode labels ++ 0 :: rest) labels where
  isLabel := h.isLabel
  chars := fun label hlabel c hc => qnameChar_of_legalChar (h.chars label hlabel c hc)
  terminated := ⟨rest, rfl⟩
  length_le := hlength

/-- A legal name is decoded, whatever follows it, exactly if it has less than 253 characters. -/
theorem legal_name_decoded_iff {labels : List Bytes} (h : LegalName labels) (rest : Bytes) :
    parseDnsQname (encode labels ++ 0 :: rest) = dotted labels ↔
      (dotted labels).length ≠ 253 := by
  constructor
  · intro hname hlength
    have hle := length_parseDnsQname_le (encode labels ++ 0 :: rest)
    rw [hname] at hle
    omega
  · intro hne
    have hle := h.length_le
    exact (h.decodesTo (by omega) rest).parseDnsQname

/-- The name `a-1.b_2`. -/
theorem legal_name_decoded_short :
    parseDnsQname (encode [cstr "a-1", cstr "b_2"] ++ 0 :: [0, 1, 0, 1]) =
        dotted [cstr "a-1", cstr "b_2"] ↔
      (dotted [cstr "a-1", cstr "b_2"]).length ≠ 253 := by
  refine legal_name_decoded_iff ⟨by decide, by decide, ?_, ?_, by decide⟩ _
  · intro label hlabel
    rcases List.mem_pair.mp hlabel with rfl | rfl
    all_goals exact ⟨by decide, by decide⟩
  · intro label hlabel
    rcases List.mem_pair.mp hlabel with rfl | rfl
    all_goals exact forall_mem_of_all (by decide)

/-- A label of `n` characters. -/
def plainLabel (n : ℕ) : Bytes := List.replicate n 'a'.toUInt8

theorem length_plainLabel (n : ℕ) : (plainLabel n).length = n := List.length_replicate

/-- Three labels of 63 characters and one of 61, which is a name of 253 characters. -/
def longestName : List Bytes := [plainLabel 63, plainLabel 63, plainLabel 63, plainLabel 61]

/-- The longest name is legal, and is not decoded. -/
theorem longest_name_rejected :
    LegalName longestName ∧ (dotted longestName).length = 253 ∧
      parseDnsQname (encode longestName ++ [0]) ≠ dotted longestName := by
  have hlength : (dotted longestName).length = 253 := by
    simp [dotted, longestName, length_plainLabel, List.intercalate_cons_cons,
      show (cstr ".").length = 1 from rfl]
  have hlabels : ∀ label ∈ longestName, label = plainLabel 63 ∨ label = plainLabel 61 := by
    intro label hlabel
    simpa [longestName] using hlabel
  refine ⟨⟨by decide, by decide, ?_, ?_, hlength.le⟩, hlength, ?_⟩
  · intro label hlabel
    rcases hlabels label hlabel with rfl | rfl
    all_goals simp [IsLabel, length_plainLabel]
  · intro label hlabel c hc
    have hchar : c = 'a'.toUInt8 := by
      rcases hlabels label hlabel with rfl | rfl
      all_goals exact List.eq_of_mem_replicate hc
    rw [hchar]
    decide
  · intro hname
    have hle := length_parseDnsQname_le (encode longestName ++ [0])
    rw [hname] at hle
    omega

/-! ## Labels with a dot -/

/-- The labels of the data up to the zero byte. -/
structure WireLabels (data : Bytes) (labels : List Bytes) : Prop where
  isLabel : ∀ label ∈ labels, IsLabel label
  terminated : ∃ rest, data = encode labels ++ 0 :: rest

theorem WireLabels.unique {data : Bytes} {labels labels' : List Bytes}
    (h : WireLabels data labels) (h' : WireLabels data labels') : labels = labels' := by
  obtain ⟨rest, hrest⟩ := h.terminated
  obtain ⟨rest', hrest'⟩ := h'.terminated
  exact encode_zero_inj h.isLabel h'.isLabel (hrest.symm.trans hrest')

/-- A name that is returned is the text of the labels on the wire. -/
theorem WireLabels.parseDnsQname_eq {data : Bytes} {labels : List Bytes}
    (h : WireLabels data labels) (hne : parseDnsQname data ≠ []) :
    labels ≠ [] ∧ parseDnsQname data = dotted labels := by
  obtain ⟨decoded, hdecodes, hname⟩ := decodesTo_of_parseDnsQname hne
  have hsame := h.unique ⟨hdecodes.isLabel, hdecodes.terminated⟩
  rw [← hsame] at hname
  refine ⟨?_, hname⟩
  intro hnil
  rw [hname, hnil] at hne
  exact hne rfl

theorem labels_dotted_iff {labels : List Bytes} (hne : labels ≠ []) :
    Redactor.labels (dotted labels) = labels ↔ ∀ label ∈ labels, '.'.toUInt8 ∉ label :=
  Separated.splitOn_intercalate_iff hne

/-- Splitting a name that was returned gives the labels on the wire exactly if none of them has a
dot; and among such labels no others give the same name. -/
theorem name_determines_labels_iff {data : Bytes} {labels : List Bytes}
    (hwire : WireLabels data labels) (hname : parseDnsQname data ≠ []) :
    (Redactor.labels (parseDnsQname data) = labels ↔ ∀ label ∈ labels, '.'.toUInt8 ∉ label) ∧
    ((∀ label ∈ labels, '.'.toUInt8 ∉ label) → ∀ data' labels', WireLabels data' labels' →
      parseDnsQname data' = parseDnsQname data → (∀ label ∈ labels', '.'.toUInt8 ∉ label) →
      labels' = labels) := by
  obtain ⟨hne, htext⟩ := hwire.parseDnsQname_eq hname
  have hsplit : Redactor.labels (parseDnsQname data) = labels ↔
      ∀ label ∈ labels, '.'.toUInt8 ∉ label := by
    rw [htext]
    exact labels_dotted_iff hne
  refine ⟨hsplit, fun hdot data' labels' hwire' hsame hdot' => ?_⟩
  obtain ⟨hne', htext'⟩ := hwire'.parseDnsQname_eq (hsame ▸ hname)
  calc labels'
    _ = Redactor.labels (dotted labels') := ((labels_dotted_iff hne').mpr hdot').symm
    _ = Redactor.labels (parseDnsQname data) := by rw [← htext', hsame]
    _ = labels := hsplit.mpr hdot

/-- The labels of `x.bank.example` on the wire. -/
def bankName : Bytes := [1] ++ cstr "x" ++ [4] ++ cstr "bank" ++ [7] ++ cstr "example" ++ [0]

theorem wireLabels_bankName : WireLabels bankName [cstr "x", cstr "bank", cstr "example"] := by
  refine ⟨?_, [], by decide⟩
  intro label hlabel
  simp only [List.mem_cons, List.not_mem_nil, or_false] at hlabel
  rcases hlabel with rfl | rfl | rfl
  all_goals exact ⟨by decide, by decide⟩

theorem name_determines_labels_bank :
    WireLabels bankName [cstr "x", cstr "bank", cstr "example"] ∧
      (Redactor.labels (parseDnsQname bankName) = [cstr "x", cstr "bank", cstr "example"] ↔
        ∀ label ∈ [cstr "x", cstr "bank", cstr "example"], '.'.toUInt8 ∉ label) :=
  ⟨wireLabels_bankName, (name_determines_labels_iff wireLabels_bankName (by decide)).1⟩

/-- One label `x.bank.example` and the three labels of that text give the same name, and only the
three are a name under `bank.example`. -/
theorem dotted_label_collides :
    WireLabels ([14] ++ cstr "x.bank.example" ++ [0]) [cstr "x.bank.example"] ∧
      WireLabels bankName [cstr "x", cstr "bank", cstr "example"] ∧
      parseDnsQname ([14] ++ cstr "x.bank.example" ++ [0]) = cstr "x.bank.example" ∧
      parseDnsQname bankName = cstr "x.bank.example" ∧
      ¬ [cstr "bank", cstr "example"] <:+ [cstr "x.bank.example"] ∧
      Redactor.domainExcluded { sensitiveDomains := [cstr "bank.example"] }
        (cstr "x.bank.example") = true := by
  refine ⟨⟨?_, [], by decide⟩, wireLabels_bankName, by decide, by decide, by decide, by decide⟩
  intro label hlabel
  rw [List.mem_singleton.mp hlabel]
  exact ⟨by decide, by decide⟩

end Ezcap.PacketParser
