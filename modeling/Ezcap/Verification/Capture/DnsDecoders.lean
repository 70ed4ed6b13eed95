import Ezcap.Library.DnsName
import Ezcap.Model.Probes
import Ezcap.Verification.PacketParser.Noninterference

/-! The label decoders of the two capture backends, each described by the labels it accepts. -/

namespace Ezcap

open StdString DnsName

/-! ## The pcap backend -/

namespace PacketParser

theorem room_iff {out out' : Bytes} {ch : UInt8} :
    ¬ out.length ≥ 252 ∧ out ++ [ch] = out' ↔ out' = out ++ [ch] ∧ out'.length ≤ 252 := by
  constructor
  · rintro ⟨hroom, rfl⟩
    simp only [List.length_append, List.length_singleton, true_and]
    omega
  · rintro ⟨rfl, hlen⟩
    simp only [List.length_append, List.length_singleton] at hlen
    exact ⟨by omega, rfl⟩

theorem pushName_eq_some_iff {out out' : Bytes} {ch : UInt8} :
    pushName out ch = some out' ↔ out' = out ++ [ch] ∧ out'.length ≤ 252 := by
  rw [← room_iff, pushName, Option.ite_none_left_eq_some, Option.some.injEq]
  exact and_congr_left fun _ => by omega

theorem pushLabel_eq_some_iff {label out out' : Bytes} :
    pushLabel out label = some out' ↔
      out' = out ++ label ∧ (∀ c ∈ label, qnameChar c = true) ∧
        (label = [] ∨ out'.length ≤ 252) := by
  induction label generalizing out with
  | nil =>
      rw [pushLabel, Option.some.injEq, List.append_nil]
      exact ⟨fun h => ⟨h.symm, by simp, .inl rfl⟩, fun h => h.1.symm⟩
  | cons c label ih =>
      rw [pushLabel]
      constructor
      · intro h
        split at h
        · rename_i hc
          obtain ⟨grown, hpush, hrest⟩ := Option.bind_eq_some_iff.mp h
          obtain ⟨rfl, hlen⟩ := pushName_eq_some_iff.mp hpush
          obtain ⟨rfl, hchars, hbound⟩ := ih.mp hrest
          refine ⟨by simp, by simpa [hc] using hchars, .inr ?_⟩
          rcases hbound with rfl | hbound
          · simpa using hlen
          · exact hbound
        · cases h
      · rintro ⟨rfl, hchars, hbound⟩
        have hlen : (out ++ c :: label).length ≤ 252 := by simpa using hbound
        have hgrown : (out ++ [c]).length ≤ 252 := by
          simp only [List.length_append, List.length_cons, List.length_nil] at hlen ⊢
          omega
        rw [if_pos (hchars c (by simp)), pushName_eq_some_iff.mpr ⟨rfl, hgrown⟩, Option.bind_some]
        exact ih.mpr ⟨by simp, fun d hd => hchars d (by simp [hd]), .inr hlen⟩

theorem push_eq_some_iff {label out out' : Bytes} (hlabel : IsLabel label) :
    (pushDot out).bind (pushLabel · label) = some out' ↔
      out' = extend out label ∧ (∀ c ∈ label, qnameChar c = true) ∧ out'.length ≤ 252 := by
  have hne : label ≠ [] := List.ne_nil_of_length_pos hlabel.1
  by_cases hout : out = []
  · subst hout
    simp [pushDot, pushLabel_eq_some_iff, extend, hne]
  · rw [pushDot, if_pos hout, extend, if_neg hout]
    constructor
    · intro h
      obtain ⟨grown, hpush, hrest⟩ := Option.bind_eq_some_iff.mp h
      obtain ⟨rfl, -⟩ := pushName_eq_some_iff.mp hpush
      obtain ⟨rfl, hchars, hbound⟩ := pushLabel_eq_some_iff.mp hrest
      exact ⟨by simp, hchars, hbound.resolve_left hne⟩
    · rintro ⟨rfl, hchars, hlen⟩
      have hgrown : (out ++ ['.'.toUInt8]).length ≤ 252 := by
        simp only [List.length_append, List.length_cons, List.length_nil] at hlen ⊢
        omega
      rw [pushName_eq_some_iff.mpr ⟨rfl, hgrown⟩, Option.bind_some]
      exact pushLabel_eq_some_iff.mpr ⟨by simp, hchars, .inr hlen⟩

theorem qnameLoop_of_encode {data rest : Bytes} {labels : List Bytes}
    (hlabels : ∀ label ∈ labels, IsLabel label)
    (hchars : ∀ label ∈ labels, ∀ c ∈ label, qnameChar c = true) {i rounds : ℕ} {out : Bytes}
    (hdata : data.drop i = encode labels ++ 0 :: rest)
    (hlen : (labels.foldl extend out).length ≤ 252) (hrounds : labels.length < rounds) :
    qnameLoop data rounds i out = labels.foldl extend out := by
  induction labels generalizing i rounds out with
  | nil =>
      obtain ⟨hi, hzero⟩ := getD_of_drop hdata
      obtain ⟨rounds, rfl⟩ := Nat.exists_eq_add_of_lt hrounds
      exact qnameLoop_zero hi hzero
  | cons label labels ih =>
      have hlabel := hlabels label (by simp)
      rw [encode_cons_append] at hdata
      obtain ⟨hbyte, hend, hsubstr, hrest⟩ := at_label hlabel hdata
      obtain ⟨rounds, rfl⟩ := Nat.exists_eq_succ_of_ne_zero (Nat.ne_zero_of_lt hrounds)
      obtain ⟨hzero, hcheck⟩ := hlabel.length_byte hbyte
      have hpush := (push_eq_some_iff hlabel).mpr ⟨rfl, hchars label (by simp),
        (length_extend_le hlabels out).trans hlen⟩
      rw [qnameLoop_label rounds (by omega) hzero hcheck (by rw [hbyte, hsubstr]; exact hpush),
        hbyte]
      exact ih (fun l hl => hlabels l (by simp [hl])) (fun l hl => hchars l (by simp [hl])) hrest
        hlen (by simpa using hrounds)

/-- A name that was decoded stands in the data, label by label, up to its zero byte. -/
theorem encode_of_qnameLoop {data : Bytes} {rounds i : ℕ} {out : Bytes}
    (h : qnameLoop data rounds i out ≠ []) (hout : out.length ≤ 252) :
    ∃ labels rest, (∀ label ∈ labels, IsLabel label) ∧
      (∀ label ∈ labels, ∀ c ∈ label, qnameChar c = true) ∧
      data.drop i = encode labels ++ 0 :: rest ∧
      qnameLoop data rounds i out = labels.foldl extend out ∧
      (labels.foldl extend out).length ≤ 252 := by
  induction rounds generalizing i out with
  | zero => simp [qnameLoop] at h
  | succ rounds ih =>
      rcases qnameLoop_ne_nil h with ⟨hi, hzero⟩ | ⟨hend, hzero, hcheck, out', hpush⟩
      · refine ⟨[], data.drop (i + 1), by simp, by simp, ?_, qnameLoop_zero hi hzero, hout⟩
        rw [drop_eq_getD_cons hi, hzero]
        rfl
      · rw [length_check_iff, Nat.not_lt] at hcheck
        obtain ⟨hlabel, hdrop⟩ := label_at hzero hcheck hend
        obtain ⟨rfl, hchars, hlen⟩ := (push_eq_some_iff hlabel).mp hpush
        have hstep := qnameLoop_label rounds hend hzero
          (by rw [length_check_iff]; exact Nat.not_lt.mpr hcheck) hpush
        rw [hstep] at h
        obtain ⟨labels, rest, hlabels, hall, hdata, hresult, hbound⟩ := ih h hlen
        refine ⟨_ :: labels, rest, ?_, ?_, ?_, hstep.trans hresult, hbound⟩
        · exact List.forall_mem_cons.mpr ⟨hlabel, hlabels⟩
        · exact List.forall_mem_cons.mpr ⟨hchars, hall⟩
        · rw [encode_cons_append, ← hdata]
          exact hdrop

/-- A name on the wire that the pcap backend decodes. -/
structure DecodesTo (data : Bytes) (labels : List Bytes) : Prop where
  isLabel : ∀ label ∈ labels, IsLabel label
  chars : ∀ label ∈ labels, ∀ c ∈ label, qnameChar c = true
  terminated : ∃ rest, data = encode labels ++ 0 :: rest
  length_le : (dotted labels).length ≤ 252

theorem DecodesTo.parseDnsQname {data : Bytes} {labels : List Bytes}
    (h : DecodesTo data labels) : parseDnsQname data = dotted labels := by
  obtain ⟨rest, hdata⟩ := h.terminated
  have hcount : labels.length < 128 := by
    have htwo := two_mul_length_le h.isLabel
    have hle := h.length_le
    omega
  rw [PacketParser.parseDnsQname, ← foldl_extend_nil h.isLabel]
  exact qnameLoop_of_encode h.isLabel h.chars (i := 0) hdata
    (by rw [foldl_extend_nil h.isLabel]; exact h.length_le) hcount

theorem decodesTo_of_parseDnsQname {data : Bytes} (h : parseDnsQname data ≠ []) :
    ∃ labels, DecodesTo data labels ∧ parseDnsQname data = dotted labels := by
  obtain ⟨labels, rest, hlabels, hchars, hdata, hresult, hlen⟩ :=
    encode_of_qnameLoop h (by simp)
  rw [foldl_extend_nil hlabels] at hresult hlen
  exact ⟨labels, ⟨hlabels, hchars, ⟨rest, hdata⟩, hlen⟩, hresult⟩

end PacketParser

/-! ## The eBPF backend -/

namespace Ebpf

/-- The bytes that `copy_qname` may read. -/
def window (payload : ℕ → UInt8) (n : ℕ) : Bytes := (List.range n).map payload

@[simp] theorem length_window (payload : ℕ → UInt8) (n : ℕ) : (window payload n).length = n := by
  simp [window]

theorem getD_window {payload : ℕ → UInt8} {n i : ℕ} (h : i < n) :
    (window payload n).getD i 0 = payload i := by
  simp [window, h]

/-- A name on the wire that the kernel program copies: a zero byte ends it, or the end of what may
be read. -/
structure CopiesTo (data : Bytes) (labels : List Bytes) : Prop where
  isLabel : ∀ label ∈ labels, IsLabel label
  ended : ∃ tail, (∀ c ∈ tail.head?, c = 0) ∧ data = encode labels ++ tail
  length_le : (dotted labels).length ≤ 252

theorem pushQname_eq_ok_iff {out out' : Bytes} {ch : UInt8} :
    pushQname out ch = .ok out' ↔ out' = out ++ [ch] ∧ out'.length ≤ 252 := by
  have hmax : EZCAP_DNS_NAME_MAX - 1 = 252 := rfl
  rw [← PacketParser.room_iff, pushQname, hmax]
  split_ifs with hfull <;> simp [hfull]

section

variable {payload : ℕ → UInt8} {n : ℕ}

theorem copyLabel_eq_ok_iff {m k : ℕ} {out out' : Bytes} (hend : k + m ≤ n) :
    copyLabel payload n m k out = .ok out' ↔
      out' = out ++ substr (window payload n) k (some m) ∧ (m = 0 ∨ out'.length ≤ 252) := by
  induction m generalizing k out with
  | zero =>
      rw [copyLabel, Except.ok.injEq]
      simp [substr, eq_comm]
  | succ m ih =>
      have hsubstr : substr (window payload n) k (some (m + 1)) =
          payload k :: substr (window payload n) (k + 1) (some m) := by
        simp only [substr]
        rw [drop_eq_getD_cons (by simp; omega), getD_window (by omega), List.take_succ_cons]
      have hmax : EZCAP_DNS_NAME_MAX - 1 = 252 := rfl
      rw [copyLabel, hsubstr, hmax]
      by_cases hfull : out.length ≥ 252
      · rw [if_pos hfull]
        simp only [reduceCtorEq, false_iff, not_and, Nat.add_eq_zero_iff, one_ne_zero, and_false,
          false_or]
        rintro rfl
        simp only [List.length_append, List.length_cons]
        omega
      · rw [if_neg hfull, if_neg (by omega), ih (by omega), List.append_assoc, List.cons_append,
          List.nil_append]
        refine and_congr_right fun heq => ?_
        have hlen := congrArg List.length heq
        simp only [List.length_append, List.length_cons, substr, List.length_take, List.length_drop,
          length_window] at hlen
        constructor <;> omega

theorem copy_eq_ok_iff {m i : ℕ} {out out' : Bytes} (hpos : 0 < m) (hend : i + m ≤ n) :
    (pushSeparator out).bind (copyLabel payload n m i) = .ok out' ↔
      out' = extend out (substr (window payload n) i (some m)) ∧ out'.length ≤ 252 := by
  unfold pushSeparator extend
  by_cases hout : out = []
  · subst hout
    simp only [List.length_nil, gt_iff_lt, Nat.lt_irrefl, if_false, if_true, Except.bind]
    rw [copyLabel_eq_ok_iff hend]
    simp [hpos.ne']
  · rw [if_pos (List.length_pos_iff.mpr hout), if_neg hout, Except.bind_eq_ok_iff]
    constructor
    · rintro ⟨grown, hpush, hrest⟩
      obtain ⟨rfl, -⟩ := pushQname_eq_ok_iff.mp hpush
      obtain ⟨rfl, hbound⟩ := (copyLabel_eq_ok_iff hend).mp hrest
      exact ⟨by simp, hbound.resolve_left hpos.ne'⟩
    · rintro ⟨rfl, hlen⟩
      refine ⟨out ++ ['.'.toUInt8], pushQname_eq_ok_iff.mpr ⟨rfl, ?_⟩,
        (copyLabel_eq_ok_iff hend).mpr ⟨by simp, .inr hlen⟩⟩
      simp only [List.length_append, List.length_cons, List.length_nil] at hlen ⊢
      omega

theorem copyLabels_end {hops i : ℕ} {out : Bytes} (h : i < n → payload i = 0) :
    copyLabels payload n hops i out = .ok out := by
  cases hops with
  | zero => rfl
  | succ hops =>
      rw [copyLabels]
      split
      · rename_i hi
        exact if_pos (h hi)
      · rfl

theorem copyLabels_label {i : ℕ} {out grown : Bytes} (hops : ℕ)
    (hend : i + 1 + (payload i).toNat ≤ n) (hzero : payload i ≠ 0)
    (hcheck : ¬ (payload i &&& 0xC0 ≠ 0 ∨ payload i > 63))
    (hgrown : (pushSeparator out).bind (copyLabel payload n (payload i).toNat (i + 1)) =
      .ok grown) :
    copyLabels payload n (hops + 1) i out =
      copyLabels payload n hops (i + 1 + (payload i).toNat) grown := by
  obtain ⟨separated, hpush, hcopy⟩ := Except.bind_eq_ok_iff.mp hgrown
  simp only [copyLabels, if_pos (show i < n by omega), if_neg hzero, if_neg hcheck,
    if_neg (Nat.not_lt.mpr hend), hpush, hcopy, Except.bind]

theorem copyLabels_eq_ok {hops i : ℕ} {out out' : Bytes}
    (h : copyLabels payload n (hops + 1) i out = .ok out') :
    (i < n → payload i = 0) ∧ out' = out ∨
      i + 1 + (payload i).toNat ≤ n ∧ payload i ≠ 0 ∧
        ¬ (payload i &&& 0xC0 ≠ 0 ∨ payload i > 63) ∧
        ∃ grown, (pushSeparator out).bind (copyLabel payload n (payload i).toNat (i + 1)) =
            .ok grown ∧
          copyLabels payload n hops (i + 1 + (payload i).toNat) grown = .ok out' := by
  rw [copyLabels] at h
  dsimp only at h
  split_ifs at h with hi hzero hcheck htrunc
  · cases h
    exact .inl ⟨fun _ => hzero, rfl⟩
  · obtain ⟨separated, hpush, hrest⟩ := Except.bind_eq_ok_iff.mp h
    obtain ⟨grown, hcopy, hloop⟩ := Except.bind_eq_ok_iff.mp hrest
    exact .inr ⟨Nat.not_lt.mp htrunc, hzero, hcheck, grown,
      Except.bind_eq_ok_iff.mpr ⟨separated, hpush, hcopy⟩, hloop⟩
  · cases h
    exact .inl ⟨fun hlt => absurd hlt hi, rfl⟩

theorem copyLabels_of_encode {tail : Bytes} {labels : List Bytes}
    (hlabels : ∀ label ∈ labels, IsLabel label) (htail : ∀ c ∈ tail.head?, c = 0)
    {i hops : ℕ} {out : Bytes} (hdata : (window payload n).drop i = encode labels ++ tail)
    (hlen : (labels.foldl extend out).length ≤ 252) (hhops : labels.length < hops) :
    copyLabels payload n hops i out = .ok (labels.foldl extend out) := by
  induction labels generalizing i hops out with
  | nil =>
      apply copyLabels_end
      intro hi
      rw [drop_eq_getD_cons (by simpa using hi), getD_window hi] at hdata
      rw [encode_nil, List.nil_append] at hdata
      exact htail _ (by rw [← hdata]; rfl)
  | cons label labels ih =>
      have hlabel := hlabels label (by simp)
      rw [encode_cons_append] at hdata
      obtain ⟨hbyte, hend, hsubstr, hrest⟩ := at_label hlabel hdata
      rw [length_window] at hend
      rw [getD_window (by omega)] at hbyte
      obtain ⟨hops, rfl⟩ := Nat.exists_eq_succ_of_ne_zero (Nat.ne_zero_of_lt hhops)
      obtain ⟨hzero, hcheck⟩ := hlabel.length_byte hbyte
      have hgrown : (pushSeparator out).bind (copyLabel payload n (payload i).toNat (i + 1)) =
          .ok (extend out label) := by
        rw [hbyte, copy_eq_ok_iff hlabel.1 hend, hsubstr]
        exact ⟨rfl, (length_extend_le hlabels out).trans hlen⟩
      rw [copyLabels_label hops (by omega) hzero hcheck hgrown, hbyte]
      exact ih (fun l hl => hlabels l (by simp [hl])) hrest hlen (by simpa using hhops)

/-- A name that was accepted stands in the window, label by label. The limit of 128 labels is
never reached: each round adds two bytes to a name of at most 252. -/
theorem encode_of_copyLabels {hops i : ℕ} {out out' : Bytes}
    (h : copyLabels payload n hops i out = .ok out') (hi : i ≤ n) (hout : out.length ≤ 252)
    (hhops : 252 < out.length + 2 * hops) (hstart : out = [] → 253 < 2 * hops) :
    ∃ labels tail, (∀ label ∈ labels, IsLabel label) ∧ (∀ c ∈ tail.head?, c = 0) ∧
      (window payload n).drop i = encode labels ++ tail ∧
      out' = labels.foldl extend out ∧ out'.length ≤ 252 := by
  induction hops generalizing i out with
  | zero => omega
  | succ hops ih =>
      rcases copyLabels_eq_ok h with ⟨hstop, rfl⟩ | ⟨hend, hzero, hcheck, grown, hgrown, hloop⟩
      · refine ⟨[], (window payload n).drop i, by simp, ?_, rfl, rfl, hout⟩
        intro c hc
        by_cases hlt : i < n
        · rw [drop_eq_getD_cons (by simpa using hlt), getD_window hlt, List.head?_cons,
            Option.mem_def, Option.some.injEq] at hc
          rw [← hc, hstop hlt]
        · rw [List.drop_eq_nil_of_le (by simp; omega)] at hc
          cases hc
      · have hbyte : (window payload n).getD i 0 = payload i := getD_window (by omega)
        rw [length_check_iff, Nat.not_lt] at hcheck
        rw [← hbyte] at hend hzero hcheck hgrown hloop
        obtain ⟨hlabel, hdrop⟩ := label_at hzero hcheck (by simpa using hend)
        have hpos : 0 < ((window payload n).getD i 0).toNat := by
          rw [Nat.pos_iff_ne_zero]
          exact fun hnil => hzero (UInt8.toNat_inj.mp hnil)
        obtain ⟨rfl, hlen⟩ := (copy_eq_ok_iff hpos hend).mp hgrown
        have hlength := length_extend out
          (substr (window payload n) (i + 1) (some ((window payload n).getD i 0).toNat))
        have hgain := hlabel.1
        have hnext : 252 < (extend out (substr (window payload n) (i + 1)
            (some ((window payload n).getD i 0).toNat))).length + 2 * hops := by
          by_cases hnil : out = []
          · have := hstart hnil
            rw [if_pos hnil] at hlength
            omega
          · rw [if_neg hnil] at hlength
            omega
        obtain ⟨labels, tail, hlabels, htail, hdata, rfl, hbound⟩ := ih hloop hend hlen hnext
          fun hnil => absurd hnil (extend_ne_nil out hlabel)
        refine ⟨_ :: labels, tail, List.forall_mem_cons.mpr ⟨hlabel, hlabels⟩, htail, ?_, rfl,
          hbound⟩
        rw [encode_cons_append, ← hdata]
        exact hdrop

theorem copyQname_eq_ok_iff {out : Bytes} :
    copyQname payload n = .ok out ↔
      ∃ labels, CopiesTo (window payload n) labels ∧ out = dotted labels := by
  constructor
  · intro h
    obtain ⟨labels, tail, hlabels, htail, hdata, rfl, hlen⟩ :=
      encode_of_copyLabels h (Nat.zero_le n) (by simp) (by simp) (by simp)
    rw [foldl_extend_nil hlabels] at hlen
    exact ⟨labels, ⟨hlabels, ⟨tail, htail, hdata⟩, hlen⟩, foldl_extend_nil hlabels⟩
  · rintro ⟨labels, ⟨hlabels, ⟨tail, htail, hdata⟩, hlen⟩, rfl⟩
    have hcount : labels.length < 128 := by
      have htwo := two_mul_length_le hlabels
      omega
    rw [← foldl_extend_nil hlabels] at hlen ⊢
    exact copyLabels_of_encode hlabels htail (i := 0) hdata hlen hcount

end

end Ebpf

end Ezcap
