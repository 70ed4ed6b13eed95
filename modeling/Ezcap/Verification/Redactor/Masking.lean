import Ezcap.Verification.Redactor.Equations

/-! Masked hosts. What a mask shows is the first character, the length, and the end from the
second-to-last dot on; a host without a dot is not masked at all. -/

namespace Ezcap.Redactor

open StdString

/-! ## Where the mask ends -/

/-- The second-to-last dot, or the only one. -/
def tailStart (host : Bytes) : Option ℕ :=
  match (places host '.'.toUInt8).reverse with
  | [] => none
  | [only] => some only
  | _ :: second :: _ => some second

/-- The end of a host from its second-to-last dot on, or from its only dot on. -/
def shownTail (host : Bytes) : Bytes := (tailStart host).elim [] host.drop

/-- The two searches of the source find that dot. -/
theorem maskEnd_eq_tailStart (host : Bytes) : maskEnd host = tailStart host := by
  have hsorted := List.pairwise_reverse.mpr (pairwise_places host '.'.toUInt8)
  have hlength (i : ℕ) (hi : i ∈ (places host '.'.toUInt8).reverse) : i ≤ host.length :=
    (List.getElem?_eq_some_iff.mp (mem_places.mp (List.mem_reverse.mp hi))).1.le
  simp only [maskEnd, tailStart, findLastOf_eq_find?]
  generalize (places host '.'.toUInt8).reverse = dots at hsorted hlength
  match dots, hsorted with
  | [], _ => rfl
  | [only], _ =>
      have hfound : only ≤ host.length := hlength only (by simp)
      simp only [List.find?_cons, hfound, decide_true, List.find?_nil]
      -- a dot at the beginning is found again, since the place before it wraps
      cases decide (only ≤ sizePred only) <;> rfl
  | last :: second :: dots, hsorted =>
      have hlt : second < last := (List.pairwise_cons.mp hsorted).1 second (by simp)
      have hlast : last ≤ host.length := hlength last (by simp)
      have hsize : sizePred last = last - 1 := if_neg (Nat.ne_of_gt (Nat.zero_lt_of_lt hlt))
      have hpassed : ¬ last ≤ last - 1 := by omega
      have hfound : second ≤ last - 1 := by omega
      simp only [List.find?_cons, hlast, hsize, hpassed, hfound, decide_true, decide_false]

section MaskEnd

variable {host : Bytes} {stop : ℕ}

theorem maskEnd_getElem? (h : maskEnd host = some stop) : host[stop]? = some '.'.toUInt8 := by
  rw [maskEnd_eq_tailStart, tailStart] at h
  rw [← mem_places, ← List.mem_reverse]
  split at h
  · cases h
  · rename_i hdots
    cases h
    simp [hdots]
  · rename_i hdots
    cases h
    simp [hdots]

theorem maskEnd_eq_none_iff : maskEnd host = none ↔ '.'.toUInt8 ∉ host := by
  rw [maskEnd_eq_tailStart, tailStart]
  constructor
  · intro h hdot
    obtain ⟨i, hi⟩ := List.mem_iff_getElem?.mp hdot
    have hmem := List.mem_reverse.mpr (mem_places.mpr hi)
    split at h
    · rename_i hdots
      simp [hdots] at hmem
    · cases h
    · cases h
  · intro hdot
    have hplaces : places host '.'.toUInt8 = [] := by
      rw [List.eq_nil_iff_forall_not_mem]
      intro i hi
      exact hdot (List.mem_of_getElem? (mem_places.mp hi))
    rw [hplaces]
    rfl

theorem exists_maskEnd (h : '.'.toUInt8 ∈ host) : ∃ stop, maskEnd host = some stop := by
  cases hstop : maskEnd host with
  | none => exact absurd h (maskEnd_eq_none_iff.mp hstop)
  | some stop => exact ⟨stop, rfl⟩

theorem shownTail_of_maskEnd (h : maskEnd host = some stop) : shownTail host = host.drop stop := by
  rw [shownTail, ← maskEnd_eq_tailStart, h, Option.elim_some]

theorem shownTail_eq_nil_iff : shownTail host = [] ↔ '.'.toUInt8 ∉ host := by
  cases hstop : maskEnd host with
  | none =>
      rw [shownTail, ← maskEnd_eq_tailStart, hstop, Option.elim_none]
      exact iff_of_true rfl (maskEnd_eq_none_iff.mp hstop)
  | some stop =>
      have hdot := maskEnd_getElem? hstop
      rw [shownTail_of_maskEnd hstop, List.drop_eq_nil_iff]
      refine iff_of_false ?_ (not_not_intro (List.mem_of_getElem? hdot))
      exact (List.getElem?_eq_some_iff.mp hdot).1.not_ge

theorem maskHostname_of_notMem (h : '.'.toUInt8 ∉ host) : maskHostname host = host := by
  rw [maskHostname, maskEnd_eq_none_iff.mpr h]

theorem maskHostname_of_maskEnd (h : maskEnd host = some stop) :
    maskHostname host =
      host.take (min stop 1) ++ List.replicate (stop - 1) '*'.toUInt8 ++ host.drop stop := by
  rw [maskHostname, h]
  by_cases hstop : stop > 1
  · simp only [hstop, if_true, Nat.min_eq_right hstop.le]
  · have hle : stop ≤ 1 := Nat.le_of_not_lt hstop
    simp only [hstop, if_false, Nat.min_eq_left hle, Nat.sub_eq_zero_of_le hle,
      List.replicate_zero, List.append_nil, List.take_append_drop]

end MaskEnd

/-! ## What is shown -/

section Shown

variable {host host' : Bytes} (hlength : host.length = host'.length)
  (hhead : host.head? = host'.head?) (htail : shownTail host = shownTail host')

include hlength hhead htail

theorem maskHostname_eq (hdot : '.'.toUInt8 ∈ host) : maskHostname host = maskHostname host' := by
  have hdot' : '.'.toUInt8 ∈ host' := by
    by_contra hno
    rw [shownTail_eq_nil_iff.mpr hno, shownTail_eq_nil_iff] at htail
    exact htail hdot
  obtain ⟨stop, hstop⟩ := exists_maskEnd hdot
  obtain ⟨stop', hstop'⟩ := exists_maskEnd hdot'
  rw [shownTail_of_maskEnd hstop, shownTail_of_maskEnd hstop'] at htail
  obtain rfl : stop = stop' := by
    have hlt := (List.getElem?_eq_some_iff.mp (maskEnd_getElem? hstop)).1
    have hlt' := (List.getElem?_eq_some_iff.mp (maskEnd_getElem? hstop')).1
    have hdrop := congrArg List.length htail
    rw [List.length_drop, List.length_drop] at hdrop
    omega
  have htake : host.take 1 = host'.take 1 := by
    rw [List.take_one, List.take_one, hhead]
  have hfirst : host.take (min stop 1) = host'.take (min stop 1) := by
    rw [← List.take_take, htake, List.take_take]
  rw [maskHostname_of_maskEnd hstop, maskHostname_of_maskEnd hstop', htail, hfirst]

theorem maskHostname_eq_iff :
    maskHostname host = maskHostname host' ↔ '.'.toUInt8 ∈ host ∨ host = host' := by
  constructor
  · intro h
    by_cases hdot : '.'.toUInt8 ∈ host
    · exact .inl hdot
    · have hdot' : '.'.toUInt8 ∉ host' := by
        rw [← shownTail_eq_nil_iff, ← htail, shownTail_eq_nil_iff]
        exact hdot
      rw [maskHostname_of_notMem hdot, maskHostname_of_notMem hdot'] at h
      exact .inr h
  · rintro (hdot | rfl)
    · exact maskHostname_eq hlength hhead htail hdot
    · rfl

end Shown

theorem redactDnsName_fst (policy : Policy) (name : Bytes) :
    (redactDnsName policy name).1 =
      if name = [] ∨ domainExcluded policy name = true then []
      else transformHostname policy name := by
  unfold redactDnsName transformHostname
  by_cases hname : name = []
  · simp [hname]
  · by_cases hexcluded : domainExcluded policy name = true
    · simp [hname, hexcluded]
    · simp only [hname, hexcluded, if_false, or_false, Bool.false_eq_true]
      cases policy.redactionMode <;> rfl

theorem redactDnsName_of_mask {policy : Policy} (hmode : policy.redactionMode = .domainMask)
    {host : Bytes} (h : domainExcluded policy host = false) :
    (redactDnsName policy host).1 = maskHostname host := by
  rw [redactDnsName_fst, h, transformHostname, hmode]
  by_cases hhost : host = []
  · subst hhost
    rfl
  · simp [hhost]

/-- Of two hosts that agree in what a mask may show, the mask makes the same text exactly if they
have a dot, or are the same. -/
theorem mask_hides_interior_iff (policy : Policy) (hmode : policy.redactionMode = .domainMask)
    (host host' : Bytes) (hkept : domainExcluded policy host = false)
    (hkept' : domainExcluded policy host' = false) (hlength : host.length = host'.length)
    (hhead : host.head? = host'.head?) (htail : shownTail host = shownTail host') :
    (redactDnsName policy host).1 = (redactDnsName policy host').1 ↔
      '.'.toUInt8 ∈ host ∨ host = host' := by
  rw [redactDnsName_of_mask hmode hkept, redactDnsName_of_mask hmode hkept']
  exact maskHostname_eq_iff hlength hhead htail

/-- Three labels or four before the same end. -/
theorem masked_names_agree :
    (redactDnsName { redactionMode := .domainMask } (cstr "abc.example.org")).1 =
      (redactDnsName { redactionMode := .domainMask } (cstr "a.b.example.org")).1 :=
  (mask_hides_interior_iff { redactionMode := .domainMask } rfl (cstr "abc.example.org")
    (cstr "a.b.example.org") rfl rfl rfl rfl (by decide)).mpr (.inl (by decide))

/-- A host without a dot is shown in full. -/
theorem dotless_host_shown :
    let policy : Policy := { redactionMode := .domainMask }
    let host := cstr "localhost"
    let host' := cstr "lancaster"
    domainExcluded policy host = false ∧ domainExcluded policy host' = false ∧
      host.length = host'.length ∧ host.head? = host'.head? ∧ shownTail host = shownTail host' ∧
      (redactDnsName policy host).1 = host ∧ (redactDnsName policy host').1 = host' ∧
      host ≠ host' := by
  decide

end Ezcap.Redactor
