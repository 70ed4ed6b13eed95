import Ezcap.Library.Lines
import Ezcap.Model.Specgen
import Ezcap.Verification.Specgen.Conformance

/-! The names that are made of a validated endpoint: which of them tell endpoints apart. -/

namespace Ezcap.Specgen

open StdString Lines Protocol

/-! ## Validated endpoints -/

/-- The endpoint comes of a descriptor that was accepted. -/
def Validated (endpoint : EndpointDescriptor) : Prop :=
  ∃ doc, parseEndpointDescriptor doc = .ok endpoint

theorem notMem_of_isEndpointName {s : Bytes} (h : IsEndpointName s) :
    '/'.toUInt8 ∉ s ∧ '.'.toUInt8 ∉ s ∧ '#'.toUInt8 ∉ s :=
  ⟨fun hmem => absurd (h.2.2 _ hmem) (by decide), fun hmem => absurd (h.2.2 _ hmem) (by decide),
    fun hmem => absurd (h.2.2 _ hmem) (by decide)⟩

theorem notMem_of_isVersion {s : Bytes} (h : IsVersion s) :
    '/'.toUInt8 ∉ s ∧ '#'.toUInt8 ∉ s :=
  ⟨fun hmem => DottedNumber.not_allDigits_groups hmem (by decide) (by decide) h.1,
    fun hmem => DottedNumber.not_allDigits_groups hmem (by decide) (by decide) h.1⟩

/-- What the checks leave of the texts that names are made of. -/
structure Plain (endpoint : EndpointDescriptor) : Prop where
  ns : '/'.toUInt8 ∉ endpoint.ns ∧ '.'.toUInt8 ∉ endpoint.ns ∧ '#'.toUInt8 ∉ endpoint.ns
  name : '/'.toUInt8 ∉ endpoint.name ∧ '.'.toUInt8 ∉ endpoint.name ∧ '#'.toUInt8 ∉ endpoint.name
  version : '/'.toUInt8 ∉ endpoint.version ∧ '#'.toUInt8 ∉ endpoint.version

theorem Validated.plain {endpoint : EndpointDescriptor} (h : Validated endpoint) :
    Plain endpoint := by
  obtain ⟨doc, h⟩ := h
  obtain ⟨_, hvalid, rfl⟩ := Except.map_eq_ok_iff.mp h
  have haccepted := validateEndpointDescriptor_iff.mp hvalid
  exact ⟨notMem_of_isEndpointName (textOf_of_required haccepted.ns).1,
    notMem_of_isEndpointName (textOf_of_required haccepted.name),
    notMem_of_isVersion (textOf_of_required haccepted.version)⟩

/-! ## Names -/

section Names

variable {a b : EndpointDescriptor}

theorem Plain.split_channelOf (h : Plain a) :
    split '/'.toUInt8 (channelOf a) = ([a.ns, a.name], cstr "v" ++ a.version) := by
  have hchannel : channelOf a =
      a.ns ++ '/'.toUInt8 :: (a.name ++ '/'.toUInt8 :: (cstr "v" ++ a.version)) := by
    have hslash : cstr "/" = ['/'.toUInt8] := rfl
    have hv : cstr "/v" = '/'.toUInt8 :: cstr "v" := rfl
    simp [channelOf, hslash, hv]
  have hlast : '/'.toUInt8 ∉ cstr "v" ++ a.version := by
    rw [List.mem_append, not_or]
    exact ⟨by decide, h.version.1⟩
  rw [hchannel, split_record h.ns.1, split_record h.name.1, split_of_notMem hlast]

theorem channelOf_inj (ha : Plain a) (hb : Plain b) :
    channelOf a = channelOf b ↔ Collide a b := by
  constructor
  · intro h
    have hsplit := ha.split_channelOf
    rw [h, hb.split_channelOf] at hsplit
    simp only [Prod.mk.injEq, List.cons.injEq, List.append_cancel_left_eq, and_true] at hsplit
    exact ⟨hsplit.1.1.symm, hsplit.1.2.symm, hsplit.2.symm⟩
  · rintro ⟨hns, hname, hversion⟩
    rw [channelOf, channelOf, hns, hname, hversion]

theorem pathOf_inj (ha : Plain a) (hb : Plain b) : pathOf a = pathOf b ↔ Collide a b := by
  have hpath (e : EndpointDescriptor) : pathOf e = cstr "/" ++ channelOf e := by
    simp [pathOf, channelOf]
  rw [hpath, hpath, List.append_right_inj, channelOf_inj ha hb]

/-- The mark of a stream makes no path of another endpoint. -/
theorem Plain.pathOf_ne (h : Plain a) : pathOf a ≠ pathOf b ++ cstr "#stream" := by
  intro heq
  have hhash : '#'.toUInt8 ∈ pathOf a := by
    rw [heq]
    exact List.mem_append_right _ (by decide)
  have hplain : ∀ text ∈ [cstr "/", cstr "/v"], '#'.toUInt8 ∉ text := by decide
  simp only [List.mem_cons, List.not_mem_nil, or_false, forall_eq_or_imp, forall_eq] at hplain
  simp only [pathOf, List.mem_append, h.ns.2.2, h.name.2.2, h.version.2, hplain.1, hplain.2,
    or_false] at hhash

theorem operationIdOf_inj (ha : Plain a) (hb : Plain b) :
    operationIdOf a = operationIdOf b ↔ a.ns = b.ns ∧ a.name = b.name := by
  have hsplit {e : EndpointDescriptor} (he : Plain e) :
      split '.'.toUInt8 (operationIdOf e) = ([e.ns], e.name) := by
    have hdot : cstr "." = ['.'.toUInt8] := rfl
    rw [operationIdOf, hdot, List.append_assoc, List.singleton_append, split_record he.ns.2.1,
      split_of_notMem he.name.2.1]
  constructor
  · intro h
    have hsame := hsplit ha
    rw [h, hsplit hb] at hsame
    simp only [Prod.mk.injEq, List.cons.injEq, and_true] at hsame
    exact ⟨hsame.1.symm, hsame.2.symm⟩
  · rintro ⟨hns, hname⟩
    rw [operationIdOf, operationIdOf, hns, hname]

theorem requestName_inj : requestName a = requestName b ↔ baseName a = baseName b :=
  List.append_left_inj _

theorem responseName_inj : responseName a = responseName b ↔ baseName a = baseName b :=
  List.append_left_inj _

theorem requestName_ne_responseName : requestName a ≠ responseName b := by
  intro h
  have hlast := congrArg List.getLast? h
  rw [requestName, responseName, List.getLast?_append_of_ne_nil, List.getLast?_append_of_ne_nil]
    at hlast
  · revert hlast
    decide
  · decide
  · decide

theorem Plain.slash_notMem_baseName (h : Plain a) : '/'.toUInt8 ∉ baseName a := by
  simp only [baseName, List.mem_append, not_or]
  exact ⟨⟨h.ns.1, by decide⟩, h.name.1⟩

theorem Plain.slash_notMem_requestName (h : Plain a) : '/'.toUInt8 ∉ requestName a := by
  rw [requestName, List.mem_append, not_or]
  exact ⟨h.slash_notMem_baseName, by decide⟩

theorem Plain.slash_notMem_responseName (h : Plain a) : '/'.toUInt8 ∉ responseName a := by
  rw [responseName, List.mem_append, not_or]
  exact ⟨h.slash_notMem_baseName, by decide⟩

end Names

end Ezcap.Specgen
