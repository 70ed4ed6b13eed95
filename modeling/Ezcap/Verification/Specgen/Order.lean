import Ezcap.Model.Specgen
import Mathlib.Data.List.Pairwise

/-! The order in which endpoints are given does not matter: the comparator is total on the lists
that pass the duplicate check, so there is one sorted permutation of them. -/

namespace Ezcap.Specgen

open StdString

variable {a b c : EndpointDescriptor}

theorem Collide.symm (h : Collide a b) : Collide b a := ⟨h.1.symm, h.2.1.symm, h.2.2.symm⟩

instance : Std.Symm fun a b => ¬ Collide a b where
  symm _ _ hab hba := hab hba.symm

/-! ## The comparator -/

theorem precedes_iff :
    precedes a b = true ↔ a.ns < b.ns ∨ a.ns = b.ns ∧ (a.name < b.name ∨
      a.name = b.name ∧ a.version < b.version) := by
  unfold precedes
  by_cases hns : a.ns = b.ns
  · by_cases hname : a.name = b.name
    · simp [hns, hname, List.lt_irrefl]
    · simp [hns, hname, List.lt_irrefl]
  · simp [hns]

theorem precedes_trans (hab : precedes a b = true) (hbc : precedes b c = true) :
    precedes a c = true := by
  rw [precedes_iff] at hab hbc ⊢
  rcases hab with hns | ⟨hns, hab⟩
  · rcases hbc with hns' | ⟨hns', -⟩
    · exact .inl (List.lt_trans hns hns')
    · exact .inl (hns' ▸ hns)
  · rcases hbc with hns' | ⟨hns', hbc⟩
    · exact .inl (hns ▸ hns')
    · refine .inr ⟨hns.trans hns', ?_⟩
      rcases hab with hname | ⟨hname, hab⟩
      · rcases hbc with hname' | ⟨hname', -⟩
        · exact .inl (List.lt_trans hname hname')
        · exact .inl (hname' ▸ hname)
      · rcases hbc with hname' | ⟨hname', hbc⟩
        · exact .inl (hname ▸ hname')
        · exact .inr ⟨hname.trans hname', List.lt_trans hab hbc⟩

/-- Endpoints of which neither precedes the other collide. -/
theorem precedes_trichotomy (a b : EndpointDescriptor) :
    precedes a b = true ∨ Collide a b ∨ precedes b a = true := by
  rw [precedes_iff, precedes_iff]
  rcases Std.lt_trichotomy a.ns b.ns with hns | hns | hns
  · exact .inl (.inl hns)
  · rcases Std.lt_trichotomy a.name b.name with hname | hname | hname
    · exact .inl (.inr ⟨hns, .inl hname⟩)
    · rcases Std.lt_trichotomy a.version b.version with hversion | hversion | hversion
      · exact .inl (.inr ⟨hns, .inr ⟨hname, hversion⟩⟩)
      · exact .inr (.inl ⟨hns, hname, hversion⟩)
      · exact .inr (.inr (.inr ⟨hns.symm, .inr ⟨hname.symm, hversion⟩⟩))
    · exact .inr (.inr (.inr ⟨hns.symm, .inl hname⟩))
  · exact .inr (.inr (.inl hns))

theorem Collide.precedes_eq (h : Collide a b) : precedes c a = precedes c b := by
  simp only [precedes, h.1, h.2.1, h.2.2]

theorem precedes_irrefl (a : EndpointDescriptor) : precedes a a = false := by
  rw [← Bool.not_eq_true, precedes_iff]
  simp [List.lt_irrefl]

theorem not_precedes_trans (hab : precedes b a = false) (hbc : precedes c b = false) :
    precedes c a = false := by
  rw [Bool.eq_false_iff]
  intro hca
  rcases precedes_trichotomy a b with h | h | h
  · rw [precedes_trans hca h] at hbc
    cases hbc
  · rw [← h.precedes_eq, hca] at hbc
    cases hbc
  · rw [h] at hab
    cases hab

theorem sorts_mergeSort : Sorts (List.mergeSort · fun a b => !precedes b a) where
  perm endpoints := List.mergeSort_perm endpoints _
  sorted endpoints := by
    have hsorted := @List.pairwise_mergeSort _ (fun a b => !precedes b a) ?_ ?_ endpoints
    · simpa using hsorted
    · intro a b c hab hbc
      simp only [Bool.not_eq_true'] at hab hbc ⊢
      exact not_precedes_trans hab hbc
    · intro a b
      simp only [Bool.or_eq_true, Bool.not_eq_true']
      by_cases hab : precedes a b = true
      · refine .inl (Bool.eq_false_iff.mpr fun hba => ?_)
        have haa := precedes_trans hab hba
        rw [precedes_irrefl] at haa
        cases haa
      · exact .inr (Bool.eq_false_iff.mpr hab)

/-! ## Sorting and generation -/

section Perm

variable {sort : List EndpointDescriptor → List EndpointDescriptor} (hsort : Sorts sort)
  {endpoints endpoints' : List EndpointDescriptor} (hperm : endpoints.Perm endpoints')

theorem eq_of_collide (hdistinct : endpoints.Pairwise fun a b => ¬ Collide a b)
    (ha : a ∈ endpoints) (hb : b ∈ endpoints) (h : Collide a b) : a = b := by
  by_contra hne
  exact hdistinct.forall ha hb hne h

include hsort hperm

theorem sort_eq_of_perm (hdistinct : endpoints.Pairwise fun a b => ¬ Collide a b) :
    sort endpoints = sort endpoints' := by
  have hsorts := (hsort.perm endpoints).trans (hperm.trans (hsort.perm endpoints').symm)
  refine List.Perm.eq_of_pairwise ?_ (hsort.sorted endpoints) (hsort.sorted endpoints') hsorts
  intro a b ha hb hba hab
  have ha' := (hsort.perm endpoints).mem_iff.mp ha
  have hb' := hperm.mem_iff.mpr ((hsort.perm endpoints').mem_iff.mp hb)
  rcases precedes_trichotomy a b with h | h | h
  · rw [h] at hab
    cases hab
  · exact eq_of_collide hdistinct ha' hb' h
  · rw [h] at hba
    cases hba

omit hsort in
theorem checkEndpoints_perm : checkEndpoints endpoints = checkEndpoints endpoints' := by
  have hpairwise : (endpoints.Pairwise fun a b => ¬ Collide a b) ↔
      endpoints'.Pairwise fun a b => ¬ Collide a b :=
    hperm.pairwise_iff fun hab hba => hab hba.symm
  simp only [checkEndpoints, hperm.length_eq, hpairwise]

omit hsort hperm in
theorem distinct_of_checkEndpoints (h : checkEndpoints endpoints = .ok ()) :
    endpoints.Pairwise fun a b => ¬ Collide a b := by
  unfold checkEndpoints at h
  split_ifs at h
  assumption

/-- Whatever the order of the endpoints, generation ends in the same way, and with the same text. -/
theorem generate_perm (pretty : Json → Option Bytes) (format : Format)
    (context : GenerationContext) :
    generate sort pretty format endpoints context =
      generate sort pretty format endpoints' context := by
  have hcheck := checkEndpoints_perm hperm
  unfold generate
  rw [← hcheck]
  cases hresult : checkEndpoints endpoints with
  | error error => rfl
  | ok _ =>
      have hsame := sort_eq_of_perm hsort hperm (distinct_of_checkEndpoints hresult)
      cases format <;>
        simp only [emit, emitOpenApi31, emitAsyncApi2, emitJsonSchema, hsame]

end Perm

/-- An endpoint of the daemon. -/
def statusEndpoint : EndpointDescriptor where
  name := cstr "status"
  ns := cstr "ezcap"
  version := cstr "1.0"
  kind := cstr "operation"
  summary := cstr "Status"

/-- Two versions of an endpoint, in either order. -/
theorem generate_two_versions :
    let endpoints := [statusEndpoint, { statusEndpoint with version := cstr "1.1" }]
    checkEndpoints endpoints = .ok () ∧
      generate (List.mergeSort · fun a b => !precedes b a) JsonReference.lib.dump .openApi31
          endpoints ⟨cstr "first-party", cstr "0.1.0", 1⟩ =
        generate (List.mergeSort · fun a b => !precedes b a) JsonReference.lib.dump .openApi31
          endpoints.reverse ⟨cstr "first-party", cstr "0.1.0", 1⟩ :=
  ⟨by decide +kernel, generate_perm sorts_mergeSort (List.reverse_perm _).symm _ _ _⟩

end Ezcap.Specgen
