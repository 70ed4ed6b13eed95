import Ezcap.Verification.Redactor.Exclusion

/-! Hosts and the entries they are under: an order up to ASCII case, and hosts that the
entries of a given list cannot reach. -/

namespace Ezcap.Redactor

open StdString

theorem Under.refl (host : Bytes) : Under host host := .inl rfl

theorem Under.trans {host d d' : Bytes} (h : Under host d) (h' : Under d d') : Under host d' := by
  rcases h with h | h
  · rwa [Under, h]
  · rcases h' with h' | h'
    · exact .inr (h' ▸ h)
    · exact .inr (h'.trans ((List.suffix_cons _ _).trans h))

theorem mem_of_under {host d : Bytes} {c : UInt8} (hc : c < 'A'.toUInt8) (h : Under host d)
    (hmem : c ∈ d) : c ∈ host := by
  have hlower : c ∈ toLower d := (mem_toLower hc).mpr hmem
  rcases h with h | h
  · exact (mem_toLower hc).mp (h ▸ hlower)
  · exact (mem_toLower hc).mp (h.subset (List.mem_cons_of_mem _ hlower))

theorem domainExcluded_iff_under (policy : Policy) (host : Bytes) :
    domainExcluded policy host = true ↔ ∃ d ∈ policy.sensitiveDomains, Under host d :=
  domainExcluded_iff policy host

/-! ## Hosts that no entry matches -/

/-- Text longer than every entry of a list, which no entry can reach behind. -/
def filler (ds : List Bytes) : Bytes := List.replicate (ds.flatten.length + 1) 'x'.toUInt8

theorem length_lt_filler {ds : List Bytes} {d : Bytes} (hd : d ∈ ds) :
    d.length < (filler ds).length := by
  have hle := (List.sublist_flatten_of_mem hd).length_le
  rw [filler, List.length_replicate]
  omega

theorem toLower_filler (ds : List Bytes) : toLower (filler ds) = filler ds := by
  rw [filler, toLower, List.map_replicate]
  rfl

theorem dot_notMem_filler (ds : List Bytes) : '.'.toUInt8 ∉ filler ds := by
  intro h
  exact absurd (List.eq_of_mem_replicate h) (by decide)

theorem length_toLower (s : Bytes) : (toLower s).length = s.length := List.length_map ..

/-- Nothing that ends with the filler of a list is under one of its entries. -/
theorem not_under_filler {ds : List Bytes} {d : Bytes} (hd : d ∈ ds) (s : Bytes) :
    ¬ Under (s ++ filler ds) d := by
  have hlength := length_lt_filler hd
  rw [Under, toLower_append, toLower_filler]
  rintro (h | h)
  · have := congrArg List.length h
    simp only [List.length_append, length_toLower] at this
    omega
  · have hsuffix := List.suffix_of_suffix_length_le h (List.suffix_append _ _)
      (by simpa [length_toLower, Nat.succ_le_iff] using hlength)
    exact dot_notMem_filler ds (hsuffix.subset List.mem_cons_self)

/-- With the filler before `d`, an entry that covers the whole covers `d`. -/
theorem under_of_under_filler {ds : List Bytes} {d d' : Bytes} (hd' : d' ∈ ds)
    (h : Under (filler ds ++ '.'.toUInt8 :: d) d') : Under d d' := by
  have hlength := length_lt_filler hd'
  rw [Under, toLower_append, toLower_filler, toLower_cons, lowerChar_of_lt (by decide)] at h
  rcases h with h | h
  · have := congrArg List.length h
    simp only [List.length_append, length_toLower] at this
    omega
  · have hd : '.'.toUInt8 :: toLower d <:+ filler ds ++ '.'.toUInt8 :: toLower d :=
      List.suffix_append _ _
    rcases List.suffix_or_suffix_of_suffix h hd with hs | ⟨t, ht⟩
    · rcases List.suffix_cons_iff.mp hs with heq | hs
      · exact .inl (List.tail_eq_of_cons_eq heq).symm
      · exact .inr hs
    · cases t with
      | nil => exact .inl (List.tail_eq_of_cons_eq ht)
      | cons c t =>
          -- the entry would have to reach into the filler with its dot
          obtain ⟨u, hu⟩ := h
          rw [← ht, ← List.append_assoc, List.append_left_inj] at hu
          obtain rfl : c = '.'.toUInt8 := List.head_eq_of_cons_eq ht
          exact absurd (hu ▸ by simp : '.'.toUInt8 ∈ filler ds) (dot_notMem_filler ds)

end Ezcap.Redactor
