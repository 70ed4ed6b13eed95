import Ezcap.Verification.Redactor.Equations

/-! Hostname-only mode. The source cuts the URL at a slash, after it has stripped the fragment and
the query if it is told to, so what it makes of a URL without a path depends on the two flags. -/

namespace Ezcap.Redactor

open StdString

section HostnameOnly

variable {policy : Policy} {scheme authority rest : Bytes}

/-- Of the text behind the authority nothing is left exactly if it starts with a slash or with a
sign that is stripped. -/
theorem takeWhile_stripUrl_eq_nil_iff (hrest : ∀ c ∈ rest.head?, c ∈ cstr "/?#") :
    (stripUrl policy rest).1.takeWhile (· ≠ '/'.toUInt8) = [] ↔
      (rest.head? = some '?'.toUInt8 → policy.stripQueryString = true) ∧
      (rest.head? = some '#'.toUInt8 → policy.stripFragment = true) := by
  have hslash (s : Bytes) : s.takeWhile (· ≠ '/'.toUInt8) = [] ↔
      ∀ c ∈ s.head?, c = '/'.toUInt8 := by
    cases s with
    | nil => simp
    | cons c s => by_cases hc : c = '/'.toUInt8 <;> simp [hc]
  rw [stripUrl_fst, hslash, head?_cutBefore, head?_cutBefore]
  cases hhead : rest.head? with
  | none => simp
  | some c =>
      have hc : c = '/'.toUInt8 ∨ c = '?'.toUInt8 ∨ c = '#'.toUInt8 := by
        have hmem := hrest c hhead
        rw [show cstr "/?#" = ['/'.toUInt8, '?'.toUInt8, '#'.toUInt8] from rfl] at hmem
        simpa using hmem
      rcases hc with rfl | rfl | rfl
      · simp +decide
      · cases policy.stripQueryString <;> simp +decide
      · cases policy.stripFragment <;> simp +decide

theorem transformUrl_hostnameOnly (hmode : policy.redactionMode = .hostnameOnly)
    (hscheme : ':'.toUInt8 ∉ scheme) (rest : Bytes) :
    (transformUrl policy (scheme ++ (cstr "://" ++ rest))).1 =
      (stripUrl policy (scheme ++ (cstr "://" ++ rest))).1.take (scheme.length + 3) ++
        ((stripUrl policy (scheme ++ (cstr "://" ++ rest))).1.drop (scheme.length + 3)).takeWhile
          (· ≠ '/'.toUInt8) := by
  have hfound : (findSub (cstr "://") (scheme ++ (cstr "://" ++ rest))).isSome = true := by
    rw [findSub_append _ (by rfl) hscheme, Option.isSome_some]
  rw [transformUrl_fst, if_pos ⟨hfound, hmode⟩, hostStart_append hscheme]

/-- Where the two strips leave the scheme alone, the scheme and the authority are kept. -/
theorem transformUrl_of_not_cutsInto (hmode : policy.redactionMode = .hostnameOnly)
    (hscheme : ':'.toUInt8 ∉ scheme) (hauthority : ∀ c ∈ authority, c ∉ cstr "/?#")
    (hcut : ¬ CutsInto policy scheme) (rest : Bytes) :
    (transformUrl policy (scheme ++ (cstr "://" ++ (authority ++ rest)))).1 =
      scheme ++ (cstr "://" ++
        (authority ++ (stripUrl policy rest).1.takeWhile (· ≠ '/'.toUInt8))) := by
  have hslash : ∀ c ∈ authority, decide (c ≠ '/'.toUInt8) = true := by
    intro c hc
    rw [decide_eq_true_eq]
    rintro rfl
    exact hauthority _ hc (by decide)
  have hseparator : ¬ CutsInto policy (cstr "://") := by
    rintro (⟨-, hmem⟩ | ⟨-, hmem⟩)
    · exact absurd hmem (by decide)
    · exact absurd hmem (by decide)
  have hhost : ¬ CutsInto policy authority := by
    rintro (⟨-, hmem⟩ | ⟨-, hmem⟩)
    · exact hauthority _ hmem (by decide)
    · exact hauthority _ hmem (by decide)
  have hlength : (scheme ++ cstr "://").length = scheme.length + 3 := by
    rw [List.length_append]
    rfl
  rw [transformUrl_hostnameOnly hmode hscheme, stripUrl_append hcut, stripUrl_append hseparator,
    stripUrl_append hhost, ← List.append_assoc, ← hlength, List.take_left, List.drop_left,
    List.takeWhile_append_of_pos hslash, List.append_assoc]

/-- A strip that cuts into the scheme leaves less than the scheme. -/
theorem length_transformUrl_lt (hmode : policy.redactionMode = .hostnameOnly)
    (hscheme : ':'.toUInt8 ∉ scheme) (hcut : CutsInto policy scheme) (rest : Bytes) :
    (transformUrl policy (scheme ++ (cstr "://" ++ rest))).1.length < scheme.length := by
  obtain ⟨hsame, hlength⟩ := stripUrl_append_of_cutsInto hcut (cstr "://" ++ rest)
  rw [transformUrl_hostnameOnly hmode hscheme, hsame, List.take_of_length_le (by omega),
    List.drop_eq_nil_of_le (by omega), List.takeWhile_nil, List.append_nil]
  exact hlength

end HostnameOnly

/-- The mode keeps exactly the scheme and the authority if stripping does not cut into the scheme,
and if a query or a fragment that follows the authority at once is stripped. -/
theorem hostname_only_iff (policy : Policy) (hmode : policy.redactionMode = .hostnameOnly)
    (scheme authority rest : Bytes) (hscheme : ':'.toUInt8 ∉ scheme)
    (hauthority : ∀ c ∈ authority, c ∉ cstr "/?#") (hrest : ∀ c ∈ rest.head?, c ∈ cstr "/?#")
    (hkept : domainExcluded policy authority = false) :
    (redactUrl policy (scheme ++ (cstr "://" ++ (authority ++ rest)))).1 =
        scheme ++ (cstr "://" ++ authority) ↔
      (policy.stripFragment = true → '#'.toUInt8 ∉ scheme) ∧
      (policy.stripQueryString = true → '?'.toUInt8 ∉ scheme) ∧
      (rest.head? = some '?'.toUInt8 → policy.stripQueryString = true) ∧
      (rest.head? = some '#'.toUInt8 → policy.stripFragment = true) := by
  rw [redactUrl, urlHost_append hscheme hauthority hrest, hkept, if_neg (by simp)]
  by_cases hcut : CutsInto policy scheme
  · have hlength := length_transformUrl_lt hmode hscheme hcut (authority ++ rest)
    refine iff_of_false ?_ ?_
    · intro h
      rw [h, List.length_append] at hlength
      omega
    · rintro ⟨hfragment, hquery, -⟩
      rcases hcut with ⟨hflag, hmem⟩ | ⟨hflag, hmem⟩
      · exact hfragment hflag hmem
      · exact hquery hflag hmem
  · rw [transformUrl_of_not_cutsInto hmode hscheme hauthority hcut rest, List.append_right_inj,
      List.append_right_inj, List.append_right_eq_self, takeWhile_stripUrl_eq_nil_iff hrest]
    rw [CutsInto, not_or, not_and, not_and] at hcut
    exact ⟨fun h => ⟨hcut.1, hcut.2, h⟩, fun h => h.2.2⟩

/-- A URL with a path, a query and a fragment, and neither stripped. -/
theorem hostname_only_path :
    (redactUrl { redactionMode := .hostnameOnly, stripQueryString := false, stripFragment := false }
      (cstr "https://example.com/deep/path?q=1#top")).1 = cstr "https://example.com" :=
  (hostname_only_iff
    { redactionMode := .hostnameOnly, stripQueryString := false, stripFragment := false } rfl
    (cstr "https") (cstr "example.com") (cstr "/deep/path?q=1#top") (by decide)
    (forall_mem_of_all (by decide)) (by decide +kernel) rfl).mpr
    ⟨nofun, nofun, by decide, by decide⟩

/-- A query or a fragment that is not stripped stays if no path comes before it, and so does a part
of a fragment that a slash cuts. -/
theorem hostname_only_query_kept :
    let kept : Policy :=
      { redactionMode := .hostnameOnly, stripQueryString := false, stripFragment := false }
    (redactUrl kept (cstr "https://example.com?user=me")).1 = cstr "https://example.com?user=me" ∧
    (redactUrl kept (cstr "https://example.com#token/x")).1 = cstr "https://example.com#token" ∧
    (redactUrl { redactionMode := .hostnameOnly } (cstr "a?b://example.com/")).1 = cstr "a" := by
  decide

end Ezcap.Redactor
