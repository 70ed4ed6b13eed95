import Ezcap.Verification.Redactor.Domains
import Ezcap.Verification.Redactor.Masking

/-! Redaction and the case of letters. Only the exclusion of domains looks at the name in lower
case; what the other branches make of a name is made of its letters as they are. -/

namespace Ezcap.Redactor

open StdString

/-! ## Texts that are equal up to case -/

section Lower

variable {s t : Bytes}

theorem domainExcluded_congr (policy : Policy) (h : toLower s = toLower t) :
    domainExcluded policy s = domainExcluded policy t := by
  unfold domainExcluded
  rw [h]

theorem length_of_toLower (h : toLower s = toLower t) : s.length = t.length := by
  rw [← length_toLower s, h, length_toLower]

theorem places_toLower {c : UInt8} (hc : c < 'A'.toUInt8) (s : Bytes) :
    places (toLower s) c = places s c := by
  unfold places
  rw [length_toLower]
  apply List.filter_congr
  intro i _
  rw [Bool.eq_iff_iff, beq_iff_eq, beq_iff_eq, toLower, List.getElem?_map,
    Option.map_eq_some_iff]
  constructor
  · rintro ⟨x, hx, hlower⟩
    rw [hx, (lowerChar_eq_iff hc).mp hlower]
  · intro hx
    exact ⟨c, hx, lowerChar_of_lt hc⟩

theorem maskEnd_of_toLower (h : toLower s = toLower t) : maskEnd s = maskEnd t := by
  rw [maskEnd_eq_tailStart, maskEnd_eq_tailStart, tailStart, tailStart,
    ← places_toLower (by decide) s, h, places_toLower (by decide)]

theorem isPrefix_toLower_iff {pattern : Bytes} (hpattern : ∀ c ∈ pattern, c < 'A'.toUInt8) :
    pattern <+: toLower s ↔ pattern <+: s := by
  induction pattern generalizing s with
  | nil => simp
  | cons c pattern ih =>
      obtain ⟨hc, hpattern⟩ := List.forall_mem_cons.mp hpattern
      cases s with
      | nil => simp [toLower]
      | cons x s =>
          rw [toLower_cons, List.cons_prefix_cons, List.cons_prefix_cons, ih hpattern, eq_comm,
            lowerChar_eq_iff hc, eq_comm]

theorem findSub_toLower {pattern : Bytes} (hpattern : ∀ c ∈ pattern, c < 'A'.toUInt8)
    (s : Bytes) : findSub pattern (toLower s) = findSub pattern s := by
  induction s with
  | nil => rfl
  | cons x s ih =>
      have hfound : pattern.isPrefixOf (lowerChar x :: toLower s) =
          pattern.isPrefixOf (x :: s) := by
        rw [Bool.eq_iff_iff, List.isPrefixOf_iff_prefix, List.isPrefixOf_iff_prefix]
        exact @isPrefix_toLower_iff (x :: s) pattern hpattern
      rw [toLower_cons, findSub, findSub, hfound, ih]

theorem takeWhile_toLower {set : Bytes} (hset : ∀ c ∈ set, c < 'A'.toUInt8) (s : Bytes) :
    (toLower s).takeWhile (fun c => !set.contains c) =
      toLower (s.takeWhile fun c => !set.contains c) := by
  have hcontains : (fun c => !set.contains c) ∘ lowerChar = fun c => !set.contains c := by
    funext x
    rw [Function.comp_apply, Bool.not_inj_iff, Bool.eq_iff_iff, List.contains_iff_mem,
      List.contains_iff_mem]
    constructor
    · intro h
      rwa [← (lowerChar_eq_iff (hset _ h)).mp rfl] at h
    · intro h
      rwa [lowerChar_of_lt (hset x h)]
  rw [toLower, List.takeWhile_map, hcontains]
  rfl

end Lower

/-! ## Names -/

/-- What the redaction mode makes of two names does not tell them apart. -/
def Indistinct (policy : Policy) (name name' : Bytes) : Prop :=
  match policy.redactionMode with
  | .domainHash => fnv1aHash name = fnv1aHash name'
  | .domainMask =>
      if '.'.toUInt8 ∈ name then name.head? = name'.head? ∧ shownTail name = shownTail name'
      else name = name'
  | _ => name = name'

theorem fnv1aHex_inj {s t : Bytes} (h : fnv1aHex s = fnv1aHex t) : fnv1aHash s = fnv1aHash t := by
  have hmod := Format.fixed_inj (by decide) (Nat.le_refl 16) h
  have hs := (fnv1aHash s).toNat_lt
  have ht := (fnv1aHash t).toNat_lt
  exact UInt64.toNat_inj.mp (by omega)

theorem maskHostname_eq_iff_shown {name name' : Bytes} (h : toLower name = toLower name') :
    maskHostname name = maskHostname name' ↔
      if '.'.toUInt8 ∈ name then name.head? = name'.head? ∧ shownTail name = shownTail name'
      else name = name' := by
  have hlength := length_of_toLower h
  split_ifs with hdot
  · constructor
    · intro hmask
      obtain ⟨stop, hstop⟩ := exists_maskEnd hdot
      have hstop' : maskEnd name' = some stop := maskEnd_of_toLower h ▸ hstop
      rw [maskHostname_of_maskEnd hstop, maskHostname_of_maskEnd hstop'] at hmask
      obtain ⟨hmasked, htail⟩ := List.append_inj' hmask (by simp [hlength])
      obtain ⟨hfirst, -⟩ := List.append_inj' hmasked rfl
      refine ⟨?_, by rw [shownTail_of_maskEnd hstop, shownTail_of_maskEnd hstop', htail]⟩
      cases stop with
      | zero => exact congrArg List.head? htail
      | succ n =>
          rw [Nat.min_eq_right (Nat.le_add_left 1 n)] at hfirst
          simpa [List.head?_take] using congrArg List.head? hfirst
    · rintro ⟨hhead, htail⟩
      exact maskHostname_eq hlength hhead htail hdot
  · have hdot' : '.'.toUInt8 ∉ name' := by
      rwa [← maskEnd_eq_none_iff, ← maskEnd_of_toLower h, maskEnd_eq_none_iff]
    rw [maskHostname_of_notMem hdot, maskHostname_of_notMem hdot']

theorem transformHostname_eq_iff (policy : Policy) {name name' : Bytes}
    (h : toLower name = toLower name') :
    transformHostname policy name = transformHostname policy name' ↔
      Indistinct policy name name' := by
  unfold transformHostname Indistinct
  cases policy.redactionMode with
  | domainHash => exact ⟨fnv1aHex_inj, fun h => by simp only [fnv1aHex, h]⟩
  | domainMask => exact maskHostname_eq_iff_shown h
  | hostnameOnly => rfl
  | queryStringRemoval => rfl
  | fullHostname => rfl

/-- The text of two names that are equal up to case is the same exactly if they are excluded, or if
the mode does not tell them apart. -/
theorem redactDnsName_eq_iff (policy : Policy) {name name' : Bytes}
    (h : toLower name = toLower name') :
    (redactDnsName policy name).1 = (redactDnsName policy name').1 ↔
      domainExcluded policy name = true ∨ Indistinct policy name name' := by
  rw [redactDnsName_fst, redactDnsName_fst, ← domainExcluded_congr policy h,
    ← transformHostname_eq_iff policy h]
  by_cases hexcluded : domainExcluded policy name = true
  · simp [hexcluded]
  · have hnil : name = [] ↔ name' = [] := by
      rw [← List.length_eq_zero_iff, length_of_toLower h, List.length_eq_zero_iff]
    by_cases hname : name = []
    · simp [hname, hnil.mp hname]
    · simp [hexcluded, hname, mt hnil.mpr hname]

/-! ## Names that every policy tells apart -/

/-- One step of the hash loses nothing: the prime has an inverse. -/
theorem fnv1a_step_inj {c : UInt8} {hash hash' : UInt64}
    (h : (hash ^^^ c.toUInt64) * 1099511628211 = (hash' ^^^ c.toUInt64) * 1099511628211) :
    hash = hash' := by
  have hinverse : (1099511628211 : UInt64) * 14886173955864302971 = 1 := by decide
  have hxor := congrArg (· * (14886173955864302971 : UInt64)) h
  simp only [UInt64.mul_assoc, hinverse, UInt64.mul_one] at hxor
  have hcancel := congrArg (· ^^^ c.toUInt64) hxor
  simpa only [UInt64.xor_assoc, UInt64.xor_self, UInt64.xor_zero] using hcancel

theorem fnv1a_foldl_inj {s : Bytes} {hash hash' : UInt64}
    (h : s.foldl (fun hash c => (hash ^^^ c.toUInt64) * 1099511628211) hash =
      s.foldl (fun hash c => (hash ^^^ c.toUInt64) * 1099511628211) hash') : hash = hash' := by
  induction s generalizing hash hash' with
  | nil => exact h
  | cons c s ih => exact fnv1a_step_inj (ih h)

theorem fnv1aHash_ne (s : Bytes) :
    fnv1aHash ('x'.toUInt8 :: s) ≠ fnv1aHash ('X'.toUInt8 :: s) := by
  intro h
  rw [fnv1aHash, fnv1aHash, List.foldl_cons, List.foldl_cons] at h
  exact absurd (fnv1a_foldl_inj h) (by decide)

theorem exists_told_apart (policy : Policy) :
    ∃ name name', toLower name = toLower name' ∧
      (redactDnsName policy name).1 ≠ (redactDnsName policy name').1 := by
  let rest := filler policy.sensitiveDomains
  have hlower : toLower ('x'.toUInt8 :: rest) = toLower ('X'.toUInt8 :: rest) := rfl
  have hkept : ¬ domainExcluded policy ('x'.toUInt8 :: rest) = true := by
    rw [domainExcluded_iff_under]
    rintro ⟨d, hd, hunder⟩
    exact not_under_filler hd ['x'.toUInt8] hunder
  have hne : 'x'.toUInt8 :: rest ≠ 'X'.toUInt8 :: rest := by
    intro h
    exact absurd (List.head_eq_of_cons_eq h) (by decide)
  have hdot : '.'.toUInt8 ∉ 'x'.toUInt8 :: rest := by
    rw [List.mem_cons, not_or]
    exact ⟨by decide, dot_notMem_filler _⟩
  refine ⟨_, _, hlower, ?_⟩
  rw [ne_eq, redactDnsName_eq_iff policy hlower, or_iff_right hkept, Indistinct]
  cases policy.redactionMode with
  | domainHash => exact fnv1aHash_ne rest
  | domainMask =>
      simp only [if_neg hdot]
      exact hne
  | hostnameOnly => exact hne
  | queryStringRemoval => exact hne
  | fullHostname => exact hne

/-! ## URLs -/

/-- Two URLs that differ at most in the case of letters in their host part. -/
structure SameButHostCase (url url' : Bytes) : Prop where
  lower : toLower url = toLower url'
  before : url.take (hostStart url) = url'.take (hostStart url)
  after : url.drop (hostStart url + (urlHost url).length) =
    url'.drop (hostStart url + (urlHost url).length)

theorem findScheme_toLower (url : Bytes) :
    findSub (cstr "://") (toLower url) = findSub (cstr "://") url :=
  findSub_toLower (forall_mem_of_all (by decide)) url

theorem hostStart_toLower (url : Bytes) : hostStart (toLower url) = hostStart url := by
  rw [hostStart, hostStart, findScheme_toLower]

theorem urlHost_toLower (url : Bytes) : urlHost (toLower url) = toLower (urlHost url) := by
  have hdrop : (toLower url).drop (hostStart url) = toLower (url.drop (hostStart url)) :=
    List.map_drop.symm
  rw [urlHost_eq, urlHost_eq, hostStart_toLower, hdrop,
    takeWhile_toLower (forall_mem_of_all (by decide))]

theorem hostStart_le (url : Bytes) : hostStart url ≤ url.length := by
  unfold hostStart
  split
  · exact Nat.zero_le _
  · rename_i scheme hscheme
    have hlength := (findSub_isPrefix hscheme).length_le
    rw [List.length_drop] at hlength
    have hthree : (cstr "://").length = 3 := rfl
    omega

theorem url_eq_append (url : Bytes) :
    url = url.take (hostStart url) ++
      (urlHost url ++ url.drop (hostStart url + (urlHost url).length)) := by
  have hhost : urlHost url <+: url.drop (hostStart url) := by
    rw [urlHost_eq]
    exact List.takeWhile_prefix _
  rw [← List.drop_drop, List.prefix_iff_eq_append.mp hhost, List.take_append_drop]

section SameButHostCase

variable {url url' : Bytes} (h : SameButHostCase url url')

include h

theorem SameButHostCase.findScheme :
    findSub (cstr "://") url' = findSub (cstr "://") url := by
  rw [← findScheme_toLower, ← h.lower, findScheme_toLower]

theorem SameButHostCase.hostStart : hostStart url' = hostStart url := by
  rw [← hostStart_toLower, ← h.lower, hostStart_toLower]

theorem SameButHostCase.urlHost : toLower (urlHost url) = toLower (urlHost url') := by
  rw [← urlHost_toLower, h.lower, urlHost_toLower]

theorem SameButHostCase.eq_append :
    url' = url.take (Redactor.hostStart url) ++ (Redactor.urlHost url' ++
      url.drop (Redactor.hostStart url + (Redactor.urlHost url).length)) := by
  have hparts := url_eq_append url'
  rwa [h.hostStart, ← length_of_toLower h.urlHost, ← h.before, ← h.after] at hparts

end SameButHostCase

theorem not_cutsInto_urlHost (policy : Policy) (url : Bytes) : ¬ CutsInto policy (urlHost url) := by
  rintro (⟨-, hmem⟩ | ⟨-, hmem⟩)
  · exact notMem_urlHost url _ (by decide) hmem
  · exact notMem_urlHost url _ (by decide) hmem

/-- What the redacted URLs show of their hosts is the same: the mode does not tell the transformed
hosts apart, or the hosts are the same or stripped away. -/
def UrlIndistinct (policy : Policy) (url url' : Bytes) : Prop :=
  if (findSub (cstr "://") url).isSome = true ∧ RewritesHost policy.redactionMode then
    Indistinct policy (urlHost url) (urlHost url')
  else CutsInto policy (url.take (hostStart url)) ∨ urlHost url = urlHost url'

section Stripped

variable {policy : Policy} {url url' : Bytes} (h : SameButHostCase url url')

include h

theorem SameButHostCase.stripUrl_of_cutsInto
    (hcut : CutsInto policy (url.take (Redactor.hostStart url))) :
    (stripUrl policy url').1 = (stripUrl policy url).1 := by
  have hurl := congrArg (fun text => (stripUrl policy text).1) (url_eq_append url)
  have hurl' := congrArg (fun text => (stripUrl policy text).1) h.eq_append
  simp only [(stripUrl_append_of_cutsInto hcut _).1] at hurl hurl'
  rw [hurl, hurl']

theorem SameButHostCase.stripUrl_of_not_cutsInto
    (hcut : ¬ CutsInto policy (url.take (Redactor.hostStart url))) :
    ∃ rest, (stripUrl policy url).1 =
        url.take (Redactor.hostStart url) ++ (Redactor.urlHost url ++ rest) ∧
      (stripUrl policy url').1 =
        url.take (Redactor.hostStart url) ++ (Redactor.urlHost url' ++ rest) := by
  have hurl := congrArg (fun text => (stripUrl policy text).1) (url_eq_append url)
  have hurl' := congrArg (fun text => (stripUrl policy text).1) h.eq_append
  simp only [stripUrl_append hcut, stripUrl_append (not_cutsInto_urlHost policy _)] at hurl hurl'
  exact ⟨_, hurl, hurl'⟩

end Stripped

theorem transformUrl_eq_iff (policy : Policy) {url url' : Bytes} (h : SameButHostCase url url') :
    (transformUrl policy url).1 = (transformUrl policy url').1 ↔ UrlIndistinct policy url url' := by
  have hbefore : (url.take (hostStart url)).length = hostStart url :=
    List.length_take_of_le (hostStart_le url)
  have hhost := transformHostname_eq_iff policy h.urlHost
  rw [transformUrl_fst, transformUrl_fst, h.findScheme, h.hostStart, UrlIndistinct]
  by_cases hsplice :
      (findSub (cstr "://") url).isSome = true ∧ RewritesHost policy.redactionMode
  · have hmode : policy.redactionMode ≠ .hostnameOnly := by
      rcases hsplice.2 with hmode | hmode <;> simp [hmode]
    simp only [hmode, and_false, if_false, if_pos hsplice]
    rw [← hhost]
    by_cases hcut : CutsInto policy (url.take (hostStart url))
    · rw [h.stripUrl_of_cutsInto hcut, List.append_left_inj, List.append_right_inj]
    · obtain ⟨rest, hurl, hurl'⟩ := h.stripUrl_of_not_cutsInto hcut
      have hdrop (url : Bytes) :
          (urlHost url ++ rest).dropWhile (fun c => !(cstr "/?#").contains c) =
            rest.dropWhile fun c => !(cstr "/?#").contains c := by
        apply List.dropWhile_append_of_pos
        intro c hc
        simpa using fun hmem => notMem_urlHost url c hmem hc
      rw [hurl, hurl', List.take_left' hbefore, List.take_left' hbefore, List.drop_left' hbefore,
        List.drop_left' hbefore, hdrop, hdrop, List.append_left_inj, List.append_right_inj]
  · simp only [if_neg hsplice]
    by_cases hcut : CutsInto policy (url.take (hostStart url))
    · simp only [h.stripUrl_of_cutsInto hcut, hcut, true_or]
    · obtain ⟨rest, hurl, hurl'⟩ := h.stripUrl_of_not_cutsInto hcut
      have htake (url : Bytes) : (urlHost url ++ rest).takeWhile (· ≠ '/'.toUInt8) =
          urlHost url ++ rest.takeWhile (· ≠ '/'.toUInt8) := by
        apply List.takeWhile_append_of_pos
        intro c hc
        rw [decide_eq_true_eq]
        rintro rfl
        exact notMem_urlHost url _ (by decide) hc
      rw [hurl, hurl', List.take_left' hbefore, List.take_left' hbefore, List.drop_left' hbefore,
        List.drop_left' hbefore, htake, htake, or_iff_right hcut]
      split_ifs
      · rw [List.append_right_inj, List.append_left_inj]
      · rw [List.append_right_inj, List.append_left_inj]

theorem redactUrl_eq_iff (policy : Policy) {url url' : Bytes} (h : SameButHostCase url url') :
    (redactUrl policy url).1 = (redactUrl policy url').1 ↔
      HostExcluded policy (urlHost url) ∨ UrlIndistinct policy url url' := by
  have hnil : urlHost url = [] ↔ urlHost url' = [] := by
    rw [← List.length_eq_zero_iff, length_of_toLower h.urlHost, List.length_eq_zero_iff]
  have hexcluded : HostExcluded policy (urlHost url) ↔ HostExcluded policy (urlHost url') := by
    rw [HostExcluded, HostExcluded, ne_eq, ne_eq, hnil, domainExcluded_congr policy h.urlHost]
  rw [redactUrl_fst, redactUrl_fst, ← transformUrl_eq_iff policy h]
  by_cases hhost : HostExcluded policy (urlHost url)
  · simp [hhost, hexcluded.mp hhost]
  · simp [hhost, mt hexcluded.mpr hhost]

/-- Names that are equal up to case, and URLs that differ only in the case of their host, are made
the same text exactly if they are excluded or if what is shown of them is the same. Under every
policy there are names for which neither holds. -/
theorem redaction_case_iff (policy : Policy) :
    (∀ name name', toLower name = toLower name' →
      ((redactDnsName policy name).1 = (redactDnsName policy name').1 ↔
        domainExcluded policy name = true ∨ Indistinct policy name name')) ∧
    (∀ url url', SameButHostCase url url' →
      ((redactUrl policy url).1 = (redactUrl policy url').1 ↔
        HostExcluded policy (urlHost url) ∨ UrlIndistinct policy url url')) ∧
    ∃ name name', toLower name = toLower name' ∧
      (redactDnsName policy name).1 ≠ (redactDnsName policy name').1 :=
  ⟨fun _ _ h => redactDnsName_eq_iff policy h, fun _ _ h => redactUrl_eq_iff policy h,
    exists_told_apart policy⟩

/-- One host name, two digests. -/
theorem two_digests :
    let policy : Policy := { redactionMode := .domainHash }
    toLower (cstr "Example.org") = toLower (cstr "example.org") ∧
      (redactDnsName policy (cstr "Example.org")).1 ≠
        (redactDnsName policy (cstr "example.org")).1 ∧
      SameButHostCase (cstr "https://Example.org/") (cstr "https://example.org/") ∧
      (redactUrl policy (cstr "https://Example.org/")).1 ≠
        (redactUrl policy (cstr "https://example.org/")).1 :=
  ⟨by decide, by decide, ⟨by decide, by decide, by decide⟩, by decide⟩

end Ezcap.Redactor
