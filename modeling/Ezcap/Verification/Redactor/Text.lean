import Ezcap.Library.Text
import Ezcap.Verification.Redactor.Masking

/-! Redaction and UTF-8. Every cut that the redactor makes is at an ASCII character, except
one: masking keeps the first byte of a host, which may be the first of several that
make up a character. -/

namespace Ezcap.Redactor

open StdString Utf8

/-! ## Masking -/

/-- Masking the host does not cut its first character. -/
def MaskSafe (host : Bytes) : Prop := '.'.toUInt8 ∈ host → ∀ c ∈ host.head?, c < 0x80

instance (host : Bytes) : Decidable (MaskSafe host) :=
  inferInstanceAs (Decidable (_ → ∀ c ∈ host.head?, _))

theorem valid_stars (n : ℕ) : Valid (List.replicate n '*'.toUInt8) := by
  apply valid_of_ascii
  intro c hc
  rw [List.eq_of_mem_replicate hc]
  decide

/-- A masked host is text exactly when its first character was not cut. -/
theorem valid_maskHostname {host : Bytes} (h : Valid host) :
    Valid (maskHostname host) ↔ MaskSafe host := by
  cases hend : maskEnd host with
  | none =>
      have hdot : '.'.toUInt8 ∉ host := maskEnd_eq_none_iff.mp hend
      simp [maskHostname, hend, h, MaskSafe, hdot]
  | some stop =>
      have hget := maskEnd_getElem? hend
      have hdot : '.'.toUInt8 ∈ host := List.mem_of_getElem? hget
      obtain ⟨a, rest, rfl⟩ := List.exists_cons_of_ne_nil (List.ne_nil_of_mem hdot)
      have hsafe : MaskSafe (a :: rest) ↔ a < 0x80 := by simp [MaskSafe, hdot]
      rw [hsafe]
      by_cases hstop : stop > 1
      · obtain ⟨n, rfl⟩ : ∃ n, stop = n + 2 := ⟨stop - 2, by omega⟩
        simp only [maskHostname, hend, hstop, if_true, List.take_succ_cons, List.take_zero,
          List.cons_append, List.nil_append]
        by_cases ha : a < 0x80
        · have hdrop : Valid ((a :: rest).drop (n + 2)) := (h.cut (by decide) hget).1.2
          have hmasked := (valid_stars (n + 1)).append hdrop
          simpa [ha] using (valid_append_ascii ha [] _).mpr ⟨valid_nil, hmasked⟩
        · simpa [ha, List.replicate_succ] using not_valid_cons_ascii ha (by decide) _
      · -- nothing is masked, and the byte before a dot at index 1 is a whole character
        simp only [maskHostname, hend, hstop, if_false, h, true_iff]
        by_contra ha
        obtain rfl | rfl : stop = 0 ∨ stop = 1 := by omega
        · cases hget
          exact ha (by decide)
        · obtain ⟨b, rest, rfl⟩ := List.exists_cons_of_ne_nil
            (show rest ≠ [] by rintro rfl; simp at hget)
          cases hget
          exact not_valid_cons_ascii ha (by decide) _ h

/-! ## Cutting a URL -/

theorem separator_ascii : ∀ c ∈ cstr "/?#", c < 0x80 := forall_mem_of_all (by decide)

/-- Both parts of a text cut where a search for ASCII characters stopped. -/
theorem valid_findFirstOf {s set : Bytes} {pos i : ℕ} (h : Valid s)
    (hset : ∀ c ∈ set, c < 0x80) (hi : findFirstOf s set pos = some i) :
    Valid (s.take i) ∧ Valid (s.drop i) := by
  obtain ⟨c, hc, hget⟩ := findFirstOf_getElem? hi
  exact (h.cut (hset c hc) hget).1

theorem valid_cutAt_find {s : Bytes} {c : UInt8} {pos : ℕ} (h : Valid s) (hc : c < 0x80) :
    Valid (cutAt s (find s c pos)) := by
  cases hi : find s c pos with
  | none => exact h
  | some i => exact (valid_findFirstOf h (by simpa using hc) hi).1

theorem stripUrl_isPrefix (policy : Policy) (url : Bytes) : (stripUrl policy url).1 <+: url :=
  (cutAt_isPrefix _ _).trans (cutAt_isPrefix _ _)

theorem valid_stripUrl (policy : Policy) {url : Bytes} (h : Valid url) :
    Valid (stripUrl policy url).1 := by
  have hcut {s : Bytes} (b : Bool) (c : UInt8) (hs : Valid s) (hc : c < 0x80) :
      Valid (cutAt s (if b then find s c 0 else none)) := by
    cases b with
    | false => exact hs
    | true => exact valid_cutAt_find hs hc
  exact hcut _ _ (hcut _ _ h (by decide)) (by decide)

/-- The host starts at a character boundary, also in a URL that was cut short. -/
theorem valid_hostStart {url result : Bytes} (hr : result <+: url) (h : Valid result) :
    Valid (result.take (hostStart url)) ∧ Valid (result.drop (hostStart url)) := by
  unfold hostStart
  split
  · exact ⟨valid_nil, h⟩
  · rename_i scheme hscheme
    by_cases hlen : scheme + 3 ≤ result.length
    · have hslash : result[scheme + 2]? = some '/'.toUInt8 := by
        obtain ⟨t, ht⟩ := findSub_isPrefix hscheme
        obtain ⟨u, rfl⟩ := hr
        have hget : (result ++ u)[scheme + 2]? = result[scheme + 2]? :=
          List.getElem?_append_left (by omega)
        rw [← hget, ← List.getElem?_drop, ← ht]
        rfl
      exact (h.cut (by decide) hslash).2
    · rw [List.take_of_length_le (by omega), List.drop_eq_nil_of_le (by omega)]
      exact ⟨h, valid_nil⟩

theorem valid_urlHost {url : Bytes} (h : Valid url) : Valid (urlHost url) := by
  rw [urlHost_eq]
  refine ((valid_hostStart List.prefix_rfl h).2.takeWhile fun c hc => ?_).1
  exact separator_ascii c (by simpa using hc)

/-! ## Redacted names and URLs -/

theorem valid_fnv1aHex (data : Bytes) : Valid (fnv1aHex data) :=
  Format.valid_fixed (by decide) le_rfl _ _

theorem valid_transformHostname {policy : Policy} {host : Bytes} (h : Valid host)
    (hmask : policy.redactionMode = .domainMask → MaskSafe host) :
    Valid (transformHostname policy host) := by
  unfold transformHostname
  split
  · exact valid_fnv1aHex host
  · rename_i hmode
    exact (valid_maskHostname h).mpr (hmask hmode)
  · exact h

theorem valid_suffix {result : Bytes} (h : Valid result) (pos : ℕ) :
    Valid (match findFirstOf result (cstr "/?#") pos with
      | none => []
      | some hostEnd2 => result.drop hostEnd2) := by
  split
  · exact valid_nil
  · rename_i hi
    exact (valid_findFirstOf h separator_ascii hi).2

/-- The URL has a host that masking may cut. -/
def UrlMaskSafe (url : Bytes) : Prop :=
  (findSub (cstr "://") url).isSome = true → MaskSafe (urlHost url)

instance (url : Bytes) : Decidable (UrlMaskSafe url) :=
  inferInstanceAs (Decidable (_ → MaskSafe _))

theorem valid_transformUrl {policy : Policy} {url : Bytes} (h : Valid url)
    (hmask : UrlMaskSafe url) : Valid (transformUrl policy url).1 := by
  have hstrip := valid_stripUrl policy h
  have hsplice : Valid (spliceHostname policy (findSub (cstr "://") url) (hostStart url)
      (urlHost url) (stripUrl policy url).1 (stripUrl policy url).2).1 := by
    unfold spliceHostname
    split
    · rename_i hscheme
      have hhost : Valid (transformHostname policy (urlHost url)) :=
        valid_transformHostname (valid_urlHost h) fun _ => hmask hscheme
      have hleft := (valid_hostStart (stripUrl_isPrefix policy url) hstrip).1
      exact (hleft.append hhost).append (valid_suffix hstrip _)
    · exact hstrip
  unfold transformUrl
  cases policy.redactionMode with
  | hostnameOnly =>
      simp only [keepHostname]
      split
      · exact valid_cutAt_find hstrip (by decide)
      · exact hstrip
  | queryStringRemoval => exact hstrip
  | fullHostname => exact hstrip
  | domainHash => exact hsplice
  | domainMask => exact hsplice

/-- Redaction that excludes and strips nothing. -/
def bare (mode : RedactionMode) : Policy :=
  { redactionMode := mode, stripQueryString := false, stripFragment := false }

theorem stripUrl_bare (mode : RedactionMode) (url : Bytes) :
    (stripUrl (bare mode) url).1 = url := by
  simp [stripUrl, bare, cutAt]

theorem redactUrl_bare (mode : RedactionMode) (url : Bytes) :
    redactUrl (bare mode) url = transformUrl (bare mode) url := by
  simp [redactUrl, domainExcluded, bare]

/-- Nothing but the host of the URL is masked. -/
theorem redactUrl_bare_domainMask {url : Bytes} (h : (findSub (cstr "://") url).isSome = true) :
    ∃ suffix, (redactUrl (bare .domainMask) url).1 =
        url.take (hostStart url) ++ (maskHostname (urlHost url) ++ suffix) ∧
      ∀ c ∈ suffix.head?, c < 0x80 := by
  have hmode : (bare .domainMask).redactionMode = .domainMask := rfl
  simp only [redactUrl_bare, transformUrl, hmode, spliceHostname, h, if_true, stripUrl_bare,
    transformHostname, List.append_assoc]
  refine ⟨_, rfl, ?_⟩
  split
  · simp
  · rename_i i hi
    obtain ⟨c, hc, hget⟩ := findFirstOf_getElem? hi
    rw [List.head?_drop, hget]
    rintro d ⟨⟩
    exact separator_ascii c hc

/-- A URL is redacted to text by every policy exactly when it is text and masking does not cut
the first character of its host. -/
theorem valid_redactUrl_iff (url : Bytes) :
    (∀ policy, Valid (redactUrl policy url).1) ↔ Valid url ∧ UrlMaskSafe url := by
  constructor
  · intro h
    have hurl : Valid url := by
      have hfull := h (bare .fullHostname)
      rw [redactUrl_bare] at hfull
      exact stripUrl_bare .fullHostname url ▸ hfull
    refine ⟨hurl, fun hscheme => ?_⟩
    obtain ⟨suffix, hredacted, hsuffix⟩ := redactUrl_bare_domainMask hscheme
    have hmasked := h (bare .domainMask)
    rw [hredacted, (valid_hostStart List.prefix_rfl hurl).1.append_iff] at hmasked
    apply (valid_maskHostname (valid_urlHost hurl)).mp
    cases suffix with
    | nil => simpa using hmasked
    | cons c suffix => exact ((valid_append_ascii (hsuffix c rfl) _ _).mp hmasked).1
  · rintro ⟨hurl, hmask⟩ policy
    unfold redactUrl
    split
    · exact valid_nil
    · exact valid_transformUrl hurl hmask

theorem valid_redactDnsName_iff (name : Bytes) :
    (∀ policy, Valid (redactDnsName policy name).1) ↔ Valid name ∧ MaskSafe name := by
  by_cases hname : name = []
  · simp [hname, redactDnsName, MaskSafe]
  constructor
  · intro h
    have hplain : Valid name := by
      simpa [redactDnsName, hname, domainExcluded, bare] using h (bare .fullHostname)
    have hmasked : Valid (maskHostname name) := by
      simpa [redactDnsName, hname, domainExcluded, bare, transformHostname] using
        h (bare .domainMask)
    exact ⟨hplain, (valid_maskHostname hplain).mp hmasked⟩
  · rintro ⟨hvalid, hmask⟩ policy
    simp only [redactDnsName, hname, if_false]
    split
    · exact valid_nil
    · split
      · exact valid_fnv1aHex name
      · exact valid_transformHostname hvalid fun _ => hmask
      · exact hvalid

end Ezcap.Redactor
