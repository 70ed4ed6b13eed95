import Ezcap.Library.Separated
import Ezcap.Model.Redactor

/-! Computation rules for the redactor: every search-and-resize step is a
`takeWhile`, and the domain test is a statement about suffixes, of the names and of their labels. -/

namespace Ezcap.Redactor

open StdString

/-! ## Searching and cutting -/

theorem cutAt_find_from (s : Bytes) (c : UInt8) (pos : ℕ) :
    cutAt s (find s c pos) = s.take pos ++ (s.drop pos).takeWhile (· ≠ c) := by
  have hp : (fun x : UInt8 => !([c] : Bytes).contains x) = (fun x => decide (x ≠ c)) := by
    funext x
    by_cases h : x = c <;> simp [h]
  unfold find findFirstOf
  cases h : (s.drop pos).findIdx? (([c] : Bytes).contains ·) with
  | none =>
      have hs := (findIdx?_eq_none_iff_takeWhile _ _).mp h
      rw [hp] at hs
      rw [hs, List.take_append_drop]
      rfl
  | some i =>
      have hs := take_findIdx? _ _ _ h
      rw [hp] at hs
      rw [← hs, ← List.take_add]
      rfl

theorem cutAt_find (s : Bytes) (c : UInt8) :
    cutAt s (find s c 0) = s.takeWhile (· ≠ c) := by
  rw [cutAt_find_from, List.take_zero, List.drop_zero, List.nil_append]

theorem cutAt_isPrefix (s : Bytes) (i : Option ℕ) : cutAt s i <+: s := by
  cases i with
  | none => exact List.prefix_rfl
  | some i => exact List.take_prefix i s

theorem substr_findFirstOf (s set : Bytes) (pos : ℕ) :
    substr s pos ((findFirstOf s set pos).map (· - pos)) =
      (s.drop pos).takeWhile (fun c => !set.contains c) := by
  unfold findFirstOf
  cases h : (s.drop pos).findIdx? (set.contains ·) with
  | none =>
      have hs := (findIdx?_eq_none_iff_takeWhile _ _).mp h
      simpa [substr] using hs.symm
  | some i =>
      have hs := take_findIdx? _ _ _ h
      simpa [substr] using hs

/-- The host of the exclusion check is the text from `hostStart` up to the first `/?#`. -/
theorem urlHost_eq (url : Bytes) :
    urlHost url = (url.drop (hostStart url)).takeWhile (fun c => !(cstr "/?#").contains c) :=
  substr_findFirstOf url (cstr "/?#") (hostStart url)

theorem hostStart_append {scheme : Bytes} (h : ':'.toUInt8 ∉ scheme) (rest : Bytes) :
    hostStart (scheme ++ (cstr "://" ++ rest)) = scheme.length + 3 := by
  rw [hostStart, findSub_append _ (by rfl) h]

theorem drop_hostStart_append {scheme : Bytes} (h : ':'.toUInt8 ∉ scheme) (rest : Bytes) :
    (scheme ++ (cstr "://" ++ rest)).drop (hostStart (scheme ++ (cstr "://" ++ rest))) = rest := by
  rw [hostStart_append h, ← List.append_assoc]
  exact List.drop_left' (by simp; rfl)

/-- What the redactor takes as the host is all that stands between `://` and the next of `/?#`. -/
theorem urlHost_append {scheme authority rest : Bytes} (hscheme : ':'.toUInt8 ∉ scheme)
    (hauthority : ∀ c ∈ authority, c ∉ cstr "/?#") (hrest : ∀ c ∈ rest.head?, c ∈ cstr "/?#") :
    urlHost (scheme ++ (cstr "://" ++ (authority ++ rest))) = authority := by
  rw [urlHost_eq, drop_hostStart_append hscheme]
  apply takeWhile_append_delimiter
  · intro c hc
    simpa using hauthority c hc
  · intro c hc
    simpa using hrest c hc

theorem notMem_urlHost (url : Bytes) (c : UInt8) (hc : c ∈ cstr "/?#") : c ∉ urlHost url := by
  intro h
  rw [urlHost_eq] at h
  simpa [hc] using List.mem_takeWhile_imp h

/-! ## Stripping -/

/-- The text before the first `c`, if the flag is set. -/
def cutBefore (flag : Bool) (c : UInt8) (s : Bytes) : Bytes :=
  if flag then s.takeWhile (· ≠ c) else s

section CutBefore

variable {flag : Bool} {c : UInt8} {s : Bytes}

theorem cutAt_find_if (flag : Bool) (c : UInt8) (s : Bytes) :
    cutAt s (if flag then find s c 0 else none) = cutBefore flag c s := by
  cases flag with
  | false => rfl
  | true => exact cutAt_find s c

theorem cutBefore_isPrefix : cutBefore flag c s <+: s := by
  unfold cutBefore
  split_ifs
  · exact List.takeWhile_prefix _
  · exact List.prefix_rfl

theorem cutBefore_append (h : flag = true → c ∉ s) (t : Bytes) :
    cutBefore flag c (s ++ t) = s ++ cutBefore flag c t := by
  unfold cutBefore
  split_ifs with hflag
  · apply List.takeWhile_append_of_pos
    intro x hx
    rw [decide_eq_true_eq]
    rintro rfl
    exact h hflag hx
  · rfl

/-- A cut inside `s` does not see what follows `s`, and leaves less than `s`. -/
theorem cutBefore_append_of_mem (hflag : flag = true) (hc : c ∈ s) (t : Bytes) :
    cutBefore flag c (s ++ t) = cutBefore flag c s ∧
      (cutBefore flag c s).length < s.length := by
  obtain ⟨u, v, rfl, hu⟩ := List.eq_append_cons_of_mem hc
  have htake (w : Bytes) : (u ++ c :: w).takeWhile (· ≠ c) = u := by
    apply takeWhile_append_delimiter
    · intro x hx
      rw [decide_eq_true_eq]
      rintro rfl
      exact hu hx
    · rintro _ ⟨⟩
      simp
  rw [cutBefore, cutBefore, if_pos hflag, if_pos hflag, List.append_assoc, List.cons_append, htake,
    htake]
  simp

theorem head?_cutBefore :
    (cutBefore flag c s).head? = if flag = true ∧ s.head? = some c then none else s.head? := by
  cases s with
  | nil => simp [cutBefore]
  | cons x s =>
      cases flag with
      | false => rfl
      | true => by_cases hx : x = c <;> simp [cutBefore, hx]

end CutBefore

theorem stripUrl_fst (policy : Policy) (url : Bytes) :
    (stripUrl policy url).1 =
      cutBefore policy.stripQueryString '?'.toUInt8
        (cutBefore policy.stripFragment '#'.toUInt8 url) := by
  simp only [stripUrl, cutAt_find_if]

/-- Stripping ends a text inside its part `s`. -/
def CutsInto (policy : Policy) (s : Bytes) : Prop :=
  policy.stripFragment = true ∧ '#'.toUInt8 ∈ s ∨ policy.stripQueryString = true ∧ '?'.toUInt8 ∈ s

section CutsInto

variable {policy : Policy} {s : Bytes}

theorem stripUrl_append (h : ¬ CutsInto policy s) (t : Bytes) :
    (stripUrl policy (s ++ t)).1 = s ++ (stripUrl policy t).1 := by
  rw [CutsInto, not_or, not_and, not_and] at h
  rw [stripUrl_fst, stripUrl_fst, cutBefore_append h.1, cutBefore_append h.2]

theorem stripUrl_append_of_cutsInto (h : CutsInto policy s) (t : Bytes) :
    (stripUrl policy (s ++ t)).1 = (stripUrl policy s).1 ∧
      (stripUrl policy s).1.length < s.length := by
  rw [stripUrl_fst, stripUrl_fst]
  by_cases hfragment : policy.stripFragment = true ∧ '#'.toUInt8 ∈ s
  · obtain ⟨hsame, hlength⟩ := cutBefore_append_of_mem hfragment.1 hfragment.2 t
    exact ⟨by rw [hsame], cutBefore_isPrefix.length_le.trans_lt hlength⟩
  · obtain ⟨hflag, hmem⟩ := h.resolve_left hfragment
    rw [not_and] at hfragment
    have hwhole : cutBefore policy.stripFragment '#'.toUInt8 s = s := by
      simpa [cutBefore] using cutBefore_append hfragment []
    rw [cutBefore_append hfragment, hwhole]
    exact cutBefore_append_of_mem hflag hmem _

end CutsInto

/-! ## Modes -/

/-- The test of the exclusion branch of `redact_url`, for the host it has located. -/
def HostExcluded (policy : Policy) (host : Bytes) : Prop :=
  host ≠ [] ∧ domainExcluded policy host = true

instance (policy : Policy) (host : Bytes) : Decidable (HostExcluded policy host) :=
  inferInstanceAs (Decidable (_ ∧ _))

/-- The modes that put a transformed host into the URL. -/
def RewritesHost (mode : RedactionMode) : Prop := mode = .domainHash ∨ mode = .domainMask

instance (mode : RedactionMode) : Decidable (RewritesHost mode) :=
  inferInstanceAs (Decidable (_ ∨ _))

theorem redactUrl_fst (policy : Policy) (url : Bytes) :
    (redactUrl policy url).1 =
      if HostExcluded policy (urlHost url) then [] else (transformUrl policy url).1 := by
  rw [redactUrl, apply_ite Prod.fst]
  rfl

theorem keepHostname_fst (scheme : Option ℕ) (start : ℕ) (result : Bytes)
    (redactions : Redactions) :
    (keepHostname scheme start result redactions).1 =
      if scheme.isSome then cutAt result (find result '/'.toUInt8 start) else result := by
  unfold keepHostname
  split <;> rfl

theorem spliceHostname_fst (policy : Policy) (scheme : Option ℕ) (start : ℕ) (host result : Bytes)
    (redactions : Redactions) :
    (spliceHostname policy scheme start host result redactions).1 =
      if scheme.isSome then
        result.take start ++ transformHostname policy host ++
          result.drop ((findFirstOf result (cstr "/?#") start).getD result.length)
      else result := by
  unfold spliceHostname
  split
  · cases findFirstOf result (cstr "/?#") start <;> simp
  · rfl

theorem drop_findFirstOf (s set : Bytes) (pos : ℕ) :
    s.drop ((findFirstOf s set pos).getD s.length) =
      (s.drop pos).dropWhile fun c => !set.contains c := by
  unfold findFirstOf
  rw [List.dropWhile_eq_drop_findIdx_not]
  simp only [Bool.not_not]
  cases h : (s.drop pos).findIdx? (set.contains ·) with
  | none =>
      rw [List.findIdx?_eq_none_iff_findIdx_eq.mp h, List.drop_length, Option.map_none,
        Option.getD_none, List.drop_length]
  | some i =>
      rw [(List.findIdx?_eq_some_iff_findIdx_eq.mp h).2, List.drop_drop, Option.map_some,
        Option.getD_some]

theorem transformUrl_fst (policy : Policy) (url : Bytes) :
    (transformUrl policy url).1 =
      if (findSub (cstr "://") url).isSome = true ∧ policy.redactionMode = .hostnameOnly then
        (stripUrl policy url).1.take (hostStart url) ++
          ((stripUrl policy url).1.drop (hostStart url)).takeWhile (· ≠ '/'.toUInt8)
      else if (findSub (cstr "://") url).isSome = true ∧ RewritesHost policy.redactionMode then
        (stripUrl policy url).1.take (hostStart url) ++ transformHostname policy (urlHost url) ++
          ((stripUrl policy url).1.drop (hostStart url)).dropWhile fun c => !(cstr "/?#").contains c
      else (stripUrl policy url).1 := by
  unfold transformUrl
  cases hmode : policy.redactionMode with
  | hostnameOnly =>
      simp only [keepHostname_fst, cutAt_find_from, and_true, RewritesHost, reduceCtorEq, or_self,
        and_false, if_false]
  | queryStringRemoval => simp [RewritesHost]
  | fullHostname => simp [RewritesHost]
  | domainHash =>
      simp [spliceHostname_fst, drop_findFirstOf, RewritesHost]
  | domainMask =>
      simp [spliceHostname_fst, drop_findFirstOf, RewritesHost]

/-! ## Lower-casing -/

theorem lowerChar_of_lt {c : UInt8} (h : c < 'A'.toUInt8) : lowerChar c = c := by
  have : ¬ 'A'.toUInt8 ≤ c := by simpa using h
  simp [lowerChar, this]

@[simp] theorem toLower_append (s t : Bytes) : toLower (s ++ t) = toLower s ++ toLower t := by
  simp [toLower]

@[simp] theorem toLower_cons (c : UInt8) (s : Bytes) :
    toLower (c :: s) = lowerChar c :: toLower s := rfl

/-! ## The domain test -/

/-- A host is under a domain when it is the domain or ends with a dot and the domain. -/
theorem hostUnderDomain_iff (host domain : Bytes) :
    hostUnderDomain host domain = true ↔
      host = domain ∨ ('.'.toUInt8 :: domain) <:+ host := by
  unfold hostUnderDomain
  by_cases heq : host = domain
  · simp [heq]
  simp only [heq, ite_false, false_or]
  by_cases hlen : host.length ≤ domain.length
  · simp only [hlen, ite_true, Bool.false_eq_true, false_iff]
    intro h
    have := h.length_le
    simp only [List.length_cons] at this
    omega
  simp only [hlen, ite_false]
  constructor
  · intro h
    split at h
    · simp at h
    · rename_i hdrop
      let n := host.length - domain.length - 1
      have hn : n < host.length := by omega
      have hget : host[n] = '.'.toUInt8 := by
        simpa [n, List.getElem?_eq_getElem hn] using h
      have hdom : host.drop (n + 1) = domain := by
        rw [show n + 1 = host.length - domain.length by omega]
        simpa using hdrop
      refine ⟨host.take n, ?_⟩
      calc
        host.take n ++ '.'.toUInt8 :: domain = host.take n ++ host.drop n := by
          rw [List.drop_eq_getElem_cons hn, hget, hdom]
        _ = host := List.take_append_drop n host
  · rintro ⟨p, rfl⟩
    have hn : (p ++ '.'.toUInt8 :: domain).length - domain.length = p.length + 1 := by
      simp only [List.length_append, List.length_cons]
      omega
    rw [hn]
    simp [List.drop_append]

theorem domainExcluded_iff (policy : Policy) (host : Bytes) :
    domainExcluded policy host = true ↔ ∃ d ∈ policy.sensitiveDomains,
      toLower host = toLower d ∨ ('.'.toUInt8 :: toLower d) <:+ toLower host := by
  simp [domainExcluded, hostUnderDomain_iff]

/-- The labels of a name, empty ones included. -/
def labels (name : Bytes) : List Bytes := name.splitOn '.'.toUInt8

theorem hostUnderDomain_iff_labels (host domain : Bytes) :
    hostUnderDomain host domain = true ↔ labels domain <:+ labels host := by
  rw [hostUnderDomain_iff, labels, labels, Separated.splitOn_suffix_iff, eq_comm]

/-- A host is excluded exactly if the labels of some entry are its last labels, up to case. -/
theorem domainExcluded_iff_labels (policy : Policy) (host : Bytes) :
    domainExcluded policy host = true ↔
      ∃ d ∈ policy.sensitiveDomains, labels (toLower d) <:+ labels (toLower host) := by
  simp only [domainExcluded, List.any_eq_true, hostUnderDomain_iff_labels]

end Ezcap.Redactor
