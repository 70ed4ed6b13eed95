import Ezcap.Verification.Redactor.Domains
import Ezcap.Verification.Redactor.Stripping

/-! What a redacted URL owes to its query and fragment. The host is located on the whole URL
and the text is stripped afterwards, so a `://` that stands only in the query decides the
exclusion check and the host that is spliced in. -/

namespace Ezcap.Redactor

open StdString

/-- A query or fragment with its sign, or nothing. -/
def IsTail (s : Bytes) : Prop := ∀ c ∈ s.head?, c ∈ cstr "?#"

theorem findFirstOf_of_length_le {s set : Bytes} {pos : ℕ} (h : s.length ≤ pos) :
    findFirstOf s set pos = none := by
  simp [findFirstOf, List.drop_eq_nil_of_le h]

section

variable {p s : Bytes}

/-! ## A tail behind the text -/

theorem takeWhile_append_tail (hs : IsTail s) :
    (p ++ s).takeWhile (fun c => !(cstr "/?#").contains c) =
      p.takeWhile (fun c => !(cstr "/?#").contains c) := by
  apply takeWhile_append_of_head
  have hset : ∀ c ∈ cstr "?#", (!(cstr "/?#").contains c) = false := forall_mem_of_all (by decide)
  exact fun c hc => hset c (hs c hc)

theorem findSub_append_tail (hs : IsTail s) :
    findSub (cstr "://") (p ++ s) =
      (findSub (cstr "://") p).or ((findSub (cstr "://") s).map (· + p.length)) := by
  apply findSub_append_of_head
  have hforeign : ∀ c ∈ cstr "?#", c ∉ cstr "://" := forall_mem_of_all (by decide)
  exact fun c hc => hforeign c (hs c hc)

/-- Both strip flags together remove the whole tail. -/
theorem stripUrl_append_tail {policy : Policy} (hquery : policy.stripQueryString = true)
    (hfragment : policy.stripFragment = true) (hp : ∀ c ∈ cstr "?#", c ∉ p) (hs : IsTail s) :
    (stripUrl policy (p ++ s)).1 = p := by
  have hhash : ∀ c ∈ p, decide (c ≠ '#'.toUInt8) = true := by
    intro c hc
    simpa using fun h : c = '#'.toUInt8 => hp c (by rw [h]; decide) hc
  have hmark : ∀ c ∈ p, decide (c ≠ '?'.toUInt8) = true := by
    intro c hc
    simpa using fun h : c = '?'.toUInt8 => hp c (by rw [h]; decide) hc
  rw [stripUrl_fst_of_both policy _ hquery hfragment, List.takeWhile_append_of_pos hhash,
    takeWhile_append_delimiter _ _ _ hmark]
  intro c hc
  -- what is left of the tail can only start with its question mark
  cases s with
  | nil => simp at hc
  | cons d s =>
      have hd : d = '?'.toUInt8 ∨ d = '#'.toUInt8 := by
        have hmem := hs d rfl
        rwa [show cstr "?#" = ['?'.toUInt8, '#'.toUInt8] from rfl, List.mem_pair] at hmem
      rcases hd with rfl | rfl
      · rw [List.takeWhile_cons_of_pos (by decide)] at hc
        cases hc
        rfl
      · rw [List.takeWhile_cons_of_neg (by decide)] at hc
        cases hc

/-! ## A scheme separator in the text -/

theorem hostStart_append_of_scheme (hs : IsTail s) {i : ℕ} (h : findSub (cstr "://") p = some i) :
    hostStart (p ++ s) = hostStart p := by
  simp only [hostStart, findSub_append_tail hs, h, Option.or]

theorem urlHost_append_of_scheme (hs : IsTail s) {i : ℕ} (h : findSub (cstr "://") p = some i) :
    urlHost (p ++ s) = urlHost p := by
  have hstart : hostStart p ≤ p.length := by
    have hlen := (findSub_isPrefix h).length_le
    rw [List.length_drop, show (cstr "://").length = 3 from rfl] at hlen
    simp only [hostStart, h]
    omega
  rw [urlHost_eq, urlHost_eq, hostStart_append_of_scheme hs h,
    List.drop_append_of_le_length hstart, takeWhile_append_tail hs]

/-! ## No scheme separator in the text -/

theorem urlHost_append_of_none (hs : IsTail s) (h : findSub (cstr "://") p = none)
    (hnone : findSub (cstr "://") s = none) : urlHost (p ++ s) = urlHost p := by
  have hstart : hostStart (p ++ s) = 0 := by
    simp only [hostStart, findSub_append_tail hs, h, hnone, Option.map_none, Option.or]
  have hstart' : hostStart p = 0 := by simp only [hostStart, h]
  rw [urlHost_eq, urlHost_eq, hstart, hstart', List.drop_zero, List.drop_zero,
    takeWhile_append_tail hs]

theorem hostStart_append_of_late (hs : IsTail s) (h : findSub (cstr "://") p = none) {j : ℕ}
    (hj : findSub (cstr "://") s = some j) : hostStart (p ++ s) = p.length + hostStart s := by
  simp only [hostStart, findSub_append_tail hs, h, hj, Option.map_some, Option.or]
  omega

theorem urlHost_append_of_late (hs : IsTail s) (h : findSub (cstr "://") p = none) {j : ℕ}
    (hj : findSub (cstr "://") s = some j) : urlHost (p ++ s) = urlHost s := by
  rw [urlHost_eq, urlHost_eq, hostStart_append_of_late hs h hj, List.drop_append,
    List.drop_eq_nil_of_le (by omega), List.nil_append, Nat.add_sub_cancel_left]

end

/-! ## The redacted text, by where the first separator stands -/

section

variable {policy : Policy} (hquery : policy.stripQueryString = true)
  (hfragment : policy.stripFragment = true)
  {p s : Bytes} (hp : ∀ c ∈ cstr "?#", c ∉ p) (hs : IsTail s)

include hquery hfragment hp hs

theorem redactUrl_append_of_scheme {i : ℕ} (h : findSub (cstr "://") p = some i) :
    (redactUrl policy (p ++ s)).1 = (redactUrl policy p).1 := by
  have hstrip := stripUrl_append_tail hquery hfragment hp hs
  have hstrip' : (stripUrl policy p).1 = p := by
    simpa using stripUrl_append_tail hquery hfragment hp (s := []) (by simp [IsTail])
  have hfind : findSub (cstr "://") (p ++ s) = findSub (cstr "://") p := by
    simp only [findSub_append_tail hs, h, Option.or]
  rw [redactUrl_fst, redactUrl_fst, urlHost_append_of_scheme hs h]
  congr 1
  unfold transformUrl
  simp only [hfind, hostStart_append_of_scheme hs h, urlHost_append_of_scheme hs h]
  cases policy.redactionMode <;>
    simp only [keepHostname_fst, spliceHostname_fst, hstrip, hstrip']

/-- Without a separator nothing but the exclusion check applies. -/
theorem redactUrl_append_of_none (h : findSub (cstr "://") p = none)
    (hnone : findSub (cstr "://") s = none) :
    (redactUrl policy (p ++ s)).1 = if HostExcluded policy (urlHost p) then [] else p := by
  have hstrip := stripUrl_append_tail hquery hfragment hp hs
  have hfind : findSub (cstr "://") (p ++ s) = none := by
    simp only [findSub_append_tail hs, h, hnone, Option.map_none, Option.or]
  rw [redactUrl_fst, urlHost_append_of_none hs h hnone]
  congr 1
  unfold transformUrl
  simp only [hfind]
  cases policy.redactionMode <;>
    simp [keepHostname_fst, spliceHostname_fst, hstrip]

/-- With the separator in the tail, a host of the tail is checked and spliced in. -/
theorem redactUrl_append_of_late (h : findSub (cstr "://") p = none) {j : ℕ}
    (hj : findSub (cstr "://") s = some j) :
    (redactUrl policy (p ++ s)).1 =
      if HostExcluded policy (urlHost s) then []
      else if RewritesHost policy.redactionMode then p ++ transformHostname policy (urlHost s)
      else p := by
  have hstrip := stripUrl_append_tail hquery hfragment hp hs
  have hfind : (findSub (cstr "://") (p ++ s)).isSome = true := by
    simp [findSub_append_tail hs, h, hj]
  have hstart := hostStart_append_of_late hs h hj
  have hbehind (set : Bytes) : findFirstOf p set (p.length + hostStart s) = none :=
    findFirstOf_of_length_le (by omega)
  have htake : p.take (p.length + hostStart s) = p := List.take_of_length_le (by omega)
  rw [redactUrl_fst, urlHost_append_of_late hs h hj]
  congr 1
  unfold transformUrl
  cases hmode : policy.redactionMode <;>
    simp [keepHostname_fst, spliceHostname_fst, hstrip, hfind, hstart, hbehind, htake, find, cutAt,
      RewritesHost, urlHost_append_of_late hs h hj]

end

/-! ## Independence -/

/-- Entries with one of `/?#` match no host. -/
theorem not_hostExcluded {policy : Policy}
    (h : ∀ d ∈ policy.sensitiveDomains, ∃ c ∈ d, c ∈ cstr "/?#") (url : Bytes) :
    ¬ HostExcluded policy (urlHost url) := by
  rintro ⟨-, hexcluded⟩
  obtain ⟨d, hd, hunder⟩ := (domainExcluded_iff_under policy _).mp hexcluded
  obtain ⟨c, hc, hset⟩ := h d hd
  have hlt : ∀ c ∈ cstr "/?#", c < 'A'.toUInt8 := forall_mem_of_all (by decide)
  exact notMem_urlHost url c hset (mem_of_under (hlt c hset) hunder hc)

/-- A query that is nothing but a separator and a host. -/
def hostQuery (host : Bytes) : Bytes := cstr "?://" ++ host

theorem isTail_hostQuery (host : Bytes) : IsTail (hostQuery host) := by
  intro c hc
  cases hc
  decide

theorem findSub_hostQuery (host : Bytes) : findSub (cstr "://") (hostQuery host) = some 1 :=
  findSub_append (s := cstr "?") (c := ':'.toUInt8) host rfl (by decide)

theorem urlHost_hostQuery {host : Bytes} (h : ∀ c ∈ host, c ∉ cstr "/?#") :
    urlHost (hostQuery host) = host := by
  have hstart : hostStart (hostQuery host) = 4 := by rw [hostStart, findSub_hostQuery]
  rw [urlHost_eq, hstart, show (hostQuery host).drop 4 = host from rfl]
  exact List.takeWhile_eq_self_iff.mpr (by simpa using h)

theorem transformHostname_ne_nil (policy : Policy) {host : Bytes} (h : host ≠ []) :
    transformHostname policy host ≠ [] := by
  unfold transformHostname
  split
  · intro hnil
    simpa [fnv1aHex, Format.length_fixed] using congrArg List.length hnil
  · unfold maskHostname
    split
    · exact h
    · split <;> simp [h]
  · exact h

theorem filler_ne_nil (ds : List Bytes) : filler ds ≠ [] := by simp [filler]

theorem filler_chars (ds : List Bytes) : ∀ c ∈ filler ds, c ∉ cstr "/?#" := by
  intro c hc
  rw [List.eq_of_mem_replicate hc]
  decide

section

variable {policy : Policy} (hquery : policy.stripQueryString = true)
  (hfragment : policy.stripFragment = true) {p : Bytes} (hp : ∀ c ∈ cstr "?#", c ∉ p)

include hquery hfragment hp

/-- A host of the query that no entry matches is kept, and transformed if the mode says so. -/
theorem redactUrl_filler (h : findSub (cstr "://") p = none) :
    (redactUrl policy (p ++ hostQuery (filler policy.sensitiveDomains))).1 =
      if RewritesHost policy.redactionMode then
        p ++ transformHostname policy (filler policy.sensitiveDomains)
      else p := by
  have hkept : ¬ HostExcluded policy (filler policy.sensitiveDomains) := by
    rintro ⟨-, hexcluded⟩
    obtain ⟨d, hd, hunder⟩ := (domainExcluded_iff_under policy _).mp hexcluded
    exact not_under_filler hd [] hunder
  rw [redactUrl_append_of_late hquery hfragment hp (isTail_hostQuery _) h (findSub_hostQuery _),
    urlHost_hostQuery (filler_chars _), if_neg hkept]

theorem redactUrl_sensitive (h : findSub (cstr "://") p = none) {d : Bytes}
    (hd : d ∈ policy.sensitiveDomains) (hchars : ∀ c ∈ d, c ∉ cstr "/?#") :
    (redactUrl policy (p ++ hostQuery (cstr "x." ++ d))).1 = [] := by
  have hhost : ∀ c ∈ cstr "x." ++ d, c ∉ cstr "/?#" := by
    intro c hc
    rcases List.mem_append.mp hc with hc | hc
    · have hx : ∀ c ∈ cstr "x.", c ∉ cstr "/?#" := forall_mem_of_all (by decide)
      exact hx c hc
    · exact hchars c hc
  have hexcluded : HostExcluded policy (cstr "x." ++ d) := by
    refine ⟨List.append_ne_nil_of_left_ne_nil (by decide) d, ?_⟩
    refine (domainExcluded_iff_under policy _).mpr ⟨d, hd, .inr ?_⟩
    exact ⟨cstr "x", by rw [toLower_append]; rfl⟩
  rw [redactUrl_append_of_late hquery hfragment hp (isTail_hostQuery _) h (findSub_hostQuery _),
    urlHost_hostQuery hhost, if_pos hexcluded]

/-- The text `p` itself is what remains, whatever the tail. -/
theorem redactUrl_append_eq (h : findSub (cstr "://") p = none)
    (hmode : ¬ RewritesHost policy.redactionMode)
    (hentries : p = [] ∨ ∀ d ∈ policy.sensitiveDomains, ∃ c ∈ d, c ∈ cstr "/?#") {s : Bytes}
    (hs : IsTail s) : (redactUrl policy (p ++ s)).1 = p := by
  have hbranch (url : Bytes) :
      (if HostExcluded policy (urlHost url) then [] else p) = p := by
    rcases hentries with rfl | hentries
    · exact ite_self _
    · exact if_neg (not_hostExcluded hentries url)
  cases hj : findSub (cstr "://") s with
  | none =>
      rw [redactUrl_append_of_none hquery hfragment hp hs h hj]
      exact hbranch p
  | some j =>
      rw [redactUrl_append_of_late hquery hfragment hp hs h hj, if_neg hmode]
      exact hbranch s

/-- With both strip flags on, the redacted URL is the same for all queries and fragments
exactly when the scheme separator stands before them, or the mode leaves hosts alone and
no entry can match a host, unless nothing but the tail is there. -/
theorem redactUrl_tail_independent_iff :
    (∀ s₁ s₂, IsTail s₁ → IsTail s₂ →
      (redactUrl policy (p ++ s₁)).1 = (redactUrl policy (p ++ s₂)).1) ↔
    (findSub (cstr "://") p).isSome = true ∨
      ¬ RewritesHost policy.redactionMode ∧
        (p = [] ∨ ∀ d ∈ policy.sensitiveDomains, ∃ c ∈ d, c ∈ cstr "/?#") := by
  cases h : findSub (cstr "://") p with
  | some i =>
      refine iff_of_true (fun s₁ s₂ hs₁ hs₂ => ?_) (.inl rfl)
      rw [redactUrl_append_of_scheme hquery hfragment hp hs₁ h,
        redactUrl_append_of_scheme hquery hfragment hp hs₂ h]
  | none =>
      simp only [Option.isSome_none, Bool.false_eq_true, false_or]
      constructor
      · intro hall
        have hfiller := redactUrl_filler hquery hfragment hp h
        have hmode : ¬ RewritesHost policy.redactionMode := by
          intro hmode
          have hplain := redactUrl_append_of_none hquery hfragment hp (s := []) (by simp [IsTail])
            h rfl
          have heq := hall [] _ (by simp [IsTail])
            (isTail_hostQuery (filler policy.sensitiveDomains))
          have hhost := transformHostname_ne_nil policy
            (filler_ne_nil policy.sensitiveDomains)
          rw [hplain, hfiller, if_pos hmode] at heq
          split at heq
          · exact hhost (List.append_eq_nil_iff.mp heq.symm).2
          · exact hhost (by simpa using heq)
        refine ⟨hmode, ?_⟩
        by_contra hnot
        push Not at hnot
        obtain ⟨hne, d, hd, hchars⟩ := hnot
        have heq := hall _ _ (isTail_hostQuery (cstr "x." ++ d))
          (isTail_hostQuery (filler policy.sensitiveDomains))
        rw [redactUrl_sensitive hquery hfragment hp h hd hchars, hfiller, if_neg hmode] at heq
        exact hne heq.symm
      · rintro ⟨hmode, hentries⟩ s₁ s₂ hs₁ hs₂
        rw [redactUrl_append_eq hquery hfragment hp h hmode hentries hs₁,
          redactUrl_append_eq hquery hfragment hp h hmode hentries hs₂]

end

/-- An address without a scheme, alone and with a link to a sensitive host in its query. -/
theorem redactUrl_differs_by_query :
    let policy : Policy := { sensitiveDomains := [cstr "bank.example"] }
    let p := cstr "news.example/story"
    (policy.stripQueryString = true ∧ policy.stripFragment = true) ∧ (∀ c ∈ cstr "?#", c ∉ p) ∧
      IsTail [] ∧ IsTail (cstr "?next=http://bank.example") ∧
      (redactUrl policy (p ++ [])).1 = p ∧
      (redactUrl policy (p ++ cstr "?next=http://bank.example")).1 = [] := by
  refine ⟨⟨rfl, rfl⟩, forall_mem_of_all (by decide), by simp [IsTail], ?_, by decide, by decide⟩
  intro c hc
  cases hc
  decide

/-- With the scheme in place the same link in the query changes nothing. -/
theorem redactUrl_independent_behind_scheme :
    let policy : Policy :=
      { redactionMode := .domainHash, sensitiveDomains := [cstr "bank.example"] }
    (findSub (cstr "://") (cstr "https://news.example/story")).isSome = true ∧
      ∀ s₁ s₂, IsTail s₁ → IsTail s₂ →
        (redactUrl policy (cstr "https://news.example/story" ++ s₁)).1 =
          (redactUrl policy (cstr "https://news.example/story" ++ s₂)).1 := by
  intro policy
  have hquery : policy.stripQueryString = true := rfl
  have hfragment : policy.stripFragment = true := rfl
  have hscheme : (findSub (cstr "://") (cstr "https://news.example/story")).isSome = true := by
    decide
  have hcut := forall_mem_of_all (l := cstr "?#") (p := (· ∉ cstr "https://news.example/story"))
    (by decide)
  exact ⟨hscheme, (redactUrl_tail_independent_iff hquery hfragment hcut).mpr (.inl hscheme)⟩

end Ezcap.Redactor
