import Ezcap.Verification.PolicyEngine.RoundTrip
import Ezcap.Verification.Redactor.Domains
import Ezcap.Verification.Redactor.Masking

/-! When a policy document only tightens redaction. What a policy hides is compared through
the names it alters and the URLs it excludes; the acceptance checks of `update_from_json`
do not look at either. -/

namespace Ezcap.Redactor

open StdString

/-! ## What a policy hides -/

/-- The redacted name differs from the name. -/
def Hides (policy : Policy) (name : Bytes) : Prop := (redactDnsName policy name).1 ≠ name

/-- `redact_url` takes the exclusion branch. -/
def Excludes (policy : Policy) (url : Bytes) : Prop :=
  (redactUrl policy url).2.domainExcluded = true

instance (policy : Policy) (name : Bytes) : Decidable (Hides policy name) :=
  inferInstanceAs (Decidable (_ ≠ _))

instance (policy : Policy) (url : Bytes) : Decidable (Excludes policy url) :=
  inferInstanceAs (Decidable (_ = _))

theorem domainExcluded_stripUrl (policy : Policy) (url : Bytes) :
    (stripUrl policy url).2.domainExcluded = false := by
  unfold stripUrl
  dsimp only
  split_ifs <;> rfl

theorem domainExcluded_spliceHostname (policy : Policy) (scheme : Option ℕ) (start : ℕ)
    (host result : Bytes) (redactions : Redactions) :
    (spliceHostname policy scheme start host result redactions).2.domainExcluded =
      redactions.domainExcluded := by
  unfold spliceHostname
  by_cases hscheme : scheme.isSome
  · rw [if_pos hscheme]
    by_cases hmode : policy.redactionMode = .domainHash <;> simp [hmode, Redactions.mark]
  · rw [if_neg hscheme]

theorem domainExcluded_transformUrl (policy : Policy) (url : Bytes) :
    (transformUrl policy url).2.domainExcluded = false := by
  have hstrip := domainExcluded_stripUrl policy url
  unfold transformUrl
  cases policy.redactionMode with
  | hostnameOnly =>
      simp only [keepHostname]
      split <;> exact hstrip
  | queryStringRemoval => exact hstrip
  | fullHostname => exact hstrip
  | domainHash => exact (domainExcluded_spliceHostname ..).trans hstrip
  | domainMask => exact (domainExcluded_spliceHostname ..).trans hstrip

theorem excludes_iff (policy : Policy) (url : Bytes) :
    Excludes policy url ↔
      urlHost url ≠ [] ∧ ∃ d ∈ policy.sensitiveDomains, Under (urlHost url) d := by
  rw [Excludes, redactUrl, ← domainExcluded_iff_under]
  split
  · rename_i h
    exact iff_of_true rfl h
  · rename_i h
    rw [domainExcluded_transformUrl]
    exact iff_of_false Bool.false_ne_true h

/-- The names that a redaction mode alters by itself. -/
def Alters (mode : RedactionMode) (name : Bytes) : Prop :=
  (mode = .domainHash ∧ fnv1aHex name ≠ name) ∨ (mode = .domainMask ∧ maskHostname name ≠ name)

theorem hides_iff (policy : Policy) (name : Bytes) :
    Hides policy name ↔ name ≠ [] ∧
      ((∃ d ∈ policy.sensitiveDomains, Under name d) ∨ Alters policy.redactionMode name) := by
  rw [Hides, redactDnsName, ← domainExcluded_iff_under]
  by_cases hname : name = []
  · simp [hname]
  by_cases hexcluded : domainExcluded policy name = true
  · simp [hname, hexcluded, Ne.symm hname]
  · simp only [hname, hexcluded, if_false, ne_eq, not_false_eq_true, true_and, Alters]
    cases hmode : policy.redactionMode <;> simp [transformHostname, hmode]

/-! ## The order of modes -/

/-- Three modes leave names alone, the mask alters names with a dot only. -/
def strictness : RedactionMode → ℕ
  | .domainHash => 2
  | .domainMask => 1
  | _ => 0

theorem mem_fnv1aHex {c : UInt8} {name : Bytes} (h : c ∈ fnv1aHex name) :
    ∃ d < 16, c = Format.digit d :=
  Format.mem_fixed (by decide) h

theorem fnv1aHex_ne_of_mem {c : UInt8} {name : Bytes} (hmem : c ∈ name)
    (hc : ∀ d < 16, c ≠ Format.digit d) : fnv1aHex name ≠ name := by
  intro h
  rw [← h] at hmem
  obtain ⟨d, hd, heq⟩ := mem_fnv1aHex hmem
  exact hc d hd heq

theorem dot_mem_of_maskHostname_ne {name : Bytes} (h : maskHostname name ≠ name) :
    '.'.toUInt8 ∈ name := by
  by_contra hdot
  exact h (maskHostname_of_notMem hdot)

theorem Alters.mono {mode mode' : RedactionMode} (hle : strictness mode ≤ strictness mode')
    {name : Bytes} (h : Alters mode name) : Alters mode' name := by
  rcases h with ⟨rfl, h⟩ | ⟨rfl, h⟩
  · cases mode' with
    | domainHash => exact .inl ⟨rfl, h⟩
    | _ => simp [strictness] at hle
  · cases mode' with
    | domainHash =>
        exact .inl ⟨rfl, fnv1aHex_ne_of_mem (dot_mem_of_maskHostname_ne h) (by decide)⟩
    | domainMask => exact .inr ⟨rfl, h⟩
    | _ => simp [strictness] at hle

/-- With its only dot behind two letters, a name is masked. -/
theorem maskHostname_two_letters {rest : Bytes} (h : '.'.toUInt8 ∉ rest) :
    maskHostname (cstr "xx." ++ rest) ≠ cstr "xx." ++ rest := by
  have hname : cstr "xx." ++ rest = 'x'.toUInt8 :: 'x'.toUInt8 :: '.'.toUInt8 :: rest := rfl
  rw [hname]
  have hdot : '.'.toUInt8 ∈ 'x'.toUInt8 :: 'x'.toUInt8 :: '.'.toUInt8 :: rest := by simp
  obtain ⟨stop, hstop⟩ := exists_maskEnd hdot
  have hxdot : 'x'.toUInt8 ≠ '.'.toUInt8 := by decide
  have hstarx : '*'.toUInt8 ≠ 'x'.toUInt8 := by decide
  obtain rfl : stop = 2 := by
    have hget := maskEnd_getElem? hstop
    match stop, hget with
    | 0, hget => simp [hxdot] at hget
    | 1, hget => simp [hxdot] at hget
    | 2, _ => rfl
    | n + 3, hget => exact absurd (List.mem_of_getElem? (by simpa using hget)) h
  intro hmask
  rw [maskHostname, hstop] at hmask
  simp [hstarx] at hmask

theorem alters_filler (ds : List Bytes) : Alters .domainHash (filler ds) := by
  refine .inl ⟨rfl, fnv1aHex_ne_of_mem (c := 'x'.toUInt8) ?_ (by decide)⟩
  simp [filler]

/-- A less strict mode lets through a name that the stricter one alters, behind which no
entry of the list can reach. -/
theorem exists_unaltered {mode mode' : RedactionMode} (h : strictness mode' < strictness mode)
    (ds : List Bytes) : ∃ s, Alters mode (s ++ filler ds) ∧ ¬ Alters mode' (s ++ filler ds) := by
  cases mode with
  | domainHash =>
      refine ⟨[], alters_filler ds, ?_⟩
      rintro (⟨rfl, -⟩ | ⟨-, hmask⟩)
      · exact absurd h (by decide)
      · exact dot_notMem_filler ds (dot_mem_of_maskHostname_ne hmask)
  | domainMask =>
      refine ⟨cstr "xx.", .inr ⟨rfl, maskHostname_two_letters (dot_notMem_filler ds)⟩, ?_⟩
      rintro (⟨rfl, -⟩ | ⟨rfl, -⟩)
      · exact absurd h (by decide)
      · exact absurd h (by decide)
  | _ => simp [strictness] at h

/-! ## Tightening -/

/-- Whatever the old policy hid or excluded, the new one does too. -/
structure Tightens (old new : Policy) : Prop where
  names : ∀ name, Hides old name → Hides new name
  urls : ∀ url, Excludes old url → Excludes new url

/-- An entry of the old policy is under one of the new policy's entries. An entry with one of `/?#`
matches no URL; for such an entry it is enough that names are hashed, or that they are masked and
the new entries cover those names under it that the mask leaves as they are. -/
def Covers (new : Policy) (d : Bytes) : Prop :=
  (∃ d' ∈ new.sensitiveDomains, Under d d') ∨
    (∃ c ∈ d, c ∈ cstr "/?#") ∧
      (new.redactionMode = .domainHash ∨ new.redactionMode = .domainMask ∧
        ∀ name, Under name d → maskHostname name = name →
          ∃ d' ∈ new.sensitiveDomains, Under name d')

theorem mem_of_under_of_mem {name d : Bytes} {c : UInt8} (hset : c ∈ cstr "/?#")
    (hunder : Under name d) (hc : c ∈ d) : c ∈ name := by
  have hlt : ∀ c ∈ cstr "/?#", c < 'A'.toUInt8 := forall_mem_of_all (by decide)
  exact mem_of_under (hlt c hset) hunder hc

theorem under_filler (ds : List Bytes) (d : Bytes) :
    Under (filler ds ++ '.'.toUInt8 :: d) d := by
  refine .inr ?_
  rw [toLower_append, toLower_cons, lowerChar_of_lt (by decide)]
  exact List.suffix_append _ _

theorem urlHost_scheme {host : Bytes} (h : ∀ c ∈ host, c ∉ cstr "/?#") :
    urlHost (cstr "x://" ++ host) = host := by
  have hurl : cstr "x://" ++ host = cstr "x" ++ (cstr "://" ++ host) := rfl
  have hstart : hostStart (cstr "x://" ++ host) = 4 := by
    rw [hurl, hostStart, findSub_append host (c := ':'.toUInt8) rfl (by decide)]
    rfl
  rw [urlHost_eq, hstart, show (cstr "x://" ++ host).drop 4 = host from rfl]
  exact List.takeWhile_eq_self_iff.mpr (by simpa using h)

theorem Tightens.strictness_le {old new : Policy} (h : Tightens old new) :
    strictness old.redactionMode ≤ strictness new.redactionMode := by
  by_contra hlt
  obtain ⟨s, hold, hnew⟩ := exists_unaltered (Nat.lt_of_not_le hlt) new.sensitiveDomains
  have hne : s ++ filler new.sensitiveDomains ≠ [] := by simp [filler]
  obtain ⟨-, ⟨d, hd, hunder⟩ | halters⟩ :=
    (hides_iff new _).mp (h.names _ ((hides_iff old _).mpr ⟨hne, .inr hold⟩))
  · exact not_under_filler hd s hunder
  · exact hnew halters

theorem Tightens.covers {old new : Policy} (h : Tightens old new) {d : Bytes}
    (hd : d ∈ old.sensitiveDomains) : Covers new d := by
  by_cases hchars : ∃ c ∈ d, c ∈ cstr "/?#"
  · have hhidden {name : Bytes} (hne : name ≠ []) (hunder : Under name d) :=
      ((hides_iff new name).mp
        (h.names name ((hides_iff old name).mpr ⟨hne, .inl ⟨d, hd, hunder⟩⟩))).2
    cases hmode : new.redactionMode with
    | domainHash => exact .inr ⟨hchars, .inl hmode⟩
    | domainMask =>
        refine .inr ⟨hchars, .inr ⟨hmode, fun name hunder hmask => ?_⟩⟩
        obtain ⟨c, hc, hset⟩ := hchars
        refine (hhidden (List.ne_nil_of_mem (mem_of_under_of_mem hset hunder hc))
          hunder).resolve_right ?_
        simp [Alters, hmode, hmask]
    | _ =>
        -- the mode leaves names alone, so that only an entry can hide one far below `d`
        obtain ⟨d', hd', hunder'⟩ := (hhidden (by simp [filler])
          (under_filler new.sensitiveDomains d)).resolve_right (by simp [Alters, hmode])
        exact .inl ⟨d', hd', under_of_under_filler hd' hunder'⟩
  · -- a host below `d` that only an entry covering `d` can exclude
    let host := filler new.sensitiveDomains ++ '.'.toUInt8 :: d
    have hhost : urlHost (cstr "x://" ++ host) = host := by
      apply urlHost_scheme
      intro c hc
      rcases List.mem_append.mp hc with hc | hc
      · rw [List.eq_of_mem_replicate hc]
        decide
      · rcases List.mem_cons.mp hc with rfl | hc
        · decide
        · exact fun hset => hchars ⟨c, hc, hset⟩
    have hexcluded : Excludes old (cstr "x://" ++ host) :=
      (excludes_iff old _).mpr
        ⟨by simp [hhost, host], d, hd, hhost.symm ▸ under_filler new.sensitiveDomains d⟩
    obtain ⟨-, d', hd', hunder'⟩ := (excludes_iff new _).mp (h.urls _ hexcluded)
    rw [hhost] at hunder'
    exact .inl ⟨d', hd', under_of_under_filler hd' hunder'⟩

theorem tightens_iff (old new : Policy) :
    Tightens old new ↔
      strictness old.redactionMode ≤ strictness new.redactionMode ∧
        ∀ d ∈ old.sensitiveDomains, Covers new d := by
  refine ⟨fun h => ⟨h.strictness_le, fun d hd => h.covers hd⟩, ?_⟩
  rintro ⟨hmode, hcovers⟩
  constructor
  · intro name hname
    obtain ⟨hne, ⟨d, hd, hunder⟩ | halters⟩ := (hides_iff old name).mp hname
    · rw [hides_iff]
      rcases hcovers d hd with ⟨d', hd', hunder'⟩ | ⟨⟨c, hc, hset⟩, hmode | ⟨hmode, hmasked⟩⟩
      · exact ⟨hne, .inl ⟨d', hd', hunder.trans hunder'⟩⟩
      · have hdigit : ∀ c ∈ cstr "/?#", ∀ d < 16, c ≠ Format.digit d :=
          forall_mem_of_all (by decide)
        exact ⟨hne, .inr (.inl ⟨hmode, fnv1aHex_ne_of_mem (mem_of_under_of_mem hset hunder hc)
          (hdigit c hset)⟩)⟩
      · by_cases hmask : maskHostname name = name
        · exact ⟨hne, .inl (hmasked name hunder hmask)⟩
        · exact ⟨hne, .inr (.inr ⟨hmode, hmask⟩)⟩
    · exact (hides_iff new name).mpr ⟨hne, .inr (halters.mono hmode)⟩
  · intro url hurl
    obtain ⟨hne, d, hd, hunder⟩ := (excludes_iff old url).mp hurl
    rcases hcovers d hd with ⟨d', hd', hunder'⟩ | ⟨⟨c, hc, hset⟩, -⟩
    · exact (excludes_iff new url).mpr ⟨hne, d', hd', hunder.trans hunder'⟩
    · exact absurd (mem_of_under_of_mem hset hunder hc) (notMem_urlHost url c hset)

end Ezcap.Redactor

namespace Ezcap.PolicyEngine

open StdString Redactor

/-- An accepted document tightens redaction exactly when the mode it sets, if any, is at least
as strict, and the list it sets, if any, covers every entry of the list it replaces. -/
theorem accepted_update_tightens_iff {policy next : Policy} {doc : Json}
    (h : updateFromJson policy doc = .ok next) :
    Tightens policy next ↔
      (∀ mode ∈ (PolicyEdit.ofDocument doc).mode,
        strictness policy.redactionMode ≤ strictness mode) ∧
      ((PolicyEdit.ofDocument doc).domains.isSome = true →
        ∀ d ∈ policy.sensitiveDomains, Covers next d) := by
  obtain ⟨-, rfl⟩ := editPolicy_eq_ok h
  rw [tightens_iff]
  refine and_congr ?_ ?_
  · cases hmode : (PolicyEdit.ofDocument doc).mode <;> simp [PolicyEdit.applyTo, hmode]
  · cases hdomains : (PolicyEdit.ofDocument doc).domains with
    | none =>
        refine iff_of_true (fun d hd => .inl ⟨d, ?_, .refl d⟩) (by simp)
        simpa [PolicyEdit.applyTo, hdomains] using hd
    | some ds => simp [PolicyEdit.applyTo, hdomains]

/-- A document with an empty list is accepted after one that named a domain, and the domain
comes to light. -/
theorem accepted_update_reveals_domain :
    let docOf (ds : List Json) := Json.object
      [(cstr "redaction", .object [(cstr "sensitive_domains", .array ds)])]
    let engine :=
      (PolicyEngine.snapshot {} 0 (docOf [.string (cstr "bank.example")])).commit 0
    Reachable engine ∧ ∃ next, updateFromJson engine.policy (docOf []) = .ok next ∧
      Hides engine.policy (cstr "bank.example") ∧ ¬ Hides next (cstr "bank.example") ∧
      Excludes engine.policy (cstr "https://bank.example/") ∧
      ¬ Excludes next (cstr "https://bank.example/") := by
  intro docOf engine
  refine ⟨(Reachable.init.snapshot 0 _).commit 0, {}, rfl, ?_, ?_, ?_, ?_⟩
  · exact (hides_iff _ _).mpr ⟨by decide, .inl ⟨cstr "bank.example", by decide, .refl _⟩⟩
  · decide
  · decide
  · decide

/-- A document that names a parent domain and hashes names only tightens. -/
theorem parent_domain_update_tightens :
    let policy : Policy := { sensitiveDomains := [cstr "bank.example"] }
    let doc := Json.object [(cstr "redaction", .object
      [(cstr "mode", .string (cstr "domain-hash")),
       (cstr "sensitive_domains", .array [.string (cstr "example")])])]
    ∃ next, updateFromJson policy doc = .ok next ∧ Tightens policy next := by
  intro policy doc
  have haccepted : updateFromJson policy doc =
      .ok { redactionMode := .domainHash, sensitiveDomains := [cstr "example"] } := rfl
  refine ⟨_, haccepted, (accepted_update_tightens_iff haccepted).mpr ⟨?_, ?_⟩⟩
  · exact fun mode _ => Nat.zero_le _
  · intro _ d hd
    obtain rfl : d = cstr "bank.example" := by simpa [policy] using hd
    exact .inl ⟨cstr "example", by simp, by decide⟩

end Ezcap.PolicyEngine
