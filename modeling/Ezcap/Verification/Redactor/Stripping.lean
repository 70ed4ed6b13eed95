import Ezcap.Verification.Redactor.Equations

/-! What can occur in a redacted URL. Hash and mask modes splice a host taken from
the unstripped URL back into the stripped one, so the characters of the spliced
host matter as much as those of the text that is kept. -/

namespace Ezcap.Redactor

open StdString

/-- With both strip flags on, the kept text ends before the first `#` and the first `?`. -/
theorem stripUrl_fst_of_both (policy : Policy) (url : Bytes)
    (hq : policy.stripQueryString = true) (hf : policy.stripFragment = true) :
    (stripUrl policy url).1 =
      (url.takeWhile (· ≠ '#'.toUInt8)).takeWhile (· ≠ '?'.toUInt8) := by
  rw [stripUrl_fst, hq, hf]
  rfl

theorem notMem_stripUrl (policy : Policy) (url : Bytes)
    (hq : policy.stripQueryString = true) (hf : policy.stripFragment = true) :
    '?'.toUInt8 ∉ (stripUrl policy url).1 ∧ '#'.toUInt8 ∉ (stripUrl policy url).1 := by
  rw [stripUrl_fst_of_both policy url hq hf]
  constructor
  · intro h
    simpa using List.mem_takeWhile_imp h
  · intro h
    have hsub := (List.takeWhile_prefix (· ≠ '?'.toUInt8)).subset h
    simpa using List.mem_takeWhile_imp hsub

theorem mem_cutAt {c : UInt8} {s : Bytes} {i : Option ℕ} (h : c ∈ cutAt s i) : c ∈ s := by
  cases i with
  | none => exact h
  | some i => exact List.mem_of_mem_take h

theorem mem_maskHostname {c : UInt8} {host : Bytes} (h : c ∈ maskHostname host) :
    c ∈ host ∨ c = '*'.toUInt8 := by
  unfold maskHostname at h
  split at h
  · exact .inl h
  · split at h
    · simp only [List.mem_append, List.mem_replicate] at h
      rcases h with (h | h) | h
      · exact .inl (List.mem_of_mem_take h)
      · exact .inr h.2
      · exact .inl (List.mem_of_mem_drop h)
    · exact .inl h

/-- A transformed host consists of characters of the host, stars and hex digits. -/
theorem mem_transformHostname {policy : Policy} {c : UInt8} {host : Bytes}
    (h : c ∈ transformHostname policy host) :
    c ∈ host ∨ c = '*'.toUInt8 ∨ ∃ d < 16, c = Format.digit d := by
  unfold transformHostname at h
  split at h
  · obtain ⟨d, hd, rfl⟩ := Format.mem_fixed (by decide) h
    exact .inr (.inr ⟨d, hd, rfl⟩)
  · rcases mem_maskHostname h with h | h
    · exact .inl h
    · exact .inr (.inl h)
  · exact .inl h

private theorem digit_notMem : ∀ d < 16, Format.digit d ∉ cstr "/?#" := by
  decide

/-- Splicing adds no character of `/?#` beyond those of the stripped URL. -/
theorem notMem_spliceHostname (policy : Policy) (url result : Bytes) (redactions : Redactions)
    (c : UInt8) (hc : c ∈ cstr "/?#") (hr : c ∉ result) :
    c ∉ (spliceHostname policy (findSub (cstr "://") url) (hostStart url) (urlHost url)
      result redactions).1 := by
  unfold spliceHostname
  split
  · simp only [List.mem_append, not_or]
    refine ⟨⟨fun h => hr (List.mem_of_mem_take h), ?_⟩, ?_⟩
    · intro h
      rcases mem_transformHostname h with h | h | ⟨d, hd, h⟩
      · exact notMem_urlHost url c hc h
      · subst h
        exact absurd hc (by decide)
      · exact digit_notMem d hd (h ▸ hc)
    · split
      · simp
      · exact fun h => hr (List.mem_of_mem_drop h)
  · exact hr

theorem notMem_transformUrl (policy : Policy) (url : Bytes)
    (hq : policy.stripQueryString = true) (hf : policy.stripFragment = true) (c : UInt8)
    (hc : c = '?'.toUInt8 ∨ c = '#'.toUInt8) : c ∉ (transformUrl policy url).1 := by
  have hset : c ∈ cstr "/?#" := by rcases hc with rfl | rfl <;> decide
  have hstrip : c ∉ (stripUrl policy url).1 := by
    rcases hc with rfl | rfl
    · exact (notMem_stripUrl policy url hq hf).1
    · exact (notMem_stripUrl policy url hq hf).2
  unfold transformUrl
  cases policy.redactionMode with
  | hostnameOnly =>
      simp only [keepHostname]
      split
      · exact fun h => hstrip (mem_cutAt h)
      · exact hstrip
  | queryStringRemoval => exact hstrip
  | fullHostname => exact hstrip
  | domainHash => exact notMem_spliceHostname policy url _ _ c hset hstrip
  | domainMask => exact notMem_spliceHostname policy url _ _ c hset hstrip

/-- A URL redacted with both strip flags on has neither a query nor a fragment sign,
whatever the redaction mode and wherever its first `://` stands. -/
theorem notMem_redactUrl (policy : Policy) (url : Bytes)
    (hq : policy.stripQueryString = true) (hf : policy.stripFragment = true) :
    '?'.toUInt8 ∉ (redactUrl policy url).1 ∧ '#'.toUInt8 ∉ (redactUrl policy url).1 := by
  unfold redactUrl
  split
  · simp
  · exact ⟨notMem_transformUrl policy url hq hf _ (.inl rfl),
      notMem_transformUrl policy url hq hf _ (.inr rfl)⟩

end Ezcap.Redactor
