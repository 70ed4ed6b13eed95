import Ezcap.Verification.Ipc.Text
import Ezcap.Model.PolicyEngine

/-! Policies and policy documents as text: the domains of a policy come from documents that
the JSON parser has accepted, so the policy can always be serialized. -/

namespace Ezcap.PolicyEngine

open StdString Utf8

/-- The sensitive domains of the policy are well-formed UTF-8. -/
def PolicyText (policy : Policy) : Prop := ∀ domain ∈ policy.sensitiveDomains, Valid domain

theorem isText_toJson {policy : Policy} (h : PolicyText policy) :
    (toJson policy).isText = true := by
  have hmode : Valid (redactionModeName policy.redactionMode) := by
    cases policy.redactionMode <;> exact valid_cstr _
  simpa [toJson, Ipc.isText_mkObject_iff, hmode, PolicyText] using h

/-! ## Documents -/

/-- The outcome is an error message that is text, or a policy that is. -/
def TextOutcome : Except Bytes Policy → Prop
  | .error message => Valid message
  | .ok policy => PolicyText policy

/-- A reader that turns every text policy into one, or fails with a text message. -/
def KeepsText (read : Policy → Except Bytes Policy) : Prop :=
  ∀ policy, PolicyText policy → TextOutcome (read policy)

theorem keepsText_error (s : String) : KeepsText fun _ => .error (cstr s) :=
  fun _ _ => valid_cstr s

theorem keepsText_ok : KeepsText .ok := fun _ h => h

theorem KeepsText.bind {f g : Policy → Except Bytes Policy} (hf : KeepsText f) (hg : KeepsText g) :
    KeepsText fun p => (f p).bind g := by
  intro p hp
  have hresult := hf p hp
  cases h : f p with
  | error e => simpa only [h, Except.bind] using hresult
  | ok next =>
      rw [h] at hresult
      simpa only [h, Except.bind] using hg next hresult

theorem readMode_keepsText (redaction : Json) : KeepsText (readMode redaction) := by
  unfold readMode
  split
  · exact keepsText_ok
  · split
    · exact keepsText_error _
    · split
      · exact keepsText_error _
      · exact fun _ h => h

theorem readDomainEntries_text {entries : List Json} (h : ∀ d ∈ entries, d.isText = true) :
    match readDomainEntries entries with
    | .error message => Valid message
    | .ok domains => ∀ d ∈ domains, Valid d := by
  induction entries with
  | nil => simp [readDomainEntries]
  | cons d ds ih =>
      have hrest := ih fun e he => h e (by simp [he])
      unfold readDomainEntries
      cases hd : d.string? with
      | none => exact valid_cstr _
      | some s =>
          dsimp only
          split_ifs
          · exact valid_cstr _
          · cases hds : readDomainEntries ds with
            | error e =>
                rw [hds] at hrest
                exact hrest
            | ok domains =>
                rw [hds] at hrest
                have hs : Valid s := Json.valid_string? (h d (by simp)) hd
                simpa [Except.map, hs] using hrest

theorem readDomains_keepsText {redaction : Json} (h : redaction.isText = true) :
    KeepsText (readDomains redaction) := by
  unfold readDomains
  split
  · exact keepsText_ok
  · rename_i domains hdomains
    have htext := Json.isText_field? h hdomains
    split
    · exact keepsText_error _
    · rename_i entries hentries
      split
      · exact keepsText_error _
      · intro p _
        have hdocs : ∀ d ∈ entries, d.isText = true := by
          cases domains with
          | array xs =>
              cases hentries
              exact (Json.isText_array _).mp htext
          | _ => cases hentries
        have hresult := readDomainEntries_text hdocs
        cases hds : readDomainEntries entries with
        | error e =>
            rw [hds] at hresult
            exact hresult
        | ok ds =>
            rw [hds] at hresult
            exact hresult

theorem readRedaction_keepsText {doc : Json} (h : doc.isText = true) :
    KeepsText (readRedaction doc) := by
  unfold readRedaction
  split
  · exact keepsText_ok
  · rename_i redaction hredaction
    split
    · exact (readMode_keepsText _).bind (readDomains_keepsText (Json.isText_field? h hredaction))
    · exact keepsText_error _

theorem readEnabled_keepsText (persist : Json) : KeepsText (readEnabled persist) := by
  unfold readEnabled
  split
  · exact keepsText_ok
  · split
    · exact keepsText_error _
    · exact fun _ h => h

theorem readRetention_keepsText (persist : Json) : KeepsText (readRetention persist) := by
  unfold readRetention
  split
  · exact keepsText_ok
  · split
    · exact keepsText_error _
    · split
      · exact keepsText_error _
      · exact fun _ h => h

theorem readPersistence_keepsText (doc : Json) : KeepsText (readPersistence doc) := by
  unfold readPersistence
  split
  · exact keepsText_ok
  · split
    · exact (readEnabled_keepsText _).bind (readRetention_keepsText _)
    · exact keepsText_error _

theorem editPolicy_keepsText {doc : Json} (h : doc.isText = true) : KeepsText (editPolicy doc) := by
  unfold editPolicy
  split
  · have hcheck : checkMetadataOnly doc = .ok () ∨
        checkMetadataOnly doc = .error (cstr "metadata-only mode cannot be disabled") := by
      unfold checkMetadataOnly
      split
      · exact .inl rfl
      · split
        · exact .inl rfl
        · exact .inr rfl
    rcases hcheck with hcheck | hcheck
    · rw [hcheck]
      exact (readRedaction_keepsText h).bind (readPersistence_keepsText doc)
    · rw [hcheck]
      exact keepsText_error _
  · exact keepsText_error _

end Ezcap.PolicyEngine
