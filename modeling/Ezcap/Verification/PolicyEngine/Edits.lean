import Ezcap.Library.Control
import Ezcap.Model.PolicyEngine

/-! What a policy document means. Whether a document is accepted, and what it sets, does
not depend on the policy it is applied to: an accepted document is an assignment to
some of four fields. -/

namespace Ezcap

open StdString

/-- The assignments an accepted document makes. -/
structure PolicyEdit where
  mode : Option RedactionMode := none
  domains : Option (List Bytes) := none
  enabled : Option Bool := none
  retention : Option ℤ := none

namespace PolicyEdit

def applyTo (edit : PolicyEdit) (policy : Policy) : Policy :=
  { policy with
    redactionMode := edit.mode.getD policy.redactionMode
    sensitiveDomains := edit.domains.getD policy.sensitiveDomains
    persistenceEnabled := edit.enabled.getD policy.persistenceEnabled
    retention := edit.retention.getD policy.retention }

/-- The assignments of `edit`, then those of `next`. -/
def andThen (edit next : PolicyEdit) : PolicyEdit where
  mode := next.mode.or edit.mode
  domains := next.domains.or edit.domains
  enabled := next.enabled.or edit.enabled
  retention := next.retention.or edit.retention

theorem applyTo_andThen (edit next : PolicyEdit) (policy : Policy) :
    (edit.andThen next).applyTo policy = next.applyTo (edit.applyTo policy) := by
  obtain ⟨m, d, e, r⟩ := next
  cases m <;> cases d <;> cases e <;> cases r <;> rfl

/-- The bounds that `update_from_json` checks. -/
structure Bounded (edit : PolicyEdit) : Prop where
  domains : ∀ ds ∈ edit.domains, ds.length ≤ 256 ∧ ∀ d ∈ ds, d.length ≤ 253
  retention : ∀ seconds ∈ edit.retention, 60 ≤ seconds ∧ seconds ≤ 31536000

theorem bounded_empty : Bounded {} := ⟨nofun, nofun⟩

theorem Bounded.andThen {edit next : PolicyEdit} (hedit : edit.Bounded) (hnext : next.Bounded) :
    (edit.andThen next).Bounded := by
  constructor
  · intro ds hds
    rcases Option.or_eq_some_iff.mp hds with h | ⟨-, h⟩
    · exact hnext.domains ds h
    · exact hedit.domains ds h
  · intro seconds hseconds
    rcases Option.or_eq_some_iff.mp hseconds with h | ⟨-, h⟩
    · exact hnext.retention seconds h
    · exact hedit.retention seconds h

/-! ## The assignments of a document -/

/-- What the `redaction` member assigns. -/
def ofRedaction (redaction : Json) : PolicyEdit where
  mode := ((redaction.field? (cstr "mode")).bind Json.string?).bind redactionModeFromName
  domains := ((redaction.field? (cstr "sensitive_domains")).bind Json.array?).map
    (List.filterMap Json.string?)

theorem ofRedaction_eq (redaction : Json) :
    ofRedaction redaction =
      { mode := (ofRedaction redaction).mode : PolicyEdit }.andThen
        { domains := (ofRedaction redaction).domains } := by
  simp [andThen, ofRedaction]

/-- What the `persistence` member assigns. -/
def ofPersistence (persist : Json) : PolicyEdit where
  enabled := (persist.field? (cstr "enabled")).bind Json.bool?
  retention := (persist.field? (cstr "retention_seconds")).bind Json.integer?

theorem ofPersistence_eq (persist : Json) :
    ofPersistence persist =
      { enabled := (ofPersistence persist).enabled : PolicyEdit }.andThen
        { retention := (ofPersistence persist).retention } := by
  simp [andThen, ofPersistence]

def ofDocument (doc : Json) : PolicyEdit :=
  (((doc.field? (cstr "redaction")).map ofRedaction).getD {}).andThen
    (((doc.field? (cstr "persistence")).map ofPersistence).getD {})

end PolicyEdit

namespace PolicyEngine

/-- A reader that either fails on every policy, with one error, or performs `edit`, whose
values are then within the bounds. -/
def Performs (read : Policy → Except Bytes Policy) (edit : PolicyEdit) : Prop :=
  (∃ e, ∀ p, read p = .error e) ∨ edit.Bounded ∧ ∀ p, read p = .ok (edit.applyTo p)

theorem performs_error (e : Bytes) (edit : PolicyEdit) : Performs (fun _ => .error e) edit :=
  .inl ⟨e, fun _ => rfl⟩

theorem performs_ok : Performs .ok {} := .inr ⟨PolicyEdit.bounded_empty, fun _ => rfl⟩

theorem Performs.bind {f g : Policy → Except Bytes Policy} {edit next : PolicyEdit}
    (hf : Performs f edit) (hg : Performs g next) :
    Performs (fun p => (f p).bind g) (edit.andThen next) := by
  rcases hf with ⟨e, hf⟩ | ⟨hedit, hf⟩
  · exact .inl ⟨e, fun p => by simp only [hf, Except.bind]⟩
  · rcases hg with ⟨e, hg⟩ | ⟨hnext, hg⟩
    · exact .inl ⟨e, fun p => by simp only [hf, hg, Except.bind]⟩
    · refine .inr ⟨hedit.andThen hnext, fun p => ?_⟩
      simp only [hf, hg, Except.bind, PolicyEdit.applyTo_andThen]

theorem readMode_performs (redaction : Json) :
    Performs (readMode redaction) { mode := (PolicyEdit.ofRedaction redaction).mode } := by
  unfold readMode PolicyEdit.ofRedaction
  cases redaction.field? (cstr "mode") with
  | none => exact performs_ok
  | some mode =>
      cases hs : mode.string? with
      | none =>
          simp only [hs]
          exact performs_error _ _
      | some name =>
          cases hm : redactionModeFromName name with
          | none =>
              simp only [hs, hm]
              exact performs_error _ _
          | some m =>
              refine .inr ⟨⟨nofun, nofun⟩, fun p => ?_⟩
              simp [PolicyEdit.applyTo, hs, hm]

theorem readDomainEntries_eq_ok {entries : List Json} {ds : List Bytes}
    (h : readDomainEntries entries = .ok ds) :
    ds = entries.filterMap Json.string? ∧ ds.length = entries.length ∧
      ∀ d ∈ ds, d.length ≤ 253 := by
  induction entries generalizing ds with
  | nil =>
      cases h
      simp
  | cons entry entries ih =>
      rw [readDomainEntries] at h
      cases hs : entry.string? with
      | none => simp [hs] at h
      | some s =>
          simp only [hs] at h
          split at h
          · cases h
          · rename_i hlen
            obtain ⟨rest, hrest, rfl⟩ := Except.map_eq_ok_iff.mp h
            obtain ⟨heq, hlength, hbound⟩ := ih hrest
            refine ⟨by rw [List.filterMap_cons_some hs, ← heq], by simp [hlength], ?_⟩
            intro d hd
            rcases List.mem_cons.mp hd with rfl | hd
            · omega
            · exact hbound d hd

theorem readDomains_performs (redaction : Json) :
    Performs (readDomains redaction) { domains := (PolicyEdit.ofRedaction redaction).domains } := by
  unfold readDomains PolicyEdit.ofRedaction
  cases redaction.field? (cstr "sensitive_domains") with
  | none => exact performs_ok
  | some domains =>
      cases ha : domains.array? with
      | none =>
          simp only [ha]
          exact performs_error _ _
      | some entries =>
          by_cases hlen : entries.length > 256
          · simp only [ha, if_pos hlen]
            exact performs_error _ _
          · cases hread : readDomainEntries entries with
            | error e =>
                simp only [ha, if_neg hlen, hread, Except.map]
                exact performs_error e _
            | ok ds =>
                obtain ⟨heq, hlength, hbound⟩ := readDomainEntries_eq_ok hread
                refine .inr ⟨⟨?_, nofun⟩, fun p => ?_⟩
                · simp only [Option.bind_some, ha, Option.map_some, Option.mem_def,
                    Option.some.injEq, ← heq, forall_eq']
                  exact ⟨by omega, hbound⟩
                · simp [PolicyEdit.applyTo, ha, hlen, hread, Except.map, heq]

theorem readRedaction_performs (doc : Json) :
    Performs (readRedaction doc)
      (((doc.field? (cstr "redaction")).map PolicyEdit.ofRedaction).getD {}) := by
  unfold readRedaction
  cases doc.field? (cstr "redaction") with
  | none => exact performs_ok
  | some redaction =>
      cases ho : redaction.isObject with
      | false =>
          simp only [ho, Bool.false_eq_true, if_false]
          exact performs_error _ _
      | true =>
          simp only [ho, if_true, Option.map_some, Option.getD_some]
          rw [PolicyEdit.ofRedaction_eq]
          exact (readMode_performs redaction).bind (readDomains_performs redaction)

theorem readEnabled_performs (persist : Json) :
    Performs (readEnabled persist) { enabled := (PolicyEdit.ofPersistence persist).enabled } := by
  unfold readEnabled PolicyEdit.ofPersistence
  cases persist.field? (cstr "enabled") with
  | none => exact performs_ok
  | some flag =>
      cases hb : flag.bool? with
      | none =>
          simp only [hb]
          exact performs_error _ _
      | some b =>
          refine .inr ⟨⟨nofun, nofun⟩, fun p => ?_⟩
          simp [PolicyEdit.applyTo, hb]

theorem readRetention_performs (persist : Json) :
    Performs (readRetention persist)
      { retention := (PolicyEdit.ofPersistence persist).retention } := by
  unfold readRetention PolicyEdit.ofPersistence
  cases persist.field? (cstr "retention_seconds") with
  | none => exact performs_ok
  | some seconds =>
      cases hi : seconds.integer? with
      | none =>
          simp only [hi]
          exact performs_error _ _
      | some value =>
          by_cases hrange : value < 60 ∨ value > 31536000
          · simp only [hi, if_pos hrange]
            exact performs_error _ _
          · refine .inr ⟨⟨nofun, ?_⟩, fun p => ?_⟩
            · simp only [Option.bind_some, hi, Option.mem_def, Option.some.injEq, forall_eq']
              omega
            · simp [PolicyEdit.applyTo, hi, hrange]

theorem readPersistence_performs (doc : Json) :
    Performs (readPersistence doc)
      (((doc.field? (cstr "persistence")).map PolicyEdit.ofPersistence).getD {}) := by
  unfold readPersistence
  cases doc.field? (cstr "persistence") with
  | none => exact performs_ok
  | some persist =>
      cases ho : persist.isObject with
      | false =>
          simp only [ho, Bool.false_eq_true, if_false]
          exact performs_error _ _
      | true =>
          simp only [ho, if_true, Option.map_some, Option.getD_some]
          rw [PolicyEdit.ofPersistence_eq]
          exact (readEnabled_performs persist).bind (readRetention_performs persist)

/-- A policy document is rejected with one error, or performs the edit it describes. -/
theorem editPolicy_performs (doc : Json) : Performs (editPolicy doc) (.ofDocument doc) := by
  unfold editPolicy
  cases ho : doc.isObject with
  | false => exact performs_error _ _
  | true =>
      cases checkMetadataOnly doc with
      | error e => exact performs_error e _
      | ok u => exact (readRedaction_performs doc).bind (readPersistence_performs doc)

theorem editPolicy_eq_ok {doc : Json} {policy next : Policy}
    (h : editPolicy doc policy = .ok next) :
    (PolicyEdit.ofDocument doc).Bounded ∧ next = (PolicyEdit.ofDocument doc).applyTo policy := by
  rcases editPolicy_performs doc with ⟨e, he⟩ | ⟨hbounded, hperforms⟩
  · rw [he] at h
    cases h
  · rw [hperforms] at h
    cases h
    exact ⟨hbounded, rfl⟩

/-- An accepted document touches neither the strip flags nor the capture settings. -/
theorem editPolicy_frame {doc : Json} {policy next : Policy}
    (h : editPolicy doc policy = .ok next) :
    next.stripQueryString = policy.stripQueryString ∧
      next.stripFragment = policy.stripFragment ∧
      next.captureInterfaces = policy.captureInterfaces ∧
      next.pcapFilter = policy.pcapFilter := by
  obtain ⟨-, rfl⟩ := editPolicy_eq_ok h
  exact ⟨rfl, rfl, rfl, rfl⟩

end PolicyEngine

end Ezcap
