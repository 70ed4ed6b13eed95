import Ezcap.Verification.PolicyEngine.Edits

/-! The policy of an engine over its whole history: the bounds that every reachable policy
keeps, and that any of them can be read back from its own document. -/

namespace Ezcap.PolicyEngine

open StdString

/-- The engines that arise from a default one by the steps of `update_from_json` calls, one
after another or interleaved. -/
inductive Reachable : PolicyEngine → Prop
  | init : Reachable {}
  | snapshot {engine : PolicyEngine} (r : ℕ) (doc : Json) :
      Reachable engine → Reachable (engine.snapshot r doc)
  | commit {engine : PolicyEngine} (r : ℕ) : Reachable engine → Reachable (engine.commit r)

/-! ## The invariant -/

/-- The bounds of the readers, and the strip flags, which no document can reach. -/
structure Sound (policy : Policy) : Prop where
  retention : 60 ≤ policy.retention ∧ policy.retention ≤ 31536000
  domainCount : policy.sensitiveDomains.length ≤ 256
  domainLength : ∀ d ∈ policy.sensitiveDomains, d.length ≤ 253
  stripQueryString : policy.stripQueryString = true
  stripFragment : policy.stripFragment = true

theorem sound_default : Sound {} := ⟨by decide, by decide, by simp, rfl, rfl⟩

theorem Sound.applyTo {policy : Policy} (h : Sound policy) {edit : PolicyEdit}
    (hedit : edit.Bounded) : Sound (edit.applyTo policy) := by
  obtain ⟨mode, domains, enabled, retention⟩ := edit
  have hretention : 60 ≤ retention.getD policy.retention ∧
      retention.getD policy.retention ≤ 31536000 := by
    cases retention with
    | none => exact h.retention
    | some seconds => exact hedit.retention seconds rfl
  have hdomains : (domains.getD policy.sensitiveDomains).length ≤ 256 ∧
      ∀ d ∈ domains.getD policy.sensitiveDomains, d.length ≤ 253 := by
    cases domains with
    | none => exact ⟨h.domainCount, h.domainLength⟩
    | some ds => exact hedit.domains ds rfl
  exact ⟨hretention, hdomains.1, hdomains.2, h.stripQueryString, h.stripFragment⟩

theorem Sound.editPolicy {policy next : Policy} {doc : Json} (h : Sound policy)
    (hedit : editPolicy doc policy = .ok next) : Sound next := by
  obtain ⟨hbounded, rfl⟩ := editPolicy_eq_ok hedit
  exact h.applyTo hbounded

theorem mem_update_edits {P : Policy → Prop} {edits : ℕ → Option Policy} {copy : Option Policy}
    (hedits : ∀ s, ∀ next ∈ edits s, P next) (hcopy : ∀ next ∈ copy, P next) (r : ℕ) :
    ∀ s, ∀ next ∈ Function.update edits r copy s, P next := by
  intro s
  by_cases hs : s = r
  · rw [hs, Function.update_self]
    exact hcopy
  · rw [Function.update_of_ne hs]
    exact hedits s

/-- The policy of a reachable engine, and the copies its calls have under way, are sound. -/
theorem Reachable.sound {engine : PolicyEngine} (h : Reachable engine) :
    Sound engine.policy ∧ ∀ r, ∀ next ∈ engine.edits r, Sound next := by
  induction h with
  | init => exact ⟨sound_default, nofun⟩
  | @snapshot engine r doc _ ih =>
      refine ⟨ih.1, mem_update_edits ih.2 (fun next hnext => ?_) r⟩
      cases hedit : PolicyEngine.editPolicy doc engine.policy with
      | error e => simp [hedit, Except.toOption] at hnext
      | ok edited =>
          simp only [hedit, Except.toOption, Option.mem_def, Option.some.injEq] at hnext
          exact hnext ▸ ih.1.editPolicy hedit
  | @commit engine r _ ih =>
      unfold PolicyEngine.commit
      cases hr : engine.edits r with
      | none => exact ih
      | some next => exact ⟨ih.2 r next hr, mem_update_edits ih.2 (by simp) r⟩

/-! ## One call on its own -/

theorem commit_snapshot_policy (engine : PolicyEngine) (r : ℕ) (doc : Json) :
    ((engine.snapshot r doc).commit r).policy =
      match updateFromJson engine.policy doc with
      | .error _ => engine.policy
      | .ok next => next := by
  simp only [snapshot, commit, updateFromJson, Function.update_self]
  cases editPolicy doc engine.policy <;> rfl

/-! ## Reading a policy back -/

theorem redactionModeFromName_redactionModeName (mode : RedactionMode) :
    redactionModeFromName (redactionModeName mode) = some mode := by
  cases mode <;> decide

theorem readDomainEntries_map_string {ds : List Bytes} (h : ∀ d ∈ ds, d.length ≤ 253) :
    readDomainEntries (ds.map .string) = .ok ds := by
  induction ds with
  | nil => rfl
  | cons d ds ih =>
      have hd : ¬ d.length > 253 := Nat.not_lt.mpr (h d (by simp))
      have hrest := ih fun d' hd' => h d' (by simp [hd'])
      simp only [List.map_cons, readDomainEntries, Json.string?, hrest]
      simp [hd, Except.map]

theorem readRedaction_toJson {policy : Policy} (h : Sound policy) (next : Policy) :
    readRedaction (toJson policy) next =
      .ok { next with
        redactionMode := policy.redactionMode
        sensitiveDomains := policy.sensitiveDomains } := by
  let redaction : Json := .mkObject
    [(cstr "mode", .string (redactionModeName policy.redactionMode)),
     (cstr "sensitive_domains", .array (policy.sensitiveDomains.map .string))]
  have hfield : (toJson policy).field? (cstr "redaction") = some redaction := rfl
  have hmode : redaction.field? (cstr "mode") =
      some (.string (redactionModeName policy.redactionMode)) := rfl
  have hdomains : redaction.field? (cstr "sensitive_domains") =
      some (.array (policy.sensitiveDomains.map .string)) := rfl
  have hcount : ¬ (policy.sensitiveDomains.map Json.string).length > 256 := by
    simpa using h.domainCount
  have hread := readDomainEntries_map_string h.domainLength
  simp only [readRedaction, hfield, if_pos (show redaction.isObject = true from rfl), readMode,
    hmode, Json.string?, redactionModeFromName_redactionModeName, Except.bind, readDomains,
    hdomains, Json.array?, if_neg hcount, hread, Except.map]

theorem readPersistence_toJson {policy : Policy} (h : Sound policy) (next : Policy) :
    readPersistence (toJson policy) next =
      .ok { next with
        persistenceEnabled := policy.persistenceEnabled
        retention := policy.retention } := by
  let persist : Json := .mkObject
    [(cstr "enabled", .bool policy.persistenceEnabled),
     (cstr "retention_seconds", .integer policy.retention)]
  have hfield : (toJson policy).field? (cstr "persistence") = some persist := rfl
  have henabled : persist.field? (cstr "enabled") = some (.bool policy.persistenceEnabled) := rfl
  have hseconds : persist.field? (cstr "retention_seconds") = some (.integer policy.retention) :=
    rfl
  have hrange : ¬ (policy.retention < 60 ∨ policy.retention > 31536000) := by
    have hretention := h.retention
    omega
  simp only [readPersistence, hfield, if_pos (show persist.isObject = true from rfl), readEnabled,
    henabled, Json.bool?, Except.bind, readRetention, hseconds, Json.integer?, if_neg hrange]

/-- The document of a sound policy sets the four fields that documents can set. -/
theorem editPolicy_toJson {policy : Policy} (h : Sound policy) (other : Policy) :
    editPolicy (toJson policy) other =
      .ok { other with
        redactionMode := policy.redactionMode
        sensitiveDomains := policy.sensitiveDomains
        persistenceEnabled := policy.persistenceEnabled
        retention := policy.retention } := by
  have hmetadata : checkMetadataOnly (toJson policy) = .ok () := rfl
  simp only [editPolicy, if_pos (show (toJson policy).isObject = true from rfl), hmetadata,
    Except.bind, readRedaction_toJson h, readPersistence_toJson h]

/-- Every reachable engine keeps the bounds and both strip flags, a rejected document leaves
its policy as it was, and its document is accepted by every other reachable engine, which
then prints the same document. -/
theorem reachable_policy {engine : PolicyEngine} (h : Reachable engine) :
    Sound engine.policy ∧
    (∀ r doc e, updateFromJson engine.policy doc = .error e →
      ((engine.snapshot r doc).commit r).policy = engine.policy) ∧
    ∀ other, Reachable other → ∀ r, ∃ next,
      updateFromJson other.policy (toJson engine.policy) = .ok next ∧
      ((other.snapshot r (toJson engine.policy)).commit r).policy = next ∧
      toJson next = toJson engine.policy := by
  refine ⟨h.sound.1, ?_, ?_⟩
  · intro r doc e he
    rw [commit_snapshot_policy, he]
  · intro other _ r
    have hupdate := editPolicy_toJson h.sound.1 other.policy
    refine ⟨_, hupdate, ?_, rfl⟩
    rw [commit_snapshot_policy, updateFromJson, hupdate]

/-- An engine with one sensitive domain, and a default one that reads its document. -/
theorem default_reads_policy_back :
    let doc := Json.object [(cstr "redaction",
      .object [(cstr "sensitive_domains", .array [.string (cstr "bank.example")])])]
    let engine := (PolicyEngine.snapshot {} 0 doc).commit 0
    engine.policy.sensitiveDomains = [cstr "bank.example"] ∧ Sound engine.policy ∧
      ∃ next, updateFromJson {} (toJson engine.policy) = .ok next ∧
        toJson next = toJson engine.policy := by
  intro doc engine
  obtain ⟨hsound, -, hread⟩ := reachable_policy ((Reachable.init.snapshot 0 doc).commit 0)
  obtain ⟨next, hupdate, -, hnext⟩ := hread {} .init 0
  exact ⟨rfl, hsound, next, hupdate, hnext⟩

end Ezcap.PolicyEngine
