import Mathlib.Data.List.Permutation
import Ezcap.Library.ReadModifyWrite
import Ezcap.Verification.PolicyEngine.Edits

/-! Concurrent `set_policy` requests. The engine is a read-modify-write cell: a schedule
of its snapshot and commit steps acts like its requests one after another, for all
documents, exactly when no commit falls between a request's two steps. -/

namespace Ezcap.PolicyEngine

open StdString ReadModifyWrite

/-- One locked step of request `r`, which carries the document `docs r`. -/
def step (docs : ℕ → Json) (engine : PolicyEngine) : Step ℕ → PolicyEngine
  | .read r => engine.snapshot r (docs r)
  | .write r => engine.commit r

def runSteps (docs : ℕ → Json) (engine : PolicyEngine) (schedule : List (Step ℕ)) :
    PolicyEngine :=
  schedule.foldl (step docs) engine

/-- `update_from_json` of one document on its own; a rejected one changes nothing. -/
def applyDoc (docs : ℕ → Json) (policy : Policy) (r : ℕ) : Policy :=
  match updateFromJson policy (docs r) with
  | .error _ => policy
  | .ok next => next

/-! ## The engine as a read-modify-write cell -/

/-- What request `r` makes of its copy of the policy. -/
def update (docs : ℕ → Json) (r : ℕ) (policy : Policy) : Option Policy :=
  (editPolicy (docs r) policy).toOption

def toCell (engine : PolicyEngine) : Cell ℕ Policy := ⟨engine.policy, engine.edits⟩

theorem toCell_step (docs : ℕ → Json) (engine : PolicyEngine) (s : Step ℕ) :
    toCell (step docs engine s) = (toCell engine).step (update docs) s := by
  cases s with
  | read r => rfl
  | write r =>
      simp only [step, commit, toCell, Cell.step]
      cases engine.edits r <;> rfl

theorem toCell_runSteps (docs : ℕ → Json) (engine : PolicyEngine) (schedule : List (Step ℕ)) :
    toCell (runSteps docs engine schedule) = (toCell engine).run (update docs) schedule := by
  induction schedule generalizing engine with
  | nil => rfl
  | cons s schedule ih =>
      refine (ih (step docs engine s)).trans ?_
      rw [toCell_step]
      rfl

theorem perform_update (docs : ℕ → Json) : perform (update docs) = applyDoc docs := by
  funext p r
  simp only [perform, update, applyDoc, updateFromJson]
  cases editPolicy (docs r) p <;> rfl

theorem runSteps_policy (docs : ℕ → Json) (init : Policy) (schedule : List (Step ℕ)) :
    (runSteps docs { policy := init } schedule).policy =
      ((Cell.start init).run (update docs) schedule).value :=
  congrArg Cell.value (toCell_runSteps docs { policy := init } schedule)

/-! ## A document that changes one field -/

/-- `{"redaction": {"sensitive_domains": [domain]}}` -/
def domainDoc (domain : Bytes) : Json :=
  .object [(cstr "redaction", .object [(cstr "sensitive_domains", .array [.string domain])])]

theorem editPolicy_domainDoc (domain : Bytes) (h : domain.length ≤ 253) (policy : Policy) :
    editPolicy (domainDoc domain) policy = .ok { policy with sensitiveDomains := [domain] } := by
  have hread : readDomainEntries [.string domain] = .ok [domain] := by
    simp [readDomainEntries, Json.string?, Nat.not_lt.mpr h, Except.map]
  have hdom : readDomains (.object [(cstr "sensitive_domains", .array [.string domain])]) policy =
      .ok { policy with sensitiveDomains := [domain] } := by
    simp [readDomains, Json.field?, Json.array?, hread, Except.map]
  have hmode : readMode (.object [(cstr "sensitive_domains", .array [.string domain])]) policy =
      .ok policy := by
    simp [readMode, Json.field?, show cstr "sensitive_domains" ≠ cstr "mode" by decide]
  simp [editPolicy, domainDoc, checkMetadataOnly, readRedaction, readPersistence, Json.field?,
    Json.isObject, Except.bind, hmode, hdom, show cstr "redaction" ≠ cstr "metadata_only" by decide,
    show cstr "redaction" ≠ cstr "persistence" by decide]

theorem editPolicy_emptyDoc (policy : Policy) : editPolicy (.object []) policy = .ok policy := by
  simp [editPolicy, checkMetadataOnly, readRedaction, readPersistence, Json.field?, Json.isObject,
    Except.bind]

/-- Whatever the order, the one document that is not empty decides the result. -/
theorem foldl_applyDoc_single (docs : ℕ → Json) (j : ℕ) (domain : Bytes)
    (hlen : domain.length ≤ 253) (hj : docs j = domainDoc domain)
    (hother : ∀ r ≠ j, docs r = .object []) (order : List ℕ) (hmem : j ∈ order) (init : Policy) :
    (order.foldl (applyDoc docs) init).sensitiveDomains = [domain] := by
  have hset : ∀ p, (applyDoc docs p j).sensitiveDomains = [domain] := by
    intro p
    simp [applyDoc, updateFromJson, hj, editPolicy_domainDoc domain hlen]
  have hkeep : ∀ r ≠ j, ∀ p, applyDoc docs p r = p := by
    intro r hr p
    simp [applyDoc, updateFromJson, hother r hr, editPolicy_emptyDoc]
  -- reading the order from its end, the last step is either the document or leaves it alone
  induction order using List.reverseRecOn with
  | nil => simp at hmem
  | append_singleton order r ih =>
      rw [List.foldl_append, List.foldl_cons, List.foldl_nil]
      by_cases hr : r = j
      · rw [hr]
        exact hset _
      · rw [hkeep r hr]
        exact ih (by simpa [Ne.symm hr] using hmem)

/-! ## Serializability -/

/-- For every complete schedule: all documents, from every policy, take effect as if
applied one after another in some order, exactly when each commit belongs to a
request that took its snapshot after the commit before. -/
theorem updates_serializable_iff_exclusive (schedule : List (Step ℕ)) (requests : List ℕ)
    (hc : Complete schedule requests) :
    (∀ (init : Policy) (docs : ℕ → Json), ∃ order : List ℕ, order.Perm requests ∧
      (runSteps docs { policy := init } schedule).policy = order.foldl (applyDoc docs) init) ↔
    exclusive schedule = true := by
  constructor
  · intro h
    by_contra hex
    obtain ⟨j, hj, hlost⟩ := exists_lost_update (P := Policy) hc (Bool.eq_false_iff.mpr hex)
    let docs : ℕ → Json := fun r => if r = j then domainDoc (cstr "d") else .object []
    obtain ⟨order, hperm, horder⟩ := h {} docs
    have hself : docs j = domainDoc (cstr "d") := by simp [docs]
    have hother : ∀ r ≠ j, docs r = .object [] := by
      intro r hr
      simp [docs, hr]
    have hfinal : (runSteps docs { policy := {} } schedule).policy = ({} : Policy) := by
      rw [runSteps_policy]
      apply hlost
      intro r hr p
      simp [update, hother r hr, editPolicy_emptyDoc, Except.toOption]
    have hset := foldl_applyDoc_single docs j (cstr "d") (by decide) hself hother order
      (hperm.mem_iff.mpr hj) {}
    rw [← horder, hfinal] at hset
    simp at hset
  · intro hex init docs
    refine ⟨writes schedule, hc.writes_perm, ?_⟩
    rw [runSteps_policy, run_exclusive _ _ _ hex, perform_update]

/-- Two overlapping requests, one for the mode and one for the sensitive domains: both
are accepted, and the mode is lost. -/
theorem overlapping_updates_lose_mode :
    let schedule : List (Step ℕ) := [.read 0, .read 1, .write 0, .write 1]
    let docs : ℕ → Json := fun r =>
      if r = 0 then
        .object [(cstr "redaction", .object [(cstr "mode", .string (cstr "hostname-only"))])]
      else domainDoc (cstr "bank.example")
    Complete schedule [0, 1] ∧
      (∀ r ∈ [0, 1], ∃ next, updateFromJson {} (docs r) = .ok next) ∧
      ¬ ∃ order : List ℕ, order.Perm [0, 1] ∧
        (runSteps docs {} schedule).policy = order.foldl (applyDoc docs) {} := by
  refine ⟨⟨by decide, by decide, by decide, by decide⟩, ?_, ?_⟩
  · intro r hr
    simp only [List.mem_cons, List.not_mem_nil, or_false] at hr
    rcases hr with rfl | rfl
    · exact ⟨{ redactionMode := .hostnameOnly }, by rfl⟩
    · exact ⟨{ sensitiveDomains := [cstr "bank.example"] }, by rfl⟩
  · rintro ⟨order, hperm, heq⟩
    have horder : order = [0, 1] ∨ order = [1, 0] := by
      simpa [List.permutations'] using List.mem_permutations'.mpr hperm
    rcases horder with rfl | rfl <;> exact absurd heq (by decide)

/-- Two requests of which the second starts after the first has committed. -/
theorem serial_updates_serializable :
    Complete [.read 0, .write 0, .read 1, .write 1] [0, 1] ∧
      ∀ (init : Policy) (docs : ℕ → Json), ∃ order : List ℕ, order.Perm [0, 1] ∧
        (runSteps docs { policy := init } [.read 0, .write 0, .read 1, .write 1]).policy =
          order.foldl (applyDoc docs) init := by
  have hc : Complete [.read 0, .write 0, .read 1, .write 1] [0, 1] :=
    ⟨by decide, by decide, by decide, by decide⟩
  exact ⟨hc, (updates_serializable_iff_exclusive _ _ hc).mpr (by decide)⟩

end Ezcap.PolicyEngine
