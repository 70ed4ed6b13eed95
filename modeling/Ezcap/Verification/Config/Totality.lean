import Ezcap.Library.JsonReference
import Ezcap.Verification.Config.Documents

/-! Which texts make the parser of the configuration throw. Every access to the document is
guarded by a check of its type, except that the policy is asked for its `redaction` before it is
known to be an object. -/

namespace Ezcap.Config

open StdString

/-! ## Parsers that return -/

/-- The parser returns: it accepts, or it rejects with a text. -/
def Returns {α : Type} : Parsed α → Prop
  | .ok _ => True
  | .error (.error text) => text ≠ []
  | .error .typeError => False

section Returns

variable {α β : Type}

theorem returns_reject {text : String} (h : cstr text ≠ []) : Returns (reject text : Parsed α) := h

theorem returns_bind_iff {x : Parsed α} {f : α → Parsed β} :
    Returns (x.bind f) ↔ Returns x ∧ ∀ a, x = .ok a → Returns (f a) := by
  cases x with
  | ok a => simp [Except.bind, Returns]
  | error failure => cases failure <;> simp [Except.bind, Returns]

theorem returns_map_iff {x : Parsed α} {f : α → β} : Returns (x.map f) ↔ Returns x := by
  cases x with
  | ok a => exact Iff.rfl
  | error failure => cases failure <;> exact Iff.rfl

theorem returns_ifPresent_iff {doc : Json} {key : String} {reader : Json → α → Parsed α}
    {out : α} :
    Returns (ifPresent doc key reader out) ↔
      ∀ value, doc.field? (cstr key) = some value → Returns (reader value out) := by
  unfold ifPresent
  cases doc.field? (cstr key) with
  | none => simp [Returns]
  | some value => simp

theorem returns_foldlM {doc : Json} {readers : List (String × (Json → α → Parsed α))}
    (h : ∀ r ∈ readers, ∀ value out, Returns (r.2 value out)) (out : α) :
    Returns (readers.foldlM (fun out r => ifPresent doc r.1 r.2 out) out) := by
  induction readers generalizing out with
  | nil => trivial
  | cons r readers ih =>
      refine returns_bind_iff.mpr ⟨?_, fun next _ => ih (fun r hr => h r (by simp [hr])) next⟩
      exact returns_ifPresent_iff.mpr fun value _ => h r (by simp) value out

theorem returns_checkKeys (keys : List String) {text : String} (h : cstr text ≠ [])
    (fields : List (Bytes × Json)) : Returns (checkKeys keys text fields) := by
  induction fields with
  | nil => trivial
  | cons field fields ih =>
      rw [checkKeys]
      split
      · exact ih
      · exact List.append_ne_nil_of_left_ne_nil h field.1

end Returns

/-! ## The readers of values -/

theorem returns_readBool {text : String} (h : cstr text ≠ []) (value : Json) :
    Returns (readBool text value) := by
  unfold readBool
  split
  · exact returns_reject h
  · trivial

theorem returns_readShort (bound : ℕ) {text : String} (h : cstr text ≠ []) (value : Json) :
    Returns (readShort bound text value) := by
  unfold readShort
  split
  · exact returns_reject h
  · split
    · exact returns_reject h
    · trivial

theorem returns_readRange (low high : ℕ) {text : String} (h : cstr text ≠ []) (value : Json) :
    Returns (readRange low high text value) := by
  unfold readRange
  split
  · exact returns_reject h
  · split
    · exact returns_reject h
    · trivial

theorem returns_readStrings (bound : ℕ) {text : String} (h : cstr text ≠ [])
    (values : List Json) : Returns (readStrings bound text values) := by
  induction values with
  | nil => trivial
  | cons value values ih =>
      rw [readStrings]
      split
      · exact returns_reject h
      · split
        · exact returns_reject h
        · exact returns_map_iff.mpr ih

theorem returns_readArray (bound : ℕ) {notArray badEntry : String} (h : cstr notArray ≠ [])
    (h' : cstr badEntry ≠ []) (value : Json) :
    Returns (readArray bound notArray badEntry value) := by
  unfold readArray
  split
  · exact returns_reject h
  · exact returns_readStrings bound h' _

/-! ## The policy -/

theorem returns_readRedactionMode (value : Json) (policy : Policy) :
    Returns (readRedactionMode value policy) := by
  unfold readRedactionMode
  split
  · exact returns_reject (by decide)
  · split
    · exact returns_reject (by decide)
    · trivial

theorem returns_redactionReaders :
    ∀ r ∈ redactionReaders, ∀ value policy, Returns (r.2 value policy) := by
  intro r hr value policy
  simp only [redactionReaders, List.mem_cons, List.not_mem_nil, or_false] at hr
  rcases hr with rfl | rfl | rfl | rfl | rfl | rfl
  · exact returns_readRedactionMode value policy
  · exact returns_map_iff.mpr (returns_readBool (by decide) value)
  · exact returns_map_iff.mpr (returns_readBool (by decide) value)
  · exact returns_map_iff.mpr (returns_readArray 253 (by decide) (by decide) value)
  · exact returns_map_iff.mpr (returns_readArray 16 (by decide) (by decide) value)
  · exact returns_map_iff.mpr (returns_readShort 256 (by decide) value)

theorem returns_readRedaction (fields : List (Bytes × Json)) (policy : Policy) :
    Returns (readRedaction fields policy) := by
  induction fields generalizing policy with
  | nil => trivial
  | cons field fields ih =>
      rw [readRedaction]
      split
      · exact List.append_ne_nil_of_left_ne_nil (by decide) field.1
      · rename_i reader hreader
        have hmem := List.mem_of_find?_eq_some hreader
        exact returns_bind_iff.mpr
          ⟨returns_redactionReaders reader hmem _ _, fun next _ => ih next⟩

/-- A policy that is no object makes the parser throw. -/
theorem returns_parsePolicy_iff {doc : Json} {policy : Policy} :
    Returns (parsePolicy doc policy) ↔ doc.isObject = true := by
  cases doc with
  | object fields =>
      refine iff_of_true ?_ rfl
      unfold parsePolicy
      dsimp only
      split
      · exact returns_reject (by decide)
      · exact returns_readRedaction _ _
  | _ => exact iff_of_false id Bool.false_ne_true

/-! ## The document -/

theorem returns_readStorage (value : Json) (config : Config) :
    Returns (readStorage value config) := by
  unfold readStorage
  split
  · exact returns_reject (by decide)
  · refine returns_bind_iff.mpr ⟨returns_checkKeys _ (by decide) _, fun _ _ => ?_⟩
    refine returns_foldlM (fun r hr value config => ?_) config
    simp only [storageReaders, List.mem_cons, List.not_mem_nil, or_false] at hr
    rcases hr with rfl | rfl | rfl
    · exact returns_map_iff.mpr (returns_readBool (by decide) value)
    · dsimp only [readStoragePath]
      split
      · exact returns_reject (by decide)
      · split
        · exact returns_reject (by decide)
        · trivial
    · refine returns_map_iff.mpr (returns_bind_iff.mpr
        ⟨returns_readRange 60 31536000 ?_ value, fun _ _ => trivial⟩)
      decide

theorem returns_validPath (path : Bytes) : Returns (validPath path) := by
  unfold validPath
  split_ifs
  · exact returns_reject (by decide)
  · exact returns_reject (by decide)
  · exact returns_reject (by decide)
  · trivial

/-- The readers of the keys that are read before the policy, and after it. -/
def readersBefore : List (String × (Json → Config → Parsed Config)) := topReaders.take 7

def readersAfter : List (String × (Json → Config → Parsed Config)) := topReaders.drop 8

theorem topReaders_eq : topReaders = readersBefore ++ ("policy", fun value config =>
    (parsePolicy value config.policy).map fun policy => { config with policy := policy }) ::
      readersAfter := rfl

theorem returns_readersBefore :
    ∀ r ∈ readersBefore, ∀ value config, Returns (r.2 value config) := by
  intro r hr value config
  simp only [readersBefore, topReaders, List.take_succ_cons, List.take_zero, List.mem_cons,
    List.not_mem_nil, or_false] at hr
  rcases hr with rfl | rfl | rfl | rfl | rfl | rfl | rfl
  · dsimp only [readSocketPath]
    split
    · exact returns_reject (by decide)
    · exact returns_map_iff.mpr (returns_validPath _)
  · dsimp only [readLogLevel]
    split
    · exact returns_reject (by decide)
    · split
      · trivial
      · exact returns_reject (by decide)
  · dsimp only [readLogFile]
    split
    · exact returns_reject (by decide)
    · trivial
  · exact returns_map_iff.mpr (returns_readBool (by decide) value)
  · exact returns_map_iff.mpr (returns_readBool (by decide) value)
  · exact returns_map_iff.mpr (returns_readArray 16 (by decide) (by decide) value)
  · exact returns_map_iff.mpr (returns_readShort 256 (by decide) value)

theorem returns_readersAfter :
    ∀ r ∈ readersAfter, ∀ value config, Returns (r.2 value config) := by
  intro r hr value config
  simp only [readersAfter, topReaders, List.drop_succ_cons, List.drop_zero, List.mem_cons,
    List.not_mem_nil, or_false] at hr
  rcases hr with rfl | rfl | rfl
  · exact returns_readStorage value config
  · refine returns_map_iff.mpr (returns_bind_iff.mpr
        ⟨returns_readRange 100 3600000 ?_ value, fun _ _ => trivial⟩)
    decide
  · dsimp only [readMaxEventsPerSecond]
    split
    · exact returns_reject (by decide)
    · trivial

/-- The document is an object with known keys and a policy that is no object, and what is read
before the policy is accepted. -/
structure PolicyThrows (doc : Json) (out : Config) : Prop where
  keys : ∃ fields, doc = .object fields ∧
    ∀ field ∈ fields, field.1 ∈ (topReaders.map Prod.fst).map cstr
  before : ∃ config,
    readersBefore.foldlM (fun config r => ifPresent doc r.1 r.2 config) out = .ok config
  policy : ∃ value, doc.field? (cstr "policy") = some value ∧ value.isObject = false

/-- Reading the members returns unless the policy is reached and is no object. -/
theorem returns_topReaders_iff {doc : Json} {out : Config} :
    Returns (topReaders.foldlM (fun config r => ifPresent doc r.1 r.2 config) out) ↔
      ∀ config, readersBefore.foldlM (fun config r => ifPresent doc r.1 r.2 config) out =
          .ok config →
        ∀ value, doc.field? (cstr "policy") = some value → value.isObject = true := by
  rw [topReaders_eq, List.foldlM_append]
  refine returns_bind_iff.trans ((and_iff_right (returns_foldlM returns_readersBefore out)).trans
    (forall_congr' fun config => imp_congr_right fun _ => ?_))
  -- The policy is the one reader that may throw.
  refine returns_bind_iff.trans ((and_iff_left fun _ _ =>
    returns_foldlM returns_readersAfter _).trans ?_)
  rw [returns_ifPresent_iff]
  refine forall_congr' fun value => imp_congr_right fun _ => ?_
  rw [returns_map_iff, returns_parsePolicy_iff]

theorem returns_parseDocument_iff {doc : Json} {out : Config} :
    Returns (parseDocument doc out) ↔ ¬ PolicyThrows doc out := by
  cases doc with
  | object fields =>
      simp only [parseDocument, Json.object?]
      rw [returns_bind_iff, and_iff_right (returns_checkKeys _ (by decide) _)]
      have hlast (config : Config) : Returns
          (if config.storageEnabled = true ∧ config.storagePath = [] then
            reject "storage.enabled requires storage.path" else .ok config) := by
        split
        · exact returns_reject (by decide)
        · trivial
      constructor
      · rintro h ⟨⟨_, hfields, hkeys⟩, ⟨config, hconfig⟩, value, hvalue, hobject⟩
        cases hfields
        have hread := (returns_bind_iff.mp (h () (checkKeys_eq_ok.mpr hkeys))).1
        rw [returns_topReaders_iff.mp hread config hconfig value hvalue] at hobject
        cases hobject
      · intro h _ hkeys
        refine returns_bind_iff.mpr ⟨returns_topReaders_iff.mpr ?_, fun config _ => hlast config⟩
        intro config hconfig value hvalue
        by_contra hobject
        exact h ⟨⟨fields, rfl, checkKeys_eq_ok.mp hkeys⟩, ⟨config, hconfig⟩, value, hvalue,
          Bool.eq_false_of_not_eq_true hobject⟩
  | _ =>
      refine iff_of_true (returns_reject (by decide)) fun h => ?_
      obtain ⟨_, hfields, -⟩ := h.keys
      cases hfields

/-- Parsing a text returns, with a configuration or an error that is not empty, unless the policy
is reached and is no object: then it throws. -/
theorem parse_returns_iff (lib : JsonLib) (text : Bytes) (out : Config) :
    Returns (parseInto lib text out) ↔
      ∀ doc, lib.parse text = some doc → ¬ PolicyThrows doc out := by
  unfold parseInto
  cases lib.parse text with
  | none => exact iff_of_true (returns_reject (by decide)) (by simp)
  | some doc => simpa using returns_parseDocument_iff

/-- A policy that is a number makes the parser throw. -/
theorem number_policy_throws :
    parseInto JsonReference.lib (cstr "\x7b\"policy\":1\x7d") {} = .error .typeError ∧
      ¬ Returns (parseInto JsonReference.lib (cstr "\x7b\"policy\":1\x7d") {}) := by
  have hparse : parseInto JsonReference.lib (cstr "\x7b\"policy\":1\x7d") {} =
      .error .typeError := by
    decide +kernel
  exact ⟨hparse, by rw [hparse]; exact id⟩

end Ezcap.Config
