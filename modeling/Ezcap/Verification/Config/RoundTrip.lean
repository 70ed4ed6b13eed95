import Ezcap.Verification.Config.Keys
import Ezcap.Verification.Ipc.Text

/-! Writing a configuration and reading it back. The text has no status interval and no event
limit, and it has the policy's settings where the parser does not look, so that these come back
as the defaults. -/

namespace Ezcap.Config

open StdString Ipc

/-! ## Accepted configurations -/

section Takes

variable {α : Type} {doc : Json} {key : String} {encode : α → Json} {check : α → Prop}
  {old new : α}

theorem Takes.passes (h : Takes doc key (Encodes encode check) old new) (hold : check old) :
    check new := by
  unfold Takes at h
  split at h
  · rwa [h]
  · exact h.2

theorem Takes.isText (h : Takes doc key (Encodes encode check) old new)
    (hdoc : doc.isText = true) (hold : (encode old).isText = true) :
    (encode new).isText = true := by
  unfold Takes at h
  split at h
  · rwa [h]
  · rename_i value hvalue
    rw [← h.1]
    exact Json.isText_field? hdoc hvalue

end Takes

/-- The settings of the redaction are text. -/
def RedactionText (policy : Policy) : Prop :=
  ∀ setting ∈ redactionSettings policy, setting.2.isText = true

theorem redactionText_reader {value : Json} {out next : Policy}
    {r : String × (Json → Policy → Parsed Policy)} (hr : r ∈ redactionReaders)
    (h : r.2 value out = .ok next) (hvalue : value.isText = true) (hout : RedactionText out) :
    RedactionText next := by
  intro setting hsetting
  rw [redactionSettings_reader hr h] at hsetting
  obtain ⟨old, hold, rfl⟩ := List.mem_map.mp hsetting
  split_ifs
  · exact hvalue
  · exact hout old hold

/-- What holds of every configuration that the parser makes. -/
structure Sound (config : Config) : Prop where
  socketPath : validPath config.socketPath = .ok ()
  logLevel : config.logLevel ∈ logLevels.map cstr
  interfaces : ∀ s ∈ config.interfaces, s ≠ [] ∧ s.length ≤ 16
  pcapFilter : config.pcapFilter.length ≤ 256
  storagePath : config.storagePath ≠ []
  retention : 60 ≤ config.storageRetention ∧ config.storageRetention ≤ 31536000
  socketPathText : Utf8.Valid config.socketPath
  logLevelText : Utf8.Valid config.logLevel
  logFileText : Utf8.Valid config.logFile
  interfacesText : ∀ s ∈ config.interfaces, Utf8.Valid s
  pcapFilterText : Utf8.Valid config.pcapFilter
  storagePathText : Utf8.Valid config.storagePath
  policyText : RedactionText config.policy

/-- Storage settings that can be written and read back. -/
def StorageSound (s : Bool × Bytes × ℤ) : Prop :=
  s.2.1 ≠ [] ∧ (60 ≤ s.2.2 ∧ s.2.2 ≤ 31536000) ∧ Utf8.Valid s.2.1

section Sound

variable {doc : Json} (hdoc : doc.isText = true)

include hdoc

theorem storageSound_of_takes {old new : Bool × Bytes × ℤ}
    (h : Takes doc "storage" StorageTakes old new) (hold : StorageSound old) :
    StorageSound new := by
  unfold Takes at h
  split at h
  · rwa [h]
  · rename_i value hvalue
    have htext := Json.isText_field? hdoc hvalue
    refine ⟨h.path.passes hold.1, h.retention.passes hold.2.1, ?_⟩
    simpa using h.path.isText htext (by simpa using hold.2.2)

theorem redactionText_of_takes {old new : Policy} (h : Takes doc "policy" PolicyTakes old new)
    (hold : RedactionText old) : RedactionText new := by
  unfold Takes at h
  split at h
  · rwa [h]
  · rename_i value hvalue
    obtain ⟨fields, hfields, hread⟩ := h.redaction
    have htext : (Json.object fields).isText = true := by
      rw [← hfields]
      cases hredaction : value.field? (cstr "redaction") with
      | none => simp
      | some redaction =>
          exact Json.isText_field? (Json.isText_field? hdoc hvalue) hredaction
    refine readRedaction_invariant hread (fun r hr field hfield _ _ hnext => ?_) hold
    exact redactionText_reader hr hnext ((Json.isText_object fields).mp htext field hfield).2

theorem Accepted.sound {config : Config} (h : Accepted doc {} config) : Sound config := by
  have hstorage := storageSound_of_takes hdoc h.storage
    ⟨by decide, by decide, Utf8.valid_cstr _⟩
  exact {
    socketPath := h.socketPath.passes (by decide)
    logLevel := h.logLevel.passes (by decide)
    interfaces := h.interfaces.passes (by simp)
    pcapFilter := h.pcapFilter.passes (by decide)
    storagePath := hstorage.1
    retention := hstorage.2.1
    socketPathText := by simpa using h.socketPath.isText hdoc (by simp)
    logLevelText := by simpa using h.logLevel.isText hdoc (by simp)
    logFileText := by simpa using h.logFile.isText hdoc (by simp)
    interfacesText := by simpa using h.interfaces.isText hdoc (by simp)
    pcapFilterText := by simpa using h.pcapFilter.isText hdoc (by simp)
    storagePathText := hstorage.2.2
    policyText := redactionText_of_takes hdoc h.policy
      (by simp [RedactionText, redactionSettings, redactionModeName]) }

end Sound

/-! ## The document of a configuration -/

/-- What is left of a configuration that is written and read back. -/
def readBack (config : Config) : Config :=
  { config with policy := {}, statusInterval := 1000, maxEventsPerSecond := 0 }

theorem isText_toJson {config : Config} (h : Sound config) : (toJson config).isText = true := by
  have hsettings := h.policyText
  simp only [RedactionText, redactionSettings, List.forall_mem_cons] at hsettings
  obtain ⟨hmode, -, -, hdomains, hinterfaces, -⟩ := hsettings
  have hpolicy : (policyJson config.policy).isText = true := by
    rw [policyJson, isText_mkObject_iff]
    simp only [isText_cons, isText_nil, hmode, hdomains, hinterfaces, Json.isText_bool, and_self]
  have hstorage : (storageJson config).isText = true := by
    simp [storageJson, isText_mkObject_iff, h.storagePathText]
  simpa [toJson, isText_mkObject_iff, hpolicy, hstorage, h.socketPathText, h.logLevelText,
    h.logFileText, h.pcapFilterText] using h.interfacesText

theorem isWellFormed_toJson (config : Config) : (toJson config).isWellFormed = true := by
  have hpolicy : (policyJson config.policy).isWellFormed = true :=
    Json.isWellFormed_mkObject (by simp) (by simp)
  have hstorage : (storageJson config).isWellFormed = true :=
    Json.isWellFormed_mkObject (by simp) (by simp; omega)
  exact Json.isWellFormed_mkObject (by simp) (by simp [hpolicy, hstorage])

section Reread

variable (round : ℚ → ℚ)

theorem keys_reread_mkObject {fields : List (Bytes × Json)} {keys : List Bytes}
    (hkeys : ∀ field ∈ fields, field.1 ∈ keys) :
    ∃ read, (Json.mkObject fields).reread round = .object read ∧
      ∀ field ∈ read, field.1 ∈ keys := by
  refine ⟨_, Json.reread_object round _, ?_⟩
  intro field hfield
  obtain ⟨f, hf, rfl⟩ := List.mem_map.mp hfield
  exact hkeys f ((fields.perm_insertionSort _).mem_iff.mp hf)

theorem takes_reread {α : Type} {doc : Json} {key : String} {encode : α → Json}
    {check : α → Prop} {old new : α} (hfield : doc.field? (cstr key) = some (encode new))
    (hreread : (encode new).reread round = encode new) (hcheck : check new) :
    Takes (doc.reread round) key (Encodes encode check) old new := by
  rw [Takes, Json.field?_reread, hfield, Option.map_some]
  exact ⟨hreread, hcheck⟩

theorem takes_reread_none {α : Type} {doc : Json} {key : String}
    {reads : Json → α → α → Prop} (hfield : doc.field? (cstr key) = none) (old : α) :
    Takes (doc.reread round) key reads old old := by
  rw [Takes, Json.field?_reread, hfield, Option.map_none]

variable {config : Config} (h : Sound config)

include h

theorem storageTakes_storageJson (old : Bool × Bytes × ℤ) :
    StorageTakes ((storageJson config).reread round) old config.storage := by
  have hretention := h.retention
  have hmod : config.storageRetention % 2 ^ 64 = config.storageRetention :=
    Int.emod_eq_of_lt (by omega) (by omega)
  have hfield : (storageJson config).field? (cstr "retention_seconds") =
      some (.unsigned config.storageRetention.toNat) := by
    rw [← hmod]
    rfl
  exact {
    keys := keys_reread_mkObject round (by simp [storageReaders])
    enabled := takes_reread round rfl (Json.reread_bool _ _) trivial
    path := takes_reread round rfl (Json.reread_string _ _) h.storagePath
    retention := takes_reread round hfield (by simp [Json.reread]) h.retention }

theorem accepted_toJson : Accepted ((toJson config).reread round) {} (readBack config) := by
  have hkeys : ∃ read, (toJson config).reread round = .object read ∧
      ∀ field ∈ read, field.1 ∈ (topReaders.map Prod.fst).map cstr :=
    keys_reread_mkObject round (by simp [topReaders])
  have hmember {key : Bytes} {value : Json} : (toJson config).field? key = some value ↔ _ :=
    Json.field?_mkObject_eq_some (by simp)
  have habsent {key : Bytes} : (toJson config).field? key = none ↔ _ :=
    Json.field?_mkObject_eq_none
  have hredaction : (policyJson config.policy).field? (cstr "redaction") = none :=
    Json.field?_mkObject_eq_none.mpr (by simp)
  -- From here on the document is known by its members only.
  generalize toJson config = doc at hkeys hmember habsent ⊢
  have hpolicy : doc.field? (cstr "policy") = some (policyJson config.policy) :=
    hmember.mpr (by simp)
  have hstorage : doc.field? (cstr "storage") = some (storageJson config) :=
    hmember.mpr (by simp)
  exact {
    keys := hkeys
    socketPath :=
      takes_reread round (hmember.mpr (by simp [readBack])) (Json.reread_string ..) h.socketPath
    logLevel :=
      takes_reread round (hmember.mpr (by simp [readBack])) (Json.reread_string ..) h.logLevel
    logFile := takes_reread round (hmember.mpr (by simp [readBack])) (Json.reread_string ..) trivial
    preferEbpf :=
      takes_reread round (hmember.mpr (by simp [readBack])) (Json.reread_bool ..) trivial
    pcapFallback :=
      takes_reread round (hmember.mpr (by simp [readBack])) (Json.reread_bool ..) trivial
    interfaces := takes_reread round (hmember.mpr (by simp [readBack])) (by simp) h.interfaces
    pcapFilter :=
      takes_reread round (hmember.mpr (by simp [readBack])) (Json.reread_string ..) h.pcapFilter
    policy := by
      rw [Takes, Json.field?_reread, hpolicy, Option.map_some]
      exact ⟨Json.isObject_reread round _, [], by rw [Json.field?_reread, hredaction]; rfl, rfl⟩
    storage := by
      rw [Takes, Json.field?_reread, hstorage, Option.map_some]
      exact storageTakes_storageJson round h _
    statusInterval := takes_reread_none round (habsent.mpr (by simp)) _
    maxEventsPerSecond := takes_reread_none round (habsent.mpr (by simp)) _
    storagePath := fun hempty => h.storagePath hempty.2 }

end Reread

/-! ## Round trip -/

/-- Every configuration that the parser makes can be written, and is read back with the default
policy, status interval and event limit; so it is the same configuration exactly when it has
these defaults. -/
theorem toJsonText_round_trip_iff {lib : JsonLib} (hlib : lib.Lawful) {round : ℚ → ℚ}
    (hround : lib.RoundTrip round) {text : Bytes} {config : Config}
    (h : parse lib text = .ok config) :
    ∃ written, toJsonText lib config = some written ∧
      parse lib written =
        .ok { config with policy := {}, statusInterval := 1000, maxEventsPerSecond := 0 } ∧
      (parse lib written = .ok config ↔ config.policy = {} ∧ config.statusInterval = 1000 ∧
        config.maxEventsPerSecond = 0) := by
  unfold parse parseInto at h
  cases hdoc : lib.parse text with
  | none =>
      rw [hdoc] at h
      cases h
  | some doc =>
      simp only [hdoc] at h
      have hsound := (parseDocument_eq_ok.mp h).sound (hlib.isText_of_parse hdoc)
      obtain ⟨written, hwritten⟩ := Option.isSome_iff_exists.mp
        ((hlib.dump_isSome (toJson config)).trans (isText_toJson hsound))
      have hread : parse lib written = .ok (readBack config) := by
        simp only [parse, parseInto, hround.parse_dump (isWellFormed_toJson config) hwritten]
        exact parseDocument_eq_ok.mpr (accepted_toJson round hsound)
      refine ⟨written, hwritten, hread, ?_⟩
      rw [hread, Except.ok.injEq, readBack]
      constructor
      · intro heq
        rw [← heq]
        exact ⟨rfl, rfl, rfl⟩
      · rintro ⟨hpolicy, hinterval, hlimit⟩
        rw [← hpolicy, ← hinterval, ← hlimit]

/-- A socket, a log level and a store of one's own. -/
def ownSettings : Config where
  socketPath := cstr "/run/e"
  logLevel := cstr "debug"
  storageEnabled := true
  storagePath := cstr "/e.db"
  storageRetention := 60

theorem own_settings_round_trip :
    ∃ written, toJsonText JsonReference.lib ownSettings = some written ∧
      parse JsonReference.lib written = .ok ownSettings := by
  have hparse : parse JsonReference.lib (cstr "\x7b\"socket_path\":\"/run/e\"," ++
      cstr "\"log_level\":\"debug\",\"storage\":\x7b\"enabled\":true,\"path\":\"/e.db\"," ++
      cstr "\"retention_seconds\":60\x7d\x7d") = .ok ownSettings := by decide +kernel
  obtain ⟨written, hwritten, -, hread⟩ :=
    toJsonText_round_trip_iff JsonReference.lib_lawful JsonReference.lib_roundTrip hparse
  exact ⟨written, hwritten, hread.mpr ⟨rfl, rfl, rfl⟩⟩

/-- A sensitive domain is lost on the way. -/
theorem sensitive_domain_lost :
    let config : Config := { policy := { sensitiveDomains := [cstr "bank.example"] } }
    parse JsonReference.lib (cstr "\x7b\"policy\":\x7b\"redaction\":" ++
      cstr "\x7b\"sensitive_domains\":[\"bank.example\"]\x7d\x7d\x7d") = .ok config ∧
    ((toJsonText JsonReference.lib config).map fun written => parse JsonReference.lib written) =
      some (.ok {}) ∧
    config ≠ {} := by
  exact ⟨by decide +kernel, by decide +kernel, by decide⟩

end Ezcap.Config
