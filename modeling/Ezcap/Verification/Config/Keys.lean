import Ezcap.Library.JsonMembers
import Ezcap.Verification.Config.Documents

/-! Which keys of an accepted configuration are looked at. At the top, in `policy.redaction` and
in `storage` every key is known and its value is stored; the keys of `policy` itself are never
checked. -/

namespace Ezcap.Config

open StdString

/-! ## Redaction -/

section Redaction

variable {value : Json} {out next : Policy}

/-- What the settings of `policy.redaction` are after reading. -/
def redactionSettings (policy : Policy) : List (String × Json) :=
  [("redaction_mode", .string (redactionModeName policy.redactionMode)),
   ("strip_query_string", .bool policy.stripQueryString),
   ("strip_fragment", .bool policy.stripFragment),
   ("sensitive_domains", .array (policy.sensitiveDomains.map .string)),
   ("capture_interfaces", .array (policy.captureInterfaces.map .string)),
   ("pcap_filter", .string policy.pcapFilter)]

theorem redactionSettings_reader {r : String × (Json → Policy → Parsed Policy)}
    (hr : r ∈ redactionReaders) (h : r.2 value out = .ok next) :
    redactionSettings next =
      (redactionSettings out).map fun setting =>
        if setting.1 = r.1 then (r.1, value) else setting := by
  obtain ⟨key, reader⟩ := r
  cases stores_of_mem hr h <;> rfl

/-- A reader stores its value, and leaves the settings under other keys alone. -/
theorem redactionSettings_of_reader {r : String × (Json → Policy → Parsed Policy)}
    (hr : r ∈ redactionReaders) (h : r.2 value out = .ok next) :
    (r.1, value) ∈ redactionSettings next ∧
      ∀ setting ∈ redactionSettings out, setting.1 ≠ r.1 → setting ∈ redactionSettings next := by
  have hkeys : redactionReaders.map Prod.fst = (redactionSettings out).map Prod.fst := rfl
  obtain ⟨old, hold, hkey⟩ := List.mem_map.mp (hkeys ▸ List.mem_map_of_mem hr)
  rw [redactionSettings_reader hr h]
  constructor
  · exact List.mem_map.mpr ⟨old, hold, if_pos hkey⟩
  · exact fun setting hmem hne => List.mem_map.mpr ⟨setting, hmem, if_neg hne⟩

/-- Once read, every member of `policy.redaction` is stored under its key. -/
theorem redactionSettings_of_readRedaction {fields : List (Bytes × Json)}
    (hkeys : (fields.map Prod.fst).Nodup) (h : readRedaction fields out = .ok next) :
    (∀ field ∈ fields, ∃ key, cstr key = field.1 ∧ (key, field.2) ∈ redactionSettings next) ∧
      ∀ setting ∈ redactionSettings out, cstr setting.1 ∉ fields.map Prod.fst →
        setting ∈ redactionSettings next := by
  induction fields generalizing out with
  | nil =>
      cases h
      exact ⟨by simp, fun _ h _ => h⟩
  | cons field fields ih =>
      rw [List.map_cons, List.nodup_cons] at hkeys
      rw [readRedaction] at h
      cases hfind : redactionReaders.find? fun r => cstr r.1 == field.1 with
      | none =>
          rw [hfind] at h
          cases h
      | some r =>
          simp only [hfind] at h
          obtain ⟨mid, hmid, hrest⟩ := Except.bind_eq_ok_iff.mp h
          have hkey : cstr r.1 = field.1 := by simpa using List.find?_some hfind
          obtain ⟨hstored, hothers⟩ :=
            redactionSettings_of_reader (List.mem_of_find?_eq_some hfind) hmid
          obtain ⟨hfields, hkept⟩ := ih hkeys.2 hrest
          constructor
          · refine List.forall_mem_cons.mpr ⟨⟨r.1, hkey, ?_⟩, hfields⟩
            exact hkept _ hstored (by rw [hkey]; exact hkeys.1)
          · intro setting hsetting hnotMem
            rw [List.map_cons, List.mem_cons, not_or] at hnotMem
            refine hkept setting (hothers setting hsetting ?_) hnotMem.2
            intro heq
            exact hnotMem.1 (by rw [heq, hkey])

end Redaction

/-! ## The settings of a configuration -/

/-- The places of the objects that a configuration may hold. -/
def sections : List (List Bytes) :=
  [[], [cstr "policy"], [cstr "policy", cstr "redaction"], [cstr "storage"]]

/-- The settings that a configuration holds, each with its place in a document. -/
def settings (config : Config) : List (List Bytes × Json) :=
  [([cstr "socket_path"], .string config.socketPath),
   ([cstr "log_level"], .string config.logLevel),
   ([cstr "log_file"], .string config.logFile),
   ([cstr "prefer_ebpf"], .bool config.preferEbpf),
   ([cstr "pcap_fallback"], .bool config.pcapFallback),
   ([cstr "interfaces"], .array (config.interfaces.map .string)),
   ([cstr "pcap_filter"], .string config.pcapFilter)] ++
  (redactionSettings config.policy).map (fun setting =>
    ([cstr "policy", cstr "redaction", cstr setting.1], setting.2)) ++
  [([cstr "storage", cstr "enabled"], .bool config.storageEnabled),
   ([cstr "storage", cstr "path"], .string config.storagePath),
   ([cstr "storage", cstr "retention_seconds"], .unsigned config.storageRetention.toNat),
   ([cstr "status_interval_ms"], .unsigned config.statusInterval.toNat),
   ([cstr "max_events_per_second"], .unsigned config.maxEventsPerSecond)]

/-- Every member of the object at a place is a section, or a setting that is stored as it is. -/
def KeptAt (doc : Json) (config : Config) (place : List Bytes) : Prop :=
  ∀ key value, doc.at? (place ++ [key]) = some value →
    (place ++ [key] ∈ sections ∧ value.isObject = true) ∨ (place ++ [key], value) ∈ settings config

section Kept

variable {doc : Json} {out config : Config} (h : Accepted doc out config)

include h

theorem Accepted.keptAt_top : KeptAt doc config [] := by
  intro key value hvalue
  rw [List.nil_append, Json.at?_singleton] at hvalue
  obtain ⟨fields, hfields, hkeys⟩ := h.keys
  have hkey := hkeys (key, value) (Json.mem_of_field? (hfields ▸ hvalue))
  simp only [topReaders, List.map_cons, List.map_nil, List.mem_cons, List.not_mem_nil,
    or_false] at hkey
  rcases hkey with rfl | rfl | rfl | rfl | rfl | rfl | rfl | rfl | rfl | rfl | rfl
  · exact .inr (by simp [settings, (h.socketPath.of_field? hvalue).1])
  · exact .inr (by simp [settings, (h.logLevel.of_field? hvalue).1])
  · exact .inr (by simp [settings, (h.logFile.of_field? hvalue).1])
  · exact .inr (by simp [settings, (h.preferEbpf.of_field? hvalue).1])
  · exact .inr (by simp [settings, (h.pcapFallback.of_field? hvalue).1])
  · exact .inr (by simp [settings, (h.interfaces.of_field? hvalue).1])
  · exact .inr (by simp [settings, (h.pcapFilter.of_field? hvalue).1])
  · exact .inl ⟨by simp [sections], (h.policy.of_field? hvalue).isObject⟩
  · obtain ⟨members, hmembers, -⟩ := (h.storage.of_field? hvalue).keys
    exact .inl ⟨by simp [sections], by rw [hmembers]; rfl⟩
  · exact .inr (by simp [settings, (h.statusInterval.of_field? hvalue).1])
  · exact .inr (by simp [settings, (h.maxEventsPerSecond.of_field? hvalue).1])

theorem Accepted.keptAt_storage : KeptAt doc config [cstr "storage"] := by
  intro key value hvalue
  rw [Json.at?_append, Option.bind_eq_some_iff] at hvalue
  obtain ⟨storage, hstorage, hvalue⟩ := hvalue
  rw [Json.at?_singleton] at hstorage hvalue
  have htakes := h.storage.of_field? hstorage
  obtain ⟨fields, hfields, hkeys⟩ := htakes.keys
  have hkey := hkeys (key, value) (Json.mem_of_field? (hfields ▸ hvalue))
  simp only [storageReaders, List.map_cons, List.map_nil, List.mem_cons, List.not_mem_nil,
    or_false] at hkey
  rcases hkey with rfl | rfl | rfl
  · exact .inr (by simp [settings, (htakes.enabled.of_field? hvalue).1, Config.storage])
  · exact .inr (by simp [settings, (htakes.path.of_field? hvalue).1, Config.storage])
  · exact .inr (by simp [settings, (htakes.retention.of_field? hvalue).1, Config.storage])

theorem Accepted.keptAt_redaction (hdoc : doc.isWellFormed = true) :
    KeptAt doc config [cstr "policy", cstr "redaction"] := by
  intro key value hvalue
  rw [Json.at?_append, Option.bind_eq_some_iff] at hvalue
  obtain ⟨redaction, hredaction, hvalue⟩ := hvalue
  obtain ⟨policy, hpolicy, hredaction⟩ := Option.bind_eq_some_iff.mp hredaction
  rw [Json.at?_singleton] at hredaction hvalue
  obtain ⟨fields, hfields, hread⟩ := (h.policy.of_field? hpolicy).redaction
  rw [hredaction, Option.getD_some] at hfields
  subst hfields
  have hwell := Json.isWellFormed_field? (Json.isWellFormed_field? hdoc hpolicy) hredaction
  have hnodup : (fields.map Prod.fst).Nodup := by
    refine List.pairwise_map.mpr (((Json.isWellFormed_object fields).mp hwell).1.imp ?_)
    intro f g hlt heq
    rw [heq] at hlt
    exact List.lt_irrefl _ hlt
  obtain ⟨name, rfl, hstored⟩ := (redactionSettings_of_readRedaction hnodup hread).1
    (key, value) (Json.mem_of_field? hvalue)
  refine .inr (List.mem_append_left _ (List.mem_append_right _ ?_))
  exact List.mem_map.mpr ⟨_, hstored, rfl⟩

/-- Of the keys of `policy`, only `redaction` is looked at. -/
theorem Accepted.keptAt_policy_iff :
    KeptAt doc config [cstr "policy"] ↔
      ∀ key value, doc.at? [cstr "policy", key] = some value → key = cstr "redaction" := by
  constructor
  · intro hkept key value hvalue
    rcases hkept key value hvalue with ⟨hsection, -⟩ | hsetting
    · simpa [sections] using hsection
    · simp [settings, redactionSettings] at hsetting
  · intro hkeys key value hvalue
    obtain rfl := hkeys key value hvalue
    rw [Json.at?_append, Option.bind_eq_some_iff] at hvalue
    obtain ⟨policy, hpolicy, hvalue⟩ := hvalue
    rw [Json.at?_singleton] at hpolicy hvalue
    obtain ⟨fields, hfields, -⟩ := (h.policy.of_field? hpolicy).redaction
    rw [hvalue, Option.getD_some] at hfields
    exact .inl ⟨by simp [sections], by rw [hfields]; rfl⟩

end Kept

/-- In an accepted configuration every key is known and every value stored exactly when `policy`
has no member but `redaction`. -/
theorem accepted_keys_kept_iff {lib : JsonLib} {round : ℚ → ℚ} (hround : lib.RoundTrip round)
    {text : Bytes} {doc : Json} (hdoc : lib.parse text = some doc) {out config : Config}
    (h : parseInto lib text out = .ok config) :
    (∀ place ∈ sections, KeptAt doc config place) ↔
      ∀ key value, doc.at? [cstr "policy", key] = some value → key = cstr "redaction" := by
  have haccepted : Accepted doc out config := by
    simp only [parseInto, hdoc] at h
    exact parseDocument_eq_ok.mp h
  rw [← haccepted.keptAt_policy_iff]
  constructor
  · exact fun hkept => hkept _ (by simp [sections])
  · intro hpolicy place hplace
    simp only [sections, List.mem_cons, List.not_mem_nil, or_false] at hplace
    rcases hplace with rfl | rfl | rfl | rfl
    · exact haccepted.keptAt_top
    · exact hpolicy
    · exact haccepted.keptAt_redaction (hround.isWellFormed_of_parse hdoc)
    · exact haccepted.keptAt_storage

/-- A configuration whose settings all stand where they are looked for. -/
def placedSettings : Bytes :=
  cstr "\x7b\"policy\":\x7b\"redaction\":\x7b\"strip_fragment\":false\x7d\x7d," ++
    cstr "\"storage\":\x7b\"enabled\":true\x7d\x7d"

theorem placed_settings_kept :
    ∃ doc, JsonReference.lib.parse placedSettings = some doc ∧ ∀ place ∈ sections,
      KeptAt doc { policy := { stripFragment := false }, storageEnabled := true } place := by
  have hparse : parseInto JsonReference.lib placedSettings {} =
      .ok { policy := { stripFragment := false }, storageEnabled := true } := by decide +kernel
  have hkeys : ((JsonReference.lib.parse placedSettings).bind fun doc =>
      (doc.field? (cstr "policy")).bind fun policy => policy.object?.map (List.map Prod.fst)) =
        some [cstr "redaction"] := by decide +kernel
  obtain ⟨doc, hdoc, hkeys⟩ := Option.bind_eq_some_iff.mp hkeys
  obtain ⟨policy, hpolicy, hkeys⟩ := Option.bind_eq_some_iff.mp hkeys
  refine ⟨doc, hdoc, (accepted_keys_kept_iff JsonReference.lib_roundTrip hdoc hparse).mpr ?_⟩
  intro key value hvalue
  rw [Json.at?_cons hpolicy, Json.at?_singleton] at hvalue
  cases policy with
  | object fields =>
      have hmem : key ∈ fields.map Prod.fst := List.mem_map_of_mem (Json.mem_of_field? hvalue)
      rwa [Option.some.inj hkeys, List.mem_singleton] at hmem
  | _ => cases hkeys

/-- A sensitive domain directly under `policy`, as in the sample that is shipped, is accepted and
not stored. -/
def misplacedDomain : Bytes :=
  cstr "\x7b\"policy\":\x7b\"sensitive_domains\":[\"bank.example\"]\x7d\x7d"

theorem misplaced_domain_accepted :
    parseInto JsonReference.lib misplacedDomain {} = .ok {} ∧
      ∃ doc, JsonReference.lib.parse misplacedDomain = some doc ∧
        ¬ KeptAt doc {} [cstr "policy"] := by
  refine ⟨by decide +kernel, ?_⟩
  have hmember : ((JsonReference.lib.parse misplacedDomain).bind fun doc =>
      (doc.at? [cstr "policy", cstr "sensitive_domains"]).bind Json.array?).isSome = true := by
    decide +kernel
  obtain ⟨_, hvalues⟩ := Option.isSome_iff_exists.mp hmember
  obtain ⟨doc, hdoc, hvalues⟩ := Option.bind_eq_some_iff.mp hvalues
  obtain ⟨value, hvalue, -⟩ := Option.bind_eq_some_iff.mp hvalues
  refine ⟨doc, hdoc, fun hkept => ?_⟩
  rcases hkept _ _ hvalue with ⟨hsection, -⟩ | hsetting
  · simp [sections] at hsection
  · simp [settings, redactionSettings] at hsetting

end Ezcap.Config
