import Ezcap.Library.Control
import Ezcap.Model.Config

/-! What an accepted document says: each setting is left as it was, or holds the value of its
member. -/

namespace Ezcap.Config

open StdString

/-! ## Values -/

section Values

variable {bound low high : ℕ} {text : String} {value : Json}

theorem readBool_eq_ok {b : Bool} : readBool text value = .ok b ↔ value = .bool b := by
  rw [← Json.bool?_eq_some_iff, readBool]
  cases value.bool? <;> simp [reject]

theorem ite_reject_eq_ok {α : Type} {p : Prop} [Decidable p] {a b : α} :
    (if p then reject text else .ok a) = .ok b ↔ a = b ∧ ¬ p := by
  by_cases h : p
  · simp [h, reject]
  · simp [h]

theorem readShort_eq_ok {s : Bytes} :
    readShort bound text value = .ok s ↔ value = .string s ∧ s.length ≤ bound := by
  rw [← Json.string?_eq_some_iff, readShort]
  cases value.string? with
  | none => simp [reject]
  | some t =>
      rw [ite_reject_eq_ok, Option.some.injEq]
      apply and_congr_right
      rintro rfl
      omega

theorem readRange_eq_ok {n : ℕ} :
    readRange low high text value = .ok n ↔ value = .unsigned n ∧ low ≤ n ∧ n ≤ high := by
  rw [← Json.unsigned?_eq_some_iff, readRange]
  cases value.unsigned? with
  | none => simp [reject]
  | some m =>
      rw [ite_reject_eq_ok, Option.some.injEq]
      apply and_congr_right
      rintro rfl
      omega

theorem strings_cons_iff {s : Bytes} {values : List Json} {names : List Bytes} {p : Bytes → Prop} :
    (.string s :: values = names.map Json.string ∧ ∀ t ∈ names, p t) ↔
      p s ∧ ∃ rest, (values = rest.map .string ∧ ∀ t ∈ rest, p t) ∧ s :: rest = names := by
  constructor
  · rintro ⟨hmap, hnames⟩
    obtain ⟨t, rest, rfl, ht, hrest⟩ := List.map_eq_cons_iff.mp hmap.symm
    obtain rfl := Json.string.inj ht
    obtain ⟨hs, hrest'⟩ := List.forall_mem_cons.mp hnames
    exact ⟨hs, rest, ⟨hrest.symm, hrest'⟩, rfl⟩
  · rintro ⟨hs, rest, ⟨rfl, hrest⟩, rfl⟩
    exact ⟨rfl, List.forall_mem_cons.mpr ⟨hs, hrest⟩⟩

theorem readStrings_eq_ok {values : List Json} {names : List Bytes} :
    readStrings bound text values = .ok names ↔
      values = names.map .string ∧ ∀ s ∈ names, s ≠ [] ∧ s.length ≤ bound := by
  induction values generalizing names with
  | nil => cases names <;> simp [readStrings]
  | cons value values ih =>
      rw [readStrings]
      cases hvalue : value.string? with
      | none =>
          refine iff_of_false (by simp [reject]) ?_
          rintro ⟨hmap, -⟩
          obtain ⟨s, rest, -, rfl, -⟩ := List.map_eq_cons_iff.mp hmap.symm
          cases hvalue
      | some s =>
          obtain rfl := Json.string?_eq_some_iff.mp hvalue
          rw [strings_cons_iff]
          dsimp only
          by_cases hbad : s = [] ∨ s.length > bound
          · rw [if_pos hbad]
            refine iff_of_false (by simp [reject]) ?_
            rintro ⟨⟨hne, hlength⟩, -⟩
            rcases hbad with hempty | hlong
            · exact hne hempty
            · omega
          · rw [if_neg hbad, Except.map_eq_ok_iff]
            rw [not_or, Nat.not_lt] at hbad
            simp only [ih, and_iff_right hbad]

theorem readArray_eq_ok {notArray : String} {names : List Bytes} :
    readArray bound notArray text value = .ok names ↔
      value = .array (names.map .string) ∧ ∀ s ∈ names, s ≠ [] ∧ s.length ≤ bound := by
  unfold readArray
  cases value <;> simp [Json.array?, reject, readStrings_eq_ok]

end Values

theorem checkKeys_eq_ok {keys : List String} {text : String} {fields : List (Bytes × Json)} :
    checkKeys keys text fields = .ok () ↔ ∀ field ∈ fields, field.1 ∈ keys.map cstr := by
  induction fields with
  | nil => simp [checkKeys]
  | cons field fields ih =>
      rw [checkKeys, List.forall_mem_cons]
      by_cases hkey : field.1 ∈ keys.map cstr
      · rw [if_pos hkey, ih, and_iff_right hkey]
      · rw [if_neg hkey]
        exact iff_of_false (by simp) fun h => hkey h.1

theorem redactionModeFromName_eq_some {name : Bytes} {mode : RedactionMode} :
    redactionModeFromName name = some mode ↔ name = redactionModeName mode := by
  constructor
  · intro h
    unfold redactionModeFromName at h
    split_ifs at h <;> cases h <;> assumption
  · rintro rfl
    cases mode <;> decide

/-! ## Settings -/

section Settings

variable {α σ : Type} {doc : Json} {key : String}

/-- What becomes of a setting whose member is under `key`: it is left as it was, or it is read
from the member. -/
def Takes (doc : Json) (key : String) (reads : Json → α → α → Prop) (old new : α) : Prop :=
  match doc.field? (cstr key) with
  | none => new = old
  | some value => reads value old new

theorem Takes.of_field? {reads : Json → α → α → Prop} {old new : α} {value : Json}
    (h : Takes doc key reads old new) (hvalue : doc.field? (cstr key) = some value) :
    reads value old new := by
  rwa [Takes, hvalue] at h

/-- The value is the setting as JSON, and passes a check. -/
def Encodes (encode : α → Json) (valid : α → Prop) (value : Json) (_ new : α) : Prop :=
  value = encode new ∧ valid new

/-- A reader that touches one setting only. -/
structure ReadsInto (reader : Json → σ → Parsed σ) (get : σ → α) (set : α → σ → σ)
    (reads : Json → α → α → Prop) : Prop where
  eq_ok : ∀ {value out next}, reader value out = .ok next ↔
    ∃ a, reads value (get out) a ∧ next = set a out
  set_get : ∀ out, set (get out) out = out

variable {reader : Json → σ → Parsed σ} {get : σ → α} {set : α → σ → σ}
  {reads : Json → α → α → Prop} {out next : σ}

theorem ReadsInto.ifPresent_eq_ok (h : ReadsInto reader get set reads) :
    ifPresent doc key reader out = .ok next ↔
      ∃ a, Takes doc key reads (get out) a ∧ next = set a out := by
  unfold ifPresent Takes
  cases doc.field? (cstr key) with
  | none =>
      simp only [Except.ok.injEq, exists_eq_left, h.set_get]
      exact eq_comm
  | some value => exact h.eq_ok

theorem ReadsInto.foldlM_cons (h : ReadsInto reader get set reads)
    {readers : List (String × (Json → σ → Parsed σ))} :
    ((key, reader) :: readers).foldlM (fun out r => ifPresent doc r.1 r.2 out) out = .ok next ↔
      ∃ a, Takes doc key reads (get out) a ∧
        readers.foldlM (fun out r => ifPresent doc r.1 r.2 out) (set a out) = .ok next := by
  refine Except.bind_eq_ok_iff.trans ?_
  simp only [h.ifPresent_eq_ok]
  constructor
  · rintro ⟨_, ⟨a, ha, rfl⟩, hrest⟩
    exact ⟨a, ha, hrest⟩
  · rintro ⟨a, ha, hrest⟩
    exact ⟨_, ⟨a, ha, rfl⟩, hrest⟩

theorem readsInto_map {read : Json → Parsed α} {encode : α → Json} {valid : α → Prop}
    (hread : ∀ {value a}, read value = .ok a ↔ value = encode a ∧ valid a)
    (hset : ∀ out : σ, set (get out) out = out) :
    ReadsInto (fun value out => (read value).map fun a => set a out) get set
      (Encodes encode valid) where
  eq_ok := by
    intro value out next
    rw [Except.map_eq_ok_iff]
    exact exists_congr fun a => and_congr hread eq_comm
  set_get := hset

end Settings

/-! ## The readers -/

/-- A check that every value passes. -/
def Any {α : Type} (_ : α) : Prop := True

theorem readsInto_string {σ : Type} {reader : Json → σ → Parsed σ} {get : σ → Bytes}
    {set : Bytes → σ → σ} {valid : Bytes → Prop}
    (hnone : ∀ value out, value.string? = none → ∀ next, reader value out ≠ .ok next)
    (hstring : ∀ s out next, reader (.string s) out = .ok next ↔ valid s ∧ next = set s out)
    (hset : ∀ out, set (get out) out = out) :
    ReadsInto reader get set (Encodes .string valid) where
  eq_ok := by
    intro value out next
    cases hvalue : value.string? with
    | none =>
        refine iff_of_false (hnone value out hvalue next) ?_
        rintro ⟨s, ⟨rfl, -⟩, -⟩
        cases hvalue
    | some s =>
        obtain rfl := Json.string?_eq_some_iff.mp hvalue
        rw [hstring]
        simp [Encodes]
  set_get := hset

theorem readsInto_socketPath : ReadsInto readSocketPath Config.socketPath
    (fun path config => { config with socketPath := path })
    (Encodes .string fun path => validPath path = .ok ()) := by
  refine readsInto_string (fun value out h next => ?_) (fun s out next => ?_) fun _ => rfl
  · simp [readSocketPath, h, reject]
  · simp only [readSocketPath, Json.string?, Except.map_eq_ok_iff]
    constructor
    · rintro ⟨_, hvalid, rfl⟩
      exact ⟨hvalid, rfl⟩
    · rintro ⟨hvalid, rfl⟩
      exact ⟨(), hvalid, rfl⟩

theorem readsInto_logLevel : ReadsInto readLogLevel Config.logLevel
    (fun level config => { config with logLevel := level })
    (Encodes .string fun level => level ∈ logLevels.map cstr) := by
  refine readsInto_string (fun value out h next => ?_) (fun s out next => ?_) fun _ => rfl
  · simp [readLogLevel, h, reject]
  · simp only [readLogLevel, Json.string?]
    split
    · rename_i hlevel
      rw [and_iff_right hlevel, Except.ok.injEq]
      exact eq_comm
    · rename_i hlevel
      exact iff_of_false (by simp [reject]) fun h => hlevel h.1

theorem readsInto_logFile : ReadsInto readLogFile Config.logFile
    (fun file config => { config with logFile := file }) (Encodes .string Any) := by
  refine readsInto_string (fun value out h next => ?_) (fun s out next => ?_) fun _ => rfl
  · simp [readLogFile, h, reject]
  · simp only [readLogFile, Json.string?, Any, true_and, Except.ok.injEq]
    exact eq_comm

theorem readsInto_storagePath : ReadsInto readStoragePath Config.storagePath
    (fun path config => { config with storagePath := path }) (Encodes .string (· ≠ [])) := by
  refine readsInto_string (fun value out h next => ?_) (fun s out next => ?_) fun _ => rfl
  · simp [readStoragePath, h, reject]
  · simp only [readStoragePath, Json.string?]
    split
    · rename_i hempty
      exact iff_of_false (by simp [reject]) fun h => h.1 hempty
    · rename_i hpath
      rw [and_iff_right hpath, Except.ok.injEq]
      exact eq_comm

theorem readBool_iff {text : String} {value : Json} {b : Bool} :
    readBool text value = .ok b ↔ value = .bool b ∧ Any b :=
  readBool_eq_ok.trans (and_iff_left trivial).symm

theorem readDuration_iff {low high : ℕ} {text : String} {value : Json} {n : ℤ} :
    (do let a ← readRange low high text value; pure (a : ℤ)) = Except.ok n ↔
      value = .unsigned n.toNat ∧ low ≤ n ∧ n ≤ high := by
  refine Except.bind_eq_ok_iff.trans ?_
  constructor
  · rintro ⟨a, ha, hn⟩
    cases hn
    obtain ⟨rfl, hlow, hhigh⟩ := readRange_eq_ok.mp ha
    exact ⟨rfl, by omega, by omega⟩
  · rintro ⟨rfl, hlow, hhigh⟩
    refine ⟨n.toNat, readRange_eq_ok.mpr ⟨rfl, by omega, by omega⟩, ?_⟩
    exact congrArg Except.ok (Int.toNat_of_nonneg (by omega))

theorem readsInto_maxEventsPerSecond : ReadsInto readMaxEventsPerSecond Config.maxEventsPerSecond
    (fun n config => { config with maxEventsPerSecond := n }) (Encodes .unsigned Any) where
  eq_ok := by
    intro value out next
    unfold readMaxEventsPerSecond
    cases hvalue : value.unsigned? with
    | none =>
        refine iff_of_false (by simp [reject]) ?_
        rintro ⟨n, ⟨rfl, -⟩, -⟩
        cases hvalue
    | some n =>
        obtain rfl := Json.unsigned?_eq_some_iff.mp hvalue
        simp [Encodes, Any, eq_comm]
  set_get := fun _ => rfl

/-! ## The storage section -/

/-- The storage settings, as one. -/
def storage (config : Config) : Bool × Bytes × ℤ :=
  (config.storageEnabled, config.storagePath, config.storageRetention)

def setStorage (s : Bool × Bytes × ℤ) (config : Config) : Config :=
  { config with storageEnabled := s.1, storagePath := s.2.1, storageRetention := s.2.2 }

structure StorageTakes (value : Json) (old new : Bool × Bytes × ℤ) : Prop where
  keys : ∃ fields, value = .object fields ∧
    ∀ field ∈ fields, field.1 ∈ (storageReaders.map Prod.fst).map cstr
  enabled : Takes value "enabled" (Encodes .bool Any) old.1 new.1
  path : Takes value "path" (Encodes .string (· ≠ [])) old.2.1 new.2.1
  retention : Takes value "retention_seconds"
    (Encodes (fun n : ℤ => .unsigned n.toNat) fun n => (60 : ℕ) ≤ n ∧ n ≤ (31536000 : ℕ))
    old.2.2 new.2.2

theorem readsInto_storageEnabled (text : String) : ReadsInto
    (fun value config => (readBool text value).map fun b => { config with storageEnabled := b })
    Config.storageEnabled (fun b config => { config with storageEnabled := b })
    (Encodes .bool Any) :=
  readsInto_map readBool_iff fun _ => rfl

theorem readsInto_storageRetention (low high : ℕ) (text : String) : ReadsInto
    (fun value (config : Config) => (do let a ← readRange low high text value; pure (a : ℤ)).map
      fun n => { config with storageRetention := n })
    Config.storageRetention (fun n config => { config with storageRetention := n })
    (Encodes (fun n : ℤ => .unsigned n.toNat) fun n => low ≤ n ∧ n ≤ high) :=
  readsInto_map readDuration_iff fun _ => rfl

theorem readsInto_storage : ReadsInto readStorage storage setStorage StorageTakes where
  eq_ok := by
    intro value out next
    cases value with
    | object fields =>
        simp only [readStorage, Json.object?, Except.bind_eq_ok_iff, storageReaders,
          (readsInto_storageEnabled _).foldlM_cons, readsInto_storagePath.foldlM_cons,
          (readsInto_storageRetention _ _ _).foldlM_cons]
        constructor
        · rintro ⟨_, hkeys, enabled, henabled, path, hpath, retention, hretention, ⟨⟩⟩
          exact ⟨(enabled, path, retention),
            ⟨⟨fields, rfl, checkKeys_eq_ok.mp hkeys⟩, henabled, hpath, hretention⟩, rfl⟩
        · rintro ⟨s, h, rfl⟩
          obtain ⟨_, ⟨⟩, hkeys⟩ := h.keys
          exact ⟨(), checkKeys_eq_ok.mpr hkeys, _, h.enabled, _, h.path, _, h.retention, rfl⟩
    | _ =>
        refine iff_of_false (by simp [readStorage, Json.object?, reject]) ?_
        rintro ⟨_, h, -⟩
        obtain ⟨_, ⟨⟩, -⟩ := h.keys
  set_get := fun _ => rfl

/-! ## The policy section -/

/-- What a reader of `policy.redaction` makes of the value under its key. -/
inductive Stores (out : Policy) : String → Json → Policy → Prop where
  | redactionMode (mode) : Stores out "redaction_mode" (.string (redactionModeName mode))
      { out with redactionMode := mode }
  | stripQueryString (b) : Stores out "strip_query_string" (.bool b)
      { out with stripQueryString := b }
  | stripFragment (b) : Stores out "strip_fragment" (.bool b) { out with stripFragment := b }
  | sensitiveDomains (names) : Stores out "sensitive_domains" (.array (names.map .string))
      { out with sensitiveDomains := names }
  | captureInterfaces (names) : Stores out "capture_interfaces" (.array (names.map .string))
      { out with captureInterfaces := names }
  | pcapFilter (filter) : Stores out "pcap_filter" (.string filter)
      { out with pcapFilter := filter }

/-- Each reader of `policy.redaction` stores the value in the setting that it is for. -/
theorem stores_of_mem {value : Json} {out next : Policy} {key : String}
    {reader : Json → Policy → Parsed Policy} (hr : (key, reader) ∈ redactionReaders)
    (h : reader value out = .ok next) : Stores out key value next := by
  simp only [redactionReaders, List.mem_cons, List.not_mem_nil, or_false, Prod.mk.injEq] at hr
  rcases hr with ⟨rfl, rfl⟩ | ⟨rfl, rfl⟩ | ⟨rfl, rfl⟩ | ⟨rfl, rfl⟩ | ⟨rfl, rfl⟩ | ⟨rfl, rfl⟩
  · simp only [readRedactionMode] at h
    cases hvalue : value.string? with
    | none =>
        rw [hvalue] at h
        cases h
    | some name =>
        simp only [hvalue] at h
        cases hmode : redactionModeFromName name with
        | none =>
            rw [hmode] at h
            cases h
        | some mode =>
            simp only [hmode] at h
            cases h
            rw [Json.string?_eq_some_iff, redactionModeFromName_eq_some.mp hmode] at hvalue
            exact hvalue ▸ .redactionMode mode
  all_goals obtain ⟨a, ha, rfl⟩ := Except.map_eq_ok_iff.mp h
  · exact readBool_eq_ok.mp ha ▸ .stripQueryString a
  · exact readBool_eq_ok.mp ha ▸ .stripFragment a
  · exact (readArray_eq_ok.mp ha).1 ▸ .sensitiveDomains a
  · exact (readArray_eq_ok.mp ha).1 ▸ .captureInterfaces a
  · exact (readShort_eq_ok.mp ha).1 ▸ .pcapFilter a

theorem readRedaction_invariant {P : Policy → Prop} {fields : List (Bytes × Json)}
    {out next : Policy} (h : readRedaction fields out = .ok next)
    (hstep : ∀ r ∈ redactionReaders, ∀ field ∈ fields, ∀ policy policy',
      r.2 field.2 policy = .ok policy' → P policy → P policy')
    (hout : P out) : P next := by
  induction fields generalizing out with
  | nil =>
      cases h
      exact hout
  | cons field fields ih =>
      rw [readRedaction] at h
      cases hfind : redactionReaders.find? fun r => cstr r.1 == field.1 with
      | none =>
          rw [hfind] at h
          cases h
      | some r =>
          simp only [hfind] at h
          obtain ⟨mid, hmid, hrest⟩ := Except.bind_eq_ok_iff.mp h
          refine ih hrest (fun r hr f hf => hstep r hr f (by simp [hf])) ?_
          exact hstep r (List.mem_of_find?_eq_some hfind) field (by simp) _ _ hmid hout

/-- Of a policy only the members of `redaction` are read. -/
structure PolicyTakes (value : Json) (old new : Policy) : Prop where
  isObject : value.isObject = true
  redaction : ∃ fields, (value.field? (cstr "redaction")).getD (.object []) = .object fields ∧
    readRedaction fields old = .ok new

theorem readsInto_policy : ReadsInto
    (fun value config => (parsePolicy value config.policy).map
      fun policy => { config with policy := policy })
    Config.policy (fun policy config => { config with policy := policy }) PolicyTakes where
  eq_ok := by
    intro value out next
    have hparse (policy : Policy) :
        parsePolicy value out.policy = .ok policy ↔ PolicyTakes value out.policy policy := by
      cases value with
      | object members =>
          simp only [parsePolicy]
          cases hredaction : ((Json.object members).field? (cstr "redaction")).getD (.object [])
          case object fields =>
            simp only [Json.object?]
            constructor
            · exact fun h => ⟨rfl, fields, hredaction, h⟩
            · rintro ⟨-, fields', hfields, h⟩
              cases hredaction.symm.trans hfields
              exact h
          all_goals
            refine iff_of_false (by simp [Json.object?, reject]) ?_
            rintro ⟨-, fields', hfields, -⟩
            cases hredaction.symm.trans hfields
      | _ => exact iff_of_false (by simp [parsePolicy]) fun h => Bool.false_ne_true h.isObject
    rw [Except.map_eq_ok_iff]
    exact exists_congr fun policy => and_congr (hparse policy) eq_comm
  set_get := fun _ => rfl

/-! ## The document -/

/-- What an accepted document has to do with the configuration before and after. -/
structure Accepted (doc : Json) (out config : Config) : Prop where
  keys : ∃ fields, doc = .object fields ∧
    ∀ field ∈ fields, field.1 ∈ (topReaders.map Prod.fst).map cstr
  socketPath : Takes doc "socket_path" (Encodes .string fun path => validPath path = .ok ())
    out.socketPath config.socketPath
  logLevel : Takes doc "log_level" (Encodes .string fun level => level ∈ logLevels.map cstr)
    out.logLevel config.logLevel
  logFile : Takes doc "log_file" (Encodes .string Any) out.logFile config.logFile
  preferEbpf : Takes doc "prefer_ebpf" (Encodes .bool Any) out.preferEbpf config.preferEbpf
  pcapFallback : Takes doc "pcap_fallback" (Encodes .bool Any) out.pcapFallback
    config.pcapFallback
  interfaces : Takes doc "interfaces"
    (Encodes (fun names : List Bytes => .array (names.map .string))
      fun names => ∀ s ∈ names, s ≠ [] ∧ s.length ≤ 16)
    out.interfaces config.interfaces
  pcapFilter : Takes doc "pcap_filter" (Encodes .string fun filter => filter.length ≤ 256)
    out.pcapFilter config.pcapFilter
  policy : Takes doc "policy" PolicyTakes out.policy config.policy
  storage : Takes doc "storage" StorageTakes out.storage config.storage
  statusInterval : Takes doc "status_interval_ms"
    (Encodes (fun n : ℤ => .unsigned n.toNat) fun n => (100 : ℕ) ≤ n ∧ n ≤ (3600000 : ℕ))
    out.statusInterval config.statusInterval
  maxEventsPerSecond : Takes doc "max_events_per_second" (Encodes .unsigned Any)
    out.maxEventsPerSecond config.maxEventsPerSecond
  storagePath : ¬ (config.storageEnabled = true ∧ config.storagePath = [])

section Readers

variable (bound low high : ℕ) (text notArray : String)

theorem readsInto_preferEbpf : ReadsInto
    (fun value config => (readBool text value).map fun b => { config with preferEbpf := b })
    Config.preferEbpf (fun b config => { config with preferEbpf := b }) (Encodes .bool Any) :=
  readsInto_map readBool_iff fun _ => rfl

theorem readsInto_pcapFallback : ReadsInto
    (fun value config => (readBool text value).map fun b => { config with pcapFallback := b })
    Config.pcapFallback (fun b config => { config with pcapFallback := b }) (Encodes .bool Any) :=
  readsInto_map readBool_iff fun _ => rfl

theorem readsInto_interfaces : ReadsInto
    (fun value config => (readArray bound notArray text value).map
      fun names => { config with interfaces := names })
    Config.interfaces (fun names config => { config with interfaces := names })
    (Encodes (fun names : List Bytes => .array (names.map .string))
      fun names => ∀ s ∈ names, s ≠ [] ∧ s.length ≤ bound) :=
  readsInto_map readArray_eq_ok fun _ => rfl

theorem readsInto_pcapFilter : ReadsInto
    (fun value config => (readShort bound text value).map
      fun filter => { config with pcapFilter := filter })
    Config.pcapFilter (fun filter config => { config with pcapFilter := filter })
    (Encodes .string fun filter => filter.length ≤ bound) :=
  readsInto_map readShort_eq_ok fun _ => rfl

theorem readsInto_statusInterval : ReadsInto
    (fun value (config : Config) => (do let a ← readRange low high text value; pure (a : ℤ)).map
      fun n => { config with statusInterval := n })
    Config.statusInterval (fun n config => { config with statusInterval := n })
    (Encodes (fun n : ℤ => .unsigned n.toNat) fun n => low ≤ n ∧ n ≤ high) :=
  readsInto_map readDuration_iff fun _ => rfl

end Readers

section Document

variable {doc : Json} {out config : Config}

/-- Reading the members of a document, one setting after another. -/
theorem parseDocument_eq_ok :
    parseDocument doc out = .ok config ↔ Accepted doc out config := by
  cases doc with
  | object fields =>
      simp only [parseDocument, Json.object?, Except.bind_eq_ok_iff, topReaders,
        readsInto_socketPath.foldlM_cons, readsInto_logLevel.foldlM_cons,
        readsInto_logFile.foldlM_cons, (readsInto_preferEbpf _).foldlM_cons,
        (readsInto_pcapFallback _).foldlM_cons, (readsInto_interfaces _ _ _).foldlM_cons,
        (readsInto_pcapFilter _ _).foldlM_cons, readsInto_policy.foldlM_cons,
        readsInto_storage.foldlM_cons, (readsInto_statusInterval _ _ _).foldlM_cons,
        readsInto_maxEventsPerSecond.foldlM_cons]
      constructor
      · rintro ⟨_, hkeys, _, ⟨_, hsocketPath, _, hlogLevel, _, hlogFile, _, hpreferEbpf, _,
          hpcapFallback, _, hinterfaces, _, hpcapFilter, _, hpolicy, _, hstorage, _,
          hstatusInterval, _, hmaxEvents, ⟨⟩⟩, hlast⟩
        split at hlast <;> cases hlast
        rename_i hpath
        exact ⟨⟨fields, rfl, checkKeys_eq_ok.mp hkeys⟩, hsocketPath, hlogLevel, hlogFile,
          hpreferEbpf, hpcapFallback, hinterfaces, hpcapFilter, hpolicy, hstorage,
          hstatusInterval, hmaxEvents, hpath⟩
      · intro h
        obtain ⟨_, ⟨⟩, hkeys⟩ := h.keys
        exact ⟨(), checkKeys_eq_ok.mpr hkeys, config, ⟨_, h.socketPath, _, h.logLevel, _, h.logFile,
          _, h.preferEbpf, _, h.pcapFallback, _, h.interfaces, _, h.pcapFilter, _, h.policy, _,
          h.storage, _, h.statusInterval, _, h.maxEventsPerSecond, rfl⟩, if_neg h.storagePath⟩
  | _ =>
      refine iff_of_false (by simp [parseDocument, Json.object?, reject]) fun h => ?_
      obtain ⟨_, ⟨⟩, -⟩ := h.keys

end Document

end Ezcap.Config
