import Ezcap.Library.JsonRoundTrip
import Ezcap.Model.DriverProtocol
import Ezcap.Model.Manifest

/-! What parsing a manifest leaves in the object that it is given, and which of the accepted
manifests conform to the published schema. -/

namespace Ezcap.Manifests

open StdString Json InPlace Protocol
open Drivers (Capability)
open JsonSchema (characters characters_le one_le_characters)

/-! ## Texts -/

theorem validName_iff {s : Bytes} : validName s = true ↔ IsDriverName s := by
  simp only [validName, IsDriverName, Bool.and_eq_true, bne_iff_ne, decide_eq_true_eq,
    List.all_eq_true, Bool.or_eq_true, beq_iff_eq, Nat.one_le_iff_ne_zero, ne_eq,
    List.length_eq_zero_iff, and_assoc]

theorem validSha256Hex_iff {s : Bytes} : validSha256Hex s = true ↔ IsSha256 s := by
  simp only [validSha256Hex, IsSha256, Bool.and_eq_true, decide_eq_true_eq, List.all_eq_true,
    Bool.or_eq_true]

/-- What is accepted as a version: one more group than there should be. -/
def LaxVersion (s : Bytes) : Prop :=
  DottedNumber.AllDigits (DottedNumber.groups s) ∧
    2 ≤ (DottedNumber.groups s).length ∧ (DottedNumber.groups s).length ≤ 4

theorem validVersion_iff {s : Bytes} : validVersion s = true ↔ LaxVersion s := by
  rw [validVersion, DottedNumber.scan_iff (Nat.zero_le 3) (by simp), LaxVersion, List.nil_append,
    Nat.zero_add]

theorem isVersion_iff {s : Bytes} :
    IsVersion s ↔ LaxVersion s ∧ (DottedNumber.groups s).length ≠ 4 := by
  rw [IsVersion, LaxVersion]
  constructor
  · rintro ⟨hdigits, hlow, hhigh⟩
    exact ⟨⟨hdigits, hlow, by omega⟩, by omega⟩
  · rintro ⟨⟨hdigits, hlow, hhigh⟩, hne⟩
    exact ⟨hdigits, hlow, by omega⟩

theorem validScript_iff {s : Bytes} : validScript s = true ↔ s ≠ [] ∧ s.length ≤ 4096 := by
  rw [validScript, Bool.and_eq_true, bne_iff_ne, decide_eq_true_eq]

theorem capabilityFromName_isSome_iff {name : Bytes} :
    (capabilityFromName name).isSome = true ↔ name ∈ capabilityNames := by
  -- One condition of the chain at a time.
  have hcase {p : Prop} [Decidable p] {capability : Capability} {rest : Option Capability} :
      (if p then some capability else rest).isSome = true ↔ p ∨ rest.isSome = true := by
    by_cases hp : p <;> simp [hp]
  simp only [capabilityFromName, hcase, capabilityNames, List.mem_cons, List.not_mem_nil,
    Option.isSome_none, Bool.false_eq_true]

/-! ## Members -/

def text? (doc : Json) (key : String) : Option Bytes := (doc.field? (cstr key)).bind string?

def limit? (doc : Json) (key : String) : Option UInt32 :=
  ((doc.field? (cstr key)).bind unsigned?).map UInt32.ofNat

def entries (doc : Json) (key : String) : List Json :=
  ((doc.field? (cstr key)).bind array?).getD []

section Members

variable {doc : Json} {key : String}

theorem requiredString_meets {set : DriverManifest → Bytes → DriverManifest}
    {valid : Bytes → Bool} {message : String} :
    Meets (requiredString doc key set valid message)
      (fun _ => doc.Required (cstr key) (IsString (valid · = true)))
      (fun out => (text? doc key).elim out (set out)) where
  result := by
    rintro out ⟨_, hvalue, s, rfl, hvalid⟩
    simp [requiredString, text?, hvalue, string?, hvalid]
  accepted := by
    intro out
    rw [requiredString, Required]
    cases doc.field? (cstr key) with
    | none => simp
    | some value => cases value <;> simp [string?, IsString]

theorem boundedString_meets {set : DriverManifest → Bytes → DriverManifest} :
    Meets (boundedString doc key set)
      (fun _ => doc.Allowed (cstr key) (ShortText List.length 512))
      (fun out => (text? doc key).elim out (set out)) where
  result := by
    intro out h
    rw [boundedString, text?]
    cases hvalue : doc.field? (cstr key) with
    | none => rfl
    | some value =>
        obtain ⟨s, rfl, hlength⟩ := h value hvalue
        simp [string?, kMaxManifestFieldLength, hlength]
  accepted := by
    intro out h value hvalue
    rw [boundedString, hvalue] at h
    cases value with
    | string s =>
        refine ⟨s, rfl, ?_⟩
        simpa [string?, kMaxManifestFieldLength] using h
    | _ => simp [string?] at h

theorem checkSha256_meets :
    Meets checkSha256 (fun out => out.scriptSha256 = [] ∨ IsSha256 out.scriptSha256) id where
  result := by
    intro out h
    rw [← validSha256Hex_iff] at h
    rw [checkSha256, if_neg]
    · rfl
    · rintro ⟨hne, hinvalid⟩
      rcases h with hempty | hvalid
      · exact hne hempty
      · rw [hvalid] at hinvalid
        cases hinvalid
  accepted := by
    intro out h
    rw [← validSha256Hex_iff]
    by_cases hbad : out.scriptSha256 ≠ [] ∧ validSha256Hex out.scriptSha256 = false
    · rw [checkSha256, if_pos hbad] at h
      cases h
    · rw [not_and_or, not_not, Bool.not_eq_false] at hbad
      exact hbad

theorem declaredLimit_meets {set : DriverManifest → UInt32 → DriverManifest} :
    Meets (declaredLimit doc key set)
      (fun _ => doc.Allowed (cstr key) fun value => ∃ n, value = .unsigned n ∧ n ≤ 64)
      (fun out => (limit? doc key).elim out (set out)) where
  result := by
    intro out h
    rw [declaredLimit, limit?]
    cases hvalue : doc.field? (cstr key) with
    | none => rfl
    | some value =>
        obtain ⟨n, rfl, hn⟩ := h value hvalue
        simp [unsigned?, Nat.not_lt.mpr hn]
  accepted := by
    intro out h value hvalue
    rw [declaredLimit, hvalue] at h
    cases value with
    | unsigned n =>
        refine ⟨n, rfl, ?_⟩
        by_contra hn
        simp [unsigned?, Nat.not_le.mp hn] at h
    | _ => simp [unsigned?] at h

theorem optionalArray_meets {maxEntries : ℕ} {tooMany : String}
    {push : Json → Step DriverManifest Bytes} {valid : List Json → Prop}
    {fill : List Json → DriverManifest → DriverManifest} (hnil : ∀ out, fill [] out = out)
    (hpush : ∀ entries, Meets (run (entries.map push)) (fun _ => valid entries) (fill entries)) :
    Meets (optionalArray doc key maxEntries tooMany push)
      (fun _ => doc.Allowed (cstr key) (IsArray fun xs => xs.length ≤ maxEntries ∧ valid xs))
      (fill (entries doc key)) where
  result := by
    intro out h
    rw [optionalArray, entries]
    cases hvalue : doc.field? (cstr key) with
    | none => simp [hnil]
    | some value =>
        obtain ⟨xs, rfl, hlength, hvalid⟩ := h value hvalue
        simp only [array?, if_neg (Nat.not_lt.mpr hlength)]
        exact (hpush xs).result out hvalid
  accepted := by
    intro out h value hvalue
    rw [optionalArray, hvalue] at h
    cases value with
    | array xs =>
        simp only [array?] at h
        by_cases hlength : xs.length > maxEntries
        · rw [if_pos hlength] at h
          cases h
        · rw [if_neg hlength] at h
          exact ⟨xs, rfl, Nat.not_lt.mp hlength, (hpush xs).accepted out h⟩
    | _ => simp [array?] at h

end Members

/-! ## Entries -/

def listedCapabilities (xs : List Json) : List Capability :=
  xs.filterMap fun entry => entry.string?.bind capabilityFromName

def listedTypes (xs : List Json) : List Bytes := xs.filterMap string?

theorem insertCapability_meets (entry : Json) :
    Meets (insertCapability entry) (fun _ => IsString (· ∈ capabilityNames) entry)
      (fun out => { out with
        capabilities := out.capabilities ∪ (listedCapabilities [entry]).toFinset }) where
  result := by
    rintro out ⟨name, rfl, hname⟩
    obtain ⟨capability, hcapability⟩ :=
      Option.isSome_iff_exists.mp (capabilityFromName_isSome_iff.mpr hname)
    simp [insertCapability, listedCapabilities, string?, hcapability]
  accepted := by
    intro out h
    cases entry with
    | string name =>
        refine ⟨name, rfl, capabilityFromName_isSome_iff.mp ?_⟩
        cases hcapability : capabilityFromName name with
        | none => simp [insertCapability, string?, hcapability] at h
        | some capability => rfl
    | _ => simp [insertCapability, string?] at h

theorem insertCapabilities_meets (xs : List Json) :
    Meets (run (xs.map insertCapability))
      (fun _ => ∀ entry ∈ xs, IsString (· ∈ capabilityNames) entry)
      (fun out => { out with
        capabilities := out.capabilities ∪ (listedCapabilities xs).toFinset }) := by
  induction xs with
  | nil => exact ⟨fun out _ => by simp [listedCapabilities, run], fun _ _ => by simp⟩
  | cons entry xs ih =>
      have h := (insertCapability_meets entry).cons ih
      have hlisted : listedCapabilities (entry :: xs) =
          listedCapabilities [entry] ++ listedCapabilities xs :=
        List.filterMap_append (l := [entry])
      simpa only [List.map_cons, List.forall_mem_cons, hlisted, List.toFinset_append,
        Finset.union_assoc] using h

theorem pushEventType_meets (entry : Json) :
    Meets (pushEventType entry) (fun _ => ShortText List.length 32 entry)
      (fun out => { out with eventTypes := out.eventTypes ++ listedTypes [entry] }) where
  result := by
    rintro out ⟨name, rfl, hlength⟩
    simp [pushEventType, listedTypes, string?, Nat.not_lt.mpr hlength]
  accepted := by
    intro out h
    cases entry with
    | string name =>
        refine ⟨name, rfl, ?_⟩
        by_contra hlength
        simp [pushEventType, string?, Nat.not_le.mp hlength] at h
    | _ => simp [pushEventType, string?] at h

theorem pushEventTypes_meets (xs : List Json) :
    Meets (run (xs.map pushEventType)) (fun _ => ∀ entry ∈ xs, ShortText List.length 32 entry)
      (fun out => { out with eventTypes := out.eventTypes ++ listedTypes xs }) := by
  induction xs with
  | nil => exact ⟨fun out _ => by simp [listedTypes, run], fun _ _ => by simp⟩
  | cons entry xs ih =>
      have h := (pushEventType_meets entry).cons ih
      have hlisted : listedTypes (entry :: xs) = listedTypes [entry] ++ listedTypes xs :=
        List.filterMap_append (l := [entry])
      simpa only [List.map_cons, List.forall_mem_cons, hlisted, List.append_assoc] using h

/-! ## Documents -/

section Documents

variable {doc : Json}

theorem readName_meets :
    Meets (readName doc) (fun _ => doc.Required (cstr "name") (IsString IsDriverName))
      (fun out => { out with name := (text? doc "name").getD out.name }) :=
  requiredString_meets.congr (fun _ => by simp only [validName_iff])
    fun _ => by cases text? doc "name" <;> rfl

theorem readVersion_meets :
    Meets (readVersion doc) (fun _ => doc.Required (cstr "version") (IsString LaxVersion))
      (fun out => { out with version := (text? doc "version").getD out.version }) :=
  requiredString_meets.congr (fun _ => by simp only [validVersion_iff])
    fun _ => by cases text? doc "version" <;> rfl

theorem readScript_meets :
    Meets (readScript doc)
      (fun _ => doc.Required (cstr "script") (IsString fun s => s ≠ [] ∧ s.length ≤ 4096))
      (fun out => { out with scriptPath := (text? doc "script").getD out.scriptPath }) :=
  requiredString_meets.congr (fun _ => by simp only [validScript_iff])
    fun _ => by cases text? doc "script" <;> rfl

theorem readDescription_meets :
    Meets (readDescription doc)
      (fun _ => doc.Allowed (cstr "description") (ShortText List.length 512))
      (fun out => { out with description := (text? doc "description").getD out.description }) :=
  boundedString_meets.congr (fun _ => Iff.rfl) fun _ => by cases text? doc "description" <;> rfl

theorem readSha256_meets :
    Meets (readSha256 doc)
      (fun _ => doc.Allowed (cstr "script_sha256") (ShortText List.length 512))
      (fun out =>
        { out with scriptSha256 := (text? doc "script_sha256").getD out.scriptSha256 }) :=
  boundedString_meets.congr (fun _ => Iff.rfl) fun _ => by cases text? doc "script_sha256" <;> rfl

theorem readMaxEndpoints_meets :
    Meets (readMaxEndpoints doc)
      (fun _ => doc.Allowed (cstr "max_endpoints") fun value => ∃ n, value = .unsigned n ∧ n ≤ 64)
      (fun out =>
        { out with maxEndpoints := (limit? doc "max_endpoints").getD out.maxEndpoints }) :=
  declaredLimit_meets.congr (fun _ => Iff.rfl) fun _ => by cases limit? doc "max_endpoints" <;> rfl

theorem readMaxSubscriptions_meets :
    Meets (readMaxSubscriptions doc)
      (fun _ => doc.Allowed (cstr "max_subscriptions") fun value =>
        ∃ n, value = .unsigned n ∧ n ≤ 64)
      (fun out =>
        { out with
          maxSubscriptions := (limit? doc "max_subscriptions").getD out.maxSubscriptions }) :=
  declaredLimit_meets.congr (fun _ => Iff.rfl)
    fun _ => by cases limit? doc "max_subscriptions" <;> rfl

theorem readCapabilities_meets :
    Meets (readCapabilities doc)
      (fun _ => doc.Allowed (cstr "capabilities") (IsArray fun xs =>
        xs.length ≤ 16 ∧ ∀ entry ∈ xs, IsString (· ∈ capabilityNames) entry))
      (fun out => { out with
        capabilities :=
          out.capabilities ∪ (listedCapabilities (entries doc "capabilities")).toFinset }) :=
  optionalArray_meets (by simp [listedCapabilities]) insertCapabilities_meets

theorem readEventTypes_meets :
    Meets (readEventTypes doc)
      (fun _ => doc.Allowed (cstr "event_types") (IsArray fun xs =>
        xs.length ≤ 16 ∧ ∀ entry ∈ xs, ShortText List.length 32 entry))
      (fun out => { out with
        eventTypes := out.eventTypes ++ listedTypes (entries doc "event_types") }) :=
  optionalArray_meets (by simp [listedTypes]) pushEventTypes_meets

/-- What the parser asks of a document. -/
structure AcceptedManifest (doc : Json) : Prop where
  name : doc.Required (cstr "name") (IsString IsDriverName)
  version : doc.Required (cstr "version") (IsString LaxVersion)
  script : doc.Required (cstr "script") (IsString fun s => s ≠ [] ∧ s.length ≤ 4096)
  description : doc.Allowed (cstr "description") (ShortText List.length 512)
  scriptSha256 : doc.Allowed (cstr "script_sha256") (ShortText List.length 512)
  capabilities : doc.Allowed (cstr "capabilities") (IsArray fun xs =>
    xs.length ≤ 16 ∧ ∀ entry ∈ xs, IsString (· ∈ capabilityNames) entry)
  eventTypes : doc.Allowed (cstr "event_types") (IsArray fun xs =>
    xs.length ≤ 16 ∧ ∀ entry ∈ xs, ShortText List.length 32 entry)
  maxEndpoints : doc.Allowed (cstr "max_endpoints") fun value =>
    ∃ n, value = .unsigned n ∧ n ≤ 64
  maxSubscriptions : doc.Allowed (cstr "max_subscriptions") fun value =>
    ∃ n, value = .unsigned n ∧ n ≤ 64

/-- What an accepted document makes of an object: a member that is absent leaves the field as it
is, and lists are added to those that are there. -/
def filled (doc : Json) (out : DriverManifest) : DriverManifest where
  name := (text? doc "name").getD out.name
  version := (text? doc "version").getD out.version
  scriptPath := (text? doc "script").getD out.scriptPath
  description := (text? doc "description").getD out.description
  scriptSha256 := (text? doc "script_sha256").getD out.scriptSha256
  capabilities := out.capabilities ∪ (listedCapabilities (entries doc "capabilities")).toFinset
  eventTypes := out.eventTypes ++ listedTypes (entries doc "event_types")
  maxEndpoints := (limit? doc "max_endpoints").getD out.maxEndpoints
  maxSubscriptions := (limit? doc "max_subscriptions").getD out.maxSubscriptions

/-- The hash that is checked is none or one of the right form. -/
def HashAccepted (hash : Bytes) : Prop := hash = [] ∨ IsSha256 hash

theorem members_meet :
    Meets (run (readName doc :: readRest doc))
      (fun out => AcceptedManifest doc ∧ HashAccepted (filled doc out).scriptSha256)
      (filled doc) := by
  have h : Meets (run (readName doc :: readRest doc)) _ _ :=
    .cons readName_meets <| .cons readVersion_meets <| .cons readScript_meets <|
    .cons readDescription_meets <| .cons readSha256_meets <| .cons checkSha256_meets <|
    .cons readCapabilities_meets <| .cons readEventTypes_meets <|
    .cons readMaxEndpoints_meets <| .cons readMaxSubscriptions_meets .nil
  refine h.congr (fun out => ?_) fun out => rfl
  constructor
  · rintro ⟨hname, hversion, hscript, hdescription, hsha, hhash, hcapabilities, htypes, hendpoints,
      hsubscriptions, -⟩
    exact ⟨⟨hname, hversion, hscript, hdescription, hsha, hcapabilities, htypes, hendpoints,
      hsubscriptions⟩, hhash⟩
  · rintro ⟨h, hhash⟩
    exact ⟨h.name, h.version, h.script, h.description, h.scriptSha256, hhash, h.capabilities,
      h.eventTypes, h.maxEndpoints, h.maxSubscriptions, trivial⟩

end Documents

/-! ## Atomicity -/

section Keeping

variable {α : Type*} {f : DriverManifest → α} {doc : Json} {key : String}

theorem requiredString_keeps {set : DriverManifest → Bytes → DriverManifest}
    {valid : Bytes → Bool} {message : String} (hset : ∀ out s, f (set out s) = f out)
    (out : DriverManifest) : f (requiredString doc key set valid message out).1 = f out := by
  rw [requiredString]
  split
  · rfl
  · exact hset out _

theorem boundedString_keeps {set : DriverManifest → Bytes → DriverManifest}
    (hset : ∀ out s, f (set out s) = f out) (out : DriverManifest) :
    f (boundedString doc key set out).1 = f out := by
  rw [boundedString]
  split
  · rfl
  · split
    · rfl
    · exact hset out _

theorem declaredLimit_keeps {set : DriverManifest → UInt32 → DriverManifest}
    (hset : ∀ out n, f (set out n) = f out) (out : DriverManifest) :
    f (declaredLimit doc key set out).1 = f out := by
  rw [declaredLimit]
  split
  · rfl
  · split
    · rfl
    · split
      · rfl
      · exact hset out _

theorem optionalArray_keeps {maxEntries : ℕ} {tooMany : String}
    {push : Json → Step DriverManifest Bytes} (hpush : ∀ entry out, f (push entry out).1 = f out)
    (out : DriverManifest) : f (optionalArray doc key maxEntries tooMany push out).1 = f out := by
  rw [optionalArray]
  split
  · rfl
  · split
    · rfl
    · split
      · rfl
      · refine run_keeps (fun step hstep => ?_) out
        obtain ⟨entry, -, rfl⟩ := List.mem_map.mp hstep
        exact hpush entry

end Keeping

theorem insertCapability_name (entry : Json) (out : DriverManifest) :
    (insertCapability entry out).1.name = out.name := by
  rw [insertCapability]
  split
  · rfl
  · split <;> rfl

theorem pushEventType_name (entry : Json) (out : DriverManifest) :
    (pushEventType entry out).1.name = out.name := by
  rw [pushEventType]
  split
  · rfl
  · split <;> rfl

theorem checkSha256_fst (out : DriverManifest) : (checkSha256 out).1 = out := by
  rw [checkSha256]
  split <;> rfl

/-- No step after the first writes the name. -/
theorem readRest_name (doc : Json) :
    ∀ step ∈ readRest doc, ∀ out, (step out).1.name = out.name := by
  simp only [readRest, List.forall_mem_cons, List.not_mem_nil, false_imp_iff, implies_true,
    and_true]
  exact ⟨requiredString_keeps fun _ _ => rfl, requiredString_keeps fun _ _ => rfl,
    boundedString_keeps fun _ _ => rfl, boundedString_keeps fun _ _ => rfl,
    fun out => by rw [checkSha256_fst], optionalArray_keeps insertCapability_name,
    optionalArray_keeps pushEventType_name, declaredLimit_keeps fun _ _ => rfl,
    declaredLimit_keeps fun _ _ => rfl⟩

section Parse

variable {lib : JsonLib} {text : Bytes} {doc : Json}

/-- There is no name for the parser to write. -/
def Nameless (lib : JsonLib) (text : Bytes) : Prop :=
  ∀ doc, lib.parse text = some doc → text? doc "name" = none

theorem parse_of_nameless (h : Nameless lib text) (out : DriverManifest) :
    ∃ error, parse lib text out = (out, some error) := by
  rw [parse]
  cases hparse : lib.parse text with
  | none => exact ⟨_, rfl⟩
  | some doc =>
      by_cases hobject : doc.isObject = true
      · refine ⟨cstr "manifest.name is required", ?_⟩
        have hname : (doc.field? (cstr "name")).bind string? = none := h doc hparse
        simp only [hobject, run, readName, requiredString, hname]
        rfl
      · exact ⟨cstr "manifest must be a JSON object", by simp only [if_neg hobject]⟩

theorem parse_eq_run {name : Bytes} (hparse : lib.parse text = some doc)
    (hname : text? doc "name" = some name) (out : DriverManifest) :
    parse lib text out = run (readName doc :: readRest doc) out := by
  cases doc with
  | object fields => rw [parse, hparse]; rfl
  | _ => cases hname

theorem parse_name {name : Bytes} (hparse : lib.parse text = some doc)
    (hname : text? doc "name" = some name) (out : DriverManifest) :
    (parse lib text out).1.name = name := by
  have hread : (readName doc out).1.name = name := by
    rw [text?] at hname
    simp only [readName, requiredString, hname]
  rw [parse_eq_run hparse hname, run]
  cases hout : readName doc out with
  | mk out' error =>
      rw [hout] at hread
      cases error with
      | some error => exact hread
      | none => exact (run_keeps (readRest_name doc) out').trans hread

theorem text?_name_of_accepted {out : DriverManifest} (hparse : lib.parse text = some doc)
    (h : (parse lib text out).2 = none) : ∃ name, text? doc "name" = some name := by
  refine Option.ne_none_iff_exists'.mp fun hname => ?_
  have hnameless : Nameless lib text := by
    intro doc' hparse'
    obtain rfl : doc = doc' := Option.some.inj (hparse.symm.trans hparse')
    exact hname
  obtain ⟨error, herror⟩ := parse_of_nameless hnameless out
  rw [herror] at h
  cases h

theorem parse_accepted_iff {name : Bytes} (hparse : lib.parse text = some doc)
    (hname : text? doc "name" = some name) (out : DriverManifest) :
    (parse lib text out).2 = none ↔
      AcceptedManifest doc ∧ HashAccepted (filled doc out).scriptSha256 := by
  rw [parse_eq_run hparse hname]
  exact members_meet.iff out

theorem parse_filled {out : DriverManifest} (hparse : lib.parse text = some doc)
    (h : (parse lib text out).2 = none) : (parse lib text out).1 = filled doc out := by
  obtain ⟨name, hname⟩ := text?_name_of_accepted hparse h
  rw [parse_eq_run hparse hname] at h ⊢
  exact members_meet.fst h

end Parse

/-- Parsing leaves nothing behind where it fails, and gives the same for every object where it
succeeds, exactly for the texts without a name, none of which is accepted. What it makes of an
object otherwise is `filled`. -/
theorem manifest_parse_atomic_iff (lib : JsonLib) (text : Bytes) :
    (((∀ out, (parse lib text out).2 ≠ none → (parse lib text out).1 = out) ∧
        ∀ out out', (parse lib text out).2 = none → (parse lib text out').2 = none →
          (parse lib text out).1 = (parse lib text out').1) ↔
      Nameless lib text) ∧
    ∀ doc out, lib.parse text = some doc → (parse lib text out).2 = none →
      (parse lib text out).1 = filled doc out := by
  refine ⟨⟨?_, ?_⟩, fun doc out => parse_filled⟩
  · rintro ⟨hunchanged, hsame⟩ doc hparse
    by_contra hnamed
    obtain ⟨name, hname⟩ := Option.ne_none_iff_exists'.mp hnamed
    -- Two objects with another name, which differ in their subscriptions.
    let out : DriverManifest := { name := 0 :: name }
    let out' : DriverManifest := { name := 0 :: name, eventTypes := [[]] }
    by_cases haccepted : (parse lib text out).2 = none
    · have haccepted' : (parse lib text out').2 = none := by
        rw [parse_accepted_iff hparse hname] at haccepted ⊢
        exact haccepted
      have hfilled := hsame out out' haccepted haccepted'
      rw [parse_filled hparse haccepted, parse_filled hparse haccepted'] at hfilled
      have htypes := congrArg (fun m => m.eventTypes.length) hfilled
      simp [filled, out, out'] at htypes
    · have hname' := congrArg DriverManifest.name (hunchanged out haccepted)
      rw [parse_name hparse hname] at hname'
      exact absurd hname' (by simp [out])
  · intro h
    constructor
    · intro out _
      obtain ⟨error, herror⟩ := parse_of_nameless h out
      rw [herror]
    · intro out _ haccepted
      obtain ⟨error, herror⟩ := parse_of_nameless h out
      rw [herror] at haccepted
      cases haccepted

/-- A manifest with these members besides those that it needs. -/
def manifestText (version more : String) : Bytes :=
  cstr "\x7b\"name\":\"a\",\"script\":\"a.lua\",\"version\":\"" ++ cstr version ++ cstr "\"" ++
    cstr more ++ cstr "\x7d"

/-- A text without a version leaves its name behind, and the subscriptions of an earlier manifest
stay in the object. -/
theorem earlier_manifest_remains :
    (parse JsonReference.lib (cstr "\x7b\"name\":\"a\"\x7d") {} =
      ({ name := cstr "a" }, some (cstr "manifest.version is required"))) ∧
    parse JsonReference.lib (manifestText "1.0" "") { eventTypes := [cstr "flow"] } =
      ({ name := cstr "a", version := cstr "1.0", scriptPath := cstr "a.lua",
         eventTypes := [cstr "flow"] }, none) ∧
    parse JsonReference.lib (manifestText "1.0" "") {} =
      ({ name := cstr "a", version := cstr "1.0", scriptPath := cstr "a.lua" }, none) := by
  decide +kernel

/-! ## Conformance -/

/-- What the schema asks of an accepted manifest besides. -/
structure StrictManifest (doc : Json) : Prop where
  closed : doc.Closed manifestKeys
  version : doc.Allowed (cstr "version") (IsString fun s => (DottedNumber.groups s).length ≠ 4)
  scriptSha256 : doc.field? (cstr "script_sha256") ≠ some (.string [])
  capabilities : doc.Allowed (cstr "capabilities") (IsArray List.Nodup)

section Conformance

variable {doc : Json}

theorem isLimit_of_unsigned {value : Json} (h : ∃ n, value = .unsigned n ∧ n ≤ 64) :
    IsLimit value := by
  obtain ⟨n, rfl, hn⟩ := h
  exact ⟨n, rfl, by omega, by omega⟩

theorem AcceptedManifest.isManifest (h : AcceptedManifest doc) (htext : doc.isText = true)
    {out : DriverManifest} (hhash : HashAccepted (filled doc out).scriptSha256)
    (hstrict : StrictManifest doc) : IsManifest characters doc where
  closed := hstrict.closed
  name := h.name
  version := by
    obtain ⟨value, hvalue, s, rfl, hlax⟩ := h.version
    obtain ⟨_, ⟨⟩, hgroups⟩ := hstrict.version _ hvalue
    exact ⟨_, hvalue, s, rfl, isVersion_iff.mpr ⟨hlax, hgroups⟩⟩
  script := by
    obtain ⟨value, hvalue, s, rfl, hne, hlength⟩ := h.script
    have hvalid : Utf8.Valid s := (isText_string s).mp (isText_field? htext hvalue)
    exact ⟨_, hvalue, s, rfl, one_le_characters hvalid hne, (characters_le s).trans hlength⟩
  description := h.description.imp fun _ => ShortText.inCharacters
  scriptSha256 := by
    intro value hvalue
    obtain ⟨s, rfl, -⟩ := h.scriptSha256 value hvalue
    have hs : (filled doc out).scriptSha256 = s := by simp [filled, text?, hvalue, string?]
    rw [hs] at hhash
    rcases hhash with rfl | hhash
    · exact absurd hvalue hstrict.scriptSha256
    · exact ⟨s, rfl, hhash⟩
  capabilities := by
    intro value hvalue
    obtain ⟨xs, rfl, hlength, hnames⟩ := h.capabilities value hvalue
    obtain ⟨_, ⟨⟩, hnodup⟩ := hstrict.capabilities _ hvalue
    exact ⟨xs, rfl, hlength, hnames, hnodup⟩
  eventTypes := by
    refine h.eventTypes.imp ?_
    rintro value ⟨xs, rfl, hlength, hentries⟩
    exact ⟨xs, rfl, hlength, fun entry he => (hentries entry he).inCharacters⟩
  maxEndpoints := h.maxEndpoints.imp fun _ => isLimit_of_unsigned
  maxSubscriptions := h.maxSubscriptions.imp fun _ => isLimit_of_unsigned

theorem strict_of_isManifest (h : IsManifest characters doc) : StrictManifest doc where
  closed := h.closed
  version := by
    intro value hvalue
    obtain ⟨value', hvalue', s, rfl, hversion⟩ := h.version
    obtain rfl : value = .string s := Option.some.inj (hvalue.symm.trans hvalue')
    exact ⟨s, rfl, (isVersion_iff.mp hversion).2⟩
  scriptSha256 := by
    intro hvalue
    obtain ⟨s, hs, hlength, -⟩ := h.scriptSha256 _ hvalue
    cases hs
    cases hlength
  capabilities := by
    refine h.capabilities.imp ?_
    rintro value ⟨xs, rfl, -, -, hnodup⟩
    exact ⟨xs, rfl, hnodup⟩

end Conformance

/-- An accepted manifest conforms to the schema exactly if it has no other members, its version has
no fourth group, its hash is not the empty string and none of its capabilities is listed twice. -/
theorem accepted_manifest_conforms_iff {lib : JsonLib} (hlib : lib.Lawful) {text : Bytes}
    {doc : Json} {out : DriverManifest} (hparse : lib.parse text = some doc)
    (h : (parse lib text out).2 = none) : IsManifest characters doc ↔ StrictManifest doc := by
  obtain ⟨name, hname⟩ := text?_name_of_accepted hparse h
  obtain ⟨haccepted, hhash⟩ := (parse_accepted_iff hparse hname out).mp h
  exact ⟨strict_of_isManifest, haccepted.isManifest (hlib.isText_of_parse hparse) hhash⟩

theorem accepted_manifest_conforms_plain :
    ∃ doc, JsonReference.lib.parse (manifestText "1.0" "") = some doc ∧
      (parse JsonReference.lib (manifestText "1.0" "") {}).2 = none ∧
      (IsManifest characters doc ↔ StrictManifest doc) := by
  obtain ⟨doc, hdoc⟩ : ∃ doc, JsonReference.lib.parse (manifestText "1.0" "") = some doc :=
    Option.isSome_iff_exists.mp (by decide +kernel)
  have haccepted : (parse JsonReference.lib (manifestText "1.0" "") {}).2 = none := by
    decide +kernel
  exact ⟨doc, hdoc, haccepted,
    accepted_manifest_conforms_iff JsonReference.lib_lawful hdoc haccepted⟩

/-- The text is accepted, although its document does not conform. -/
def AcceptedLoosely (text : Bytes) : Prop :=
  ∃ doc, JsonReference.lib.parse text = some doc ∧ (parse JsonReference.lib text {}).2 = none ∧
    ¬ IsManifest characters doc

theorem acceptedLoosely_of {text : Bytes} {α : Type*} (f : Json → Option α) (value : α)
    (hvalue : (JsonReference.lib.parse text).bind f = some value)
    (h : (parse JsonReference.lib text {}).2 = none)
    (hdoc : ∀ doc, f doc = some value → ¬ StrictManifest doc) : AcceptedLoosely text := by
  obtain ⟨doc, hparse, hf⟩ := Option.bind_eq_some_iff.mp hvalue
  exact ⟨doc, hparse, h, fun hmanifest => hdoc doc hf (strict_of_isManifest hmanifest)⟩

theorem field?_of_text? {doc : Json} {key : String} {s : Bytes} (h : text? doc key = some s) :
    doc.field? (cstr key) = some (.string s) := by
  obtain ⟨value, hvalue, hs⟩ := Option.bind_eq_some_iff.mp h
  rw [hvalue, string?_eq_some_iff.mp hs]

theorem not_nodup_of_repeated {xs : List Json} {s : Bytes}
    (h : xs.map string? = [some s, some s]) : ¬ xs.Nodup := by
  obtain ⟨a, rest, rfl, ha, hrest⟩ := List.map_eq_cons_iff.mp h
  obtain ⟨b, rest', rfl, hb, -⟩ := List.map_eq_cons_iff.mp hrest
  rw [string?_eq_some_iff.mp ha, string?_eq_some_iff.mp hb]
  simp

/-- Another member, a fourth group, an empty hash and a capability listed twice are all accepted. -/
theorem loose_manifests_accepted :
    AcceptedLoosely (manifestText "1.0" ",\"author\":\"a\"") ∧
    AcceptedLoosely (manifestText "1.2.3.4" "") ∧
    AcceptedLoosely (manifestText "1.0" ",\"script_sha256\":\"\"") ∧
    AcceptedLoosely (manifestText "1.0" ",\"capabilities\":[\"log\",\"log\"]") := by
  refine ⟨?_, ?_, ?_, ?_⟩
  · refine acceptedLoosely_of (text? · "author") (cstr "a") (by decide +kernel)
      (by decide +kernel) fun doc hauthor hstrict => ?_
    have hnone : doc.field? (cstr "author") = none :=
      hstrict.closed.field?_eq_none (by decide)
    rw [field?_of_text? hauthor] at hnone
    cases hnone
  · refine acceptedLoosely_of (text? · "version") (cstr "1.2.3.4") (by decide +kernel)
      (by decide +kernel) fun doc hversion hstrict => ?_
    obtain ⟨_, ⟨⟩, hgroups⟩ := hstrict.version _ (field?_of_text? hversion)
    exact hgroups (by decide +kernel)
  · refine acceptedLoosely_of (text? · "script_sha256") [] (by decide +kernel)
      (by decide +kernel) fun doc hhash hstrict => ?_
    exact hstrict.scriptSha256 (field?_of_text? hhash)
  · refine acceptedLoosely_of
      (fun doc => ((doc.field? (cstr "capabilities")).bind array?).map (·.map string?))
      [some (cstr "log"), some (cstr "log")] (by decide +kernel) (by decide +kernel)
      fun doc hlog hstrict => ?_
    obtain ⟨xs, hxs, hstrings⟩ := Option.map_eq_some_iff.mp hlog
    obtain ⟨value, hvalue, harray⟩ := Option.bind_eq_some_iff.mp hxs
    obtain ⟨_, rfl, hnodup⟩ := hstrict.capabilities value hvalue
    cases harray
    exact not_nodup_of_repeated hstrings hnodup

end Ezcap.Manifests
