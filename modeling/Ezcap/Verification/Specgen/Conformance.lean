import Ezcap.Verification.Specgen.SchemaSubset

/-! Which of the accepted descriptors conform to the published schema: the check lets underscores
into a namespace, and lets four members be null. -/

namespace Ezcap.Specgen

open StdString Json Protocol
open JsonSchema (characters)

/-! ## Shapes in characters -/

theorem isShape_of_length {doc : Json} (h : IsShape List.length doc) : IsShape characters doc where
  closed := h.closed
  type := h.type
  description := h.description.imp fun _ => ShortText.inCharacters
  properties := h.properties
  required := by
    refine h.required.imp ?_
    rintro value ⟨entries, rfl, hlength, hentries⟩
    exact ⟨entries, rfl, hlength, fun entry he => (hentries entry he).inCharacters⟩
  enum := h.enum

theorem generated_of_length {n : ℕ} {doc : Json} (h : Generated List.length n doc) :
    Generated characters n doc := by
  induction h with
  | leaf hshape hbelow => exact .leaf (isShape_of_length hshape) hbelow
  | nest hshape _ ih => exact .nest (isShape_of_length hshape) ih

theorem not_isShapeTree_null {size : Bytes → ℕ} : ¬ IsShapeTree size .null := by
  rintro ⟨n, h⟩
  obtain ⟨_, hobject, -⟩ := (isShape_of_below h .refl).closed
  cases hobject

/-! ## Members -/

section Members

variable {doc value : Json} {key : String} {message : String}

theorem requireText_eq_ok_iff {check : Bytes → Bool} :
    requireText doc key check message = .ok () ↔
      doc.Required (cstr key) (IsString (check · = true)) := by
  rw [requireText, Required]
  cases doc.field? (cstr key) with
  | none => simp
  | some value => cases value <;> simp [string?, IsString, require_eq_ok_iff]

theorem textOf_of_required {p : Bytes → Prop} (h : doc.Required (cstr key) (IsString p)) :
    p (textOf doc key) := by
  obtain ⟨_, hvalue, s, rfl, hs⟩ := h
  rw [textOf, hvalue]
  exact hs

theorem requireMetadataOnly_eq_ok_iff :
    requireMetadataOnly doc = .ok () ↔ doc.Required (cstr "metadata_only") (· = .bool true) := by
  rw [requireMetadataOnly, Required]
  cases doc.field? (cstr "metadata_only") with
  | none => simp
  | some value => cases value <;> simp [bool?, require_eq_ok_iff]

theorem checkNullable_eq_ok_iff {check : Json → Except Bytes Unit} :
    checkNullable doc key check = .ok () ↔
      doc.Allowed (cstr key) fun value => value = .null ∨ check value = .ok () := by
  rw [checkNullable, checkField_eq_ok_iff]
  refine forall₂_congr fun value _ => ?_
  cases value <;> simp

theorem readItems_eq_ok_iff {name : Bytes} {n : ℕ} {entries : List Json} :
    (∃ items, readItems name n entries = .ok items) ↔
      ∀ entry ∈ entries, ShortText List.length n entry := by
  induction entries with
  | nil => simp [readItems]
  | cons entry entries ih =>
      rw [List.forall_mem_cons, ← ih, readItems]
      cases entry with
      | string item =>
          simp only [string?]
          by_cases hlong : item.length > n
          · rw [if_pos hlong]
            simp [ShortText, IsString, hlong]
          · rw [if_neg hlong]
            simp [ShortText, IsString, Nat.not_lt.mp hlong, Except.map_eq_ok_iff]
      | _ => simp [string?, ShortText, IsString]

theorem validStringList_bind_eq_ok_iff {name : Bytes} {maxItems n : ℕ} {x : Except Bytes Unit} :
    ((validStringList doc name maxItems n).bind fun _ => x) = .ok () ↔
      doc.Allowed name (IsArray fun entries =>
        entries.length ≤ maxItems ∧ ∀ entry ∈ entries, ShortText List.length n entry) ∧
      x = .ok () := by
  rw [Except.bind_eq_ok_iff, exists_and_right]
  refine and_congr_left fun _ => ?_
  rw [validStringList, Allowed]
  cases doc.field? name with
  | none => simp
  | some value =>
      cases value with
      | array entries =>
          simp only [array?]
          by_cases hlong : entries.length > maxItems
          · rw [if_pos hlong]
            simp [IsArray, hlong]
          · rw [if_neg hlong, readItems_eq_ok_iff]
            simp [IsArray, Nat.not_lt.mp hlong]
      | _ => simp [array?, IsArray]

end Members

/-! ## Names -/

/-- What is accepted as a namespace. -/
def LaxNamespace (s : Bytes) : Prop := IsEndpointName s ∧ ∀ c ∈ s, isupper c = false

theorem matchesPatternLength_upper_iff {s : Bytes} :
    matchesPatternLength s 64 true = true ↔ IsEndpointName s := by
  simp only [matchesPatternLength, IsEndpointName, Bool.and_eq_true, bne_iff_ne,
    decide_eq_true_eq, List.all_eq_true, Bool.or_eq_true, beq_iff_eq, Bool.true_or, and_true,
    Nat.one_le_iff_ne_zero, ne_eq, List.length_eq_zero_iff, and_assoc, or_assoc]

theorem matchesPatternLength_lower_iff {s : Bytes} :
    matchesPatternLength s 64 false = true ↔ LaxNamespace s := by
  rw [LaxNamespace, ← matchesPatternLength_upper_iff]
  simp [matchesPatternLength]

theorem isNamespace_iff {s : Bytes} : IsNamespace s ↔ LaxNamespace s ∧ '_'.toUInt8 ∉ s := by
  constructor
  · rintro ⟨hpos, hlength, hchars⟩
    refine ⟨⟨⟨hpos, hlength, fun c hc => ?_⟩, fun c hc => ?_⟩, fun hmem => ?_⟩
    · exact (hchars c hc).imp And.left .inr
    · rcases hchars c hc with h | rfl
      · exact h.2
      · decide
    · exact absurd (hchars _ hmem) (by decide)
  · rintro ⟨⟨⟨hpos, hlength, hchars⟩, hlower⟩, hunderscore⟩
    refine ⟨hpos, hlength, fun c hc => ?_⟩
    rcases hchars c hc with h | rfl | h
    · exact .inl ⟨h, hlower c hc⟩
    · exact absurd hc hunderscore
    · exact .inr h

theorem validVersion_iff {s : Bytes} : validVersion s = true ↔ IsVersion s := by
  rw [validVersion, DottedNumber.scan_iff (Nat.zero_le 2) (by simp), IsVersion,
    List.nil_append, Nat.zero_add]

/-! ## Descriptors -/

/-- What the check of a descriptor accepts. -/
structure AcceptedDescriptor (doc : Json) : Prop where
  closed : doc.Closed endpointKeys
  name : doc.Required (cstr "name") (IsString IsEndpointName)
  ns : doc.Required (cstr "namespace") (IsString LaxNamespace)
  version : doc.Required (cstr "version") (IsString IsVersion)
  kind : doc.Required (cstr "kind") (IsString (· ∈ endpointKinds))
  summary : doc.Required (cstr "summary") (IsString fun s => s ≠ [] ∧ s.length ≤ 256)
  metadataOnly : doc.Required (cstr "metadata_only") (· = .bool true)
  description : doc.Allowed (cstr "description") fun value =>
    value = .null ∨ ShortText List.length 2048 value
  confidence : doc.Allowed (cstr "confidence") fun value =>
    value = .null ∨ ShortText List.length 256 value
  attribution : doc.Allowed (cstr "attribution") (IsArray fun entries =>
    entries.length ≤ 16 ∧ ∀ entry ∈ entries, ShortText List.length 512 entry)
  privacy : doc.Allowed (cstr "privacy") (IsArray fun entries =>
    entries.length ≤ 16 ∧ ∀ entry ∈ entries, ShortText List.length 512 entry)
  request : doc.Allowed (cstr "request") fun value =>
    value = .null ∨ Generated List.length 8 value
  response : doc.Allowed (cstr "response") fun value =>
    value = .null ∨ Generated List.length 8 value

theorem validateEndpointDescriptor_iff {doc : Json} :
    validateEndpointDescriptor doc = .ok () ↔ AcceptedDescriptor doc := by
  cases doc with
  | object fields =>
      have hkeys : (fields.all fun f => kDescriptorKeys.contains f.1) = true ↔
          (Json.object fields).Closed endpointKeys := by
        simp [Closed, kDescriptorKeys, endpointKeys]
      have hshape (value : Json) : validSchemaSubset (kMaxSchemaDepth + 1) value = .ok () ↔
          Generated List.length 8 value := validSchemaSubset_iff_generated
      simp only [validateEndpointDescriptor, object?, Except.check_bind_eq_ok_iff,
        requireText_eq_ok_iff, matchesPatternLength_upper_iff, matchesPatternLength_lower_iff,
        validVersion_iff, requireMetadataOnly_eq_ok_iff, require_eq_ok_iff, hkeys,
        checkNullable_eq_ok_iff, shortText_iff, validStringList_bind_eq_ok_iff, hshape,
        List.contains_iff_mem, Bool.and_eq_true, bne_iff_ne, decide_eq_true_eq]
      constructor
      · rintro ⟨hname, hns, hversion, hkind, hsummary, honly, hclosed, hdescription, hconfidence,
          hattribution, hprivacy, hrequest, hresponse⟩
        exact ⟨hclosed, hname, hns, hversion, hkind, hsummary, honly, hdescription, hconfidence,
          hattribution, hprivacy, hrequest, hresponse⟩
      · intro h
        exact ⟨h.name, h.ns, h.version, h.kind, h.summary, h.metadataOnly, h.closed, h.description,
          h.confidence, h.attribution, h.privacy, h.request, h.response⟩
  | _ =>
      refine iff_of_false (fun h => by cases h) fun h => ?_
      obtain ⟨_, hobject, -⟩ := h.closed
      cases hobject

/-- What the schema asks of an accepted descriptor besides. -/
structure Strict (doc : Json) : Prop where
  ns : doc.Allowed (cstr "namespace") (IsString ('_'.toUInt8 ∉ ·))
  description : doc.field? (cstr "description") ≠ some .null
  confidence : doc.field? (cstr "confidence") ≠ some .null
  request : doc.field? (cstr "request") ≠ some .null
  response : doc.field? (cstr "response") ≠ some .null

section Nullable

variable {doc : Json} {key : Bytes} {p q : Json → Prop}

theorem allowed_of_nullable (h : doc.Allowed key fun value => value = .null ∨ p value)
    (hnull : doc.field? key ≠ some .null) : doc.Allowed key p := by
  intro value hvalue
  rcases h value hvalue with rfl | hp
  · exact absurd hvalue hnull
  · exact hp

theorem ne_null_of_allowed (h : doc.Allowed key p) (hnull : ¬ p .null) :
    doc.field? key ≠ some .null := fun hvalue => hnull (h _ hvalue)

end Nullable

theorem AcceptedDescriptor.isEndpoint {doc : Json} (h : AcceptedDescriptor doc)
    (hstrict : Strict doc) : IsEndpoint characters doc where
  closed := h.closed
  name := h.name
  ns := by
    obtain ⟨value, hvalue, s, rfl, hlax⟩ := h.ns
    obtain ⟨_, ⟨⟩, hunderscore⟩ := hstrict.ns _ hvalue
    exact ⟨_, hvalue, s, rfl, isNamespace_iff.mpr ⟨hlax, hunderscore⟩⟩
  version := h.version
  kind := h.kind
  summary := by
    refine h.summary.imp fun value hvalue => ShortText.inCharacters ?_
    exact hvalue.imp fun _ => And.right
  description :=
    (allowed_of_nullable h.description hstrict.description).imp fun _ => ShortText.inCharacters
  request :=
    (allowed_of_nullable h.request hstrict.request).imp fun _ hshape =>
      ⟨8, generated_of_length hshape⟩
  response :=
    (allowed_of_nullable h.response hstrict.response).imp fun _ hshape =>
      ⟨8, generated_of_length hshape⟩
  metadataOnly := h.metadataOnly
  attribution := by
    refine h.attribution.imp ?_
    rintro value ⟨entries, rfl, -, hentries⟩
    exact ⟨entries, rfl, fun entry he => (hentries entry he).inCharacters⟩
  confidence :=
    (allowed_of_nullable h.confidence hstrict.confidence).imp fun _ => ShortText.inCharacters
  privacy := by
    refine h.privacy.imp ?_
    rintro value ⟨entries, rfl, -, hentries⟩
    exact ⟨entries, rfl, fun entry he => (hentries entry he).inCharacters⟩

theorem not_shortText_null {size : Bytes → ℕ} {n : ℕ} : ¬ ShortText size n .null := by
  rintro ⟨_, ⟨⟩, -⟩

theorem strict_of_isEndpoint {doc : Json} (h : IsEndpoint characters doc) : Strict doc where
  ns := by
    intro value hvalue
    obtain ⟨value', hvalue', s, rfl, hns⟩ := h.ns
    obtain rfl : value = .string s := Option.some.inj (hvalue.symm.trans hvalue')
    exact ⟨s, rfl, (isNamespace_iff.mp hns).2⟩
  description := ne_null_of_allowed h.description not_shortText_null
  confidence := ne_null_of_allowed h.confidence not_shortText_null
  request := ne_null_of_allowed h.request not_isShapeTree_null
  response := ne_null_of_allowed h.response not_isShapeTree_null

/-- An accepted descriptor conforms to the schema exactly if its namespace has no underscore and
none of its members is null. -/
theorem accepted_descriptor_conforms_iff {doc : Json}
    (h : validateEndpointDescriptor doc = .ok ()) : IsEndpoint characters doc ↔ Strict doc :=
  ⟨strict_of_isEndpoint, (validateEndpointDescriptor_iff.mp h).isEndpoint⟩

/-- A descriptor with this namespace and description. -/
def describedAs (ns : String) (description : Json) : Json :=
  .mkObject
    [(cstr "name", .string (cstr "flows")), (cstr "namespace", .string (cstr ns)),
     (cstr "version", .string (cstr "1.0")), (cstr "kind", .string (cstr "stream")),
     (cstr "summary", .string (cstr "Flows")), (cstr "metadata_only", .bool true),
     (cstr "description", description)]

theorem accepted_descriptor_conforms_plain :
    IsEndpoint characters (describedAs "net" (.string (cstr "All flows"))) ↔
      Strict (describedAs "net" (.string (cstr "All flows"))) :=
  accepted_descriptor_conforms_iff (by decide +kernel)

/-- An underscore in the namespace is accepted, and so is a description that is null. -/
theorem loose_descriptors_accepted :
    (validateEndpointDescriptor (describedAs "net_flows" (.string (cstr "All flows"))) = .ok () ∧
      ¬ IsEndpoint characters (describedAs "net_flows" (.string (cstr "All flows")))) ∧
    validateEndpointDescriptor (describedAs "net" .null) = .ok () ∧
      ¬ IsEndpoint characters (describedAs "net" .null) := by
  refine ⟨⟨by decide +kernel, fun h => ?_⟩, by decide +kernel, fun h => ?_⟩
  · obtain ⟨_, hs, hunderscore⟩ := (strict_of_isEndpoint h).ns (.string (cstr "net_flows")) rfl
    cases hs
    exact hunderscore (by decide)
  · exact (strict_of_isEndpoint h).description rfl

end Ezcap.Specgen
