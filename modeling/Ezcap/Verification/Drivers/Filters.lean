import Ezcap.Model.DriverInstance
import Ezcap.Verification.Drivers.LuaValues

/-! Which events a driver receives through the filters that it has registered. A name is accepted in
any letter case and compared in one; a threshold is cut to thousandths. -/

namespace Ezcap.Drivers

open StdString Lua

/-! ## Names -/

theorem equalsCi_iff {a b : Bytes} : equalsCi a b = true ↔ a.map lowerChar = b.map lowerChar := by
  rw [equalsCi, beq_iff_eq]

theorem eventTypeFromName_eq_some_iff {name : Bytes} {type : EventType} :
    eventTypeFromName name = some type ↔ equalsCi name (eventTypeName type) = true := by
  constructor
  · intro h
    rw [eventTypeFromName] at h
    split_ifs at h <;> cases h <;> assumption
  · intro h
    rw [equalsCi_iff] at h
    simp only [eventTypeFromName, equalsCi, h]
    cases type <;> decide

theorem transportFromName_eq_some_iff {name : Bytes} {transport : Transport} :
    transportFromName name = some transport ↔ equalsCi name (transportName transport) = true := by
  constructor
  · intro h
    rw [transportFromName] at h
    split_ifs at h <;> cases h <;> assumption
  · intro h
    rw [equalsCi_iff] at h
    simp only [transportFromName, equalsCi, h]
    cases transport <;> decide

/-- The name has no capital letters. -/
def WireSpelled (name : Bytes) : Prop := name.map lowerChar = name

instance (name : Bytes) : Decidable (WireSpelled name) := inferInstanceAs (Decidable (_ = _))

theorem wireSpelled_eventTypeName (type : EventType) : WireSpelled (eventTypeName type) := by
  cases type <;> decide

theorem wireSpelled_transportName (transport : Transport) :
    WireSpelled (transportName transport) := by
  cases transport <;> decide

theorem eq_iff_wireSpelled {name wire : Bytes} (hwire : WireSpelled wire) :
    name = wire ↔ equalsCi name wire = true ∧ WireSpelled name := by
  rw [equalsCi_iff, hwire]
  constructor
  · rintro rfl
    exact ⟨hwire, hwire⟩
  · rintro ⟨hequals, hspelled⟩
    rw [← hequals, hspelled]

theorem eq_eventTypeName_iff {name : Bytes} {type : EventType} :
    name = eventTypeName type ↔ eventTypeFromName name = some type ∧ WireSpelled name := by
  rw [eventTypeFromName_eq_some_iff, eq_iff_wireSpelled (wireSpelled_eventTypeName type)]

theorem eq_transportName_iff {name : Bytes} {transport : Transport} :
    name = transportName transport ↔
      transportFromName name = some transport ∧ WireSpelled name := by
  rw [transportFromName_eq_some_iff, eq_iff_wireSpelled (wireSpelled_transportName transport)]

/-! ## What a filter says -/

section Filters

variable (numbers : Numbers) (entries : List (Key × Value))

/-- The text of a field, if there is one that is not empty. -/
def givenText (key : String) : Option Bytes := (fieldText numbers entries key).filter (· ≠ [])

def givenConfidence : Option ℚ := tonumber numbers (get entries (.string (cstr "min_confidence")))

/-- The event is one that the filter asks for. -/
structure Wants (event : Event) : Prop where
  type : ∀ name ∈ givenText numbers entries "event_type",
    eventTypeFromName name = some event.type
  transport : ∀ name ∈ givenText numbers entries "transport",
    ∃ network ∈ event.network, transportFromName name = some network.transport
  confidence : ∀ c ∈ givenConfidence numbers entries, c ≤ event.confidence

/-- A threshold in thousandths. -/
def thousandths (c : ℚ) : ℕ := (Binary64.round (c * 1000)).floor.toNat

/-- The event has another type or transport than the filter names, or less than its thousandths. -/
inductive Excludes (event : Event) : Prop
  | type {name : Bytes} (given : name ∈ givenText numbers entries "event_type")
      (other : eventTypeFromName name ≠ some event.type)
  | transport {name : Bytes} {network : NetworkInfo}
      (given : name ∈ givenText numbers entries "transport") (present : network ∈ event.network)
      (other : transportFromName name ≠ some network.transport)
  | confidence {c : ℚ} (given : c ∈ givenConfidence numbers entries) (positive : 0 < thousandths c)
      (below : Binary64.round (event.confidence * 1000) < thousandths c)

/-- A name that is compared with the event has a capital letter. -/
inductive Misspells (event : Event) : Prop
  | type {name : Bytes} (given : name ∈ givenText numbers entries "event_type")
      (capital : ¬ WireSpelled name)
  | transport {name : Bytes} {network : NetworkInfo}
      (given : name ∈ givenText numbers entries "transport") (present : network ∈ event.network)
      (capital : ¬ WireSpelled name)

/-- There is no transport to compare the given one with, or the event stays below the threshold by
less than what counts in thousandths. -/
inductive Overlooks (event : Event) : Prop
  | transport {name : Bytes} (given : name ∈ givenText numbers entries "transport")
      (absent : event.network = none)
  | confidence {c : ℚ} (given : c ∈ givenConfidence numbers entries)
      (below : event.confidence < c)
      (reached : thousandths c = 0 ∨ thousandths c ≤ Binary64.round (event.confidence * 1000))

variable {numbers : Numbers} {entries : List (Key × Value)}

theorem readName_eq_ok {α : Type} {key : String} {maxBytes : ℕ} {fromName : Bytes → Option α}
    {name : Bytes} (h : readName numbers entries key maxBytes fromName = .ok name) :
    name = (givenText numbers entries key).getD [] := by
  obtain ⟨got, hgot, hname⟩ := Except.bind_eq_ok_iff.mp h
  dsimp only at hname
  split at hname
  · cases hname
  · rw [givenText, ← optTableString_eq_ok hgot, ← Except.ok.inj hname]
    cases got with
    | none => rfl
    | some text => by_cases htext : text = [] <;> simp [Option.filter, htext]

theorem readConfidence_eq_ok {permille : UInt32}
    (h : readConfidence numbers entries = .ok permille) :
    match givenConfidence numbers entries with
    | none => permille = 0
    | some c => 0 ≤ c ∧ c ≤ 1 ∧ permille = UInt32.ofNat (thousandths c) := by
  rw [readConfidence] at h
  split at h
  · rename_i hnil
    have hgiven : givenConfidence numbers entries = none := by
      rw [givenConfidence, hnil]
      rfl
    rw [hgiven]
    exact (Except.ok.inj h).symm
  · split at h
    · cases h
    · rename_i c hc
      have hgiven : givenConfidence numbers entries = some c := hc
      split at h
      · cases h
      · rename_i hrange
        rw [not_or, not_lt, not_lt] at hrange
        rw [hgiven]
        exact ⟨hrange.1, hrange.2, (Except.ok.inj h).symm⟩

theorem ne_nil_of_given {key : String} : ∀ name ∈ givenText numbers entries key, name ≠ [] := by
  intro name hname
  simpa using (Option.mem_filter_iff.mp hname).2

theorem thousandths_le {c : ℚ} (hlow : 0 ≤ c) : thousandths c ≤ Binary64.round (c * 1000) := by
  have hround : 0 ≤ Binary64.round (c * 1000) :=
    Binary64.round_nonneg (mul_nonneg hlow (by norm_num))
  have hfloor : 0 ≤ (Binary64.round (c * 1000)).floor :=
    Rat.le_floor_iff.mpr (by simpa using hround)
  have hcast : ((thousandths c : ℤ) : ℚ) = ((Binary64.round (c * 1000)).floor : ℚ) :=
    congrArg _ (Int.toNat_of_nonneg hfloor)
  rw [← Int.cast_natCast, hcast]
  exact Rat.floor_le _

/-- What reaches a threshold reaches its thousandths. -/
theorem thousandths_le_of_le {c confidence : ℚ} (hlow : 0 ≤ c) (h : c ≤ confidence) :
    thousandths c ≤ Binary64.round (confidence * 1000) :=
  (thousandths_le hlow).trans (Binary64.round_mono (mul_nonneg hlow (by norm_num)) (by linarith))

theorem thousandths_le_thousand {c : ℚ} (hlow : 0 ≤ c) (hhigh : c ≤ 1) : thousandths c ≤ 1000 := by
  have hone : Binary64.round (1 * 1000) = 1000 := by decide +kernel
  have hle : (thousandths c : ℚ) ≤ 1000 := hone ▸ thousandths_le_of_le hlow hhigh
  exact_mod_cast hle

theorem emptyOr_iff {given : Option Bytes} {p : Bytes → Bool} (h : ∀ name ∈ given, name ≠ []) :
    ((given.getD []).isEmpty || p (given.getD [])) = true ↔ ∀ name ∈ given, p name = true := by
  cases given with
  | none => simp
  | some name => simp [h name rfl]

theorem reaches_iff {threshold : UInt32} (h : readConfidence numbers entries = .ok threshold)
    (measured : ℚ) :
    (threshold == 0 || decide ((threshold.toNat : ℚ) ≤ measured)) = true ↔
      ∀ c ∈ givenConfidence numbers entries,
        thousandths c = 0 ∨ (thousandths c : ℚ) ≤ measured := by
  have hread := readConfidence_eq_ok h
  cases hgiven : givenConfidence numbers entries with
  | none =>
      rw [hgiven] at hread
      simp [show threshold = 0 from hread]
  | some c =>
      rw [hgiven] at hread
      obtain ⟨hlow, hhigh, heq⟩ := hread
      have hbound := thousandths_le_thousand hlow hhigh
      have hnat : threshold.toNat = thousandths c := by
        rw [heq, UInt32.toNat_ofNat']
        exact Nat.mod_eq_of_lt (Nat.lt_of_le_of_lt hbound (by decide))
      have hzero : threshold = 0 ↔ thousandths c = 0 := by
        rw [← hnat, ← UInt32.toNat_inj]
        rfl
      simp [hzero, hnat]

section Events

variable {filter : CaptureFilter} {event : Event} (h : readFilter numbers entries = .ok filter)

include h

theorem readFilter_eq_ok : ∃ threshold, readConfidence numbers entries = .ok threshold ∧
    filter = ⟨(givenText numbers entries "event_type").getD [],
      (givenText numbers entries "transport").getD [], threshold⟩ := by
  obtain ⟨eventType, htype, hrest⟩ := Except.bind_eq_ok_iff.mp h
  obtain ⟨transport, htransport, hrest⟩ := Except.bind_eq_ok_iff.mp hrest
  obtain ⟨threshold, hthreshold, rfl⟩ := Except.map_eq_ok_iff.mp hrest
  exact ⟨threshold, hthreshold, by rw [readName_eq_ok htype, readName_eq_ok htransport]⟩

theorem readFilter_confidence_nonneg : ∀ c ∈ givenConfidence numbers entries, 0 ≤ c := by
  intro c hc
  obtain ⟨_, hthreshold, -⟩ := readFilter_eq_ok h
  have hread := readConfidence_eq_ok hthreshold
  rw [Option.mem_def.mp hc] at hread
  exact hread.1

theorem passes_iff :
    filter.passes event = true ↔
      (∀ name ∈ givenText numbers entries "event_type", name = eventTypeName event.type) ∧
      (∀ name ∈ givenText numbers entries "transport", ∀ network ∈ event.network,
        name = transportName network.transport) ∧
      ∀ c ∈ givenConfidence numbers entries,
        thousandths c = 0 ∨ thousandths c ≤ Binary64.round (event.confidence * 1000) := by
  obtain ⟨threshold, hthreshold, rfl⟩ := readFilter_eq_ok h
  rw [CaptureFilter.passes, Bool.and_eq_true, Bool.and_eq_true, reaches_iff hthreshold, and_assoc]
  refine and_congr ?_ (and_congr ?_ Iff.rfl)
  · rw [emptyOr_iff (p := (· == eventTypeName event.type)) ne_nil_of_given]
    simp
  · rw [emptyOr_iff (p := fun name => event.network.all fun network =>
      name == transportName network.transport) ne_nil_of_given]
    simp [Option.all_eq_true]

theorem passes_iff_not : filter.passes event = true ↔
    ¬ Excludes numbers entries event ∧ ¬ Misspells numbers entries event := by
  rw [passes_iff h]
  constructor
  · rintro ⟨htype, htransport, hconfidence⟩
    constructor
    · rintro (⟨given, other⟩ | ⟨given, present, other⟩ | ⟨given, positive, below⟩)
      · exact other (eq_eventTypeName_iff.mp (htype _ given)).1
      · exact other (eq_transportName_iff.mp (htransport _ given _ present)).1
      · rcases hconfidence _ given with hzero | hreached
        · omega
        · exact absurd hreached (not_le.mpr below)
    · rintro (⟨given, capital⟩ | ⟨given, present, capital⟩)
      · exact capital (eq_eventTypeName_iff.mp (htype _ given)).2
      · exact capital (eq_transportName_iff.mp (htransport _ given _ present)).2
  · rintro ⟨hexcludes, hmisspells⟩
    refine ⟨fun name given => ?_, fun name given network present => ?_, fun c given => ?_⟩
    · exact eq_eventTypeName_iff.mpr ⟨not_not.mp fun other => hexcludes (.type given other),
        not_not.mp fun capital => hmisspells (.type given capital)⟩
    · exact eq_transportName_iff.mpr
        ⟨not_not.mp fun other => hexcludes (.transport given present other),
          not_not.mp fun capital => hmisspells (.transport given present capital)⟩
    · by_contra hfails
      rw [not_or, not_le] at hfails
      exact hexcludes (.confidence given (Nat.pos_of_ne_zero hfails.1) hfails.2)

theorem wants_iff_not : Wants numbers entries event ↔
    ¬ Excludes numbers entries event ∧ ¬ Overlooks numbers entries event := by
  constructor
  · rintro ⟨htype, htransport, hconfidence⟩
    constructor
    · rintro (⟨given, other⟩ | ⟨given, present, other⟩ | @⟨c, given, positive, below⟩)
      · exact other (htype _ given)
      · obtain ⟨network, hnetwork, hfrom⟩ := htransport _ given
        obtain rfl := Option.mem_unique present hnetwork
        exact other hfrom
      · have hreached := thousandths_le_of_le (readFilter_confidence_nonneg h c given)
          (hconfidence c given)
        exact absurd hreached (not_le.mpr below)
    · rintro (⟨given, absent⟩ | ⟨given, below, -⟩)
      · obtain ⟨network, hnetwork, -⟩ := htransport _ given
        rw [absent] at hnetwork
        cases hnetwork
      · exact absurd (hconfidence _ given) (not_le.mpr below)
  · rintro ⟨hexcludes, hoverlooks⟩
    refine ⟨fun name given => ?_, fun name given => ?_, fun c given => ?_⟩
    · exact not_not.mp fun other => hexcludes (.type given other)
    · cases hnetwork : event.network with
      | none => exact absurd (.transport given hnetwork) hoverlooks
      | some network =>
          exact ⟨network, rfl,
            not_not.mp fun other => hexcludes (.transport given hnetwork other)⟩
    · -- below the threshold, the thousandths decide
      by_contra hbelow
      rw [not_le] at hbelow
      by_cases hreached : thousandths c = 0 ∨
          (thousandths c : ℚ) ≤ Binary64.round (event.confidence * 1000)
      · exact hoverlooks (.confidence given hbelow hreached)
      · rw [not_or, not_le] at hreached
        exact hexcludes (.confidence given (Nat.pos_of_ne_zero hreached.1) hreached.2)

end Events

end Filters

/-! ## Registration and delivery -/

/-- The host after these tables have been registered, if none of them is refused. -/
def registerAll (numbers : Numbers) (limits : DriverResourceLimits) (host : DriverHostState) :
    List (List (Key × Value)) → Option DriverHostState
  | [] => some host
  | entries :: tables =>
      match host.captureRegisterFilterLua numbers limits [.table entries] with
      | (host, none) => registerAll numbers limits host tables
      | (_, some _) => none

theorem captureRegisterFilterLua_eq_none {numbers : Numbers} {limits : DriverResourceLimits}
    {host host' : DriverHostState} {entries : List (Key × Value)}
    (h : host.captureRegisterFilterLua numbers limits [.table entries] = (host', none)) :
    ∃ filter, readFilter numbers entries = .ok filter ∧
      host'.captureFilters = host.captureFilters ++ [filter] := by
  have htop : at? [.table entries] 1 = some (.table entries) := rfl
  rw [DriverHostState.captureRegisterFilterLua, htop] at h
  dsimp only at h
  rw [DriverHostState.captureRegisterFilter.eq_def] at h
  split at h
  · cases h
  · cases hfilter : readFilter numbers entries with
    | error error =>
        rw [hfilter] at h
        cases h
    | ok filter =>
        rw [hfilter] at h
        cases h
        exact ⟨filter, rfl, rfl⟩

theorem registerAll_eq_some {numbers : Numbers} {limits : DriverResourceLimits}
    {host host' : DriverHostState} {tables : List (List (Key × Value))}
    (h : registerAll numbers limits host tables = some host') :
    ∃ filters, List.Forall₂ (fun entries filter => readFilter numbers entries = .ok filter)
        tables filters ∧
      host'.captureFilters = host.captureFilters ++ filters := by
  induction tables generalizing host with
  | nil =>
      cases h
      exact ⟨[], .nil, by simp⟩
  | cons entries tables ih =>
      rw [registerAll] at h
      split at h
      · rename_i hregister
        obtain ⟨filter, hfilter, hadded⟩ := captureRegisterFilterLua_eq_none hregister
        obtain ⟨filters, hfilters, hall⟩ := ih h
        refine ⟨filter :: filters, .cons hfilter hfilters, ?_⟩
        rw [hall, hadded, List.append_assoc, List.singleton_append]
      · cases h

namespace DriverInstance

theorem onEvent_mem_callbacks_iff {driver : DriverInstance} {sandbox : Sandbox} {event : Event}
    {script : DriverScript} (hstate : driver.state = .started)
    (hsandbox : driver.sandbox = some sandbox) :
    .onEvent ∈ (driver.onEvent event (some script)).callbacks ↔ driver.receives event = true := by
  rw [onEvent, hstate, hsandbox]
  dsimp only
  split
  · rename_i hreceives
    refine iff_of_true ?_ hreceives
    split <;> rename_i hcall <;> simp [call, Prod.ext_iff] at hcall <;> simp [← hcall.1]
  · rename_i hreceives
    exact iff_of_false (by simp) hreceives

end DriverInstance

section Delivery

variable {numbers : Numbers} {tables : List (List (Key × Value))} {filters : List CaptureFilter}
  {event : Event}

theorem all_passes_iff
    (h : List.Forall₂ (fun entries filter => readFilter numbers entries = .ok filter)
      tables filters) :
    filters.all (·.passes event) = true ↔ ∀ entries ∈ tables,
      ¬ Excludes numbers entries event ∧ ¬ Misspells numbers entries event := by
  induction h with
  | nil => simp
  | cons hfilter _ ih =>
      rw [List.all_cons, Bool.and_eq_true, List.forall_mem_cons, ih, passes_iff_not hfilter]

theorem all_wants_iff
    (h : List.Forall₂ (fun entries filter => readFilter numbers entries = .ok filter)
      tables filters) :
    (∀ entries ∈ tables, Wants numbers entries event) ↔ ∀ entries ∈ tables,
      ¬ Excludes numbers entries event ∧ ¬ Overlooks numbers entries event := by
  refine forall₂_congr fun entries hentries => ?_
  obtain ⟨filter, hfilter⟩ := forall_exists_of_forall₂ h entries hentries
  exact wants_iff_not hfilter

end Delivery

/-- The driver has a callback to run and is subscribed to the event. -/
structure Listens (driver : DriverInstance) (event : Event) : Prop where
  started : driver.state = .started
  sandbox : driver.sandbox ≠ none
  subscribed : driver.manifest.eventTypes = [] ∨
    eventTypeName event.type ∈ driver.manifest.eventTypes

/-- The driver receives the event exactly if all of its filters ask for it, if one of them excludes
it, or if one of them misspells a name and one overlooks what the event lacks, or none does either;
and only then. -/
theorem filters_say_what_they_mean_iff {numbers : Numbers} {limits : DriverResourceLimits}
    {host : DriverHostState} {tables : List (List (Key × Value))} {driver : DriverInstance}
    {event : Event} (script : DriverScript)
    (hregister : registerAll numbers limits {} tables = some host)
    (hhost : driver.host.captureFilters = host.captureFilters) (hlistens : Listens driver event) :
    (.onEvent ∈ (driver.onEvent event (some script)).callbacks ↔
        ∀ entries ∈ tables, Wants numbers entries event) ↔
      (∃ entries ∈ tables, Excludes numbers entries event) ∨
      ((∃ entries ∈ tables, Misspells numbers entries event) ↔
        ∃ entries ∈ tables, Overlooks numbers entries event) := by
  obtain ⟨filters, hfilters, hall⟩ := registerAll_eq_some hregister
  obtain ⟨sandbox, hsandbox⟩ := Option.ne_none_iff_exists'.mp hlistens.sandbox
  have hreceives : driver.receives event = filters.all (·.passes event) := by
    have hsubscribed : (driver.manifest.eventTypes.isEmpty ||
        driver.manifest.eventTypes.contains (eventTypeName event.type)) = true := by
      rw [Bool.or_eq_true, List.isEmpty_iff, List.contains_iff_mem]
      exact hlistens.subscribed
    rw [DriverInstance.receives, hsubscribed, hhost, hall, Bool.true_and]
    rfl
  rw [DriverInstance.onEvent_mem_callbacks_iff hlistens.started hsandbox, hreceives,
    all_passes_iff hfilters, all_wants_iff hfilters, forall₂_and, forall₂_and]
  by_cases hexcludes : ∃ entries ∈ tables, Excludes numbers entries event
  · refine iff_of_true (iff_of_false ?_ ?_) (.inl hexcludes) <;>
      · obtain ⟨entries, hentries, hexcludes⟩ := hexcludes
        exact fun h => h.1 entries hentries hexcludes
  · have hnone : ∀ entries ∈ tables, ¬ Excludes numbers entries event := by simpa using hexcludes
    have hnot := not_iff_not (a := ∃ entries ∈ tables, Misspells numbers entries event)
      (b := ∃ entries ∈ tables, Overlooks numbers entries event)
    rw [and_iff_right hnone, and_iff_right hnone, or_iff_right hexcludes, ← hnot]
    simp

/-- A filter with one field. -/
def filterTable (key : String) (value : Value) : List (Key × Value) :=
  [(.string (cstr key), value)]

/-- A driver that is subscribed to every event. -/
def listening (host : DriverHostState) : DriverInstance where
  state := .started
  sandbox := some { budgets := {} }
  host := host

theorem registerAll_singleton {entries : List (Key × Value)} {filter : CaptureFilter}
    (h : readFilter wholeNumbers entries = .ok filter) :
    registerAll wholeNumbers {} {} [entries] = some { captureFilters := [filter] } := by
  have htop : at? [.table entries] 1 = some (.table entries) := rfl
  simp [registerAll, DriverHostState.captureRegisterFilterLua, htop,
    DriverHostState.captureRegisterFilter, h]

theorem filters_say_what_they_mean_dns :
    ∃ host, registerAll wholeNumbers {} {} [filterTable "event_type" (.string (cstr "dns"))] =
        some host ∧
      (.onEvent ∈ ((listening host).onEvent { type := .dns } (some {})).callbacks ↔
        Wants wholeNumbers (filterTable "event_type" (.string (cstr "dns"))) { type := .dns }) := by
  obtain ⟨host, hregister⟩ : ∃ host, registerAll wholeNumbers {} {}
      [filterTable "event_type" (.string (cstr "dns"))] = some host :=
    ⟨_, registerAll_singleton rfl⟩
  have hlistens : Listens (listening host) { type := .dns } :=
    ⟨rfl, Option.some_ne_none _, .inl rfl⟩
  have hiff := filters_say_what_they_mean_iff {} hregister rfl hlistens
  simp only [List.mem_singleton, forall_eq, exists_eq_left] at hiff
  refine ⟨_, hregister, hiff.mpr (.inr (iff_of_false ?_ ?_))⟩
  · rintro (⟨given, capital⟩ | ⟨given, _, _⟩) <;> cases given
    exact capital (by decide)
  · rintro (⟨given, _⟩ | ⟨given, _, _⟩) <;> cases given

/-- A name in capitals keeps out the events that it names, and an event without a transport or with
too low a confidence comes through. -/
theorem filters_mislead :
    (∃ host, registerAll wholeNumbers {} {} [filterTable "event_type" (.string (cstr "DNS"))] =
        some host ∧
      Wants wholeNumbers (filterTable "event_type" (.string (cstr "DNS"))) { type := .dns } ∧
      .onEvent ∉ ((listening host).onEvent { type := .dns } (some {})).callbacks) ∧
    (∃ host, registerAll wholeNumbers {} {} [filterTable "transport" (.string (cstr "tcp"))] =
        some host ∧
      ¬ Wants wholeNumbers (filterTable "transport" (.string (cstr "tcp"))) {} ∧
      .onEvent ∈ ((listening host).onEvent {} (some {})).callbacks) ∧
    ∃ host, registerAll wholeNumbers {} {} [filterTable "min_confidence" (.number (1 / 2048))] =
        some host ∧
      ¬ Wants wholeNumbers (filterTable "min_confidence" (.number (1 / 2048))) {} ∧
      .onEvent ∈ ((listening host).onEvent {} (some {})).callbacks := by
  have hconfidence : readFilter wholeNumbers (filterTable "min_confidence" (.number (1 / 2048))) =
      .ok {} := by decide +kernel
  refine ⟨⟨_, registerAll_singleton rfl, ⟨?_, ?_, ?_⟩, ?_⟩,
    ⟨_, registerAll_singleton rfl, fun h => ?_, ?_⟩,
    _, registerAll_singleton hconfidence, fun h => ?_, ?_⟩
  · intro name hname
    cases hname
    decide
  · intro name hname
    cases hname
  · intro c hc
    cases hc
  · decide +kernel
  · obtain ⟨network, hnetwork, -⟩ := h.transport (cstr "tcp") rfl
    cases hnetwork
  · decide +kernel
  · exact absurd (h.confidence (1 / 2048) rfl) (by norm_num)
  · decide +kernel

end Ezcap.Drivers
