import Ezcap.Verification.Drivers.LuaValues
import Ezcap.Verification.Drivers.RateBound

/-! What the counters of a driver say about its calls of `lezcap.event.emit`. A call is counted as
emitted before its event is converted and measured. -/

namespace Ezcap.Drivers

open StdString Lua FixedWindow

/-! ## Calls -/

/-- A call with a table, and with further arguments above it. -/
structure TableCall where
  nowMs : ℤ
  entries : List (Key × Value)
  more : Stack := []

def TableCall.stack (call : TableCall) : Stack := call.more ++ [.table call.entries]

theorem TableCall.at?_stack (call : TableCall) : at? call.stack 1 = some (.table call.entries) := by
  simp [at?, stack]

inductive Fate where
  | ok
  | limited
  | oversized
  | unconverted
  deriving DecidableEq

/-- What the answer says about the event. A call that raises an error has not converted it. -/
def fateOf : Except Fault (Option Bytes) → Fate
  | .ok none => .ok
  | .ok (some error) =>
      if error = cstr "limit.rate: event rate limit reached" then .limited
      else if error = cstr "limit.size: event exceeds size cap" then .oversized
      else .unconverted
  | .error _ => .unconverted

/-- The same of a call that comes to an end. -/
def fate? : Except Fault (Option Bytes) → Option Fate
  | .error .undefined | .error .unfinished => none
  | answer => some (fateOf answer)

theorem fate?_ok (answer : Option Bytes) : fate? (.ok answer) = some (fateOf (.ok answer)) := rfl

theorem fateOf_eq_of_fate? {answer : Except Fault (Option Bytes)} {fate : Fate}
    (h : fate? answer = some fate) : fateOf answer = fate := by
  rw [fate?.eq_def] at h
  split at h
  · cases h
  · cases h
  · exact Option.some.inj h

section Runs

variable (numbers : Numbers) (lib : JsonLib) (fuel : ℕ) (sink : Bool)
  (limits : DriverResourceLimits)

/-- The calls one after another, if each of them comes to an end. -/
def emitAll (host : DriverHostState) : List TableCall → Option (List Emitted × DriverHostState)
  | [] => some ([], host)
  | call :: calls =>
      let emitted := host.eventEmitLua numbers lib fuel sink limits call.nowMs call.stack
      (fate? emitted.answer).bind fun _ =>
        (emitAll emitted.host calls).map fun run => (emitted :: run.1, run.2)

end Runs

def fates (emitted : List Emitted) : List Fate := emitted.map fun e => fateOf e.answer

/-- The events that the sink is handed. -/
def forwarded (emitted : List Emitted) : List Bytes := emitted.flatMap Emitted.forwarded

/-! ## What becomes of the tables -/

/-- What becomes of a call with this text, by whether it passes the rate check. -/
def emitFate (admitted : Bool) (text : Except Bytes Bytes) : Fate :=
  if admitted then
    match text with
    | .ok text => if text.length > 32 * 1024 then .oversized else .ok
    | .error _ => .unconverted
  else .limited

/-- The same of one that passes the check and comes to an end. -/
def textFate? : Except Fault (Except Bytes Bytes) → Option Fate
  | .ok text => some (emitFate true text)
  | .error (.raised _) => some .unconverted
  | .error .undefined | .error .unfinished => none

/-- The text of what a table gives. The exception of `dump` is a fault. -/
def dumped (lib : JsonLib) :
    Except Fault (Except Bytes Json) → Except Fault (Except Bytes Bytes)
  | .error fault => .error fault
  | .ok (.error error) => .ok (.error error)
  | .ok (.ok j) => (lib.dump j).elim (.error (.raised (cstr "C++ exception"))) (.ok ∘ .ok)

section Tables

variable (numbers : Numbers) (lib : JsonLib) (limits : DriverResourceLimits)

/-- What becomes of a table that is not refused for its rate. -/
def Becomes (entries : List (Key × Value)) (fate : Fate) : Prop :=
  ∃ outcome, Yields numbers 16 entries outcome ∧ textFate? (dumped lib outcome) = some fate

/-- A call at this time passes the rate check. -/
def admits (window : Window) (nowMs : ℤ) : Bool :=
  limits.maxEventsPerSecond == 0 || window.admits 1000 limits.maxEventsPerSecond.toNat nowMs

/-- What becomes of the calls, from this window on. -/
inductive Fares : Window → List TableCall → List Fate → Prop
  | nil {window : Window} : Fares window [] []
  | limited {window : Window} {call : TableCall} {calls : List TableCall} {fates : List Fate}
      (full : admits limits window call.nowMs = false)
      (rest : Fares (window.next 1000 limits.maxEventsPerSecond.toNat call.nowMs) calls fates) :
      Fares window (call :: calls) (.limited :: fates)
  | admitted {window : Window} {call : TableCall} {calls : List TableCall} {fate : Fate}
      {fates : List Fate} (room : admits limits window call.nowMs = true)
      (becomes : Becomes numbers lib call.entries fate)
      (rest : Fares (window.next 1000 limits.maxEventsPerSecond.toNat call.nowMs) calls fates) :
      Fares window (call :: calls) (fate :: fates)

end Tables

section Texts

variable {numbers : Numbers} {lib : JsonLib} {fuel : ℕ} {call : TableCall} {fate : Fate}

theorem eventText_of_jsonFromLua_eq {stack : Stack} {outcome : Except Fault (Except Bytes Json)}
    (h : jsonFromLua numbers fuel 17 stack 1 = outcome.map fun result => (stack, result)) :
    eventText numbers lib fuel stack = dumped lib outcome := by
  rw [eventText, h]
  rcases outcome with fault | error | j
  · rfl
  · rfl
  · rw [dumped]
    cases hdump : lib.dump j <;> simp only [Except.map, hdump] <;> rfl

theorem TableCall.settles (call : TableCall) (numbers : Numbers) :
    Settles (fun fuel => jsonFromLua numbers fuel 17 call.stack 1)
      (Yields numbers 16 call.entries) fun result => (call.stack, result) :=
  settles_jsonFromLua call.at?_stack rfl (at?_cons_of_pos call.at?_stack one_pos) numbers 16

theorem becomes_of_textFate? (h : textFate? (eventText numbers lib fuel call.stack) = some fate) :
    Becomes numbers lib call.entries fate := by
  rcases (call.settles numbers).cases fuel with hjson | ⟨outcome, hyields, hjson⟩
  · rw [eventText, hjson] at h
    cases h
  · rw [eventText_of_jsonFromLua_eq hjson] at h
    exact ⟨outcome, hyields, h⟩

theorem Becomes.exists_textFate? (h : Becomes numbers lib call.entries fate) :
    ∃ bound, ∀ fuel, bound < fuel →
      textFate? (eventText numbers lib fuel call.stack) = some fate := by
  obtain ⟨outcome, hyields, hfate⟩ := h
  obtain ⟨bound, hbound⟩ := (call.settles numbers).exists_eq hyields
  exact ⟨bound, fun fuel hfuel => by rw [eventText_of_jsonFromLua_eq (hbound fuel hfuel), hfate]⟩

end Texts

/-! ## Calls of the binding -/

/-- What a call adds to `events_emitted`. -/
def Fate.emitted : Fate → ℕ
  | .limited => 0
  | _ => 1

/-- What a call adds to `events_dropped`. -/
def Fate.dropped : Fate → ℕ
  | .limited | .oversized => 1
  | _ => 0

/-- The events that a call hands to the sink. -/
def Fate.forwarded (sink : Bool) : Fate → ℕ
  | .ok => if sink then 1 else 0
  | _ => 0

section Answers

variable (numbers : Numbers) (lib : JsonLib) (fuel : ℕ) (sink : Bool)
  (limits : DriverResourceLimits)

theorem fateOf_argumentInvalid (error : Bytes) :
    fateOf (.ok (some (cstr "argument.invalid: " ++ error))) = .unconverted := by
  have hne {s : Bytes} := @DriverHostState.argumentInvalid_ne error s
  simp only [fateOf, if_neg (hne (s := cstr "limit.rate: event rate limit reached") (by decide)),
    if_neg (hne (s := cstr "limit.size: event exceeds size cap") (by decide))]

theorem admits_eq_false_iff (host : DriverHostState) (nowMs : ℤ) :
    admits limits host.window nowMs = false ↔ limits.maxEventsPerSecond > 0 ∧
      (host.renewWindow nowMs).eventsInWindow ≥ limits.maxEventsPerSecond := by
  have hused : (host.window.renew 1000 nowMs).used =
      (host.renewWindow nowMs).eventsInWindow.toNat := by
    rw [← DriverHostState.window_renewWindow]
    rfl
  rw [admits, Bool.or_eq_false_iff, Window.admits, hused]
  simp [UInt32.pos_iff_ne_zero, UInt32.le_iff_toNat_le]

theorem eventEmit_spec (host : DriverHostState) (nowMs : ℤ) (text : Except Bytes Bytes) :
    let emitted := host.eventEmit limits nowMs text
    let fate := emitFate (admits limits host.window nowMs) text
    fateOf (.ok emitted.2) = fate ∧
      emitted.1.eventsEmitted = host.eventsEmitted + .ofNat fate.emitted ∧
      emitted.1.eventsDropped = host.eventsDropped + .ofNat fate.dropped := by
  have hfull := admits_eq_false_iff limits host nowMs
  have hrenew : (host.renewWindow nowMs).eventsEmitted = host.eventsEmitted ∧
      (host.renewWindow nowMs).eventsDropped = host.eventsDropped := by
    rw [DriverHostState.renewWindow]
    split <;> exact ⟨rfl, rfl⟩
  dsimp only
  rw [DriverHostState.eventEmit]
  dsimp only
  cases hadmits : admits limits host.window nowMs with
  | false =>
      rw [if_pos (hfull.mp hadmits)]
      simp [hrenew, fateOf, emitFate, Fate.emitted, Fate.dropped]
  | true =>
      rw [hadmits] at hfull
      rw [if_neg fun h => Bool.noConfusion (hfull.mpr h)]
      cases text with
      | error error =>
          simp [hrenew, fateOf_argumentInvalid, emitFate, Fate.emitted, Fate.dropped]
      | ok text =>
          by_cases hlarge : text.length > 32 * 1024 <;>
            simp [hrenew, hlarge, fateOf, emitFate, Fate.emitted, Fate.dropped]

theorem fateOf_eq_limited_iff {answer : Option Bytes} :
    fateOf (.ok answer) = .limited ↔
      answer = some (cstr "limit.rate: event rate limit reached") := by
  cases answer with
  | none => simp [fateOf]
  | some error =>
      rw [fateOf]
      split_ifs with hrate hsize <;> simp [hrate]

theorem forwarded_fateOf_error (error : Bytes) :
    (fateOf (.ok (some error))).forwarded sink = 0 := by
  rw [fateOf]
  split_ifs <;> rfl

theorem eventEmitLua_spec (host : DriverHostState) (call : TableCall) :
    let emitted := host.eventEmitLua numbers lib fuel sink limits call.nowMs call.stack
    fate? emitted.answer =
        (if admits limits host.window call.nowMs then
          textFate? (eventText numbers lib fuel call.stack)
        else some .limited) ∧
      emitted.host.eventsEmitted = host.eventsEmitted + .ofNat (fateOf emitted.answer).emitted ∧
      emitted.host.eventsDropped = host.eventsDropped + .ofNat (fateOf emitted.answer).dropped ∧
      emitted.forwarded.length = (fateOf emitted.answer).forwarded sink := by
  dsimp only
  rw [DriverHostState.eventEmitLua, call.at?_stack]
  dsimp only
  cases eventText numbers lib fuel call.stack with
  | ok text =>
      obtain ⟨hfate, hemitted, hdropped⟩ := eventEmit_spec limits host call.nowMs text
      dsimp only at hfate ⊢
      rw [← hfate] at hemitted hdropped
      refine ⟨?_, hemitted, hdropped, ?_⟩
      · rw [fate?_ok, hfate]
        cases admits limits host.window call.nowMs <;> rfl
      · cases text with
        | error error =>
            rw [hfate]
            cases admits limits host.window call.nowMs <;> simp [emitFate, Fate.forwarded]
        | ok text =>
            cases (host.eventEmit limits call.nowMs (.ok text)).2 with
            | none => cases sink <;> rfl
            | some error => simp [forwarded_fateOf_error]
  | error fault =>
      obtain ⟨hfate, hemitted, hdropped⟩ := eventEmit_spec limits host call.nowMs (.error [])
      dsimp only at hfate ⊢
      cases hadmits : admits limits host.window call.nowMs with
      | false =>
          rw [hadmits] at hfate hemitted hdropped
          rw [if_pos (fateOf_eq_limited_iff.mp hfate), fate?_ok, hfate]
          exact ⟨rfl, hemitted, hdropped, rfl⟩
      | true =>
          rw [hadmits] at hfate hemitted hdropped
          rw [if_neg fun h => Fate.noConfusion (hfate.symm.trans (fateOf_eq_limited_iff.mpr h))]
          exact ⟨by cases fault <;> rfl, hemitted, hdropped, rfl⟩

theorem window_eventEmitLua (host : DriverHostState) (call : TableCall) :
    limits.maxEventsPerSecond = 0 ∨
      (host.eventEmitLua numbers lib fuel sink limits call.nowMs call.stack).host.window =
        host.window.next 1000 limits.maxEventsPerSecond.toNat call.nowMs := by
  by_cases hm : limits.maxEventsPerSecond = 0
  · exact .inl hm
  · have hwindow (text : Except Bytes Bytes) :=
      (DriverHostState.eventEmit_window (UInt32.pos_iff_ne_zero.mpr hm) host ⟨call.nowMs, text⟩).2
    rw [DriverHostState.eventEmitLua, call.at?_stack]
    dsimp only
    cases eventText numbers lib fuel call.stack with
    | ok text => exact .inr (hwindow text)
    | error fault => exact .inr (hwindow (.error []))

end Answers

/-! ## Counters -/

section Counters

variable {numbers : Numbers} {lib : JsonLib} {fuel : ℕ} {sink : Bool}
  {limits : DriverResourceLimits}

theorem emitAll_counts {host host' : DriverHostState} {calls : List TableCall}
    {emitted : List Emitted}
    (h : emitAll numbers lib fuel sink limits host calls = some (emitted, host')) :
    host'.eventsEmitted = host.eventsEmitted +
        .ofNat ((fates emitted).map Fate.emitted).sum ∧
      host'.eventsDropped = host.eventsDropped +
        .ofNat ((fates emitted).map Fate.dropped).sum ∧
      (forwarded emitted).length = ((fates emitted).map (Fate.forwarded sink)).sum ∧
      (fates emitted).length = calls.length := by
  induction calls generalizing host emitted with
  | nil =>
      cases h
      simp [fates, forwarded]
  | cons call calls ih =>
      obtain ⟨-, hemitted, hdropped, hforwarded⟩ :=
        eventEmitLua_spec numbers lib fuel sink limits host call
      obtain ⟨_, _, hrest⟩ := Option.bind_eq_some_iff.mp h
      obtain ⟨⟨emitted', _⟩, hrun, heq⟩ := Option.map_eq_some_iff.mp hrest
      cases heq
      obtain ⟨hemitted', hdropped', hforwarded', hlength⟩ := ih hrun
      refine ⟨?_, ?_, ?_, ?_⟩
      · rw [hemitted', hemitted, UInt64.add_assoc, ← UInt64.ofNat_add]
        rfl
      · rw [hdropped', hdropped, UInt64.add_assoc, ← UInt64.ofNat_add]
        rfl
      · rw [forwarded, List.flatMap_cons, List.length_append, hforwarded, ← forwarded,
          hforwarded']
        rfl
      · simpa [fates] using hlength

theorem sums_eq_counts (sink : Bool) (fates : List Fate) :
    (fates.map Fate.emitted).sum =
        fates.count .ok + fates.count .oversized + fates.count .unconverted ∧
      (fates.map Fate.dropped).sum = fates.count .limited + fates.count .oversized ∧
      (fates.map (Fate.forwarded sink)).sum = (if sink then fates.count .ok else 0) ∧
      fates.length = fates.count .ok + fates.count .limited + fates.count .oversized +
        fates.count .unconverted := by
  induction fates with
  | nil => simp
  | cons fate fates ih =>
      obtain ⟨hemitted, hdropped, hforwarded, hlength⟩ := ih
      simp only [List.map_cons, List.sum_cons, List.length_cons, List.count_cons, hemitted,
        hdropped, hforwarded]
      cases fate <;> cases sink <;>
        simp [Fate.emitted, Fate.dropped, Fate.forwarded] <;> omega

/-- The counters and the sink after a run. An oversized event is counted twice. -/
theorem emitAll_totals {host host' : DriverHostState} {calls : List TableCall}
    {emitted : List Emitted}
    (h : emitAll numbers lib fuel sink limits host calls = some (emitted, host')) :
    host'.eventsEmitted = host.eventsEmitted + .ofNat ((fates emitted).count .ok +
        (fates emitted).count .oversized + (fates emitted).count .unconverted) ∧
      host'.eventsEmitted + host'.eventsDropped = host.eventsEmitted + host.eventsDropped +
        .ofNat (calls.length + (fates emitted).count .oversized) ∧
      (forwarded emitted).length = if sink then (fates emitted).count .ok else 0 := by
  obtain ⟨hemitted, hdropped, hforwarded, hlength⟩ := emitAll_counts h
  obtain ⟨hsum, hsum', hsum'', hcount⟩ := sums_eq_counts sink (fates emitted)
  rw [hsum] at hemitted
  rw [hsum'] at hdropped
  refine ⟨hemitted, ?_, hforwarded.trans hsum''⟩
  rw [hemitted, hdropped, ← hlength, hcount, ← UInt64.toNat_inj]
  simp only [UInt64.toNat_add, UInt64.toNat_ofNat']
  omega

end Counters

theorem add_ofNat_eq_iff {a : UInt64} {m n : ℕ} :
    a + .ofNat m = a + .ofNat n ↔ m % 2 ^ 64 = n % 2 ^ 64 := by
  rw [UInt64.add_right_inj, ← UInt64.toNat_inj, UInt64.toNat_ofNat', UInt64.toNat_ofNat']

/-- The counters account for the run: `events_emitted` for the calls that were answered with success
and handed to the sink, and both together for all. -/
structure Accounted (host : DriverHostState) (calls : List TableCall)
    (run : List Emitted × DriverHostState) : Prop where
  emitted : run.2.eventsEmitted = host.eventsEmitted + .ofNat ((fates run.1).count .ok)
  forwarded : (forwarded run.1).length = (fates run.1).count .ok
  total : run.2.eventsEmitted + run.2.eventsDropped =
    host.eventsEmitted + host.eventsDropped + .ofNat calls.length

section Accounting

variable {numbers : Numbers} {lib : JsonLib} {sink : Bool} {limits : DriverResourceLimits}
  {calls : List TableCall}

theorem accounted_iff {fuel : ℕ} {host : DriverHostState} {run : List Emitted × DriverHostState}
    (hrun : emitAll numbers lib fuel sink limits host calls = some run) :
    Accounted host calls run ↔
      2 ^ 64 ∣ (fates run.1).count .unconverted ∧ 2 ^ 64 ∣ (fates run.1).count .oversized ∧
      (sink = true ∨ .ok ∉ fates run.1) := by
  obtain ⟨emitted, host'⟩ := run
  obtain ⟨hemitted, htotal, hforwarded⟩ := emitAll_totals hrun
  dsimp only
  constructor
  · rintro ⟨hemitted', hforwarded', htotal'⟩
    dsimp only at hemitted' hforwarded' htotal'
    rw [hemitted, add_ofNat_eq_iff] at hemitted'
    rw [htotal, add_ofNat_eq_iff] at htotal'
    rw [hforwarded] at hforwarded'
    refine ⟨by omega, by omega, ?_⟩
    cases sink with
    | true => exact .inl rfl
    | false => exact .inr (List.count_eq_zero.mp hforwarded'.symm)
  · rintro ⟨hunconverted, hoversized, hsink⟩
    refine ⟨?_, ?_, ?_⟩ <;> dsimp only
    · rw [hemitted, add_ofNat_eq_iff]
      omega
    · rw [hforwarded]
      rcases hsink with rfl | hnone
      · rfl
      · simp [List.count_eq_zero.mpr hnone]
    · rw [htotal, add_ofNat_eq_iff]
      omega

/-- The window counts if there is a limit. -/
def Tracks (limits : DriverResourceLimits) (window : Window) (host : DriverHostState) : Prop :=
  limits.maxEventsPerSecond = 0 ∨ host.window = window

theorem Tracks.admits_eq {window : Window} {host : DriverHostState}
    (h : Tracks limits window host) (nowMs : ℤ) :
    admits limits host.window nowMs = admits limits window nowMs := by
  rcases h with hm | rfl
  · simp [admits, hm]
  · rfl

theorem Tracks.next {window : Window} {host : DriverHostState} (h : Tracks limits window host)
    (fuel : ℕ) (call : TableCall) :
    Tracks limits (window.next 1000 limits.maxEventsPerSecond.toNat call.nowMs)
      (host.eventEmitLua numbers lib fuel sink limits call.nowMs call.stack).host := by
  rcases h with hm | rfl
  · exact .inl hm
  · exact window_eventEmitLua numbers lib fuel sink limits host call

theorem fares_of_emitAll {fuel : ℕ} {window : Window} {host : DriverHostState}
    {run : List Emitted × DriverHostState} (htracks : Tracks limits window host)
    (h : emitAll numbers lib fuel sink limits host calls = some run) :
    Fares numbers lib limits window calls (fates run.1) := by
  induction calls generalizing window host run with
  | nil =>
      cases h
      exact .nil
  | cons call calls ih =>
      obtain ⟨fate, hfate, hrest⟩ := Option.bind_eq_some_iff.mp h
      obtain ⟨rest, hrun, rfl⟩ := Option.map_eq_some_iff.mp hrest
      have hcall := ih (htracks.next fuel call) hrun
      rw [fates, List.map_cons, fateOf_eq_of_fate? hfate]
      rw [(eventEmitLua_spec numbers lib fuel sink limits host call).1, htracks.admits_eq] at hfate
      cases hadmits : admits limits window call.nowMs with
      | false =>
          rw [hadmits] at hfate
          cases hfate
          exact .limited hadmits hcall
      | true =>
          rw [hadmits] at hfate
          exact .admitted hadmits (becomes_of_textFate? hfate) hcall

/-- With enough fuel for all of the tables, the calls come to an end from any state. -/
theorem Fares.exists_emitAll {window : Window} {expected : List Fate}
    (h : Fares numbers lib limits window calls expected) :
    ∃ bound, ∀ fuel, bound < fuel → ∀ host, Tracks limits window host →
      ∃ run, emitAll numbers lib fuel sink limits host calls = some run ∧
        fates run.1 = expected := by
  induction h with
  | nil => exact ⟨0, fun _ _ host _ => ⟨([], host), rfl, rfl⟩⟩
  | @limited window call calls expected full _ ih =>
      obtain ⟨bound, hbound⟩ := ih
      refine ⟨bound, fun fuel hfuel host htracks => ?_⟩
      have hfate := (eventEmitLua_spec numbers lib fuel sink limits host call).1
      rw [htracks.admits_eq, full, if_neg Bool.false_ne_true] at hfate
      obtain ⟨run, hrun, hfates⟩ := hbound fuel hfuel _ (htracks.next fuel call)
      refine ⟨(_ :: run.1, run.2), by rw [emitAll, hfate, hrun]; rfl, ?_⟩
      rw [fates, List.map_cons, fateOf_eq_of_fate? hfate, ← fates, hfates]
  | @admitted window call calls fate expected room becomes _ ih =>
      obtain ⟨bound, hbound⟩ := ih
      obtain ⟨enough, henough⟩ := becomes.exists_textFate?
      refine ⟨max bound enough, fun fuel hfuel host htracks => ?_⟩
      have hfate := (eventEmitLua_spec numbers lib fuel sink limits host call).1
      rw [htracks.admits_eq, room, if_pos rfl, henough fuel (by omega)] at hfate
      obtain ⟨run, hrun, hfates⟩ := hbound fuel (by omega) _ (htracks.next fuel call)
      refine ⟨(_ :: run.1, run.2), by rw [emitAll, hfate, hrun]; rfl, ?_⟩
      rw [fates, List.map_cons, fateOf_eq_of_fate? hfate, ← fates, hfates]

end Accounting

/-- Calls come to an end and are accounted for exactly if, of the tables that pass the rate check,
each is read, refused or left without its key, those that are not converted and those that are too
large are multiples of 2^64 in number, and there is a sink if any succeeds. -/
theorem emission_accounting_iff (numbers : Numbers) (lib : JsonLib) (sink : Bool)
    (limits : DriverResourceLimits) (host : DriverHostState) (calls : List TableCall) :
    (∃ fuel run, emitAll numbers lib fuel sink limits host calls = some run ∧
      Accounted host calls run) ↔
    ∃ fates, Fares numbers lib limits host.window calls fates ∧
      2 ^ 64 ∣ fates.count .unconverted ∧ 2 ^ 64 ∣ fates.count .oversized ∧
      (sink = true ∨ .ok ∉ fates) := by
  constructor
  · rintro ⟨fuel, run, hrun, haccounted⟩
    exact ⟨fates run.1, fares_of_emitAll (.inr rfl) hrun, (accounted_iff hrun).mp haccounted⟩
  · rintro ⟨expected, hfares, hcounts⟩
    obtain ⟨bound, hbound⟩ := hfares.exists_emitAll
    obtain ⟨run, hrun, rfl⟩ := hbound (bound + 1) (Nat.lt_succ_self _) host (.inr rfl)
    exact ⟨bound + 1, run, hrun, (accounted_iff hrun).mpr hcounts⟩

/-- A call whose table holds a function. -/
def functionCall : TableCall where
  nowMs := 0
  entries := [(.string (cstr "f"), .reference 0)]

/-- It is refused, and counted as emitted. -/
theorem refused_event_counted_emitted :
    ∃ run, emitAll wholeNumbers JsonReference.lib 2 true {} {} [functionCall] = some run ∧
      fates run.1 = [.unconverted] ∧ run.2.eventsEmitted = 1 ∧ run.2.eventsDropped = 0 ∧
      ¬ Accounted {} [functionCall] run := by
  refine ⟨_, rfl, by decide +kernel, by decide +kernel, by decide +kernel, fun h => ?_⟩
  exact absurd h.emitted (by decide +kernel)

end Ezcap.Drivers
