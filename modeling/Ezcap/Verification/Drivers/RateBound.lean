import Ezcap.Library.FixedWindow
import Ezcap.Model.Bindings

/-! How many calls of `lezcap.event.emit` pass the rate check. The host keeps one window of a
second, which the first call behind its end restarts. -/

namespace Ezcap.Drivers

open StdString FixedWindow

/-- A call of `lezcap.event.emit`: its time, and the text that its table is dumped to or the error
of the conversion. -/
structure EmitCall where
  nowMs : ℤ
  text : Except Bytes Bytes

namespace DriverHostState

variable {limits : DriverResourceLimits} {host : DriverHostState}

def rateError : Bytes := cstr "limit.rate: event rate limit reached"

/-- A call that is not refused for its rate. -/
def passesRate (limits : DriverResourceLimits) (host : DriverHostState) (call : EmitCall) : Bool :=
  (host.eventEmit limits call.nowMs call.text).2 != some rateError

def rateCheck (limits : DriverResourceLimits) (host : DriverHostState) (call : EmitCall) :
    Check where
  time := call.nowMs
  renewed := decide (call.nowMs - host.lastEventWindowStartMs ≥ 1000)
  admitted := host.passesRate limits call

/-- The calls one after another. -/
def rateChecks (limits : DriverResourceLimits) (host : DriverHostState) :
    List EmitCall → List Check
  | [] => []
  | call :: calls =>
      host.rateCheck limits call ::
        (host.eventEmit limits call.nowMs call.text).1.rateChecks limits calls

/-! ## The window -/

def window (host : DriverHostState) : Window where
  start := host.lastEventWindowStartMs
  used := host.eventsInWindow.toNat

theorem window_renewWindow (host : DriverHostState) (nowMs : ℤ) :
    (host.renewWindow nowMs).window = host.window.renew 1000 nowMs := by
  have hrenews : host.window.renews 1000 nowMs =
      decide (nowMs - host.lastEventWindowStartMs ≥ 1000) := rfl
  rw [renewWindow, Window.renew, hrenews]
  by_cases h : nowMs - host.lastEventWindowStartMs ≥ 1000
  · rw [if_pos h, if_pos (decide_eq_true h)]
    rfl
  · rw [if_neg h, if_neg (by simpa using h)]

theorem argumentInvalid_ne (error : Bytes) {s : Bytes} (hs : s.head? ≠ some 'a'.toUInt8) :
    cstr "argument.invalid: " ++ error ≠ s := by
  rintro rfl
  exact hs (List.head?_append_of_ne_nil _ (by decide))

/-- A call that finds the window full is refused and leaves the window as it is. -/
theorem eventEmit_of_full (hm : limits.maxEventsPerSecond > 0) {nowMs : ℤ}
    (hfull : (host.renewWindow nowMs).eventsInWindow ≥ limits.maxEventsPerSecond)
    (text : Except Bytes Bytes) :
    (host.eventEmit limits nowMs text).2 = some rateError ∧
      (host.eventEmit limits nowMs text).1.window = (host.renewWindow nowMs).window := by
  rw [eventEmit, if_pos ⟨hm, hfull⟩]
  exact ⟨rfl, rfl⟩

/-- A call that does not is counted, whatever becomes of its event. -/
theorem eventEmit_of_not_full {nowMs : ℤ}
    (hfull : ¬ (host.renewWindow nowMs).eventsInWindow ≥ limits.maxEventsPerSecond)
    (text : Except Bytes Bytes) :
    (host.eventEmit limits nowMs text).2 ≠ some rateError ∧
      (host.eventEmit limits nowMs text).1.lastEventWindowStartMs =
        (host.renewWindow nowMs).lastEventWindowStartMs ∧
      (host.eventEmit limits nowMs text).1.eventsInWindow =
        (host.renewWindow nowMs).eventsInWindow + 1 := by
  rw [eventEmit, if_neg fun h => hfull h.2]
  cases text with
  | error error =>
      have hinvalid := argumentInvalid_ne error (s := rateError) (by decide)
      exact ⟨by simpa using hinvalid, rfl, rfl⟩
  | ok text =>
      have hsize : cstr "limit.size: event exceeds size cap" ≠ rateError := by decide
      dsimp only
      split
      · exact ⟨by simpa using hsize, rfl, rfl⟩
      · exact ⟨nofun, rfl, rfl⟩

section Refinement

variable (hm : 0 < limits.maxEventsPerSecond) (host : DriverHostState) (call : EmitCall)

include hm

theorem eventEmit_window :
    host.passesRate limits call =
        host.window.admits 1000 limits.maxEventsPerSecond.toNat call.nowMs ∧
      (host.eventEmit limits call.nowMs call.text).1.window =
        host.window.next 1000 limits.maxEventsPerSecond.toNat call.nowMs := by
  have hused : (host.window.renew 1000 call.nowMs).used =
      (host.renewWindow call.nowMs).eventsInWindow.toNat := by
    rw [← window_renewWindow]
    rfl
  rw [Window.next, Window.admits, hused, passesRate]
  by_cases hfull : (host.renewWindow call.nowMs).eventsInWindow ≥ limits.maxEventsPerSecond
  · obtain ⟨hreply, hwindow⟩ := eventEmit_of_full hm hfull call.text
    have hnot := Nat.not_lt.mpr (UInt32.le_iff_toNat_le.mp hfull)
    rw [hreply, hwindow, window_renewWindow, decide_eq_false hnot, ← hused]
    exact ⟨by simp, rfl⟩
  · obtain ⟨hreply, hstart, hcount⟩ := eventEmit_of_not_full hfull call.text
    have hlt := UInt32.lt_iff_toNat_lt.mp (UInt32.not_le.mp hfull)
    have hbound := limits.maxEventsPerSecond.toNat_lt
    rw [decide_eq_true hlt, window, hstart, hcount, ← window_renewWindow, UInt32.toNat_add,
      UInt32.toNat_one, Nat.mod_eq_of_lt (by omega)]
    exact ⟨by simpa using hreply, rfl⟩

omit host call in
theorem rateChecks_eq (host : DriverHostState) (calls : List EmitCall) :
    host.rateChecks limits calls =
      host.window.checks 1000 limits.maxEventsPerSecond.toNat (calls.map (·.nowMs)) := by
  induction calls generalizing host with
  | nil => rfl
  | cons call calls ih =>
      obtain ⟨hpasses, hnext⟩ := eventEmit_window hm host call
      rw [rateChecks, List.map_cons, Window.checks, ih, hnext, rateCheck, hpasses]
      rfl

end Refinement

/-- Between two restarts of the window at most `max_events_per_second` calls pass the rate check,
and in any second at most twice as many. -/
theorem emission_rate_bounded (limits : DriverResourceLimits)
    (hm : 0 < limits.maxEventsPerSecond) (host : DriverHostState) (calls : List EmitCall)
    (hsorted : calls.Pairwise fun c d => c.nowMs ≤ d.nowMs) :
    (∀ before segment after, host.rateChecks limits calls = before ++ segment ++ after →
      (∀ check ∈ segment.tail, check.renewed = false) →
      admissions segment ≤ limits.maxEventsPerSecond.toNat) ∧
    ∀ a, admissions (during 1000 a (host.rateChecks limits calls)) ≤
      2 * limits.maxEventsPerSecond.toNat := by
  rw [rateChecks_eq hm]
  refine ⟨fun before segment after h hsegment => admissions_between_le h hsegment, fun a => ?_⟩
  exact admissions_during_le (List.pairwise_map.mpr hsorted)

/-- Two calls around the end of the first window, under a limit of one event. -/
theorem emission_rate_bounded_pair :
    admissions (during 1000 999 (DriverHostState.rateChecks { maxEventsPerSecond := 1 } {}
      [⟨999, .ok []⟩, ⟨1000, .ok []⟩])) = 2 ∧
    admissions (during 1000 999 (DriverHostState.rateChecks { maxEventsPerSecond := 1 } {}
      [⟨999, .ok []⟩, ⟨1000, .ok []⟩])) ≤ 2 * 1 :=
  ⟨by decide, (emission_rate_bounded { maxEventsPerSecond := 1 } (by decide) {} _ (by simp)).2 999⟩

end DriverHostState

end Ezcap.Drivers
