import Ezcap.Library.RecentQueue
import Ezcap.Verification.Attribution.BestMatch

/-! The navigations that are kept. Expiry and the cap drop no navigation that a current event could
be matched with. -/

namespace Ezcap.Correlator

open RecentQueue

/-! ## Runs of a correlator -/

/-- A call of the correlator; `now` is what the clock reads during `correlate`. -/
inductive Call where
  | recordNavigation (observation : NavigationObservation)
  | setBrowserProcesses (processes : List BrowserProcess)
  | correlate (now : ℤ) (event : Event)

def perform (correlator : Correlator) : Call → Correlator
  | .recordNavigation observation => correlator.recordNavigation observation
  | .setBrowserProcesses processes => correlator.setBrowserProcesses processes
  | .correlate now event => (correlator.correlate now event).1

def run (calls : List Call) : Correlator := calls.foldl perform {}

/-- The navigations of the calls, in recording order. -/
def recorded (calls : List Call) : List NavigationObservation :=
  calls.filterMap fun
    | .recordNavigation observation => some observation
    | _ => none

/-- The readings of the clock. -/
def clock (calls : List Call) : List ℤ :=
  calls.filterMap fun
    | .correlate now _ => some now
    | _ => none

/-! ## What is dropped -/

/-- The navigation was expired at one of the readings of the clock. -/
def Expired (calls : List Call) (nav : NavigationObservation) : Prop :=
  ∃ now ∈ clock calls, now - nav.timestamp > kNavigationWindow * 4

theorem Expired.append {calls : List Call} {nav : NavigationObservation} (h : Expired calls nav)
    (later : List Call) : Expired (calls ++ later) nav := by
  obtain ⟨now, hnow, hold⟩ := h
  refine ⟨now, ?_, hold⟩
  rw [clock, List.filterMap_append]
  exact List.mem_append_left _ hnow

theorem recordNavigation_navigations (correlator : Correlator)
    (observation : NavigationObservation) :
    (correlator.recordNavigation observation).navigations =
      (correlator.navigations ++ [observation]).rtake kMaxNavigations := by
  rw [recordNavigation, List.rtake]

theorem correlate_navigations (correlator : Correlator) (now : ℤ) (event : Event) :
    (correlator.correlate now event).1.navigations =
      if event.type ≠ .connection ∧ event.type ≠ .dns then correlator.navigations
      else prune now correlator.navigations := by
  rw [correlate]
  split_ifs <;> rfl

/-- The navigations kept are the last recorded ones without some that were expired. -/
theorem run_keepsLast (calls : List Call) :
    KeepsLast kMaxNavigations (Expired calls) (recorded calls) (run calls).navigations := by
  induction calls using List.reverseRecOn with
  | nil => exact keepsLast_nil
  | append_singleton calls call ih =>
      have hkept := ih.mono fun nav (hnav : Expired calls nav) => hnav.append [call]
      rw [run, List.foldl_concat, ← run, recorded, List.filterMap_append, ← recorded]
      cases call with
      | recordNavigation observation =>
          rw [perform, recordNavigation_navigations]
          exact hkept.push observation
      | setBrowserProcesses processes =>
          rw [List.filterMap_cons_none rfl, List.filterMap_nil, List.append_nil]
          exact hkept
      | correlate now event =>
          rw [List.filterMap_cons_none rfl, List.filterMap_nil, List.append_nil, perform,
            correlate_navigations]
          split_ifs
          · exact hkept
          · refine hkept.dropWhile fun nav hold => ⟨now, ?_, by simpa using hold⟩
            simp [clock]

/-! ## The chosen navigation -/

/-- The navigation that `correlate` finds. -/
def chosen (correlator : Correlator) (now : ℤ) (event : Event) : Option NavigationObservation :=
  bestMatch (prune now correlator.navigations) event

def processMatch (correlator : Correlator) (event : Event) : Bool :=
  event.process.any fun p => correlator.isBrowserProcess p.pid

theorem correlate_snd (correlator : Correlator) (now : ℤ) {event : Event}
    (h : event.type = .connection ∨ event.type = .dns) :
    (correlator.correlate now event).2 =
      attachNavigation (correlator.processMatch event) (correlator.chosen now event) event := by
  rw [correlate, if_neg (by tauto)]
  rfl

theorem bestMatch_append_of_not_inWindow {older : List NavigationObservation} {event : Event}
    (h : ∀ nav ∈ older, ¬ InWindow event nav) (navigations : List NavigationObservation) :
    bestMatch (older ++ navigations) event = bestMatch navigations event := by
  have hnone : older.filter (InWindow event ·) = [] :=
    List.filter_eq_nil_iff.mpr fun nav hnav => by simpa using h nav hnav
  rw [bestMatch_eq_firstMin, bestMatch_eq_firstMin, List.filter_append, hnone, List.nil_append]

/-- An event of the last thirty seconds is in the window of no navigation older than forty. -/
theorem not_inWindow_of_expired {event : Event} {nav : NavigationObservation} {now earlier : ℤ}
    (hcurrent : now - 30 * 10 ^ 9 ≤ event.timestamp) (hclock : earlier ≤ now)
    (hold : earlier - nav.timestamp > kNavigationWindow * 4) : ¬ InWindow event nav := by
  intro hnear
  have hlow := (abs_le.mp hnear).1
  simp only [kNavigationWindow] at hold
  omega

theorem exists_append_prune (now : ℤ) (navigations : List NavigationObservation) :
    ∃ expired, expired ++ prune now navigations = navigations ∧
      ∀ nav ∈ expired, now - nav.timestamp > kNavigationWindow * 4 :=
  ⟨_, List.takeWhile_append_dropWhile, fun _ hnav => by simpa using List.mem_takeWhile_imp hnav⟩

theorem chosen_eq_bestMatch (correlator : Correlator) {now : ℤ} {event : Event}
    (hcurrent : now - 30 * 10 ^ 9 ≤ event.timestamp) :
    correlator.chosen now event = bestMatch correlator.navigations event := by
  obtain ⟨expired, hsplit, hold⟩ := exists_append_prune now correlator.navigations
  have hfar : ∀ nav ∈ expired, ¬ InWindow event nav := fun nav hnav =>
    not_inWindow_of_expired hcurrent le_rfl (hold nav hnav)
  rw [chosen, ← bestMatch_append_of_not_inWindow hfar, hsplit]

theorem bestMatch_run (calls : List Call) {now : ℤ} {event : Event}
    (hclock : ∀ earlier ∈ clock calls, earlier ≤ now)
    (hcurrent : now - 30 * 10 ^ 9 ≤ event.timestamp) :
    bestMatch (run calls).navigations event =
      bestMatch ((recorded calls).rtake kMaxNavigations) event := by
  obtain ⟨dropped, hlast, hexpired⟩ := run_keepsLast calls
  rw [hlast, bestMatch_append_of_not_inWindow fun nav hnav => ?_]
  obtain ⟨earlier, hearlier, hold⟩ := hexpired nav hnav
  exact not_inWindow_of_expired hcurrent (hclock earlier hearlier) hold

/-- The navigations kept are the last ones recorded, at most 512 of them. In a run with a clock that
never goes back, an event of the last thirty seconds is matched as if the last 512 recorded were
all there. -/
theorem correlation_unaffected_by_pruning (calls : List Call) :
    ((run calls).navigations <:+ recorded calls ∧ (run calls).navigations.length ≤ 512) ∧
      ∀ earlier now event later, calls = earlier ++ .correlate now event :: later →
        (clock calls).Pairwise (· ≤ ·) → now - 30 * 10 ^ 9 ≤ event.timestamp →
        (run earlier).chosen now event = bestMatch ((recorded earlier).rtake 512) event ∧
        (event.type = .connection ∨ event.type = .dns →
          ((run earlier).correlate now event).2 =
            attachNavigation ((run earlier).processMatch event)
              (bestMatch ((recorded earlier).rtake 512) event) event) := by
  refine ⟨⟨(run_keepsLast calls).suffix, (run_keepsLast calls).length_le⟩, ?_⟩
  rintro earlier now event later rfl hsorted hcurrent
  have hclock : ∀ reading ∈ clock earlier, reading ≤ now := by
    rw [clock, List.filterMap_append, List.pairwise_append] at hsorted
    exact fun reading hreading => hsorted.2.2 reading hreading now (by simp)
  have hchosen : (run earlier).chosen now event =
      bestMatch ((recorded earlier).rtake 512) event :=
    (chosen_eq_bestMatch _ hcurrent).trans (bestMatch_run earlier hclock hcurrent)
  refine ⟨hchosen, fun htype => ?_⟩
  rw [correlate_snd _ now htype, hchosen]

/-- A navigation that has expired is not missed. -/
theorem correlation_unaffected_by_expiry :
    let event : Event := { type := .connection, timestamp := 61 * 10 ^ 9 }
    let earlier : List Call := [.recordNavigation {}, .correlate (61 * 10 ^ 9) event,
      .recordNavigation { timestamp := 60 * 10 ^ 9 }]
    (run earlier).navigations = [{ timestamp := 60 * 10 ^ 9 }] ∧
      (run earlier).chosen (61 * 10 ^ 9) event =
        bestMatch [{}, { timestamp := 60 * 10 ^ 9 }] event := by
  intro event earlier
  have hlast : (recorded earlier).rtake 512 = [{}, { timestamp := 60 * 10 ^ 9 }] := by
    decide +kernel
  refine ⟨by decide +kernel, ?_⟩
  rw [← hlast]
  exact ((correlation_unaffected_by_pruning (earlier ++ [.correlate (61 * 10 ^ 9) event])).2
    earlier _ event [] rfl (by decide +kernel) (by decide +kernel)).1

end Ezcap.Correlator
