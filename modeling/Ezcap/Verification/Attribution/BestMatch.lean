import Mathlib.Algebra.Order.Group.Unbundled.Int
import Mathlib.Data.Prod.Lex
import Ezcap.Library.FirstMin
import Ezcap.Model.Correlator

/-! The loop of `best_match` finds the first minimum of a lexicographic rank among the navigations
in the window. -/

namespace Ezcap.Correlator

open FirstMin

/-! ## The rank of a navigation -/

/-- The event has a name, and it is the host of the navigation. -/
def HostMatch (event : Event) (nav : NavigationObservation) : Prop :=
  eventHost event ≠ [] ∧ nav.host ≠ [] ∧ eventHost event = nav.host

instance (event : Event) (nav : NavigationObservation) : Decidable (HostMatch event nav) :=
  inferInstanceAs (Decidable (_ ∧ _ ∧ _))

/-- The navigation is at most ten seconds away from the event. -/
def InWindow (event : Event) (nav : NavigationObservation) : Prop :=
  |nav.timestamp - event.timestamp| ≤ 10 * 10 ^ 9

instance (event : Event) (nav : NavigationObservation) : Decidable (InWindow event nav) :=
  inferInstanceAs (Decidable (_ ≤ _))

/-- Host mismatch first, absolute time difference second. -/
def rank (event : Event) (nav : NavigationObservation) : Bool ×ₗ ℤ :=
  toLex (decide (¬ HostMatch event nav), |nav.timestamp - event.timestamp|)

theorem rank_lt_rank_iff (event : Event) (nav other : NavigationObservation) :
    rank event nav < rank event other ↔
      (HostMatch event nav ∧ ¬ HostMatch event other) ∨
        ((HostMatch event nav ↔ HostMatch event other) ∧
          |nav.timestamp - event.timestamp| < |other.timestamp - event.timestamp|) := by
  by_cases hnav : HostMatch event nav <;> by_cases hother : HostMatch event other <;>
    simp [rank, Prod.Lex.toLex_lt_toLex, hnav, hother]

theorem absDelta_eq_abs (a b : ℤ) : absDelta a b = |a - b| := by
  unfold absDelta
  split_ifs with h
  · exact (abs_of_pos (by omega)).symm
  · rw [abs_of_nonpos (by omega), neg_sub]

/-! ## The loop -/

/-- What the loop stores of a navigation. -/
def candidate (event : Event) (nav : NavigationObservation) : Candidate :=
  ⟨nav, |nav.timestamp - event.timestamp|, decide (HostMatch event nav)⟩

theorem hostMatch_eq_decide (event : Event) (nav : NavigationObservation) :
    (eventHost event != [] && nav.host != [] && eventHost event == nav.host) =
      decide (HostMatch event nav) := by
  rw [Bool.eq_iff_iff, decide_eq_true_iff]
  simp [HostMatch, and_assoc]

theorem abs_gt_iff_not_inWindow (event : Event) (nav : NavigationObservation) :
    |nav.timestamp - event.timestamp| > kNavigationWindow ↔ ¬ InWindow event nav :=
  not_le.symm

theorem consider_of_not_inWindow {event : Event} {nav : NavigationObservation}
    (best : Option Candidate) (h : ¬ InWindow event nav) : consider event best nav = best := by
  simp only [consider, absDelta_eq_abs, abs_gt_iff_not_inWindow, h, not_false_eq_true, if_true]

theorem consider_none {event : Event} {nav : NavigationObservation} (h : InWindow event nav) :
    consider event none nav = some (candidate event nav) := by
  simp only [consider, absDelta_eq_abs, abs_gt_iff_not_inWindow, h, not_true_eq_false, if_false,
    if_true, candidate, hostMatch_eq_decide]

theorem consider_some {event : Event} {nav best : NavigationObservation} (h : InWindow event nav) :
    consider event (some (candidate event best)) nav =
      some (candidate event (if rank event nav < rank event best then nav else best)) := by
  simp only [consider, absDelta_eq_abs, abs_gt_iff_not_inWindow, h, not_true_eq_false, if_false,
    candidate, hostMatch_eq_decide]
  have hbetter : (decide (HostMatch event nav) && !decide (HostMatch event best) ||
      decide (HostMatch event nav) == decide (HostMatch event best) &&
        decide (|nav.timestamp - event.timestamp| < |best.timestamp - event.timestamp|)) = true ↔
      rank event nav < rank event best := by
    rw [rank_lt_rank_iff]
    simp
  simp only [hbetter]
  split_ifs <;> rfl

theorem foldl_consider (event : Event) (navigations : List NavigationObservation) :
    navigations.foldl (consider event) none =
      (firstMin (rank event) (navigations.filter (InWindow event ·))).map (candidate event) := by
  induction navigations using List.reverseRecOn with
  | nil => rfl
  | append_singleton navigations nav ih =>
      rw [List.foldl_concat, ih, List.filter_append]
      by_cases h : InWindow event nav
      · rw [List.filter_cons_of_pos (by simpa using h), List.filter_nil, firstMin_concat]
        cases firstMin (rank event) (navigations.filter (InWindow event ·)) with
        | none => exact consider_none h
        | some best => exact consider_some h
      · rw [List.filter_cons_of_neg (by simpa using h), List.filter_nil, List.append_nil]
        exact consider_of_not_inWindow _ h

theorem bestMatch_eq_firstMin (navigations : List NavigationObservation) (event : Event) :
    bestMatch navigations event =
      firstMin (rank event) (navigations.filter (InWindow event ·)) := by
  simp [bestMatch, foldl_consider, candidate, Function.comp_def]

/-! ## The optimum -/

/-- Nothing is returned exactly if no navigation is in the window. Otherwise it is the first one, in
recording order, of the least rank among those in the window. -/
theorem bestMatch_first_minimum (navigations : List NavigationObservation) (event : Event) :
    (bestMatch navigations event = none ↔ ∀ nav ∈ navigations, ¬ InWindow event nav) ∧
      ∀ nav, bestMatch navigations event = some nav ↔
        ∃ before after, navigations = before ++ nav :: after ∧ InWindow event nav ∧
          (∀ other ∈ before, InWindow event other → rank event nav < rank event other) ∧
          ∀ other ∈ after, InWindow event other → rank event nav ≤ rank event other := by
  rw [bestMatch_eq_firstMin]
  refine ⟨?_, fun nav => ?_⟩
  · simp [firstMin_eq_none]
  · simpa using firstMin_filter_eq_some_iff (f := rank event) (p := (InWindow event ·))

end Ezcap.Correlator
