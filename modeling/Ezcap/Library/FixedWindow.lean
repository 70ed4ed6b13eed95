import Mathlib.Algebra.Order.Group.Int
import Mathlib.Data.List.Basic

/-! A limit on the number of admissions in a window of time that is restarted by the first request
behind its end. -/

namespace FixedWindow

/-- When the window began, and how many requests it has admitted. -/
structure Window where
  start : ℤ
  used : ℕ

/-- A request, whether it restarts the window and whether it is admitted. -/
structure Check where
  time : ℤ
  renewed : Bool
  admitted : Bool

variable (period : ℤ) (limit : ℕ)

namespace Window

def renews (window : Window) (now : ℤ) : Bool := period ≤ now - window.start

def renew (window : Window) (now : ℤ) : Window :=
  if window.renews period now then ⟨now, 0⟩ else window

def admits (window : Window) (now : ℤ) : Bool := (window.renew period now).used < limit

def next (window : Window) (now : ℤ) : Window :=
  { window.renew period now with
    used := (window.renew period now).used + (window.admits period limit now).toNat }

def check (window : Window) (now : ℤ) : Check where
  time := now
  renewed := window.renews period now
  admitted := window.admits period limit now

/-- The requests one after another. -/
def checks (window : Window) : List ℤ → List Check
  | [] => []
  | now :: times =>
      window.check period limit now :: (window.next period limit now).checks times

end Window

/-- The admissions among the requests. -/
def admissions (checks : List Check) : ℕ := checks.countP (·.admitted)

/-- The requests from a time on, for one period. -/
def during (a : ℤ) (checks : List Check) : List Check :=
  checks.filter fun check => a ≤ check.time && check.time < a + period

variable {period : ℤ} {limit : ℕ} {window : Window} {now a : ℤ} {times : List ℤ}

@[simp] theorem admissions_nil : admissions [] = 0 := rfl

theorem admissions_cons (check : Check) (checks : List Check) :
    admissions (check :: checks) = check.admitted.toNat + admissions checks := by
  cases h : check.admitted with
  | true => simp [admissions, h, Nat.add_comm]
  | false => simp [admissions, h]

/-! ## One request -/

theorem renew_of_renews (h : window.renews period now = true) :
    window.renew period now = ⟨now, 0⟩ := if_pos h

theorem renew_of_not_renews (h : window.renews period now = false) :
    window.renew period now = window := by
  rw [Window.renew, h, if_neg Bool.false_ne_true]

/-- What is left of the limit pays for an admission. -/
theorem toNat_admits_add_le (window : Window) (now : ℤ) :
    (window.admits period limit now).toNat + (limit - (window.next period limit now).used) ≤
      limit - (window.renew period now).used := by
  rw [Window.next]
  cases h : window.admits period limit now with
  | false => simp
  | true =>
      have hlt : (window.renew period now).used < limit := of_decide_eq_true h
      simp only [Bool.toNat_true]
      omega

/-! ## Between two restarts -/

/-- As long as the window is not restarted it admits what is left of the limit. -/
theorem admissions_le_of_not_renewed {segment after : List Check}
    (h : window.checks period limit times = segment ++ after)
    (hsegment : ∀ check ∈ segment, check.renewed = false) :
    admissions segment ≤ limit - window.used := by
  induction times generalizing window segment with
  | nil =>
      have hnil : segment = [] := (List.append_eq_nil_iff.mp h.symm).1
      simp [hnil]
  | cons now times ih =>
      cases segment with
      | nil => simp
      | cons check segment =>
          rw [Window.checks, List.cons_append, List.cons.injEq] at h
          have hlater := ih h.2 fun c hc => hsegment c (List.mem_cons_of_mem _ hc)
          have hfirst : window.renews period now = false := by
            have hcheck := hsegment check List.mem_cons_self
            rwa [← h.1] at hcheck
          have hpaid := @toNat_admits_add_le period limit window now
          rw [renew_of_not_renews hfirst] at hpaid
          rw [admissions_cons, ← h.1]
          exact (Nat.add_le_add_left hlater _).trans hpaid

/-- A request that may restart the window and those behind it that do not. -/
theorem admissions_le_of_tail {check : Check} {segment after : List Check}
    (h : window.checks period limit times = check :: segment ++ after)
    (hsegment : ∀ check ∈ segment, check.renewed = false) :
    admissions (check :: segment) ≤ limit := by
  cases times with
  | nil => cases h
  | cons now times =>
      rw [Window.checks, List.cons_append, List.cons.injEq] at h
      have hlater := admissions_le_of_not_renewed h.2 hsegment
      have hpaid := @toNat_admits_add_le period limit window now
      rw [admissions_cons, ← h.1]
      exact ((Nat.add_le_add_left hlater _).trans hpaid).trans (Nat.sub_le _ _)

/-- Between two restarts no more than the limit is admitted. -/
theorem admissions_between_le {before segment after : List Check}
    (h : window.checks period limit times = before ++ segment ++ after)
    (hsegment : ∀ check ∈ segment.tail, check.renewed = false) :
    admissions segment ≤ limit := by
  induction before generalizing window times with
  | nil =>
      cases segment with
      | nil => simp
      | cons check segment => exact admissions_le_of_tail h hsegment
  | cons check before ih =>
      cases times with
      | nil => cases h
      | cons now times =>
          rw [Window.checks, List.cons_append, List.cons_append, List.cons.injEq] at h
          exact ih h.2

/-! ## Any period -/

theorem during_cons_of_mem {check : Check} (h : a ≤ check.time ∧ check.time < a + period)
    (checks : List Check) : during period a (check :: checks) = check :: during period a checks :=
  List.filter_cons_of_pos (by simpa using h)

theorem during_cons_of_notMem {check : Check} (h : ¬ (a ≤ check.time ∧ check.time < a + period))
    (checks : List Check) : during period a (check :: checks) = during period a checks :=
  List.filter_cons_of_neg (by simpa using h)

theorem time_of_mem_checks {check : Check} (h : check ∈ window.checks period limit times) :
    check.time ∈ times := by
  induction times generalizing window with
  | nil => cases h
  | cons now times ih =>
      rcases List.mem_cons.mp h with rfl | h
      · exact List.mem_cons_self
      · exact List.mem_cons_of_mem _ (ih h)

theorem during_eq_nil (h : ∀ time ∈ times, a + period ≤ time) :
    during period a (window.checks period limit times) = [] := by
  rw [during, List.filter_eq_nil_iff]
  intro check hcheck
  have hlate := h _ (time_of_mem_checks hcheck)
  simp only [Bool.and_eq_true, decide_eq_true_eq]
  omega

theorem admissions_during_late {now : ℤ} (hlater : ∀ time ∈ times, now ≤ time)
    (hlate : a + period ≤ now) (n : ℕ) :
    admissions (during period a (window.checks period limit (now :: times))) ≤ n := by
  rw [during_eq_nil (List.forall_mem_cons.mpr
    ⟨hlate, fun time htime => hlate.trans (hlater time htime)⟩)]
  exact Nat.zero_le n

/-- Once the window has been restarted inside the period it is not restarted there again. -/
theorem admissions_during_le_of_started (hsorted : times.Pairwise (· ≤ ·))
    (hstart : a ≤ window.start) :
    admissions (during period a (window.checks period limit times)) ≤ limit - window.used := by
  induction times generalizing window with
  | nil => exact Nat.zero_le _
  | cons now times ih =>
      obtain ⟨hlater, hsorted⟩ := List.pairwise_cons.mp hsorted
      by_cases hlate : a + period ≤ now
      · exact admissions_during_late hlater hlate _
      · rw [Window.checks]
        have hkept : window.renews period now = false := by
          apply decide_eq_false
          omega
        have hrest := @ih (window.next period limit now) hsorted
          (by rw [Window.next, renew_of_not_renews hkept]; exact hstart)
        have hpaid := @toNat_admits_add_le period limit window now
        rw [renew_of_not_renews hkept] at hpaid
        by_cases hearly : a ≤ now
        · rw [during_cons_of_mem ⟨hearly, Int.not_le.mp hlate⟩, admissions_cons]
          exact (Nat.add_le_add_left hrest _).trans hpaid
        · rw [during_cons_of_notMem (fun h => hearly h.1)]
          exact hrest.trans ((Nat.le_add_left _ _).trans hpaid)

/-- The window that runs when the period begins and the one that follows it are all that a period
can see. -/
theorem admissions_during_le_add (hsorted : times.Pairwise (· ≤ ·))
    (hearly : ∀ time ∈ times, a ≤ time) :
    admissions (during period a (window.checks period limit times)) ≤
      (limit - window.used) + limit := by
  induction times generalizing window with
  | nil => exact Nat.zero_le _
  | cons now times ih =>
      obtain ⟨hlater, hsorted⟩ := List.pairwise_cons.mp hsorted
      obtain ⟨hnow, hearly⟩ := List.forall_mem_cons.mp hearly
      have hpaid := @toNat_admits_add_le period limit window now
      by_cases hlate : a + period ≤ now
      · exact admissions_during_late hlater hlate _
      · rw [Window.checks]
        rw [during_cons_of_mem ⟨hnow, Int.not_le.mp hlate⟩, admissions_cons]
        change (window.admits period limit now).toNat + _ ≤ _
        cases hrenews : window.renews period now with
        | true =>
            rw [renew_of_renews hrenews] at hpaid
            have hrest := @admissions_during_le_of_started period limit
              (window.next period limit now) a times hsorted
              (by rw [Window.next, renew_of_renews hrenews]; exact hnow)
            omega
        | false =>
            rw [renew_of_not_renews hrenews] at hpaid
            have hrest := @ih (window.next period limit now) hsorted hearly
            omega

/-- In any period no more than twice the limit is admitted. -/
theorem admissions_during_le (hsorted : times.Pairwise (· ≤ ·)) :
    admissions (during period a (window.checks period limit times)) ≤ 2 * limit := by
  induction times generalizing window with
  | nil => exact Nat.zero_le _
  | cons now times ih =>
      obtain ⟨hlater, hrest⟩ := List.pairwise_cons.mp hsorted
      by_cases hnow : a ≤ now
      · have hearly : ∀ time ∈ now :: times, a ≤ time :=
          List.forall_mem_cons.mpr ⟨hnow, fun time htime => hnow.trans (hlater time htime)⟩
        have hbound := @admissions_during_le_add period limit window a _ hsorted hearly
        omega
      · rw [Window.checks, during_cons_of_notMem (fun h => hnow h.1)]
        exact ih hrest

end FixedWindow
