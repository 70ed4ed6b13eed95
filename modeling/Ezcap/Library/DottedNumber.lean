import Ezcap.Library.Separated
import Ezcap.Library.StdString

/-! Versions: groups of digits with dots between them, and the loop that counts the dots. -/

namespace DottedNumber

open StdString

def dot : UInt8 := '.'.toUInt8

def groups (version : Bytes) : List Bytes := version.splitOn dot

/-- Groups of digits, none of them empty. -/
def AllDigits (groups : List Bytes) : Prop :=
  ∀ group ∈ groups, group ≠ [] ∧ ∀ c ∈ group, isdigit c = true

/-- The loop at the rest of the text: `components` dots have been read, at most `limit` are, and
`current` is the group that has begun. -/
def scan (limit : ℕ) : Bytes → ℕ → Bytes → Bool
  | [], components, current => decide (components ≥ 1) && current != []
  | c :: rest, components, current =>
      if c = '.'.toUInt8 then
        if current = [] ∨ components ≥ limit then false else scan limit rest (components + 1) []
      else if isdigit c then scan limit rest components (current ++ [c])
      else false

theorem length_groups_pos (version : Bytes) : 1 ≤ (groups version).length :=
  List.length_pos_iff.mpr (List.splitOn_ne_nil dot version)

theorem not_allDigits_groups {version : Bytes} {c : UInt8} (hc : c ∈ version) (hdot : c ≠ dot)
    (hdigit : ¬ isdigit c = true) : ¬ AllDigits (groups version) := by
  intro h
  rcases Separated.eq_or_exists_of_mem hc with heq | ⟨group, hgroup, hmem⟩
  · exact hdot heq
  · exact hdigit ((h group hgroup).2 c hmem)

theorem allDigits_cons {group : Bytes} {groups : List Bytes} :
    AllDigits (group :: groups) ↔
      (group ≠ [] ∧ ∀ c ∈ group, isdigit c = true) ∧ AllDigits groups := List.forall_mem_cons

section Groups

variable {group : Bytes} (h : ∀ c ∈ group, isdigit c = true)

include h

theorem dot_notMem : dot ∉ group := fun hmem => absurd (h dot hmem) (by decide)

theorem groups_of_digits : groups group = [group] := List.splitOn_eq_singleton (dot_notMem h)

theorem groups_append_dot (rest : Bytes) : groups (group ++ dot :: rest) = group :: groups rest :=
  List.splitOn_append_cons_self_of_not_mem (dot_notMem h) rest

end Groups

/-- At the end of the text the last group must have begun behind a dot. -/
theorem scan_nil_iff {limit components : ℕ} {current : Bytes} (hcomponents : components ≤ limit)
    (hcurrent : ∀ c ∈ current, isdigit c = true) :
    scan limit [] components current = true ↔
      AllDigits [current] ∧ 2 ≤ components + 1 ∧ components + 1 ≤ limit + 1 := by
  rw [scan, Bool.and_eq_true, decide_eq_true_eq, bne_iff_ne, allDigits_cons]
  constructor
  · rintro ⟨hone, hne⟩
    exact ⟨⟨⟨hne, hcurrent⟩, nofun⟩, by omega, by omega⟩
  · rintro ⟨⟨⟨hne, -⟩, -⟩, hlow, -⟩
    exact ⟨by omega, hne⟩

/-- The loop accepts the groups of digits that have a dot between them and no more than the
limit. -/
theorem scan_iff {limit : ℕ} {rest : Bytes} {components : ℕ} {current : Bytes}
    (hcomponents : components ≤ limit) (hcurrent : ∀ c ∈ current, isdigit c = true) :
    scan limit rest components current = true ↔
      AllDigits (groups (current ++ rest)) ∧
        2 ≤ components + (groups (current ++ rest)).length ∧
        components + (groups (current ++ rest)).length ≤ limit + 1 := by
  induction rest generalizing components current with
  | nil =>
      rw [List.append_nil, groups_of_digits hcurrent]
      exact scan_nil_iff hcomponents hcurrent
  | cons c rest ih =>
      rw [scan]
      by_cases hdot : c = '.'.toUInt8
      · have hlength := length_groups_pos rest
        rw [if_pos hdot, show c = dot from hdot, groups_append_dot hcurrent, List.length_cons,
          allDigits_cons]
        by_cases hstop : current = [] ∨ components ≥ limit
        · rw [if_pos hstop]
          refine iff_of_false Bool.false_ne_true ?_
          rintro ⟨⟨⟨hne, -⟩, -⟩, hlow, hhigh⟩
          rcases hstop with hempty | hfull
          · exact hne hempty
          · omega
        · rw [if_neg hstop, ih (by omega) (by simp), List.nil_append]
          rw [not_or] at hstop
          constructor
          · rintro ⟨hdigits, hlow, hhigh⟩
            exact ⟨⟨⟨hstop.1, hcurrent⟩, hdigits⟩, by omega, by omega⟩
          · rintro ⟨⟨-, hdigits⟩, hlow, hhigh⟩
            exact ⟨hdigits, by omega, by omega⟩
      · rw [if_neg hdot]
        by_cases hdigit : isdigit c = true
        · have hnext : ∀ d ∈ current ++ [c], isdigit d = true := by
            simpa [or_imp, forall_and, hdigit] using hcurrent
          rw [if_pos hdigit, ih hcomponents hnext, List.append_assoc, List.singleton_append]
        · rw [if_neg hdigit]
          refine iff_of_false Bool.false_ne_true fun h => ?_
          exact not_allDigits_groups (by simp) hdot hdigit h.1

end DottedNumber
