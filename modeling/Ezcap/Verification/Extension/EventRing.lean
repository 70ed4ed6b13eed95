import Ezcap.Model.EventRing
import Mathlib.Data.List.Induction
import Mathlib.Data.List.Permutation
import Mathlib.Logic.Nontrivial.Basic

/-! Whether concurrent calls lose or bring back events. A call that stores what it has loaded
before another one's change undoes that change; only the cap can hide it. -/

namespace Ezcap.EventRing

variable {n : ℕ} {E : Type}

@[simp] theorem loadEvents_none : loadEvents (none : Option (List E)) = [] := rfl
@[simp] theorem loadEvents_some (events : List E) : loadEvents (some events) = events := rfl

/-! ## The cap -/

theorem reverse_bounded (l : List E) : (bounded l).reverse = l.reverse.take maxEvents := by
  unfold bounded
  dsimp only
  split
  · have hle : maxEvents ≤ l.length := by omega
    rw [List.reverse_drop, Nat.sub_sub_self hle]
  · rw [List.take_of_length_le]
    rw [List.length_reverse]
    omega

theorem length_bounded_le (l : List E) : (bounded l).length ≤ maxEvents := by
  rw [← List.length_reverse, reverse_bounded]
  exact List.length_take_le _ _

theorem bounded_of_length_le {l : List E} (h : l.length ≤ maxEvents) : bounded l = l := by
  rw [← List.reverse_inj, reverse_bounded, List.take_of_length_le (by simpa using h)]

theorem bounded_nil : bounded ([] : List E) = [] := bounded_of_length_le (Nat.zero_le _)

theorem bounded_bounded_append (l events : List E) :
    bounded (bounded l ++ events) = bounded (l ++ events) := by
  rw [← List.reverse_inj, reverse_bounded, reverse_bounded, List.reverse_append,
    List.reverse_append, reverse_bounded, List.take_append, List.take_append, List.take_take,
    Nat.min_eq_left (Nat.sub_le _ _)]

/-- The `k` latest events are the same. -/
def SameLast (k : ℕ) (a b : List E) : Prop := a.reverse.take k = b.reverse.take k

theorem SameLast.append {k : ℕ} {a b events : List E} (h : SameLast k a b) (hne : events ≠ []) :
    SameLast (k + 1) (bounded (a ++ events)) (bounded (b ++ events)) := by
  have hlength : 0 < events.length := List.length_pos_iff.mpr hne
  have hlater {i : ℕ} (hi : i ≤ k) : a.reverse.take i = b.reverse.take i := by
    have htake := congrArg (List.take i) h
    rwa [List.take_take, List.take_take, Nat.min_eq_left hi] at htake
  rw [SameLast, reverse_bounded, reverse_bounded, List.take_take, List.take_take,
    List.reverse_append, List.reverse_append, List.take_append, List.take_append, hlater]
  rw [List.length_reverse]
  omega

theorem sameLast_one {a b events : List E} (hne : events ≠ []) :
    SameLast 1 (bounded (a ++ events)) (bounded (b ++ events)) :=
  SameLast.append (k := 0) rfl hne

theorem SameLast.eq {k : ℕ} {a b : List E} (h : SameLast k a b) (ha : a.length ≤ k)
    (hb : b.length ≤ k) : a = b := by
  rwa [SameLast, List.take_of_length_le (by simpa using ha),
    List.take_of_length_le (by simpa using hb), List.reverse_inj] at h

theorem getElem?_bounded_append {k : ℕ} (hk : k + 1 < maxEvents) (l : List E) (e : E) :
    (bounded (l ++ [e])).reverse[k + 1]? = l.reverse[k]? := by
  rw [reverse_bounded, List.getElem?_take_of_lt hk]
  simp

/-! ## The order of completion -/

/-- The calls in the order in which they return. -/
def completed : List (Step n) → List (Fin n)
  | [] => []
  | .get _ :: schedule => completed schedule
  | .skip c :: schedule | .set c :: schedule | .remove c :: schedule => c :: completed schedule

/-- The events of calls one after another that were appended after the last clear. -/
def appended (calls : Fin n → Call E) (init : List E) (order : List (Fin n)) : List E :=
  order.foldl (fun held c =>
    match calls c with
    | .appendEvents events => held ++ events
    | .clearEvents => []) init

/-- The events after a step that is made on top of what is there. -/
def after (calls : Fin n → Call E) (held : List E) : Step n → List E
  | .set c => bounded (held ++ (calls c).events)
  | .remove _ => []
  | .skip _ | .get _ => held

section After

variable (calls : Fin n → Call E) (held : List E) (c : Fin n)

@[simp] theorem after_skip : after calls held (.skip c) = held := rfl
@[simp] theorem after_get : after calls held (.get c) = held := rfl
@[simp] theorem after_set : after calls held (.set c) = bounded (held ++ (calls c).events) := rfl
@[simp] theorem after_remove : after calls held (.remove c) = [] := rfl

@[simp] theorem appended_nil (init : List E) : appended calls init [] = init := rfl

variable {calls} {c}

theorem appended_cons_append {events : List E} (h : calls c = .appendEvents events)
    (init : List E) (order : List (Fin n)) :
    appended calls init (c :: order) = appended calls (init ++ events) order := by
  simp [appended, h]

theorem appended_cons_clear (h : calls c = .clearEvents) (init : List E) (order : List (Fin n)) :
    appended calls init (c :: order) = appended calls [] order := by
  simp [appended, h]

theorem serial_cons {stored next : Option (List E)}
    (h : (run calls { stored } ((calls c).steps c)).stored = next) (order : List (Fin n)) :
    serial calls stored (c :: order) = serial calls next order := by
  simp [serial, h]

end After

section Interleaves

variable {calls : Fin n → Call E} {schedule : List (Step n)}

theorem Interleaves.mem (h : Interleaves calls schedule) :
    ∀ s ∈ schedule, s ∈ (calls s.call).steps s.call := by
  intro s hs
  rw [← h s.call]
  simp [hs]

theorem appendEvents_of_set {c : Fin n} (h : Step.set c ∈ (calls c).steps c) :
    ∃ e events, calls c = .appendEvents (e :: events) := by
  unfold Call.steps at h
  split at h <;> simp_all

theorem clearEvents_of_remove {c : Fin n} (h : Step.remove c ∈ (calls c).steps c) :
    calls c = .clearEvents := by
  unfold Call.steps at h
  split at h <;> simp_all

theorem appendEvents_of_skip {c : Fin n} (h : Step.skip c ∈ (calls c).steps c) :
    calls c = .appendEvents [] := by
  unfold Call.steps at h
  split at h <;> simp_all

/-- The calls in the order of completion do what the schedule does when every step is made on top
of what is there. -/
theorem loadEvents_serial_completed (h : ∀ s ∈ schedule, s ∈ (calls s.call).steps s.call)
    (stored : Option (List E)) :
    loadEvents (serial calls stored (completed schedule)) =
      schedule.foldl (after calls) (loadEvents stored) := by
  induction schedule generalizing stored with
  | nil => rfl
  | cons s schedule ih =>
      obtain ⟨hs, hlater⟩ := List.forall_mem_cons.mp h
      specialize ih hlater
      cases s with
      | skip c =>
          have hstep : (run calls { stored } ((calls c).steps c)).stored = stored := by
            have hcall := appendEvents_of_skip (c := c) hs
            simp [hcall, Call.steps, run, step]
          rw [completed, serial_cons hstep, ih, List.foldl_cons, after_skip]
      | get c => rw [List.foldl_cons, after_get, completed, ih]
      | set c =>
          have hstep : (run calls { stored } ((calls c).steps c)).stored =
              some (bounded (loadEvents stored ++ (calls c).events)) := by
            obtain ⟨e, events, hcall⟩ := appendEvents_of_set (c := c) hs
            simp [hcall, Call.steps, run, step]
          rw [completed, serial_cons hstep, ih, List.foldl_cons, after_set, loadEvents_some]
      | remove c =>
          have hstep : (run calls { stored } ((calls c).steps c)).stored = none := by
            have hcall := clearEvents_of_remove (c := c) hs
            simp [hcall, Call.steps, run, step]
          rw [completed, serial_cons hstep, ih, List.foldl_cons, after_remove, loadEvents_none]

/-- What is there then is the latest of the events appended after the last clear. -/
theorem foldl_after_bounded (h : ∀ s ∈ schedule, s ∈ (calls s.call).steps s.call)
    (init : List E) :
    schedule.foldl (after calls) (bounded init) =
      bounded (appended calls init (completed schedule)) := by
  induction schedule generalizing init with
  | nil => rw [List.foldl_nil, completed, appended_nil]
  | cons s schedule ih =>
      obtain ⟨hs, hlater⟩ := List.forall_mem_cons.mp h
      specialize ih hlater
      cases s with
      | skip c =>
          have hcall := appendEvents_of_skip (c := c) hs
          rw [List.foldl_cons, after_skip, ih, completed, appended_cons_append hcall,
            List.append_nil]
      | get c => rw [List.foldl_cons, after_get, ih, completed]
      | set c =>
          obtain ⟨e, events, hcall⟩ := appendEvents_of_set (c := c) hs
          rw [List.foldl_cons, after_set, bounded_bounded_append, ih, completed,
            appended_cons_append hcall, hcall, Call.events]
      | remove c =>
          have hcall := clearEvents_of_remove (c := c) hs
          rw [List.foldl_cons, after_remove, ← bounded_nil, ih, completed,
            appended_cons_clear hcall]

theorem count_completed (c : Fin n) (schedule : List (Step n)) :
    (completed schedule).count c =
      (completed (schedule.filter fun s => s.call = c)).length := by
  induction schedule with
  | nil => rfl
  | cons s schedule ih =>
      cases s with
      | get d =>
          by_cases hd : d = c <;> simp [completed, Step.call, hd, ih]
      | skip d | set d | remove d =>
          by_cases hd : d = c <;> simp [completed, Step.call, hd, ih]

theorem Interleaves.completed_perm (h : Interleaves calls schedule) :
    (completed schedule).Perm (List.finRange n) := by
  rw [List.perm_iff_count]
  intro c
  rw [count_completed, h c, List.count_eq_one_of_mem (List.nodup_finRange n) (List.mem_finRange c)]
  unfold Call.steps
  split <;> rfl

end Interleaves

/-! ## Versions -/

/-- The states of the stored list, by what made them. -/
inductive Version (n : ℕ) where
  | initial
  | cleared
  | setBy (c : Fin n)
  deriving DecidableEq, Repr

/-- Which version is stored and which one each call has loaded. -/
structure Tracker (n : ℕ) where
  current : Version n := .initial
  loaded : Fin n → Option (Version n) := fun _ => none
  /-- How many sets there were since the last one whose call had loaded another version than the
  one it replaced, that one included; none if there was no such set since the last clear. -/
  sinceStale : Option ℕ := none

def Tracker.step (t : Tracker n) : Step n → Tracker n
  | .skip _ => t
  | .get c => { t with loaded := Function.update t.loaded c (some t.current) }
  | .set c =>
      { t with
        current := .setBy c
        sinceStale := if t.loaded c = some t.current then t.sinceStale.map (· + 1) else some 1 }
  | .remove _ => { t with current := .cleared, sinceStale := none }

def track (schedule : List (Step n)) : Tracker n := schedule.foldl Tracker.step {}

/-- The sets since the last stale one in a whole schedule. -/
def sinceStale (schedule : List (Step n)) : Option ℕ := (track schedule).sinceStale

theorem track_append (schedule : List (Step n)) (s : Step n) :
    track (schedule ++ [s]) = (track schedule).step s := List.foldl_concat ..

theorem run_append (calls : Fin n → Call E) (ring : Ring n E) (schedule : List (Step n))
    (s : Step n) : run calls ring (schedule ++ [s]) = step calls (run calls ring schedule) s :=
  List.foldl_concat ..

theorem stored_set (calls : Fin n → Call E) (ring : Ring n E) (c : Fin n) :
    (step calls ring (.set c)).stored = some (bounded (ring.existing c ++ (calls c).events)) := rfl

theorem sinceStale_set (t : Tracker n) (c : Fin n) :
    (t.step (.set c)).sinceStale =
      if t.loaded c = some t.current then t.sinceStale.map (· + 1) else some 1 := rfl

/-! ## Sets of the version that was loaded -/

/-- A call that has loaded the current version has loaded what is stored. -/
structure Tracks (done : List (Step n)) (ring : Ring n E) (t : Tracker n) : Prop where
  current_mem : ∀ c, t.current = .setBy c → .set c ∈ done
  loaded_mem : ∀ d c, t.loaded d = some (.setBy c) → .set c ∈ done
  cleared : t.current = .cleared → loadEvents ring.stored = []
  loaded_cleared : ∀ c, t.loaded c = some .cleared → ring.existing c = []
  loaded_current : ∀ c, t.loaded c = some t.current → ring.existing c = loadEvents ring.stored

section Tracks

variable (calls : Fin n → Call E) {schedule : List (Step n)}

theorem Tracks.step {done : List (Step n)} {ring : Ring n E} {t : Tracker n}
    (h : Tracks done ring t) {s : Step n} (hs : s ∉ done) :
    Tracks (done ++ [s]) (step calls ring s) (t.step s) := by
  cases s with
  | skip c =>
      exact ⟨fun c hc => List.mem_append_left _ (h.current_mem c hc),
        fun d c hc => List.mem_append_left _ (h.loaded_mem d c hc), h.cleared, h.loaded_cleared,
        h.loaded_current⟩
  | get c =>
      refine ⟨fun c hc => List.mem_append_left _ (h.current_mem c hc), ?_, h.cleared, ?_, ?_⟩
      all_goals intro d
      all_goals by_cases hd : d = c
      · subst hd
        intro c hc
        refine List.mem_append_left _ (h.current_mem c ?_)
        simpa [Tracker.step] using hc
      · intro c' hc
        exact List.mem_append_left _ (h.loaded_mem d c' (by simpa [Tracker.step, hd] using hc))
      · subst hd
        intro hc
        have hcurrent : t.current = .cleared := by simpa [Tracker.step] using hc
        simpa [EventRing.step] using h.cleared hcurrent
      · intro hc
        simpa [EventRing.step, hd] using
          h.loaded_cleared d (by simpa [Tracker.step, hd] using hc)
      · subst hd
        simp [EventRing.step]
      · intro hc
        simpa [EventRing.step, hd] using
          h.loaded_current d (by simpa [Tracker.step, hd] using hc)
  | set c =>
      refine ⟨?_, fun d c hc => List.mem_append_left _ (h.loaded_mem d c hc), ?_,
        h.loaded_cleared, ?_⟩
      · intro c' hc
        cases hc
        simp
      · intro hc
        cases hc
      · intro d hd
        exact absurd (h.loaded_mem d c hd) hs
  | remove c =>
      refine ⟨?_, fun d c hc => List.mem_append_left _ (h.loaded_mem d c hc), fun _ => rfl,
        h.loaded_cleared, h.loaded_cleared⟩
      intro c' hc
      cases hc

theorem tracks_run (hnodup : schedule.Nodup) (stored : Option (List E)) :
    Tracks schedule (run calls { stored } schedule) (track schedule) := by
  induction schedule using List.reverseRecOn with
  | nil => exact ⟨nofun, nofun, nofun, nofun, nofun⟩
  | append_singleton schedule s ih =>
      obtain ⟨hfirst, -, hdisjoint⟩ := List.nodup_append.mp hnodup
      rw [run_append, track_append]
      refine (ih hfirst).step calls fun hmem => ?_
      exact hdisjoint s hmem s (List.mem_singleton_self s) rfl

/-- How far two lists of events agree. -/
def Agree : Option ℕ → List E → List E → Prop
  | none, a, b => a = b
  | some k, a, b => SameLast k a b ∧ a.length ≤ maxEvents ∧ b.length ≤ maxEvents

/-- The stored events agree with those of the calls in their order, as far as there was no stale
set. -/
theorem agree_run (hnodup : schedule.Nodup)
    (hevents : ∀ c, .set c ∈ schedule → (calls c).events ≠ []) (stored : Option (List E)) :
    Agree (sinceStale schedule) (loadEvents (run calls { stored } schedule).stored)
      (schedule.foldl (after calls) (loadEvents stored)) := by
  induction schedule using List.reverseRecOn with
  | nil => rfl
  | append_singleton schedule s ih =>
      have hfirst := (List.nodup_append.mp hnodup).1
      specialize ih hfirst fun c hc => hevents c (List.mem_append_left _ hc)
      have htracks := tracks_run calls hfirst stored
      rw [sinceStale] at ih ⊢
      rw [run_append, track_append, List.foldl_concat]
      cases s with
      | skip c => simpa only [step, Tracker.step, after_skip] using ih
      | get c => simpa only [step, Tracker.step, after_get] using ih
      | remove c => simp only [step, Tracker.step, after_remove, loadEvents_none, Agree]
      | set c =>
          have hne := hevents c (by simp)
          rw [stored_set, loadEvents_some, sinceStale_set, after_set]
          by_cases hfresh : (track schedule).loaded c = some (track schedule).current
          · rw [if_pos hfresh, htracks.loaded_current c hfresh]
            cases hsince : (track schedule).sinceStale with
            | none =>
                rw [hsince, Agree] at ih
                rw [ih, Option.map_none, Agree]
            | some k =>
                rw [hsince, Agree] at ih
                rw [Option.map_some, Agree]
                exact ⟨ih.1.append hne, length_bounded_le _, length_bounded_le _⟩
          · rw [if_neg hfresh, Agree]
            exact ⟨sameLast_one hne, length_bounded_le _, length_bounded_le _⟩

end Tracks

/-! ## Stale sets -/

/-- The latest event of each version, if every call appends its label. -/
def Version.last (label : Fin n → E) (d : E) : Version n → Option E
  | .initial => some d
  | .cleared => none
  | .setBy c => some (label c)

theorem getLast?_bounded_append (l : List E) (e : E) :
    (bounded (l ++ [e])).getLast? = some e := by
  have hpositive : maxEvents ≠ 0 := by decide
  rw [← List.head?_reverse, reverse_bounded, List.head?_take, if_neg hpositive]
  simp

/-- Every list ends as its version says. -/
structure Lasts (last : Version n → Option E) (ring : Ring n E) (t : Tracker n) (held : List E) :
    Prop where
  stored : (loadEvents ring.stored).getLast? = last t.current
  existing : ∀ c v, t.loaded c = some v → (ring.existing c).getLast? = last v
  held : held.getLast? = last t.current

section Stale

variable {calls : Fin n → Call E} {schedule : List (Step n)} {label : Fin n → E} {d : E}

theorem Lasts.step {ring : Ring n E} {t : Tracker n} {held : List E}
    (h : Lasts (Version.last label d) ring t held) {s : Step n}
    (hs : ∀ c, s = .set c → (calls c).events = [label c]) :
    Lasts (Version.last label d) (step calls ring s) (t.step s) (after calls held s) := by
  cases s with
  | skip c => exact ⟨h.stored, h.existing, h.held⟩
  | get c =>
      refine ⟨h.stored, ?_, h.held⟩
      intro e v hv
      by_cases he : e = c
      · subst he
        obtain rfl : t.current = v := by simpa [Tracker.step] using hv
        simpa [EventRing.step] using h.stored
      · simpa [EventRing.step, he] using h.existing e v (by simpa [Tracker.step, he] using hv)
  | set c =>
      refine ⟨?_, h.existing, ?_⟩
      · rw [stored_set, loadEvents_some, hs c rfl, getLast?_bounded_append]
        rfl
      · rw [after_set, hs c rfl, getLast?_bounded_append]
        rfl
  | remove c => exact ⟨rfl, h.existing, rfl⟩

theorem lasts_run (hevents : ∀ c, .set c ∈ schedule → (calls c).events = [label c]) :
    Lasts (Version.last label d) (run calls { stored := some [d] } schedule) (track schedule)
      (schedule.foldl (after calls) [d]) := by
  induction schedule using List.reverseRecOn with
  | nil => exact ⟨rfl, nofun, rfl⟩
  | append_singleton schedule s ih =>
      rw [run_append, track_append, List.foldl_concat]
      refine (ih fun c hc => hevents c (List.mem_append_left _ hc)).step ?_
      rintro c rfl
      exact hevents c (by simp)

theorem loaded_initial (h : (track schedule).current = .initial) {c : Fin n} {v : Version n}
    (hv : (track schedule).loaded c = some v) : v = .initial := by
  induction schedule using List.reverseRecOn with
  | nil => cases hv
  | append_singleton schedule s ih =>
      rw [track_append] at h hv
      cases s with
      | skip c' => exact ih h hv
      | get c' =>
          by_cases hc : c = c'
          · obtain rfl : (track schedule).current = v := by simpa [Tracker.step, hc] using hv
            exact h
          · exact ih h (by simpa [Tracker.step, hc] using hv)
      | set c' | remove c' => cases h

theorem loaded_of_get_mem {c : Fin n} (h : .get c ∈ schedule) :
    (track schedule).loaded c ≠ none := by
  induction schedule using List.reverseRecOn with
  | nil => cases h
  | append_singleton schedule s ih =>
      rw [track_append]
      have hold : .get c ∈ schedule → ((track schedule).step s).loaded c ≠ none := by
        intro hmem
        cases s with
        | get c' =>
            by_cases hc : c = c' <;> simp [Tracker.step, hc, ih hmem]
        | skip c' | set c' | remove c' => exact ih hmem
      rcases List.mem_append.mp h with hmem | hmem
      · exact hold hmem
      · rw [← List.mem_singleton.mp hmem]
        simp [Tracker.step]

/-- For two versions, labels under which they end differently. -/
theorem exists_label [Nontrivial E] {v w : Version n} (hne : v ≠ w)
    (hinitial : w = .initial → v = .initial) :
    ∃ (label : Fin n → E) (d : E), v.last label d ≠ w.last label d := by
  obtain ⟨d, e, hde⟩ := exists_pair_ne E
  cases w with
  | initial => exact absurd (hinitial rfl) hne
  | cleared =>
      refine ⟨fun _ => d, d, ?_⟩
      cases v with
      | cleared => exact absurd rfl hne
      | initial | setBy c => exact Option.some_ne_none d
  | setBy c =>
      refine ⟨fun c' => if c' = c then e else d, d, ?_⟩
      cases v with
      | initial => simpa [Version.last] using hde
      | cleared => exact nofun
      | setBy c' =>
          have hc : c' ≠ c := fun h => hne (h ▸ rfl)
          simpa [Version.last, hc] using hde

theorem exists_differ_of_stale [Nontrivial E] {c : Fin n} (hget : .get c ∈ schedule)
    (hstale : (track schedule).loaded c ≠ some (track schedule).current) (hlt : 1 < maxEvents) :
    ∃ (label : Fin n → E) (d : E), ∀ calls : Fin n → Call E,
      (∀ c', .set c' ∈ schedule ++ [.set c] → (calls c').events = [label c']) →
      (loadEvents (run calls { stored := some [d] } (schedule ++ [.set c])).stored).reverse[1]? ≠
        ((schedule ++ [Step.set c]).foldl (after calls) [d]).reverse[1]? := by
  obtain ⟨v, hv⟩ := Option.ne_none_iff_exists'.mp (loaded_of_get_mem hget)
  have hne : v ≠ (track schedule).current := fun h => hstale (h ▸ hv)
  obtain ⟨label, d, hlast⟩ : ∃ (label : Fin n → E) (d : E), _ :=
    exists_label hne fun h => loaded_initial h hv
  refine ⟨label, d, fun calls hcalls => ?_⟩
  have hlasts : Lasts (Version.last label d)
      (run calls { stored := some [d] } schedule) (track schedule) _ :=
    lasts_run fun c' hc => hcalls c' (List.mem_append_left _ hc)
  rw [run_append, List.foldl_concat, stored_set, loadEvents_some, after_set,
    hcalls c (by simp), getElem?_bounded_append (k := 0) hlt,
    getElem?_bounded_append (k := 0) hlt, ← List.head?_eq_getElem?,
    ← List.head?_eq_getElem?, List.head?_reverse, List.head?_reverse,
    hlasts.existing c v hv, hlasts.held]
  exact hlast

/-- Where a stale set has too few sets after it, the event before its own is another one than it
would be. -/
theorem exists_differ [Nontrivial E] (hnodup : schedule.Nodup)
    (hget : ∀ σ c τ, schedule = σ ++ .set c :: τ → .get c ∈ σ) {k : ℕ}
    (hk : sinceStale schedule = some k) (hlt : k < maxEvents) :
    ∃ (label : Fin n → E) (d : E), ∀ calls : Fin n → Call E,
      (∀ c, .set c ∈ schedule → (calls c).events = [label c]) →
      (loadEvents (run calls { stored := some [d] } schedule).stored).reverse[k]? ≠
        (schedule.foldl (after calls) [d]).reverse[k]? := by
  induction schedule using List.reverseRecOn generalizing k with
  | nil => cases hk
  | append_singleton schedule s ih =>
      have hfirst := (List.nodup_append.mp hnodup).1
      have hgets : ∀ σ c τ, schedule = σ ++ .set c :: τ → .get c ∈ σ := by
        rintro σ c τ rfl
        exact hget σ c (τ ++ [s]) (by simp)
      have hlater (c : Fin n) (hc : .set c ∈ schedule) : .set c ∈ schedule ++ [s] :=
        List.mem_append_left _ hc
      rw [sinceStale, track_append] at hk
      cases s with
      | remove c => cases hk
      | skip c | get c =>
          obtain ⟨label, d, hdiffer⟩ := ih hfirst hgets hk hlt
          refine ⟨label, d, fun calls hcalls => ?_⟩
          rw [run_append, List.foldl_concat]
          exact hdiffer calls fun c hc => hcalls c (hlater c hc)
      | set c =>
          rw [sinceStale_set] at hk
          by_cases hfresh : (track schedule).loaded c = some (track schedule).current
          · rw [if_pos hfresh] at hk
            obtain ⟨j, hj, rfl⟩ := Option.map_eq_some_iff.mp hk
            obtain ⟨label, d, hdiffer⟩ := ih hfirst hgets hj (Nat.lt_of_succ_lt hlt)
            refine ⟨label, d, fun calls hcalls => ?_⟩
            have htracks := tracks_run calls hfirst (some [d])
            rw [run_append, List.foldl_concat, stored_set, loadEvents_some, after_set,
              hcalls c (by simp), htracks.loaded_current c hfresh,
              getElem?_bounded_append hlt, getElem?_bounded_append hlt]
            exact hdiffer calls fun c hc => hcalls c (hlater c hc)
          · rw [if_neg hfresh] at hk
            obtain rfl := Option.some.inj hk
            exact exists_differ_of_stale (hget schedule c [] rfl) hfresh hlt

end Stale

/-! ## Every interleaving -/

section Interleaves

variable {calls : Fin n → Call E} {schedule : List (Step n)}

theorem Interleaves.nodup (h : Interleaves calls schedule) : schedule.Nodup := by
  rw [List.nodup_iff_count_le_one]
  intro s
  have hcount : schedule.count s = ((calls s.call).steps s.call).count s := by
    rw [← h s.call, List.count_filter (by simp)]
  rw [hcount]
  refine List.nodup_iff_count_le_one.mp ?_ s
  unfold Call.steps
  split <;> simp

theorem Interleaves.get_mem (h : Interleaves calls schedule) {σ τ : List (Step n)} {c : Fin n}
    (hsplit : schedule = σ ++ .set c :: τ) : .get c ∈ σ := by
  obtain ⟨e, events, hcall⟩ := appendEvents_of_set (c := c) (h.mem (.set c) (by simp [hsplit]))
  have hsteps := h c
  rw [hcall, Call.steps, hsplit, List.filter_append] at hsteps
  cases hσ : σ.filter (fun s => s.call = c) with
  | nil =>
      rw [hσ, List.nil_append, List.filter_cons_of_pos (by simp [Step.call])] at hsteps
      cases hsteps
  | cons s rest =>
      rw [hσ] at hsteps
      obtain ⟨rfl, -⟩ := List.cons.inj hsteps
      exact List.mem_of_mem_filter (hσ ▸ List.mem_cons_self)

/-- The same calls, each with one event of its own. -/
def relabel (calls : Fin n → Call E) (label : Fin n → E) (c : Fin n) : Call E :=
  match calls c with
  | .appendEvents (_ :: _) => .appendEvents [label c]
  | call => call

theorem Interleaves.relabel (h : Interleaves calls schedule) (label : Fin n → E) :
    Interleaves (relabel calls label) schedule := by
  intro c
  rw [h c, EventRing.relabel]
  split <;> simp_all [Call.steps]

theorem Interleaves.events_relabel (h : Interleaves calls schedule) (label : Fin n → E)
    {c : Fin n} (hc : .set c ∈ schedule) :
    (EventRing.relabel calls label c).events = [label c] := by
  obtain ⟨e, events, hcall⟩ := appendEvents_of_set (c := c) (h.mem (.set c) hc)
  simp [EventRing.relabel, hcall, Call.events]

end Interleaves

/-- Every call returns once. Whatever the calls append, the stored events are those of the calls one
after another in the order in which they return, the latest of the events appended after the
last clear, exactly when every stale set since the last clear is followed by so many sets that
the cap drops all that it could have spoiled. -/
theorem ring_serial_iff [Nontrivial E] {schedule : List (Step n)} {calls₀ : Fin n → Call E}
    (h₀ : Interleaves calls₀ schedule) :
    (completed schedule).Perm (List.finRange n) ∧
    ((∀ (stored : Option (List E)) (calls : Fin n → Call E),
        (loadEvents stored).length ≤ maxEvents → Interleaves calls schedule →
        loadEvents (run calls { stored } schedule).stored =
            loadEvents (serial calls stored (completed schedule)) ∧
          loadEvents (serial calls stored (completed schedule)) =
            bounded (appended calls (loadEvents stored) (completed schedule))) ↔
      ∀ k ∈ sinceStale schedule, maxEvents ≤ k) := by
  refine ⟨h₀.completed_perm, ?_, ?_⟩
  · intro hserial k hk
    by_contra hlt
    obtain ⟨label, d, hdiffer⟩ : ∃ (label : Fin n → E) (d : E), _ :=
      exists_differ h₀.nodup (fun σ c τ => h₀.get_mem) hk (Nat.not_le.mp hlt)
    have hrelabel := h₀.relabel label
    have hone : (loadEvents (some [d])).length ≤ maxEvents := by simp [maxEvents]
    have hsame := (hserial (some [d]) _ hone hrelabel).1
    rw [loadEvents_serial_completed hrelabel.mem, loadEvents_some] at hsame
    exact hdiffer _ (fun c hc => h₀.events_relabel label hc) (by rw [hsame])
  · intro hstale stored calls hlength hcalls
    have hserial := loadEvents_serial_completed hcalls.mem stored
    have hevents (c : Fin n) (hc : .set c ∈ schedule) : (calls c).events ≠ [] := by
      obtain ⟨e, events, hcall⟩ := appendEvents_of_set (c := c) (hcalls.mem (.set c) hc)
      simp [hcall, Call.events]
    have hagree := agree_run calls hcalls.nodup hevents stored
    rw [hserial]
    constructor
    · cases hsince : sinceStale schedule with
      | none => rwa [hsince, Agree] at hagree
      | some k =>
          rw [hsince, Agree] at hagree
          have hk := hstale k hsince
          exact hagree.1.eq (hagree.2.1.trans hk) (hagree.2.2.trans hk)
    · have hbounded := foldl_after_bounded hcalls.mem (loadEvents stored)
      rwa [bounded_of_length_le hlength] at hbounded

/-- Calls that do not overlap. -/
theorem separate_calls_serial :
    let calls : Fin 2 → Call ℕ := fun c => .appendEvents [c.val]
    let schedule : List (Step 2) := [.get 0, .set 0, .get 1, .set 1]
    Interleaves calls schedule ∧
      loadEvents (run calls { stored := none } schedule).stored =
        loadEvents (serial calls none [0, 1]) := by
  have hcalls : Interleaves (fun c : Fin 2 => .appendEvents [c.val])
      [.get 0, .set 0, .get 1, .set 1] := by
    decide
  refine ⟨hcalls, ?_⟩
  exact ((ring_serial_iff hcalls).2.mpr (by decide) none _ (by decide) hcalls).1

theorem eq_of_perm_finRange_two {order : List (Fin 2)} (h : order.Perm (List.finRange 2)) :
    order = [0, 1] ∨ order = [1, 0] := by
  simpa [List.permutations', List.finRange_succ] using List.mem_permutations'.mpr h

/-- Of two appends that both load before either stores, one is lost; and an append that loads before
a clear brings the cleared event back. No order of the calls explains it. -/
theorem overlapping_calls_not_serial :
    let appends : Fin 2 → Call ℕ := fun c => .appendEvents [c.val]
    let both : List (Step 2) := [.get 0, .get 1, .set 0, .set 1]
    let clearing : Fin 2 → Call ℕ := fun c => if c = 0 then .appendEvents [0] else .clearEvents
    let across : List (Step 2) := [.get 0, .remove 1, .set 0]
    Interleaves appends both ∧
      loadEvents (run appends { stored := none } both).stored = [1] ∧
      (¬ ∃ order : List (Fin 2), order.Perm (List.finRange 2) ∧
        loadEvents (run appends { stored := none } both).stored =
          loadEvents (serial appends none order)) ∧
      Interleaves clearing across ∧
      loadEvents (run clearing { stored := some [7] } across).stored = [7, 0] ∧
      ¬ ∃ order : List (Fin 2), order.Perm (List.finRange 2) ∧
        loadEvents (run clearing { stored := some [7] } across).stored =
          loadEvents (serial clearing (some [7]) order) := by
  refine ⟨by decide, by decide, ?_, by decide, by decide, ?_⟩
  all_goals rintro ⟨order, hperm, hsame⟩
  all_goals rcases eq_of_perm_finRange_two hperm with rfl | rfl
  all_goals exact absurd hsame (by decide)

end Ezcap.EventRing
