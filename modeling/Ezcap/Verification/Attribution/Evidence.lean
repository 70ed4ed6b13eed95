import Mathlib.Tactic.NormNum
import Ezcap.Verification.Attribution.Retention

/-! Time and destination evidence. The two weights together stay below the threshold, which only a
process match reaches. -/

namespace Ezcap.Correlator

open StdString FirstMin

/-! ## The score -/

theorem scoreEvidence_ge_iff (processMatch temporalMatch hostMatch pcapOnly : Bool) :
    40 / 100 ≤ scoreEvidence processMatch temporalMatch hostMatch false pcapOnly ↔
      processMatch = true := by
  cases processMatch <;> cases temporalMatch <;> cases hostMatch <;> cases pcapOnly <;>
    norm_num [scoreEvidence, kWeightProcess, kWeightTemporal, kWeightHost, kPcapAttributionCap,
      kNoEvidenceScore]

theorem scoreEvidence_pcap_le (processMatch temporalMatch hostMatch : Bool) :
    scoreEvidence processMatch temporalMatch hostMatch false true ≤ 69 / 100 := by
  cases processMatch <;> cases temporalMatch <;> cases hostMatch <;>
    norm_num [scoreEvidence, kWeightProcess, kWeightTemporal, kWeightHost, kPcapAttributionCap,
      kNoEvidenceScore]

theorem attachNavigation_confidence (processMatch : Bool) (found : Option NavigationObservation)
    (event : Event) :
    (attachNavigation processMatch found event).confidence =
      scoreEvidence processMatch found.isSome
        (found.any fun nav => eventHost event != [] && eventHost event == nav.host) false
        (event.source == .pcap) := by
  cases found with
  | none => rfl
  | some nav =>
      simp only [attachNavigation]
      split_ifs <;> rfl

theorem attachNavigation_confidence_ge_iff (processMatch : Bool)
    (found : Option NavigationObservation) (event : Event) :
    40 / 100 ≤ (attachNavigation processMatch found event).confidence ↔ processMatch = true := by
  rw [attachNavigation_confidence, scoreEvidence_ge_iff]

theorem attachNavigation_browser (nav : NavigationObservation) (event : Event) :
    (attachNavigation true (some nav) event).browser = some (browserInfo nav) := by
  simp only [attachNavigation, Option.isSome_some, ge_iff_le, scoreEvidence_ge_iff, if_true]

/-! ## The chosen navigation -/

/-- The one chosen matches the host of the event exactly if some navigation in the window does. -/
theorem bestMatch_hostMatch_iff (navigations : List NavigationObservation) (event : Event) :
    (∃ nav, bestMatch navigations event = some nav ∧ HostMatch event nav ∧ InWindow event nav) ↔
      ∃ nav ∈ navigations, HostMatch event nav ∧ InWindow event nav := by
  rw [bestMatch_eq_firstMin]
  constructor
  · rintro ⟨nav, hbest, hmatch⟩
    exact ⟨nav, (List.mem_filter.mp (firstMin_mem hbest)).1, hmatch⟩
  · rintro ⟨other, hother, hhost, hnear⟩
    have hmem : other ∈ navigations.filter (InWindow event ·) :=
      List.mem_filter.mpr ⟨hother, by simpa using hnear⟩
    cases hbest : firstMin (rank event) (navigations.filter (InWindow event ·)) with
    | none => simp [firstMin_eq_none.mp hbest] at hmem
    | some nav =>
        refine ⟨nav, rfl, ?_, by simpa using (List.mem_filter.mp (firstMin_mem hbest)).2⟩
        by_contra hmiss
        have hlt : rank event other < rank event nav :=
          (rank_lt_rank_iff event other nav).mpr (.inl ⟨hhost, hmiss⟩)
        exact absurd (firstMin_le hbest hmem) hlt.not_ge

/-! ## Time and destination -/

/-- The event is attributed as probable: at least 0.40, at most 0.69 for pcap, with the tab of a
navigation in the window whose host is the name of the event. -/
structure Probable (correlator : Correlator) (now : ℤ) (event : Event) : Prop where
  at_least : 40 / 100 ≤ (correlator.correlate now event).2.confidence
  capped : event.source = .pcap → (correlator.correlate now event).2.confidence ≤ 69 / 100
  attached : ∃ nav, correlator.chosen now event = some nav ∧ HostMatch event nav ∧
    InWindow event nav ∧ (correlator.correlate now event).2.browser = some (browserInfo nav)

theorem probable_iff (correlator : Correlator) (now : ℤ) {event : Event}
    (htype : event.type = .connection ∨ event.type = .dns) :
    Probable correlator now event ↔
      correlator.processMatch event = true ∧
        ∃ nav ∈ prune now correlator.navigations, HostMatch event nav ∧ InWindow event nav := by
  have hout := correlate_snd correlator now htype
  rw [← bestMatch_hostMatch_iff]
  constructor
  · rintro ⟨hge, -, nav, hchosen, hhost, hnear, -⟩
    rw [hout, attachNavigation_confidence_ge_iff] at hge
    exact ⟨hge, nav, hchosen, hhost, hnear⟩
  · rintro ⟨hprocess, nav, hchosen, hhost, hnear⟩
    refine ⟨?_, fun hpcap => ?_, nav, hchosen, hhost, hnear, ?_⟩
    · rw [hout, attachNavigation_confidence_ge_iff, hprocess]
    · rw [hout, attachNavigation_confidence, hpcap]
      exact scoreEvidence_pcap_le ..
    · rw [hout, hprocess, chosen, hchosen, attachNavigation_browser]

theorem mem_prune_of_inWindow {navigations : List NavigationObservation} {now : ℤ} {event : Event}
    {nav : NavigationObservation} (hcurrent : now - 30 * 10 ^ 9 ≤ event.timestamp)
    (hnav : nav ∈ navigations) (hnear : InWindow event nav) : nav ∈ prune now navigations := by
  obtain ⟨expired, hsplit, hold⟩ := exists_append_prune now navigations
  rw [← hsplit] at hnav
  rcases List.mem_append.mp hnav with hexpired | hkept
  · exact absurd hnear (not_inWindow_of_expired hcurrent le_rfl (hold nav hexpired))
  · exact hkept

/-- An event with time and destination evidence is probable exactly if its process is a browser and
a matching navigation is not dropped as expired first, which never happens to an event of the last
thirty seconds. -/
theorem time_and_destination_iff (calls : List Call) (now : ℤ) (event : Event)
    (htype : event.type = .connection ∨ event.type = .dns)
    (hretained : ∃ nav ∈ (run calls).navigations, HostMatch event nav ∧ InWindow event nav) :
    (Probable (run calls) now event ↔
      (run calls).processMatch event = true ∧
        ∃ nav ∈ prune now (run calls).navigations, HostMatch event nav ∧ InWindow event nav) ∧
    (now - 30 * 10 ^ 9 ≤ event.timestamp →
      (Probable (run calls) now event ↔ (run calls).processMatch event = true)) := by
  refine ⟨probable_iff _ now htype, fun hcurrent => ?_⟩
  obtain ⟨nav, hnav, hhost, hnear⟩ := hretained
  rw [probable_iff _ now htype, and_iff_left]
  exact ⟨nav, mem_prune_of_inWindow hcurrent hnav hnear, hhost, hnear⟩

/-- A name looked up by a browser one second after the navigation to it. -/
theorem lookup_of_browser_probable :
    let calls : List Call :=
      [.setBrowserProcesses [⟨7, cstr "firefox"⟩],
        .recordNavigation { timestamp := 0, tabId := 42, host := cstr "example.com" }]
    let event : Event :=
      { type := .dns, timestamp := 10 ^ 9, process := some { pid := 7 }
        network := some { dnsQueryName := cstr "example.com" } }
    Probable (run calls) (10 ^ 9) event := by
  intro calls event
  refine ((time_and_destination_iff calls (10 ^ 9) event (by decide) ?_).2 (by decide)).mpr
    (by decide)
  exact ⟨{ timestamp := 0, tabId := 42, host := cstr "example.com" }, by decide, by decide,
    by decide⟩

/-- The same lookup seen by pcap, which knows no process: time and destination give 0.30. -/
theorem lookup_without_process_weak :
    let calls : List Call :=
      [.recordNavigation { timestamp := 0, tabId := 42, host := cstr "example.com" }]
    let event : Event :=
      { type := .dns, source := .pcap, timestamp := 10 ^ 9
        network := some { dnsQueryName := cstr "example.com" } }
    (∃ nav ∈ (run calls).navigations, HostMatch event nav ∧ InWindow event nav) ∧
      ((run calls).correlate (10 ^ 9) event).2.confidence = 30 / 100 ∧
      ((run calls).correlate (10 ^ 9) event).2.browser = none ∧
      ¬ Probable (run calls) (10 ^ 9) event := by
  intro calls event
  have hscore : ((run calls).correlate (10 ^ 9) event).2.confidence = 30 / 100 := by
    decide +kernel
  refine ⟨?_, hscore, by decide +kernel, fun hprobable => ?_⟩
  · exact ⟨{ timestamp := 0, tabId := 42, host := cstr "example.com" }, by decide, by decide,
      by decide⟩
  · have hge := hprobable.at_least
    rw [hscore] at hge
    norm_num at hge

end Ezcap.Correlator
