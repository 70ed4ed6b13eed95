import Mathlib.Data.Rat.Cast.Order
import Ezcap.Model.Event

/-! Attribution of network events to browser navigations, from `confidence.cpp` and
`correlator.cpp`. Durations are nanoseconds. -/

namespace Ezcap

structure NavigationObservation where
  timestamp : ℤ := 0
  tabId : UInt64 := 0
  windowId : UInt64 := 0
  host : Bytes := []
  url : Bytes := []
  title : Bytes := []
  navigationId : Bytes := []
  frameId : UInt64 := 0
  deriving DecidableEq, Repr

structure BrowserProcess where
  pid : UInt32 := 0
  name : Bytes := []
  deriving DecidableEq, Repr

structure Correlator where
  navigations : List NavigationObservation := []
  browserProcesses : List BrowserProcess := []

namespace Correlator

/-! ## Confidence -/

def kWeightProcess : ℚ := 40 / 100
def kWeightTemporal : ℚ := 12 / 100
def kWeightHost : ℚ := 18 / 100
def kWeightDirect : ℚ := 95 / 100
def kPcapAttributionCap : ℚ := 69 / 100
def kNoEvidenceScore : ℚ := 0

def scoreEvidence (processMatch temporalMatch hostMatch directBrowserEvent pcapOnly : Bool) : ℚ :=
  if directBrowserEvent then kWeightDirect
  else
    let score := (if processMatch then kWeightProcess else 0) +
      (if temporalMatch then kWeightTemporal else 0) + (if hostMatch then kWeightHost else 0)
    let score := if pcapOnly then min score kPcapAttributionCap else score
    max kNoEvidenceScore (min score 1)

/-! ## Navigations and processes -/

/-- `kNavigationWindow`, ten seconds. -/
def kNavigationWindow : ℤ := 10 * 10 ^ 9

def kMaxNavigations : ℕ := 512

def recordNavigation (correlator : Correlator) (observation : NavigationObservation) :
    Correlator :=
  let navigations := correlator.navigations ++ [observation]
  { correlator with navigations := navigations.drop (navigations.length - kMaxNavigations) }

def setBrowserProcesses (correlator : Correlator) (processes : List BrowserProcess) : Correlator :=
  { correlator with browserProcesses := processes }

def isBrowserProcess (correlator : Correlator) (pid : UInt32) : Bool :=
  correlator.browserProcesses.any fun p => p.pid == pid

def absDelta (a b : ℤ) : ℤ := if a > b then a - b else b - a

/-! ## Correlation -/

/-- The navigation chosen so far, its distance and whether its host matched. -/
structure Candidate where
  nav : NavigationObservation
  delta : ℤ
  hostMatch : Bool

def eventHost (event : Event) : Bytes :=
  match event.network with
  | none => []
  | some network => network.dnsQueryName

/-- One iteration of the loop of `best_match`. -/
def consider (event : Event) (best : Option Candidate) (nav : NavigationObservation) :
    Option Candidate :=
  let delta := absDelta nav.timestamp event.timestamp
  if delta > kNavigationWindow then best
  else
    let hostMatch := eventHost event != [] && nav.host != [] && eventHost event == nav.host
    let better :=
      match best with
      | none => true
      | some b => hostMatch && !b.hostMatch || hostMatch == b.hostMatch && decide (delta < b.delta)
    if better then some ⟨nav, delta, hostMatch⟩ else best

def bestMatch (navigations : List NavigationObservation) (event : Event) :
    Option NavigationObservation :=
  (navigations.foldl (consider event) none).map Candidate.nav

/-- Drop expired navigations from the front, up to the first one that is not. -/
def prune (now : ℤ) (navigations : List NavigationObservation) : List NavigationObservation :=
  navigations.dropWhile fun nav => decide (now - nav.timestamp > kNavigationWindow * 4)

/-- The browser information of a navigation. -/
def browserInfo (nav : NavigationObservation) : BrowserInfo where
  tabId := nav.tabId
  windowId := nav.windowId
  url := nav.url
  title := nav.title
  navigationId := nav.navigationId
  frameId := nav.frameId

/-- Score the event against the navigation `best_match` found, and attach the navigation when
the score is at least probable. -/
def attachNavigation (processMatch : Bool) (found : Option NavigationObservation) (event : Event) :
    Event :=
  let hostMatch := found.any fun nav => eventHost event != [] && eventHost event == nav.host
  let confidence :=
    scoreEvidence processMatch found.isSome hostMatch false (event.source == .pcap)
  let event := { event with confidence := confidence }
  match found with
  | none => event
  | some nav =>
      if confidence ≥ 40 / 100 then { event with browser := some (browserInfo nav) } else event

def correlate (correlator : Correlator) (now : ℤ) (event : Event) : Correlator × Event :=
  if event.type ≠ .connection ∧ event.type ≠ .dns then (correlator, event)
  else
    let processMatch := event.process.any fun p => correlator.isBrowserProcess p.pid
    let navigations := prune now correlator.navigations
    ({ correlator with navigations := navigations },
      attachNavigation processMatch (bestMatch navigations event) event)

end Correlator

end Ezcap
