import Ezcap.Model.Config
import Ezcap.Model.PcapBackend

/-! Starting and stopping the daemon, from `daemon.cpp` and the constructor in
`sqlite_store.cpp`. What the pieces answer is given. -/

namespace Ezcap.Startup

open StdString

/-! ## The store -/

/-- What the calls of the store's constructor return. -/
structure StoreOutcome where
  opens : Bool := true
  journalMode : Bool := true
  synchronous : Bool := true
  foreignKeys : Bool := true
  migrates : Bool := true
  startsWriter : Bool := true

/-- The store object. Without its implementation it stores nothing. -/
structure Store where
  impl : Bool
  deriving DecidableEq, Repr

/-- A failed constructor leaves an object without its implementation. -/
def Store.new (outcome : StoreOutcome) : Store :=
  { impl := outcome.opens && (outcome.journalMode && outcome.synchronous && outcome.foreignKeys) &&
      outcome.migrates && outcome.startsWriter }

/-! ## Interfaces -/

structure Ifaddr where
  name : Option Bytes
  up : Bool := true
  loopback : Bool := false

/-- The first names of each kind that the loop of `default_interface` has found. -/
structure Found where
  nonLoopbackUp : Bytes := []
  nonLoopbackAny : Bytes := []
  loopbackUp : Bytes := []
  loopbackAny : Bytes := []

def Found.add (found : Found) (address : Ifaddr) : Found :=
  match address.name with
  | none => found
  | some name =>
      if address.loopback then
        { found with
          loopbackUp := if found.loopbackUp = [] ∧ address.up then name else found.loopbackUp
          loopbackAny := if found.loopbackAny = [] then name else found.loopbackAny }
      else
        { found with
          nonLoopbackUp :=
            if found.nonLoopbackUp = [] ∧ address.up then name else found.nonLoopbackUp
          nonLoopbackAny := if found.nonLoopbackAny = [] then name else found.nonLoopbackAny }

/-- `none` is a failed `getifaddrs`. -/
def defaultInterface (addresses : Option (List Ifaddr)) : Bytes :=
  match addresses with
  | none => []
  | some addresses =>
      let found := addresses.foldl Found.add {}
      if found.nonLoopbackUp ≠ [] then found.nonLoopbackUp
      else if found.nonLoopbackAny ≠ [] then found.nonLoopbackAny
      else if found.loopbackUp ≠ [] then found.loopbackUp
      else found.loopbackAny

def isSpace (c : UInt8) : Bool :=
  c == ' '.toUInt8 || c == '\t'.toUInt8 || c == '\r'.toUInt8 || c == '\n'.toUInt8

def trim (value : Bytes) : Bytes :=
  ((value.dropWhile isSpace).reverse.dropWhile isSpace).reverse

def IFNAMSIZ : ℕ := 16

def addCandidate (candidates : List Bytes) (iface : Bytes) : List Bytes :=
  if iface = [] then candidates
  else if iface ∈ candidates then candidates
  else candidates ++ [iface]

/-! ## Starting -/

/-- What the pieces of the daemon and the system answer during one start. -/
structure Outcomes where
  store : StoreOutcome := {}
  ebpf : Except Bytes Unit := .ok ()
  /-- The value of `EZCAP_INTERFACE`. -/
  interfaceVariable : Option Bytes := none
  addresses : Option (List Ifaddr) := some []
  pcap : Bytes → PcapCaptureBackend.Outcome := fun _ => {}
  server : Except Bytes Unit := .ok ()

/-- The name in `EZCAP_INTERFACE`, empty if it is not used. -/
def variableInterface (outcomes : Outcomes) : Bytes :=
  match outcomes.interfaceVariable with
  | none => []
  | some value => if (trim value).length < IFNAMSIZ then trim value else []

def candidateInterfaces (config : Config) (outcomes : Outcomes) : List Bytes :=
  [variableInterface outcomes, config.interfaces.head?.getD [],
    defaultInterface outcomes.addresses, cstr "any"].foldl addCandidate []

/-- The filters that went to `pcap_compile`, and the interface that is captured or the last
error. -/
structure Tried where
  compiled : List Bytes := []
  result : Except Bytes Bytes

/-- The loop over the candidates, with the error so far. -/
def tryPcap (filter : Bytes) (pcap : Bytes → PcapCaptureBackend.Outcome) :
    List Bytes → Bytes → Tried
  | [], backendError => { result := .error backendError }
  | iface :: candidates, _ =>
      let started := PcapCaptureBackend.start filter (pcap iface)
      match started.result with
      | .ok () => { compiled := started.compiled.toList, result := .ok iface }
      | .error error =>
          let later := tryPcap filter pcap candidates error
          { later with compiled := started.compiled.toList ++ later.compiled }

inductive Backend where
  | ebpf
  | pcap (iface : Bytes)
  deriving DecidableEq, Repr

/-- Whether the eBPF backend is tried and starts, and if not, why. -/
def startEbpf (config : Config) (outcomes : Outcomes) : Except Bytes Unit :=
  if config.preferEbpf then outcomes.ebpf else .error []

structure Chosen where
  compiled : List Bytes := []
  result : Except Bytes Backend

/-- The capture backend that is started. -/
def startBackend (config : Config) (outcomes : Outcomes) : Chosen :=
  match startEbpf config outcomes with
  | .ok () => { result := .ok .ebpf }
  | .error degradedReason =>
      if config.pcapFallback then
        if candidateInterfaces config outcomes = [] then
          { result := .error (cstr "no capture interface available") }
        else
          let tried := tryPcap config.pcapFilter outcomes.pcap
            (candidateInterfaces config outcomes) degradedReason
          { compiled := tried.compiled
            result :=
              match tried.result with
              | .ok iface => .ok (.pcap iface)
              | .error backendError => .error
                  (cstr "pcap backend failed on all candidate interfaces: " ++ backendError) }
      else
        { result := .error (cstr "no capture backend available" ++
            if degradedReason = [] then [] else cstr " (" ++ degradedReason ++ cstr ")") }

/-- What the daemon holds. -/
structure Resources where
  running : Bool := false
  store : Option Store := none
  backend : Option Backend := none
  server : Bool := false
  deriving DecidableEq, Repr

def stop (held : Resources) : Resources :=
  if !held.running && !held.server && held.backend.isNone && held.store.isNone then held
  else { running := false, server := false, backend := none, store := none }

/-- `make_unique` never makes a null pointer, so a store is always taken as opened. -/
def openStore (config : Config) (outcomes : Outcomes) (held : Resources) : Resources :=
  if config.storageEnabled then { held with store := some (Store.new outcomes.store) } else held

/-- A start: what is held after it, the filters that went to `pcap_compile`, the backend that was
started if any, and the result. -/
structure Started where
  held : Resources
  compiled : List Bytes := []
  captured : Option Backend := none
  result : Except Bytes Unit

def start (config : Config) (outcomes : Outcomes) (held : Resources) : Started :=
  if held.running then { held, result := .ok () }
  else
    let opened := openStore config outcomes held
    let chosen := startBackend config outcomes
    match chosen.result with
    | .error error => { held := opened, compiled := chosen.compiled, result := .error error }
    | .ok backend =>
        let serving := { opened with backend := some backend, server := true }
        match outcomes.server with
        | .error error =>
            { held := stop serving, compiled := chosen.compiled, captured := some backend,
              result := .error error }
        | .ok () =>
            { held := { serving with running := true }, compiled := chosen.compiled,
              captured := some backend, result := .ok () }

/-! ## Runs -/

/-- The calls on a daemon. -/
inductive Action where
  | start (outcomes : Outcomes)
  | stop

def step (config : Config) (held : Resources) : Action → Option Resources
  | .start outcomes => some (start config outcomes held).held
  | .stop => some (stop held)

end Ezcap.Startup
