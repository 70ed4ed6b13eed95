import Ezcap.Verification.Capture.EventId
import Ezcap.Verification.Daemon.Pipeline

/-! Identity of published events. The ids of a run are those its inputs draw, in order:
packets draw one each, ring-buffer records none. -/

namespace Ezcap.Pipeline

open EventNormalizer

/-! ## An event keeps its id -/

theorem correlate_eventId (correlator : Correlator) (now : ℤ) (event : Event) :
    (correlator.correlate now event).2.eventId = event.eventId ∧
      (correlator.correlate now event).2.privacy = event.privacy := by
  unfold Correlator.correlate
  split_ifs
  · exact ⟨rfl, rfl⟩
  · unfold Correlator.attachNavigation
    dsimp only
    split
    · exact ⟨rfl, rfl⟩
    · split_ifs <;> exact ⟨rfl, rfl⟩

theorem apply_eventId (policy : Policy) (event : Event) :
    (PolicyEngine.apply policy event).1.eventId = event.eventId := by
  unfold PolicyEngine.apply
  split_ifs <;> rfl

theorem eventId_publishedUnder (policy : Policy) (correlator : Correlator) (now : ℤ)
    {event : Event} (h : event.privacy.metadataOnly = true) :
    (Daemon.publishedUnder policy (correlator.correlate now event).2).map Event.eventId =
      [event.eventId] := by
  obtain ⟨hid, hprivacy⟩ := correlate_eventId correlator now event
  rw [Daemon.publishedUnder, hprivacy, if_pos h]
  simp [apply_eventId, hid]

/-! ## The ids of a run -/

theorem handle_eq_some {packet : PcapPacket} (interface : Bytes) (urandom : Option Bytes)
    (counter : UInt64) (h : packet.accepted = true) :
    ∃ event, packet.handle interface urandom counter = some event ∧
      event.eventId = randomUuid urandom counter ∧ event.privacy.metadataOnly = true := by
  simp only [PcapPacket.handle, h, if_true]
  split_ifs <;> exact ⟨_, rfl, rfl, rfl⟩

theorem handleRecord_eq_some {data : Bytes} {boot : ℤ} {event : Event}
    (h : Ebpf.handleRecord data boot = some event) :
    event.eventId = [] ∧ event.privacy.metadataOnly = true := by
  unfold Ebpf.handleRecord at h
  split_ifs at h
  all_goals
    cases h
    exact ⟨rfl, rfl⟩

/-- The ids that a run gives to its events, from a value of the counter on. -/
def ids : UInt64 → List Step → List Bytes
  | _, [] => []
  | counter, .control _ :: steps => ids counter steps
  | counter, .input _ _ (.packet _ urandom packet) :: steps =>
      if packet.accepted then randomUuid urandom counter :: ids (counter + 1) steps
      else ids counter steps
  | counter, .input _ _ (.record boot data) :: steps =>
      if (Ebpf.handleRecord data boot).isSome then [] :: ids counter steps else ids counter steps

theorem eventId_run (pipeline : Pipeline) (steps : List Step) :
    (pipeline.run steps).daemon.published.map Event.eventId =
      pipeline.daemon.published.map Event.eventId ++ ids pipeline.counter steps := by
  induction steps generalizing pipeline with
  | nil => simp [run, ids]
  | cons s steps ih =>
      refine (ih (pipeline.step s)).trans ?_
      cases s with
      | control c => simp [step, ids]
      | input now stored i =>
          cases i with
          | packet interface urandom packet =>
              by_cases h : packet.accepted = true
              · obtain ⟨event, hevent, hid, hmeta⟩ :=
                  handle_eq_some interface urandom pipeline.counter h
                simp [step, normalize, ids, h, hevent, eventId_publishedUnder _ _ _ hmeta, hid]
              · simp [step, normalize, ids, h, PcapPacket.handle]
          | record boot data =>
              cases hrecord : Ebpf.handleRecord data boot with
              | none => simp [step, normalize, ids, hrecord]
              | some event =>
                  obtain ⟨hid, hmeta⟩ := handleRecord_eq_some hrecord
                  simp [step, normalize, ids, hrecord, eventId_publishedUnder _ _ _ hmeta, hid]

/-! ## Distinct ids -/

/-- No ring-buffer record of the run is turned into an event. -/
def NoRecords (steps : List Step) : Prop :=
  ∀ now stored boot data, Step.input now stored (.record boot data) ∈ steps →
    Ebpf.handleRecord data boot = none

/-- What `/dev/urandom` yields for the accepted packets of the run, in order. -/
def draws (steps : List Step) : List (Option Bytes) :=
  steps.filterMap fun
    | .input _ _ (.packet _ urandom packet) => if packet.accepted then some urandom else none
    | _ => none

theorem noRecords_cons {s : Step} {steps : List Step} :
    NoRecords (s :: steps) ↔ NoRecords [s] ∧ NoRecords steps := by
  simp only [NoRecords, List.mem_cons, List.not_mem_nil, or_false]
  constructor
  · intro h
    exact ⟨fun now stored boot data hs => h now stored boot data (.inl hs),
      fun now stored boot data hs => h now stored boot data (.inr hs)⟩
  · rintro ⟨hs, hsteps⟩ now stored boot data (h | h)
    · exact hs now stored boot data h
    · exact hsteps now stored boot data h

@[simp] theorem noRecords_control (c : Daemon.Control) : NoRecords [.control c] := by
  simp [NoRecords]

@[simp] theorem noRecords_packet (now : ℤ) (stored : Bool) (interface : Bytes)
    (urandom : Option Bytes) (packet : PcapPacket) :
    NoRecords [.input now stored (.packet interface urandom packet)] := by
  simp [NoRecords]

@[simp] theorem noRecords_record (now : ℤ) (stored : Bool) (boot : ℤ) (data : Bytes) :
    NoRecords [.input now stored (.record boot data)] ↔ Ebpf.handleRecord data boot = none := by
  constructor
  · intro h
    exact h now stored boot data (List.mem_singleton_self _)
  · rintro h _ _ _ _ hmem
    cases List.mem_singleton.mp hmem
    exact h

/-- An event without an id is one that a record became. -/
theorem nil_mem_ids (counter : UInt64) (steps : List Step) :
    [] ∈ ids counter steps ↔ ¬ NoRecords steps := by
  induction steps generalizing counter with
  | nil => simp [ids, NoRecords]
  | cons s steps ih =>
      rw [noRecords_cons]
      rcases s with c | ⟨now, stored, ⟨interface, urandom, packet⟩ | ⟨boot, data⟩⟩
      · simp [ids, ih]
      · by_cases h : packet.accepted = true
        · simp [ids, h, ih, (randomUuid_ne_nil urandom counter).symm]
        · simp [ids, h, ih]
      · cases h : Ebpf.handleRecord data boot with
        | none => simp [ids, h, ih]
        | some event => simp [ids, h]

/-- Without records the ids are those of the calls that the accepted packets make. -/
theorem ids_of_noRecords (counter : UInt64) (steps : List Step) (h : NoRecords steps) :
    ids counter steps = calls counter (draws steps) := by
  induction steps generalizing counter with
  | nil => rfl
  | cons s steps ih =>
      obtain ⟨hs, hsteps⟩ := noRecords_cons.mp h
      rcases s with c | ⟨now, stored, ⟨interface, urandom, packet⟩ | ⟨boot, data⟩⟩
      · exact ih counter hsteps
      · by_cases hp : packet.accepted = true
        · have hdraws : draws (.input now stored (.packet interface urandom packet) :: steps) =
              urandom :: draws steps := by
            simp [draws, hp]
          simp only [ids, hp, if_true, ih (counter + 1) hsteps, hdraws, calls]
        · have hdraws : draws (.input now stored (.packet interface urandom packet) :: steps) =
              draws steps := by
            simp [draws, hp]
          simp only [ids, hp, Bool.false_eq_true, if_false, hdraws]
          exact ih counter hsteps
      · have hnone : Ebpf.handleRecord data boot = none := (noRecords_record ..).mp hs
        simp only [ids, hnone, Option.isSome_none, Bool.false_eq_true, if_false]
        exact ih counter hsteps

/-- Every published event has an id of its own exactly when no ring-buffer record became an
event and no two packets agree in all the bits of their random bytes and of their
position that the version and variant bits leave. -/
theorem event_identity_iff (config : Config) (steps : List Step) :
    let published := (run { daemon := .new config } steps).daemon.published
    ((∀ e ∈ published, e.eventId ≠ []) ∧ (published.map Event.eventId).Nodup) ↔
      NoRecords steps ∧
        ∀ (k l : ℕ) (hkl : k < l) (hl : l < (draws steps).length),
          ¬ (SameRandom (draws steps)[k] (draws steps)[l] ∧
            SameCounter (UInt64.ofNat k) (UInt64.ofNat l)) := by
  intro published
  have hids : published.map Event.eventId = ids 0 steps := by
    exact eventId_run { daemon := .new config } steps
  have hnil : (∀ e ∈ published, e.eventId ≠ []) ↔ NoRecords steps := by
    rw [← not_iff_not, ← nil_mem_ids 0 steps, ← hids]
    simp
  rw [hnil, hids]
  apply and_congr_right
  intro hrecords
  rw [ids_of_noRecords 0 steps hrecords, nodup_calls_iff]

/-- A connect record of zeros with a valid header. -/
def zeroConnectRecord : Bytes := 1 :: 1 :: List.replicate 86 0

/-- The events of two ring-buffer records are both published under the empty id. -/
theorem records_published_without_id :
    let step := Step.input 0 true (.record 0 zeroConnectRecord)
    (run { daemon := .new {} } [step, step]).daemon.published.map Event.eventId = [[], []] := by
  decide +kernel

end Ezcap.Pipeline
