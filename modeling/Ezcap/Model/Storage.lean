import Ezcap.Model.Ipc

/-! The event store, from `sqlite_store.cpp`: a bounded queue that `store` fills and a writer
thread that drains it into the `events` table. The writer swaps the queue with its own
batch while it holds the queue's mutex and inserts the batch without it, so stores
interleave with the inserts one by one. A statement fails only when the `UNIQUE`
constraint on `event_id` does. -/

namespace Ezcap

open StdString

def kMaxQueuedWrites : ℕ := 4096

/-- A serialized event that waits for the writer. -/
structure PendingWrite where
  eventId : Bytes
  schemaVersion : UInt32
  eventType : Bytes
  source : Bytes
  confidence : ℚ
  timestampMs : ℤ
  processName : Bytes
  remoteAddress : Bytes
  remotePort : ℤ
  url : Bytes
  eventJson : Bytes
  deriving DecidableEq, Repr

/-- A row of the `events` table without its key; `none` is `NULL`. -/
structure Row where
  eventId : Bytes
  schemaVersion : ℤ
  eventType : Bytes
  source : Bytes
  confidence : ℚ
  timestampUnixMs : ℤ
  processName : Option Bytes
  remoteAddress : Option Bytes
  remotePort : Option ℤ
  url : Option Bytes
  eventJson : Bytes
  deriving DecidableEq, Repr

/-- A text column that is left `NULL` when empty. -/
def bindText (s : Bytes) : Option Bytes := if s = [] then none else some (untilNul s)

/-- The values `write_one` binds: texts end at their first NUL, numbers are cast to `int`. -/
def PendingWrite.row (w : PendingWrite) : Row where
  eventId := untilNul w.eventId
  schemaVersion := Int.bmod w.schemaVersion.toNat (2 ^ 32)
  eventType := untilNul w.eventType
  source := untilNul w.source
  confidence := w.confidence
  timestampUnixMs := w.timestampMs
  processName := bindText w.processName
  remoteAddress := bindText w.remoteAddress
  remotePort := if w.remotePort < 0 then none else some (Int.bmod w.remotePort (2 ^ 32))
  url := bindText w.url
  eventJson := untilNul w.eventJson

/-- The insert; `none` when the `UNIQUE` constraint rejects it. -/
def writeOne (table : List Row) (w : PendingWrite) : Option (List Row) :=
  if w.row.eventId ∈ table.map Row.eventId then none else some (table ++ [w.row])

/-- Where the writer thread is in its loop: before the wait, with rows of its batch still to
insert, or gone. -/
inductive Writer where
  | waiting
  | inserting (todo : List PendingWrite)
  | returned
  deriving DecidableEq, Repr

structure SqliteStore where
  queue : List PendingWrite := []
  shutdown : Bool := false
  failed : Bool := false
  stored : UInt64 := 0
  dropped : UInt64 := 0
  writer : Writer := .waiting
  /-- The writer's local vector. -/
  batch : List PendingWrite := []
  table : List Row := []
  /-- Not in the source: the writes for which `store` has returned true, oldest first. -/
  accepted : List PendingWrite := []

namespace SqliteStore

/-- The write that `store` prepares, or `none` when the event cannot be encoded. Without
network information `remote_port` keeps what the memory held before. -/
def pendingWrite (lib : JsonLib) (event : Event) (uninitialized : ℤ) : Option PendingWrite :=
  (Ipc.encodeEvent lib event).map fun json =>
    { eventId := event.eventId
      schemaVersion := event.schemaVersion
      eventType := eventTypeName event.type
      source := eventSourceName event.source
      confidence := event.confidence
      timestampMs := event.timestamp.tdiv (10 ^ 6)
      processName := (event.process.map ProcessInfo.name).getD []
      remoteAddress := (event.network.map NetworkInfo.remoteAddress).getD []
      remotePort :=
        match event.network with
        | none => uninitialized
        | some network => network.remotePort.toNat
      url := (event.browser.map BrowserInfo.url).getD []
      eventJson := json }

/-- `store` and its answer; `none` when the process ends because the encoder throws. -/
def store (lib : JsonLib) (s : SqliteStore) (event : Event) (uninitialized : ℤ) :
    Option (SqliteStore × Bool) :=
  if s.failed then some (s, false)
  else
    (pendingWrite lib event uninitialized).map fun w =>
      if s.queue.length ≥ kMaxQueuedWrites then ({ s with dropped := s.dropped + 1 }, false)
      else ({ s with queue := s.queue ++ [w], accepted := s.accepted ++ [w] }, true)

/-- The locked part of an iteration, once the wait is over. -/
def swap (s : SqliteStore) : Option SqliteStore :=
  match s.writer with
  | .waiting =>
      if s.queue = [] then none
      else some { s with queue := s.batch, batch := s.queue, writer := .inserting s.queue }
  | _ => none

/-- One round of the insert loop. A failed insert disables the store and ends the thread. -/
def write (s : SqliteStore) : Option SqliteStore :=
  match s.writer with
  | .inserting (w :: todo) =>
      match writeOne s.table w with
      | none => some { s with failed := true, writer := .returned }
      | some table =>
          some { s with table := table, stored := s.stored + 1, writer := .inserting todo }
  | _ => none

/-- The end of an iteration: the batch keeps its rows. -/
def finish (s : SqliteStore) : Option SqliteStore :=
  match s.writer with
  | .inserting [] => some { s with writer := .waiting }
  | _ => none

/-- The writer returns on shutdown when nothing is queued. -/
def exit (s : SqliteStore) : Option SqliteStore :=
  match s.writer with
  | .waiting => if s.queue = [] ∧ s.shutdown then some { s with writer := .returned } else none
  | _ => none

/-- A step of the capture thread (`store`), of the destructor (`shutdown`) or of the writer. -/
inductive Action where
  | store (event : Event) (uninitialized : ℤ)
  | shutdown
  | swap
  | write
  | finish
  | exit
  deriving DecidableEq

def step (lib : JsonLib) (s : SqliteStore) : Action → Option SqliteStore
  | .store event uninitialized => (s.store lib event uninitialized).map Prod.fst
  | .shutdown => some { s with shutdown := true }
  | .swap => s.swap
  | .write => s.write
  | .finish => s.finish
  | .exit => s.exit

/-- The state after the actions; `none` when one of them is not possible. -/
def run (lib : JsonLib) (s : SqliteStore) : List Action → Option SqliteStore
  | [] => some s
  | a :: actions => (s.step lib a).bind (run lib · actions)

end SqliteStore

end Ezcap
