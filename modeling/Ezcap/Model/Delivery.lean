import Mathlib.Data.Fintype.Defs
import Ezcap.Model.Ipc

/-! `deliver` and `send_all` of `unix_socket_server.cpp`, at the level of single calls of `send`:
the queue of a client is filled and taken under its mutex, and sent without it. Threads `T`
deliver to clients `C`. -/

namespace Ezcap.Delivery

open StdString Ipc

/-- A text to be sent, newline included. -/
structure Message where
  /-- Not in the source: the number of the call of `deliver`. -/
  number : ℕ
  text : Bytes
  deriving DecidableEq, Repr

variable {C T : Type}

/-- Where a thread is in `deliver`. -/
inductive Phase (C : Type) where
  | idle
  /-- Its message is in the queue of `c`, which it has not taken yet. -/
  | queued (c : C)
  /-- Of the `total` messages in `to_send` it is at `message`, of which `sent` bytes are sent. -/
  | sending (c : C) (total : ℕ) (message : Message) (sent : ℕ) (rest : List Message)
  deriving DecidableEq

structure State (C T : Type) where
  outQueue : C → List Message := fun _ => []
  phase : T → Phase C := fun _ => .idle
  droppedEvents : UInt64 := 0
  /-- What the sockets have accepted. -/
  stream : C → Bytes := fun _ => []
  /-- Not in the source: the calls of `deliver` so far. -/
  handed : List (C × Message) := []
  /-- Not in the source: the messages whose last byte was sent. -/
  completed : C → List Message := fun _ => []

inductive Action (C T : Type) where
  /-- The call of `deliver` and its first scope. -/
  | push (t : T) (c : C) (encoded : Bytes)
  /-- Its second scope: the queue is swapped into `to_send`. -/
  | take (t : T)
  /-- One `send` that accepts `n` bytes. -/
  | send (t : T) (n : ℕ)
  /-- One `send` that fails other than by a signal. -/
  | fail (t : T)

/-- The thread goes on with the remaining messages of its batch. -/
def start (c : C) (total : ℕ) : List Message → Phase C
  | [] => .idle
  | message :: rest => .sending c total message 0 rest

variable [DecidableEq C] [DecidableEq T]

def push (s : State C T) (t : T) (c : C) (encoded : Bytes) : State C T :=
  let message : Message := ⟨s.handed.length, encoded ++ cstr "\n"⟩
  if (s.outQueue c).length ≥ kMaxOutgoingQueue then
    { s with
      handed := s.handed ++ [(c, message)]
      outQueue := Function.update s.outQueue c []
      droppedEvents := s.droppedEvents + 1 }
  else
    { s with
      handed := s.handed ++ [(c, message)]
      outQueue := Function.update s.outQueue c (s.outQueue c ++ [message])
      phase := Function.update s.phase t (.queued c) }

def take (s : State C T) (t : T) (c : C) : State C T :=
  { s with
    outQueue := Function.update s.outQueue c []
    phase := Function.update s.phase t (start c (s.outQueue c).length (s.outQueue c)) }

/-- `n` more bytes of the message are accepted; the next one follows after its last byte. -/
def send (s : State C T) (t : T) (c : C) (total : ℕ) (message : Message) (sent : ℕ)
    (rest : List Message) (n : ℕ) : State C T :=
  let s := { s with
    stream := Function.update s.stream c (s.stream c ++ (message.text.drop sent).take n) }
  if sent + n = message.text.length then
    { s with
      phase := Function.update s.phase t (start c total rest)
      completed := Function.update s.completed c (s.completed c ++ [message]) }
  else { s with phase := Function.update s.phase t (.sending c total message (sent + n) rest) }

/-- The whole batch is counted as dropped. -/
def fail (s : State C T) (t : T) (total : ℕ) : State C T :=
  { s with
    droppedEvents := s.droppedEvents + UInt64.ofNat total
    phase := Function.update s.phase t .idle }

def step (s : State C T) : Action C T → Option (State C T)
  | .push t c encoded =>
      match s.phase t with
      | .idle => some (push s t c encoded)
      | _ => none
  | .take t =>
      match s.phase t with
      | .queued c => some (take s t c)
      | _ => none
  | .send t n =>
      match s.phase t with
      | .sending c total message sent rest =>
          if 1 ≤ n ∧ sent + n ≤ message.text.length then
            some (send s t c total message sent rest n)
          else none
      | _ => none
  | .fail t =>
      match s.phase t with
      | .sending _ total _ _ _ => some (fail s t total)
      | _ => none

end Ezcap.Delivery
