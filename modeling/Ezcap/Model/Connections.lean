import Mathlib.Data.Finset.Basic
import Mathlib.Data.List.Sort
import Ezcap.Model.Delivery

/-! The life of the server's connections, from `accept_loop`, `client_loop` and `broadcast` of
`unix_socket_server.cpp`. Connections are numbered in the order of `accept4`, and the client
object of a connection has its number; the kernel may give a new connection any
descriptor that is closed. -/

namespace Ezcap.Connections

open Ipc

/-- How far the server has got with a connection. -/
inductive Progress where
  /-- Not accepted yet. -/
  | absent
  /-- Accepted, and not in the map of clients. -/
  | accepted
  /-- In the map, and served by its reader. -/
  | running
  /-- Erased from the map by its reader, and still to be closed. -/
  | erased
  | closed
  deriving DecidableEq, Repr

/-- The descriptors of the process, and the server's map of clients in the order of their
descriptors. -/
structure Table where
  fds : ℕ → Option ℕ := fun _ => none
  /-- The member `fd` of a client. -/
  fd : ℕ → ℕ := fun _ => 0
  progress : ℕ → Progress := fun _ => .absent
  accepted : ℕ := 0
  clients : List (ℕ × ℕ) := []

namespace Table

/-- `accept4` answers with descriptor `f`. -/
def accept (table : Table) (f : ℕ) : Table :=
  { table with
    fds := Function.update table.fds f (some table.accepted)
    fd := Function.update table.fd table.accepted f
    progress := Function.update table.progress table.accepted .accepted
    accepted := table.accepted + 1 }

/-- `clients_[fd] = client`. -/
def register (table : Table) (c : ℕ) : Table :=
  { table with
    clients := (table.clients.filter fun e => e.1 ≠ table.fd c).orderedInsert
      (fun e e' => e.1 ≤ e'.1) (table.fd c, c)
    progress := Function.update table.progress c .running }

/-- `clients_.erase(fd)`. -/
def erase (table : Table) (c : ℕ) : Table :=
  { table with
    clients := table.clients.filter fun e => e.1 ≠ table.fd c
    progress := Function.update table.progress c .erased }

/-- `::close(fd)`. -/
def close (table : Table) (c : ℕ) : Table :=
  { table with
    fds := Function.update table.fds (table.fd c) none
    progress := Function.update table.progress c .closed }

end Table

/-- Where the capture thread is in `broadcast`. -/
inductive Broadcast where
  | idle
  /-- It holds the mutex of the map, and `todo` are the clients it has not looked at. -/
  | scanning (todo subscribers : List ℕ)
  | delivering (encoded : Bytes) (todo : List ℕ)
  deriving DecidableEq

/-- The capture thread is `none`, and `some c` the reader of connection `c`. -/
abbrev Thread : Type := Option ℕ

structure State where
  table : Table := {}
  subscriptions : ℕ → Finset Bytes := fun _ => ∅
  broadcast : Broadcast := .idle
  delivery : Delivery.State ℕ Thread := {}
  /-- Not in the source: the broadcasts that are over. -/
  broadcasts : ℕ := 0
  /-- Not in the source: who had a live subscription when each broadcast looked. -/
  subscribed : ℕ → List ℕ := fun _ => []
  /-- Not in the source: the broadcast to which a message belongs, by the message's number. -/
  origin : ℕ → Option ℕ := fun _ => none
  /-- Not in the source: for every `send`, the connection that got the bytes and the number of
  the message. -/
  received : List (ℕ × ℕ) := []

inductive Action where
  | accept (f : ℕ)
  /-- The peer is not authorized. -/
  | reject (c : ℕ)
  | register (c : ℕ)
  | subscribe (c : ℕ) (id : Bytes)
  | unsubscribe (c : ℕ) (id : Bytes)
  | reply (c : ℕ) (encoded : Bytes)
  | erase (c : ℕ)
  | close (c : ℕ)
  /-- `broadcast` locks the map. -/
  | scan
  /-- It looks at the next client. -/
  | check
  /-- It unlocks the map and encodes the event. -/
  | unlock (encoded : Bytes)
  /-- It calls `deliver` for the next subscriber. -/
  | event
  | finish
  | take (t : Thread)
  | send (t : Thread) (n : ℕ)
  | fail (t : Thread)

/-- The mutex of the map is free. -/
def State.unlocked (s : State) : Bool :=
  match s.broadcast with
  | .scanning _ _ => false
  | _ => true

/-- The second half of an iteration of `accept_loop`; a client too many is closed at once. -/
def register (s : State) (c : ℕ) : State :=
  if s.table.clients.length ≥ kMaxClients then { s with table := s.table.close c }
  else { s with table := s.table.register c }

def check (s : State) (c : ℕ) (todo subscribers : List ℕ) : State :=
  if (s.subscriptions c).Nonempty then
    { s with
      broadcast := .scanning todo (subscribers ++ [c])
      subscribed := Function.update s.subscribed s.broadcasts (s.subscribed s.broadcasts ++ [c]) }
  else { s with broadcast := .scanning todo subscribers }

/-- What `deliver` does for a client, apart from its sends. -/
def deliver (s : State) (a : Delivery.Action ℕ Thread) : Option State :=
  (Delivery.step s.delivery a).map fun delivery => { s with delivery := delivery }

/-- A `send` of thread `t` reaches the connection that has the descriptor now. -/
def send (s : State) (t : Thread) (n : ℕ) : Option State :=
  match s.delivery.phase t with
  | .sending c _ message _ _ =>
      (s.table.fds (s.table.fd c)).bind fun r =>
        (Delivery.step s.delivery (.send t n)).map fun delivery =>
          { s with delivery := delivery, received := s.received ++ [(r, message.number)] }
  | _ => none

def step (s : State) : Action → Option State
  | .accept f => if s.table.fds f = none then some { s with table := s.table.accept f } else none
  | .reject c =>
      if s.table.progress c = .accepted then some { s with table := s.table.close c } else none
  | .register c =>
      if s.table.progress c = .accepted ∧ s.unlocked then some (register s c) else none
  | .subscribe c id =>
      if s.table.progress c = .running then
        some { s with
          subscriptions := Function.update s.subscriptions c (insert id (s.subscriptions c)) }
      else none
  | .unsubscribe c id =>
      if s.table.progress c = .running then
        some { s with
          subscriptions := Function.update s.subscriptions c ((s.subscriptions c).erase id) }
      else none
  | .reply c encoded =>
      if s.table.progress c = .running then deliver s (.push (some c) c encoded) else none
  | .erase c =>
      if s.table.progress c = .running ∧ s.unlocked ∧ s.delivery.phase (some c) = .idle then
        some { s with table := s.table.erase c }
      else none
  | .close c =>
      if s.table.progress c = .erased then some { s with table := s.table.close c } else none
  | .scan =>
      match s.broadcast with
      | .idle => some { s with broadcast := .scanning (s.table.clients.map Prod.snd) [] }
      | _ => none
  | .check =>
      match s.broadcast with
      | .scanning (c :: todo) subscribers => some (check s c todo subscribers)
      | _ => none
  | .unlock encoded =>
      match s.broadcast with
      | .scanning [] subscribers => some { s with broadcast := .delivering encoded subscribers }
      | _ => none
  | .event =>
      match s.broadcast with
      | .delivering encoded (c :: todo) =>
          deliver { s with
            broadcast := .delivering encoded todo
            origin := Function.update s.origin s.delivery.handed.length (some s.broadcasts) }
            (.push none c encoded)
      | _ => none
  | .finish =>
      match s.broadcast with
      | .delivering _ [] =>
          if s.delivery.phase none = .idle then
            some { s with broadcast := .idle, broadcasts := s.broadcasts + 1 }
          else none
      | _ => none
  | .take t => deliver s (.take t)
  | .send t n => send s t n
  | .fail t => deliver s (.fail t)

end Ezcap.Connections
