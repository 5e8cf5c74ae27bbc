import Lcls2.Lib.Run
import Lcls2.Lib.Stock

/-!
# Event buffers in shared memory

Model of how `XtcMonitorServer` (`psalg/shmem/XtcMonitorServer.cc`) and its clients (`ShmemClient.cc`) pass the indices
of the event buffers on through message queues: `_send` and the stealing on `Enable` in the thread that calls `events`,
`routine` with `_clearDest` and `_moveQueue` in the task thread, and `get` and `free` in the clients.

A step is one operation on a message queue or on `_msgDest`, so that the threads and the clients interleave between any
two of them; `_moveQueue` finds a queue empty in the step in which it would receive. A message that a thread has
received and not sent on is in its hands. In serial mode a client returns a buffer to the output queue of the next
client, in distributed mode to the input queue of the server.

In serial mode `routine` goes past the last entry of `_myOutputEvQueue` where all of these queues are full. What it
finds there is taken not to be a queue, so that this send fails like the others and the index is gone.

The datagrams, the transitions and the discovery of clients are left out, and so is a change of the mode.
-/

namespace Lcls2.Shmem
open Lib

/-- Where the index of an event buffer can be: in a queue, with a client, or in the hands of the thread that calls
    `events` or of `routine`. -/
inductive Place where
  | input
  | request
  | shuffle
  | output (queue : Nat)
  | client (slot : Nat)
  | events
  | routine
  deriving DecidableEq

/-- What the thread that calls `events` does next. -/
inductive EventsAt where
  | idle
  /-- `_send` looks for a buffer that it can steal, for the `i`th time. -/
  | stealing (i : Nat)
  /-- `_send` has received an index. -/
  | clearing
  /-- `_send` has cleared the destination. -/
  | shuffling
  /-- `_moveQueue` empties an output queue. -/
  | moving (queue : Nat)
  /-- `_moveQueue` has received an index. -/
  | moved (queue : Nat)
  /-- `_moveQueue` has sent an index. -/
  | unassigning (queue j : Nat)
  deriving DecidableEq

/-- What `routine` does next. -/
inductive RoutineAt where
  | polling
  /-- The buffers that clients have returned are received. -/
  | accepting
  /-- One has been received. -/
  | requesting
  /-- An event has been received from the shuffle queue, and is sent for the `i`th time. -/
  | dispatching (i : Nat)
  /-- It has been sent. -/
  | sent (j queue : Nat)
  /-- A client is retired: `_clearDest` empties the input queue, or the request queue. -/
  | draining (slot : Nat) (input : Bool)
  /-- `_clearDest` clears the destination of what it has received. -/
  | restoring (slot : Nat) (input : Bool)
  /-- `_clearDest` sends it back. -/
  | resending (slot : Nat) (input : Bool)
  /-- `_moveQueue` empties the client's output queue. -/
  | reclaiming (slot : Nat)
  /-- `_moveQueue` has received an index. -/
  | reclaimed (slot : Nat)
  /-- `_moveQueue` has sent an index. -/
  | unassigning (slot j : Nat)
  /-- The buffers with the client as destination are looked for. -/
  | recovering (slot j : Nat)
  /-- One has been found, and is sent to the input queue. -/
  | returning (slot j : Nat)
  /-- It has been sent. -/
  | recovered (slot j : Nat)
  deriving DecidableEq

/-- A place for a client: the client in it is gone once it has closed its socket. -/
inductive Slot where
  | free
  | connected
  | closed
  deriving DecidableEq

/-- The parameters of a server. -/
structure ServerParams where
  numberOfEvBuffers : Nat
  numberOfEvQueues : Nat
  serial : Bool

/-- The state of a server and of its clients. -/
structure EventServer where
  stock : Stock Place Nat
  msgDest : Nat → Option Nat
  slots : Nat → Slot
  nsteals : Nat
  ievt : Nat
  events : EventsAt
  routine : RoutineAt

/-- What happens next. -/
inductive ServerAction where
  /-- `events` is called with an `L1Accept`. -/
  | send
  /-- `events` is called with an `Enable` for which a buffer is found. -/
  | enable
  /-- The thread that calls `events` goes on. -/
  | events
  /-- `routine` finds something in its pipe, the input queue, the shuffle queue or a socket. -/
  | initializeClient
  | accept
  | dispatch
  | retire (slot : Nat)
  /-- `routine` goes on. -/
  | routine
  /-- A client gets an event, frees one or goes away. -/
  | get (slot : Nat)
  | free (slot j : Nat)
  | close (slot : Nat)
  deriving DecidableEq

/-- Why a step is not taken. -/
inductive ServerFault where
  | notPossible
  deriving DecidableEq

section steps
variable (prms : ServerParams) (s : EventServer)

/-- `mq_maxmsg`. -/
def ServerParams.maxmsg : Place → Option Nat
  | .input | .request | .shuffle => some prms.numberOfEvBuffers
  | .output _ => some (prms.numberOfEvBuffers / prms.numberOfEvQueues)
  | _ => none

/-- Whether a queue takes another message. -/
def EventServer.hasRoom (p : Place) : Bool := (prms.maxmsg p).all fun n => (s.stock p).length < n

/-- `mq_timedsend` of an index from one place to another. Where there is no room it is gone. -/
def EventServer.send (p q : Place) (j : Nat) : EventServer :=
  { s with stock := if s.hasRoom prms q then s.stock.pass p q j else s.stock.take p j }

/-- The start of `_send`. -/
def EventServer.sendEvent : EventServer :=
  match s.stock .request with
  | [] => { s with events := .stealing 0 }
  | j :: _ => { s with stock := s.stock.pass .request .events j, events := .clearing }

/-- The thread that calls `events` goes on. -/
def EventServer.eventsStep : Except ServerFault EventServer :=
  match s.events with
  | .idle => .error .notPossible
  | .stealing i =>
    let iq := (i + s.nsteals) % 2 ^ 32 % prms.numberOfEvQueues
    if i < prms.numberOfEvQueues then
      match s.stock (.output iq) with
      | [] => .ok { s with events := .stealing (i + 1) }
      | j :: _ =>
        .ok { s with
          stock := s.stock.pass (.output iq) .events j, nsteals := (s.nsteals + 1) % 2 ^ 32, events := .clearing }
    else .ok { s with nsteals := (s.nsteals + 1) % 2 ^ 32, events := .idle }
  | .clearing =>
    match s.stock .events with
    | [] => .error .notPossible
    | j :: _ => .ok { s with msgDest := Function.update s.msgDest j none, events := .shuffling }
  | .shuffling =>
    match s.stock .events with
    | [] => .error .notPossible
    | j :: _ => .ok { s.send prms .events .shuffle j with events := .idle }
  | .moving q =>
    if q < prms.numberOfEvQueues then
      match s.stock (.output q) with
      | [] => .ok { s with events := .moving (q + 1) }
      | j :: _ => .ok { s with stock := s.stock.pass (.output q) .events j, events := .moved q }
    else .ok { s with events := .idle }
  | .moved q =>
    match s.stock .events with
    | [] => .error .notPossible
    | j :: _ =>
      .ok { s.send prms .events .input j with
        events := if s.hasRoom prms .input then .unassigning q j else .moving q }
  | .unassigning q j => .ok { s with msgDest := Function.update s.msgDest j none, events := .moving q }

/-- `_initialize_client` takes the first free place. -/
def EventServer.initializeClient : EventServer :=
  match (List.range prms.numberOfEvQueues).find? fun q => s.slots q = .free with
  | none => s
  | some q => { s with slots := Function.update s.slots q .connected }

/-- The queue that `_clearDest` is called with. -/
def cleared (input : Bool) : Place := if input then .input else .request

/-- `routine` goes on. -/
def EventServer.routineStep : Except ServerFault EventServer :=
  match s.routine with
  | .polling => .error .notPossible
  | .accepting =>
    match s.stock .input with
    | [] => .ok { s with routine := .polling }
    | j :: _ => .ok { s with stock := s.stock.pass .input .routine j, routine := .requesting }
  | .requesting =>
    match s.stock .routine with
    | [] => .error .notPossible
    | j :: _ => .ok { s.send prms .routine .request j with routine := .accepting }
  | .dispatching i =>
    match s.stock .routine with
    | [] => .error .notPossible
    | j :: _ =>
      if prms.serial then
        if i < prms.numberOfEvQueues then
          if s.hasRoom prms (.output i) then
            .ok { s with stock := s.stock.pass .routine (.output i) j, routine := .sent j i }
          else .ok { s with routine := .dispatching (i + 1) }
        -- no queue is left, and nobody keeps the index
        else .ok { s with stock := s.stock.take .routine j, routine := .polling }
      else if i < prms.numberOfEvQueues then
        let oc := s.ievt % prms.numberOfEvQueues
        let s := { s with ievt := (s.ievt + 1) % 2 ^ 32 }
        if s.hasRoom prms (.output oc) then
          .ok { s with stock := s.stock.pass .routine (.output oc) j, routine := .sent j oc }
        else .ok { s with routine := .dispatching (i + 1) }
      else .ok { s.send prms .routine .input j with routine := .polling }
  | .sent j q => .ok { s with msgDest := Function.update s.msgDest j (some q), routine := .polling }
  | .draining q input =>
    match s.stock (cleared input) with
    | [] => .ok { s with routine := .restoring q input }
    | j :: _ => .ok { s with stock := s.stock.pass (cleared input) .routine j }
  | .restoring q input =>
    match s.stock .routine with
    | [] => .ok { s with routine := if input then .draining q false else .reclaiming q }
    | j :: _ => .ok { s with msgDest := Function.update s.msgDest j none, routine := .resending q input }
  | .resending q input =>
    match s.stock .routine with
    | [] => .error .notPossible
    | j :: _ => .ok { s.send prms .routine (cleared input) j with routine := .restoring q input }
  | .reclaiming q =>
    match s.stock (.output q) with
    | [] => .ok { s with routine := .recovering q 0 }
    | j :: _ => .ok { s with stock := s.stock.pass (.output q) .routine j, routine := .reclaimed q }
  | .reclaimed q =>
    match s.stock .routine with
    | [] => .error .notPossible
    | j :: _ =>
      .ok { s.send prms .routine .input j with
        routine := if s.hasRoom prms .input then .unassigning q j else .reclaiming q }
  | .unassigning q j => .ok { s with msgDest := Function.update s.msgDest j none, routine := .reclaiming q }
  | .recovering q j =>
    if j < prms.numberOfEvBuffers then
      .ok { s with routine := if s.msgDest j = some q then .returning q j else .recovering q (j + 1) }
    else
      .ok { s with
        stock := Function.update s.stock (.client q) [], slots := Function.update s.slots q .free, routine := .polling }
  | .returning q j =>
    if s.hasRoom prms .input then
      -- whoever has the index, it is the client's no longer
      .ok { s with stock := s.stock.pass (.client q) .input j, routine := .recovered q j }
    else .ok { s with routine := .recovering q (j + 1) }
  | .recovered q j =>
    .ok { s with msgDest := Function.update s.msgDest j none, routine := .recovering q (j + 1) }

/-- The queue to which a client returns its buffers. -/
def ServerParams.returnQueue (slot : Nat) : Place :=
  if prms.serial && decide (slot + 1 < prms.numberOfEvQueues) then .output (slot + 1) else .input

/-- The steps of the threads and of the clients. -/
def EventServer.step : ServerAction → Except ServerFault EventServer
  | .send => if s.events = .idle then .ok s.sendEvent else .error .notPossible
  | .enable => if s.events = .idle then .ok { s with events := .moving 0 } else .error .notPossible
  | .events => s.eventsStep prms
  | .initializeClient => if s.routine = .polling then .ok (s.initializeClient prms) else .error .notPossible
  | .accept => if s.routine = .polling then .ok { s with routine := .accepting } else .error .notPossible
  | .dispatch =>
    if s.routine = .polling then
      match s.stock .shuffle with
      | [] => .error .notPossible
      | j :: _ => .ok { s with stock := s.stock.pass .shuffle .routine j, routine := .dispatching 0 }
    else .error .notPossible
  | .retire q =>
    if s.routine = .polling ∧ s.slots q = .closed then .ok { s with routine := .draining q true }
    else .error .notPossible
  | .routine => s.routineStep prms
  | .get q =>
    if s.slots q = .connected then
      match s.stock (.output q) with
      | [] => .error .notPossible
      | j :: _ => .ok { s with stock := s.stock.pass (.output q) (.client q) j }
    else .error .notPossible
  | .free q j =>
    if s.slots q = .connected ∧ j ∈ s.stock (.client q) then .ok (s.send prms (.client q) (prms.returnQueue q) j)
    else .error .notPossible
  | .close q =>
    if s.slots q = .connected then .ok { s with slots := Function.update s.slots q .closed } else .error .notPossible

end steps

/-- A server after `_init`, with all indices in the input queue. -/
def EventServer.init (prms : ServerParams) : EventServer where
  stock := fun p => if p = .input then List.range prms.numberOfEvBuffers else []
  msgDest := fun _ => none
  slots := fun _ => .free
  nsteals := 0
  ievt := 0
  events := .idle
  routine := .polling

/-- Every index is in exactly one place. -/
def EventServer.Conserved (prms : ServerParams) (s : EventServer) : Prop :=
  s.stock.Spread (Finset.range prms.numberOfEvBuffers)

end Lcls2.Shmem
