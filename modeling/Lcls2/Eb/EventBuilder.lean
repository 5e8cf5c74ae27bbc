import Lcls2.Eb.EbDgram
import Lcls2.Lib.Run
import Lcls2.Lib.Scan
import Lcls2.Lib.Slab

/-!
# The event builder

Model of `Pds::Eb::EventBuilder` (`eb/EventBuilder.cc`), of its `EbEpoch` and `EbEvent` objects and
of the `GenericPool`s they are allocated from.

* Objects live at an address of their pool. The lookup tables and the cursor of a batch hold
  addresses; reading one that is not in the pending lists is the fault `dangling`.
* The doubly linked lists are lists in forward order; `Lib.scanForward` and `Lib.scanReverse` are the
  walks over them.
* The virtual functions of the application are the history `calls`; `contract` and `fixup` are those
  of `EbAppBase`.
* Every reading of the monotonic clock takes the next value of the oracle `clock`.
* A `throw` stops the builder; the fault carries the state it left.
-/

namespace Lcls2.Eb
open Lcls2.Lib

/-- `Pds::GenericPool`: the queue of free entries, by address, and the two counters. -/
structure GenericPool where
  sizeofObject : Nat
  numberofObjects : Nat
  entries : List Nat
  numberofAllocs : UInt64
  numberofFrees : UInt64

/-- `GenericPool::GenericPool` and `Pool::populate`. -/
def GenericPool.new (sizeofObject numberofObjects : Nat) : GenericPool where
  sizeofObject
  numberofObjects
  entries := List.range numberofObjects
  numberofAllocs := 0
  numberofFrees := 0

/-- `Pool::alloc`. -/
def GenericPool.alloc (p : GenericPool) (size : Nat) : Option (Nat × GenericPool) :=
  if size > p.sizeofObject then none
  else
    match p.entries with
    | [] => none
    | entry :: entries => some (entry, { p with entries, numberofAllocs := p.numberofAllocs + 1 })

/-- `Pool::free`. -/
def GenericPool.free (p : GenericPool) (entry : Nat) : GenericPool :=
  { p with entries := p.entries ++ [entry], numberofFrees := p.numberofFrees + 1 }

/-- The free entries of a pool that is there. -/
def freeEntries (pool : Option GenericPool) : List Nat := pool.elim [] (·.entries)

/-- `1ul << src`. -/
def srcBit (src : Nat) : BitVec 64 := 1#64 <<< src

/-- The sources of a bit list, lowest first. -/
def sources (bits : BitVec 64) : List Nat := (List.range 64).filter (bits.getLsbD ·)

/-- `Pds::Eb::EbEvent`. The contributions array is the creator and what was added to it. -/
structure EbEvent where
  addr : Nat
  size : Nat
  remaining : BitVec 64
  contract : BitVec 64
  t0 : Int
  immData : BitVec 32
  damage : BitVec 16
  creator : EbDgram
  added : List EbDgram
  deriving DecidableEq

/-- `EbEvent::begin` to `EbEvent::end`. -/
def EbEvent.contributions (e : EbEvent) : List EbDgram := e.creator :: e.added

/-- `EbEvent::sequence`. -/
def EbEvent.sequence (e : EbEvent) : Nat := e.creator.pulseId

/-- `Pds::Eb::EbEpoch`. -/
structure EbEpoch where
  addr : Nat
  key : Nat
  pending : List EbEvent

/-- A call of one of the virtual functions of the application. -/
inductive Call where
  | fixup (event : EbEvent) (srcId : Nat) (age : Int)
  | process (event : EbEvent)
  | flush
  deriving DecidableEq

/-- The event that a call gives to the application to process. -/
def Call.processed : Call → Option EbEvent
  | .process event => some event
  | _ => none

/-- What the application supplies: the contractors of every readout group (`EbAppBase::_contract`)
    and the readings of the clock. -/
structure EbApp where
  contractors : Nat → BitVec 64
  clock : Nat → Int

/-- `EbAppBase::contract`. -/
def EbApp.contract (app : EbApp) (ctrb : EbDgram) : BitVec 64 :=
  ((List.range 16).filter (ctrb.readoutGroups.getLsbD ·)).foldl
    (fun contract group => contract ||| app.contractors group) 0#64

/-- The members of `EventBuilder` other than the pending list, the history of calls, and the number
    of clock readings taken. -/
structure EbTables where
  tLastFlush : Int
  mask : BitVec 64
  epochFreelist : Option GenericPool
  epochLut : Nat → Option Nat
  epochLutSize : Nat
  eventFreelist : Option GenericPool
  eventLut : Nat → Option Nat
  eventLutSize : Nat
  eventTimeout : Int
  tmoEvtCnt : Nat
  fixupCnt : Nat
  missing : BitVec 64
  age : Int
  ebTime : Int
  arrTime : Nat → Int
  calls : List Call
  reads : Nat

/-- `Pds::Eb::EventBuilder`. -/
structure EventBuilder where
  pending : List EbEpoch
  tables : EbTables

/-- Why the builder stopped: a `throw` of the source, or an access outside the lists. -/
inductive EbFault where
  | noEpoch | noEvent | notInContract | notRemaining | dangling | overrun
  deriving DecidableEq

/-- A fault with the state it left. -/
structure Thrown where
  fault : EbFault
  state : EventBuilder

/-- `sizeof(EbEpoch)`, `sizeof(EbEvent)` and the size of a pointer. -/
def sizeofEbEpoch : Nat := 40
def sizeofEbEvent : Nat := 64
def sizeofPtr : Nat := 8

/-- `EventBuilder::EventBuilder`; the timeout is given in ms and kept in ns. -/
def EventBuilder.new (timeout : Nat) : EventBuilder where
  pending := []
  tables :=
    { tLastFlush := 0
      mask := 0#64
      epochFreelist := none
      epochLut := fun _ => none
      epochLutSize := 0
      eventFreelist := none
      eventLut := fun _ => none
      eventLutSize := 0
      eventTimeout := timeout * 1000000
      tmoEvtCnt := 0
      fixupCnt := 0
      missing := 0#64
      age := 0
      ebTime := 0
      arrTime := fun _ => 0
      calls := []
      reads := 0 }

/-- `EventBuilder::initialize`; `none` when it refuses the duration. -/
def EventBuilder.initialized (s : EventBuilder) (epochs entries sources : Nat)
    (duration : BitVec 64) : Option EventBuilder :=
  if duration &&& (duration - 1#64) ≠ 0#64 then none
  else
    let t := { s.tables with mask := ~~~((duration - 1#64) &&& pidMask) }
    let nep := 2 * epochs % 2 ^ 32
    let nev := 2 * epochs * entries % 2 ^ 32
    let stale : Option GenericPool → Nat → Bool := fun pool n =>
      pool.all (fun p => decide (n ≠ p.numberofObjects))
    if stale t.epochFreelist nep || stale t.eventFreelist nev then
      some { s with
        tables := { t with
          epochFreelist := some (.new (sizeofEbEpoch + entries * sizeofPtr) nep)
          eventFreelist := some (.new (sizeofEbEvent + sources * sizeofPtr) nev)
          epochLutSize := nep
          eventLutSize := nev } }
    else some { s with tables := t }

namespace EbTables

/-- The epoch a pulse ID belongs to: `key & _mask`. -/
def epochKey (t : EbTables) (pid : Nat) : Nat := (BitVec.ofNat 64 pid &&& t.mask).toNat

/-- `EventBuilder::_epIndex`. -/
def epIndex (t : EbTables) (key : Nat) : Nat := (key >>> t.mask.ctz.toNat) % t.epochLutSize

/-- `EventBuilder::_evIndex`. -/
def evIndex (t : EbTables) (key : Nat) : Nat := key % t.eventLutSize

/-- The events the application was given to process, oldest first. -/
def processed (t : EbTables) : List EbEvent :=
  t.calls.filterMap Call.processed

/-- `fast_monotonic_clock::now`. -/
def now (app : EbApp) (t : EbTables) : Int × EbTables :=
  (app.clock t.reads, { t with reads := t.reads + 1 })

/-- The table part of `EventBuilder::_discard`. -/
def discard (t : EbTables) (epoch : EbEpoch) : EbTables :=
  { t with
    epochLut := clear t.epochLut (t.epIndex epoch.key) epoch.addr
    epochFreelist := t.epochFreelist.map fun p : GenericPool => p.free epoch.addr }

/-- `EbAppBase::fixup`: the contribution is marked as dropped. -/
def markDropped (event : EbEvent) : EbEvent :=
  { event with damage := event.damage ||| (1#16 <<< 4) }

/-- `EventBuilder::_fixup`: one call of `fixup` for every source that is missing. -/
def fixup (t : EbTables) (event : EbEvent) (age : Int) : EbEvent × EbTables :=
  (markDropped event,
    { t with
      missing := event.remaining
      calls := t.calls ++ (sources event.remaining).map (Call.fixup event · age)
      fixupCnt := if age < t.eventTimeout then t.fixupCnt + 1 else t.fixupCnt
      tmoEvtCnt := if age < t.eventTimeout then t.tmoEvtCnt else t.tmoEvtCnt + 1 })

/-- `EventBuilder::_retire` but for the unlinking, which the walk does. -/
def retire (app : EbApp) (t : EbTables) (event : EbEvent) : EbTables :=
  let t := { t with calls := t.calls ++ [Call.process event] }
  let (now, t) := t.now app
  { t with
    age := now - event.t0
    eventLut := clear t.eventLut (t.evIndex event.sequence) event.addr
    eventFreelist := t.eventFreelist.map fun p : GenericPool => p.free event.addr }

end EbTables

/-- The return from the middle of `EventBuilder::_flush(due)`: an incomplete event that is not of the
    contract of a complete due event waits until it times out. -/
def waits (due : EbEvent) (now : Int) (t : EbTables) (event : EbEvent) : Bool :=
  event.remaining ≠ 0#64 ∧ (event.contract ≠ due.contract ∨ due.remaining ≠ 0#64) ∧
    now - event.t0 < t.eventTimeout

/-- The fix-up, if the event is incomplete, and the retirement of an event in
    `EventBuilder::_flush(due)`. -/
def release (app : EbApp) (now : Int) (t : EbTables) (event : EbEvent) : EbTables :=
  if event.remaining ≠ 0#64 then
    let (event, t) := t.fixup event (now - event.t0)
    t.retire app event
  else t.retire app event

/-- The inner loop of `EventBuilder::_flush(due)`. The flag says that the walk returned. -/
def flushEvents (app : EbApp) (due : EbEvent) (now : Int) :
    List EbEvent → EbTables → List EbEvent × EbTables × Bool
  | [], t => ([], t, false)
  | event :: next, t =>
    if waits due now t event then (event :: next, t, true)
    else if event.addr = due.addr then (next, release app now t event, true)
    else flushEvents app due now next (release app now t event)

/-- The outer loop of `EventBuilder::_flush(due)`. -/
def flushEpochs (app : EbApp) (due : EbEvent) (now : Int) :
    List EbEpoch → EbTables → List EbEpoch × EbTables
  | [], t => ([], t)
  | epoch :: rest, t =>
    let (events, t, returned) := flushEvents app due now epoch.pending t
    if returned then ({ epoch with pending := events } :: rest, t)
    else
      let (rest, t) := flushEpochs app due now rest t
      ({ epoch with pending := events } :: rest, t)

/-- The walk of `EventBuilder::_flushBefore` over the epochs before its argument, nearest first. -/
def discardEmpty : List EbEpoch → EbTables → List EbEpoch × EbTables
  | [], t => ([], t)
  | epoch :: before, t =>
    if epoch.pending.isEmpty then discardEmpty before (t.discard epoch)
    else
      let (before, t) := discardEmpty before t
      (epoch :: before, t)

namespace EventBuilder

/-- All pending events in list order. -/
def events (s : EventBuilder) : List EbEvent := s.pending.flatMap (·.pending)

/-- All events there have been: those that were processed and those that are pending. -/
def history (s : EventBuilder) : List EbEvent := s.tables.processed ++ s.events

/-- `EventBuilder::_flush(due)`. -/
def flushDue (app : EbApp) (s : EventBuilder) (due : EbEvent) : EventBuilder :=
  let (now, t) := s.tables.now app
  let (pending, tables) := flushEpochs app due now s.pending { t with tLastFlush := now }
  { pending, tables }

/-- `EventBuilder::_flush()`. -/
def flushAll (app : EbApp) (s : EventBuilder) : EventBuilder :=
  match s.pending.getLast? with
  | none => s
  | some epoch =>
    match epoch.pending.getLast? with
    | none => s
    | some event => s.flushDue app event

/-- `EventBuilder::_tryFlush`. -/
def tryFlush (app : EbApp) (s : EventBuilder) : EventBuilder :=
  let (now, tables) := s.tables.now app
  let s := { s with tables }
  if now - tables.tLastFlush > 100000000 then s.flushAll app else s

/-- `EventBuilder::expired`. -/
def expired (app : EbApp) (s : EventBuilder) : EventBuilder :=
  let flush := { s with tables := { s.tables with calls := s.tables.calls ++ [Call.flush] } }
  match s.pending with
  | [] => flush
  | epoch :: _ => if epoch.pending.isEmpty then flush else s.flushAll app

/-- `EventBuilder::_flushBefore` and `EventBuilder::_epoch`: the gap is where the new epoch goes. An
    epoch right before the gap is kept; at the front of the list the walk starts from the tail. -/
def newEpoch (s : EventBuilder) (key : Nat) (before next : List EbEpoch) :
    Except Thrown (EventBuilder × EbEpoch) :=
  let (before, next, t) :=
    match before with
    | [] =>
      let (next, t) := discardEmpty next.reverse s.tables
      ([], next.reverse, t)
    | epoch :: before =>
      let (before, t) := discardEmpty before s.tables
      (epoch :: before, next, t)
  match t.epochFreelist.bind (·.alloc sizeofEbEpoch) with
  | none => .error ⟨.noEpoch, ⟨before.reverse ++ next, t⟩⟩
  | some (addr, pool) =>
    let epoch : EbEpoch := { addr, key, pending := [] }
    let index := t.epIndex key
    let t := { t with
      epochFreelist := some pool
      epochLut := if t.epochLut index = none then Function.update t.epochLut index (some addr)
        else t.epochLut }
    .ok (⟨before.reverse ++ epoch :: next, t⟩, epoch)

/-- The walk of `EventBuilder::_match` over the pending epochs, from the tail. -/
def matchScan (s : EventBuilder) (key : Nat) : Except Thrown (EventBuilder × EbEpoch) :=
  match scanReverse EbEpoch.key key s.pending.reverse [] with
  | .hit _ epoch _ => .ok (s, epoch)
  | .gap before next => s.newEpoch key before next

/-- `EventBuilder::_match`. -/
def matchEpoch (s : EventBuilder) (inKey : Nat) : Except Thrown (EventBuilder × EbEpoch) :=
  let key := s.tables.epochKey inKey
  match s.tables.epochLut (s.tables.epIndex key) with
  | none => s.matchScan key
  | some addr =>
    match s.pending.find? (·.addr = addr) with
    | none => .error ⟨.dangling, s⟩
    | some entry => if entry.key = key then .ok (s, entry) else s.matchScan key

/-- Writing an event object back to where it is linked. -/
def setEvent (s : EventBuilder) (event : EbEvent) : EventBuilder :=
  { s with
    pending := s.pending.map fun epoch =>
      { epoch with pending := epoch.pending.map fun e => if e.addr = event.addr then event else e } }

/-- Linking a list of events into an epoch. -/
def setPending (s : EventBuilder) (epoch : Nat) (events : List EbEvent) : EventBuilder :=
  { s with
    pending := s.pending.map fun ep =>
      if ep.addr = epoch then { ep with pending := events } else ep }

/-- `EbEvent::_add`. -/
def add (s : EventBuilder) (event : EbEvent) (ctrb : EbDgram) :
    Except Thrown (EventBuilder × EbEvent) :=
  let remaining := event.remaining &&& ~~~srcBit ctrb.src
  let event' := { event with
    added := event.added ++ [ctrb]
    size := event.size + ctrb.sizeofPayload
    remaining }
  if remaining = event.remaining then .error ⟨.notRemaining, s.setEvent event'⟩
  else .ok (s.setEvent event', event')

/-- `EventBuilder::_event` and `EbEvent::EbEvent`: the new event goes into the gap. -/
def newEvent (app : EbApp) (s : EventBuilder) (epoch : Nat) (ctrb : EbDgram)
    (before next : List EbEvent) (imm : BitVec 32) (t0 : Int) :
    Except Thrown (EventBuilder × EbEvent) :=
  match s.tables.eventFreelist.bind (·.alloc sizeofEbEvent) with
  | none => .error ⟨.noEvent, s⟩
  | some (addr, pool) =>
    let s := { s with tables := { s.tables with eventFreelist := some pool } }
    let contract := app.contract ctrb
    let remaining := contract &&& ~~~srcBit ctrb.src
    if remaining = contract then .error ⟨.notInContract, s⟩
    else
      let event : EbEvent :=
        { addr, size := ctrb.sizeofPayload, remaining, contract, t0, immData := imm,
          damage := 0#16, creator := ctrb, added := [] }
      let s := s.setPending epoch (before.reverse ++ event :: next)
      let index := s.tables.evIndex ctrb.pulseId
      .ok ({ s with
        tables := { s.tables with
          eventLut := Function.update s.tables.eventLut index (some addr) } }, event)

/-- The walk of `EventBuilder::_insert` over the events of an epoch from the cursor. The list head as
    cursor stands for a list that is not walked at all. -/
def insertScan (app : EbApp) (s : EventBuilder) (epoch : Nat) (ctrb : EbDgram)
    (after : Option Nat) (imm : BitVec 32) (t0 : Int) : Except Thrown (EventBuilder × EbEvent) :=
  match s.pending.find? (·.addr = epoch) with
  | none => .error ⟨.dangling, s⟩
  | some ep =>
    match after with
    | none => s.newEvent app epoch ctrb [] ep.pending imm t0
    | some cursor =>
      let (before, next) := ep.pending.span (·.addr ≠ cursor)
      if next.isEmpty then .error ⟨.dangling, s⟩
      else
        match scanForward EbEvent.sequence ctrb.pulseId before.reverse next with
        | .hit _ event _ => s.add event ctrb
        | .gap before next => s.newEvent app epoch ctrb before next imm t0

/-- `EventBuilder::_insert`. -/
def insert (app : EbApp) (s : EventBuilder) (epoch : Nat) (ctrb : EbDgram) (after : Option Nat)
    (imm : BitVec 32) (t0 : Int) : Except Thrown (EventBuilder × EbEvent) :=
  match s.tables.eventLut (s.tables.evIndex ctrb.pulseId) with
  | none => s.insertScan app epoch ctrb after imm t0
  | some addr =>
    match s.events.find? (·.addr = addr) with
    | none => .error ⟨.dangling, s⟩
    | some event =>
      if event.sequence = ctrb.pulseId then s.add event ctrb
      else s.insertScan app epoch ctrb after imm t0

/-- What `EventBuilder::process` does after a contribution was inserted: a complete event of another
    contract than the due event flushes the latter, and becomes due itself. -/
def settle (app : EbApp) (s : EventBuilder) (event : EbEvent) (due : Option EbEvent) :
    EventBuilder × Option EbEvent :=
  if event.remaining = 0#64 then
    match due with
    | none => (s, some event)
    | some d => if event.contract ≠ d.contract then (s.flushDue app d, some event) else (s, some event)
  else (s, due)

/-- The loop of `EventBuilder::process` over a batch. It yields the last event, the due event and the
    last contribution. -/
def processLoop (app : EbApp) (epoch : Nat) (t0 : Int) :
    List EbDgram → EventBuilder → Option Nat → Option EbEvent → BitVec 32 →
    Except Thrown (EventBuilder × EbEvent × Option EbEvent × EbDgram)
  | [], s, _, _, _ => .error ⟨.overrun, s⟩
  | ctrb :: batch, s, cursor, due, imm =>
    match s.insert app epoch ctrb cursor imm t0 with
    | .error t => .error t
    | .ok (s, event) =>
      let (s, due) := s.settle app event due
      if ctrb.isEOL then .ok (s, event, due, ctrb)
      else processLoop app epoch t0 batch s (some event.addr) due (imm + 1#32)

/-- The end of `EventBuilder::process`: the flush and the two times it keeps. -/
def finish (app : EbApp) (s : EventBuilder) (event : EbEvent) (due : Option EbEvent)
    (ctrb : EbDgram) (t0 : Int) : EventBuilder :=
  let s :=
    match due with
    | some d => s.flushDue app d
    | none => s.tryFlush app
  let (t1, t) := s.tables.now app
  { s with
    tables := { t with
      arrTime := Function.update t.arrTime ctrb.src (t0 - event.t0)
      ebTime := t1 - t0 } }

/-- `EventBuilder::process`. -/
def process (app : EbApp) (s : EventBuilder) (batch : List EbDgram) (imm : BitVec 32) :
    Except Thrown EventBuilder :=
  let (t0, tables) := s.tables.now app
  let s := { s with tables }
  match batch.head? with
  | none => .error ⟨.overrun, s⟩
  | some ctrb =>
    match s.matchEpoch ctrb.pulseId with
    | .error t => .error t
    | .ok (s, epoch) =>
      match processLoop app epoch.addr t0 batch s (epoch.pending.head?.map (·.addr)) none imm with
      | .error t => .error t
      | .ok (s, event, due, ctrb) => .ok (s.finish app event due ctrb t0)

/-- The calls made from outside: `process` for a batch, `expired` on a timeout. -/
inductive Op where
  | process (batch : List EbDgram) (imm : BitVec 32)
  | expired

/-- One call from outside. -/
def step (app : EbApp) (s : EventBuilder) : Op → Except Thrown EventBuilder
  | .process batch imm => s.process app batch imm
  | .expired => .ok (s.expired app)

end EventBuilder

end Lcls2.Eb
