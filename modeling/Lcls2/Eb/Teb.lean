import Lcls2.Eb.BatchManager
import Lcls2.Eb.EventBuilder
import Lcls2.Eb.ResultDgram
import Lcls2.Lib.Region

/-!
# The trigger event builder

Model of the application side of `Pds::Eb::Teb` (`eb/teb.cc`): `process` makes a result for every
event that this TEB is to respond to, `_monitor` gives it a monitor buffer, and `_tryPost` cuts the
results, which lie in consecutive slots of the batch region, into batches for the contributors.

* The region is `mem`; a pointer to a result is its slot.
* The trigger, the prescaler's period and the outcome of each `post` are parameters. A trigger sets the
  decision bits of a result.
* What is posted is kept in `posted` as it is at that moment. A batch carries the results that became
  its end, with the contributors each is for: the history `results`, which no definition reads.
* A `throw`, an `abort` or an access out of range stops the TEB.
-/

namespace Lcls2.Eb
open Lcls2.Lib

/-- The part of `EbParams` that `Teb` reads, with the number of `_l3Links`. -/
structure TebParams where
  partition : Nat
  id : Nat
  rogs : BitVec 16
  receivers : List (BitVec 64)
  links : Nat
  maxEntries : BitVec 32
  numBuffers : BitVec 32
  numMrqs : Nat
  numMebEvBufs : Nat

/-- What the trigger decides, how many monitor buffers it reserves for a readout group, and how the
    posts to the contributors go. -/
structure TebApp where
  event : EbEvent → ResultDgram → BitVec 32
  rogReserve : Nat → Nat → Nat → Nat
  prescale : BitVec 32
  postRc : Nat → Int

/-- `ImmData`: the fields of the word that comes with a message. -/
def ImmData.flg (imm : BitVec 32) : BitVec 32 := imm >>> 30
def ImmData.src (imm : BitVec 32) : Nat := ((imm >>> 24) &&& 0x3f#32).toNat
def ImmData.idx (imm : BitVec 32) : Nat := (imm &&& 0xffffff#32).toNat

/-- `ImmData::rsp(flg) == ImmData::Response`. -/
def ImmData.response (imm : BitVec 32) : Bool := ImmData.flg imm &&& 2#32 = 0#32

/-- A result with the contributors it is for. -/
abbrev Routed := ResultDgram × BitVec 64

/-- `Batch` of `teb.cc`, with the history of its results. -/
structure TebBatch where
  start : Nat
  end_ : Nat
  dsts : BitVec 64
  idx : Nat
  results : List Routed

/-- A posted batch: the contributors it was posted to, and what was posted. -/
structure Posted where
  start : Nat
  dsts : List Nat
  entries : List ResultDgram
  results : List Routed

/-- The reasons for a `throw`, an `abort` or an access out of range, and a loop over the MEBs that has not ended. -/
inductive TebFault where
  | didntAdvance | noGroup | noLink | postFailed | noMeb | outOfRounds
  deriving DecidableEq, Repr

/-- `Teb`; `acked` are the events whose transition buffers were given back, and `sends` counts the posts. -/
structure Teb where
  mem : Nat → ResultDgram
  eventIdx : BitVec 32
  batch : Option TebBatch
  monBufLists : List (List (BitVec 32))
  rogReserved : Nat → Nat
  iMeb : Nat
  wrtCounter : BitVec 32
  pidPrv : Nat
  posted : List Posted
  acked : List EbEvent
  sends : Nat
  eventCount : UInt64
  trCount : UInt64
  batchCount : UInt64
  writeCount : UInt64
  monitorCount : UInt64
  nMonCount : UInt64
  mebCount : Nat → UInt64
  prescaleCount : UInt64

namespace TebParams

/-- `_batMan`. -/
def batMan (p : TebParams) : BatchManager := ⟨p.maxEntries⟩

/-- `Teb::_receivers`. -/
def receiversOf (p : TebParams) (groups : BitVec 16) : Option (BitVec 64) :=
  ((List.range 16).filter (groups.getLsbD ·)).foldlM
    (fun receivers group => (p.receivers[group]?).map (receivers ||| ·)) 0#64

end TebParams

namespace Teb

/-- `Fifo::push`: a full list stays as it is. -/
def pushMonBuf (size : Nat) (buf : BitVec 32) (lst : List (BitVec 32)) : List (BitVec 32) :=
  if size ≤ lst.length then lst else lst ++ [buf]

/-- The loop of `Teb::_monitor` that takes in the buffers the MEBs offer. -/
def pollMonBufs (p : TebParams) (s : Teb) : List (BitVec 32) → Except TebFault Teb
  | [] => .ok s
  | imm :: polled =>
    match s.monBufLists[ImmData.src imm]? with
    | none => .error .noMeb
    | some lst =>
      pollMonBufs p
        { s with monBufLists := s.monBufLists.set (ImmData.src imm) (pushMonBuf p.numMebEvBufs imm lst) }
        polled

/-- The loop of `Teb::_monitor` over the MEBs. A round either takes a buffer or clears a bit of `dsts`, which may
    be clear already; `n` bounds the rounds. -/
def assignMonBuf (roundRobin : Bool) : Nat → BitVec 32 → Teb → ResultDgram → Except TebFault (Teb × ResultDgram)
  | 0, dsts, s, rdg =>
    if dsts = 0#32 then .ok ({ s with nMonCount := s.nMonCount + 1 }, rdg.setMonitor 0#32)
    else .error .outOfRounds
  | n + 1, dsts, s, rdg =>
    if dsts = 0#32 then .ok ({ s with nMonCount := s.nMonCount + 1 }, rdg.setMonitor 0#32)
    else
      let iMeb := if roundRobin then s.iMeb else dsts.ctz.toNat
      let s := if roundRobin then { s with iMeb := (iMeb + 1) % s.monBufLists.length } else s
      let dsts := dsts &&& ~~~(1#32 <<< iMeb)
      match s.monBufLists[iMeb]? with
      | none => .error .noMeb
      | some lst =>
        match lst with
        | [] => assignMonBuf roundRobin n dsts s rdg
        | buffer :: rest =>
          if lst.length > s.rogReserved iMeb then
            .ok ({ s with
                monBufLists := s.monBufLists.set iMeb rest
                monitorCount := s.monitorCount + 1
                mebCount := Function.update s.mebCount iMeb (s.mebCount iMeb + 1) },
              { rdg with monBufNo := buffer })
          else assignMonBuf roundRobin n dsts s rdg

/-- `Teb::_monitor`. -/
def monitor (p : TebParams) (s : Teb) (polled : List (BitVec 32)) (rdg : ResultDgram) :
    Except TebFault (Teb × ResultDgram) := do
  let s ← s.pollMonBufs p polled
  let allMebs := (1#32 <<< p.numMrqs) - 1#32
  let dsts := rdg.monitor &&& allMebs
  assignMonBuf (dsts = allMebs) 32 dsts s rdg

/-- The loop of `Teb::_post` over the contributors. -/
def sendTo (app : TebApp) (p : TebParams) : List Nat → Teb → Except TebFault Teb
  | [], s => .ok s
  | dst :: dsts, s =>
    if p.links ≤ dst then .error .noLink
    else if app.postRc s.sends < 0 then .error .postFailed
    else sendTo app p dsts { s with sends := s.sends + 1 }

/-- `Teb::_post`. -/
def post (app : TebApp) (p : TebParams) (s : Teb) (b : TebBatch) : Except TebFault Teb := do
  let s := { s with mem := Function.update s.mem b.end_ (s.mem b.end_).setEOL }
  let s ← sendTo app p (sources b.dsts) s
  pure { s with
    posted := s.posted ++ [{
      start := b.start
      dsts := sources b.dsts
      entries := slots s.mem b.start (b.end_ - b.start + 1)
      results := b.results }]
    batchCount := s.batchCount + 1 }

/-- `Teb::flush`. -/
def flush (app : TebApp) (p : TebParams) (s : Teb) : Except TebFault Teb :=
  match s.batch with
  | none => .ok s
  | some b => do
    let s ← s.post app p b
    pure { s with batch := none }

/-- `_batch = {dgram, dsts, eventIdx}`. -/
def newBatch (s : Teb) (dsts : BitVec 64) (idx : Nat) : TebBatch where
  start := idx
  end_ := idx
  dsts
  idx
  results := [(s.mem idx, dsts)]

/-- `_batch.end = dgram; _batch.dsts |= dsts`. The history gains what becomes the end. -/
def append (s : Teb) (b : TebBatch) (dsts : BitVec 64) (idx : Nat) : TebBatch :=
  { b with
    end_ := idx
    dsts := b.dsts ||| dsts
    results := if b.end_ = idx then b.results else b.results ++ [(s.mem idx, dsts)] }

/-- The part of `Teb::_tryPost` for an expired batch: it is posted and the result starts the next. -/
def expire (app : TebApp) (p : TebParams) (s : Teb) (b : TebBatch) (dsts : BitVec 64) (idx : Nat)
    (expired : Bool) : Except TebFault (Teb × TebBatch) :=
  if expired then do
    let s ← s.post app p b
    pure (s, s.newBatch dsts idx)
  else .ok (s, b)

/-- The part of `Teb::_tryPost` once there is a batch. -/
def addToBatch (app : TebApp) (p : TebParams) (s : Teb) (b : TebBatch) (dsts : BitVec 64) (idx : Nat) :
    Except TebFault Teb :=
  let dgram := s.mem idx
  let flush := flushes dgram.toEbDgram
  let expired := p.batMan.expired dgram.pulseId (s.mem b.start).pulseId
  if !expired && !flush then .ok { s with batch := some (s.append b dsts idx) }
  else do
    let (s, b) ← s.expire app p b dsts idx expired
    if flush then
      let s ← s.post app p (s.append b dsts idx)
      pure { s with batch := none }
    else pure { s with batch := some b }

/-- On wrapping, the batch at the end of the region is posted. -/
def wrap (app : TebApp) (p : TebParams) (s : Teb) (idx : Nat) : Except TebFault Teb :=
  if idx = 0 then s.flush app p else .ok s

/-- `Teb::_tryPost`. -/
def tryPost (app : TebApp) (p : TebParams) (s : Teb) (dsts : BitVec 64) (idx : Nat) :
    Except TebFault Teb := do
  let s ← s.wrap app p idx
  s.addToBatch app p (s.batch.getD (s.newBatch dsts idx)) dsts idx

/-- The prescale: when the trigger does not record an event, every so many are recorded anyway. -/
def handlePrescale (app : TebApp) (s : Teb) (rdg : ResultDgram) : Teb × ResultDgram :=
  if rdg.persist then (s, rdg)
  else if s.wrtCounter = 0#32 then
    ({ s with prescaleCount := s.prescaleCount + 1, wrtCounter := app.prescale }, rdg.setPrescale true)
  else ({ s with wrtCounter := s.wrtCounter - 1#32 }, rdg)

/-- The part of `Teb::process` that lets the trigger decide on an event. -/
def decideEvent (app : TebApp) (p : TebParams) (s : Teb) (event : EbEvent) (polled : List (BitVec 32))
    (rdg : ResultDgram) : Except TebFault (Teb × ResultDgram) :=
  if rdg.isEvent then
    let rdg := { rdg with data := app.event event rdg }
    let (s, rdg) := s.handlePrescale app rdg
    let s := if rdg.persist then { s with writeCount := s.writeCount + 1 } else s
    if rdg.monitor ≠ 0#32 then s.monitor p polled rdg else .ok (s, rdg)
  else .ok (s, rdg)

/-- The part of `Teb::process` for a "selected" TEB. -/
def respond (app : TebApp) (p : TebParams) (s : Teb) (event : EbEvent) (polled : List (BitVec 32))
    (idx : Nat) : Except TebFault Teb := do
  let dgram := event.creator
  let (s, rdg) ← s.decideEvent app p event polled (.new dgram p.id)
  match p.receiversOf dgram.readoutGroups with
  | none => .error .noGroup
  | some receivers =>
    let s := { s with mem := Function.update s.mem idx rdg }
    s.tryPost app p (receivers &&& ~~~event.remaining) idx

/-- A "non-selected" TEB flushes whatever batch there is by the logic of a "selected" one. -/
def flushIfDue (app : TebApp) (p : TebParams) (s : Teb) (dgram : EbDgram) : Except TebFault Teb :=
  match s.batch with
  | none => .ok s
  | some b =>
    if p.batMan.expired dgram.pulseId (s.mem b.start).pulseId || flushes dgram then s.flush app p
    else .ok s

/-- The part of `Teb::process` for a "non-selected" TEB: the transition buffers are given back. -/
def acknowledge (app : TebApp) (p : TebParams) (s : Teb) (event : EbEvent) : Except TebFault Teb := do
  let s ← s.flushIfDue app p event.creator
  pure { s with acked := s.acked ++ [event] }

/-- `Teb::process`. -/
def process (app : TebApp) (p : TebParams) (s : Teb) (event : EbEvent) (polled : List (BitVec 32)) :
    Except TebFault Teb :=
  let dgram := event.creator
  if dgram.pulseId ≤ s.pidPrv then .error .didntAdvance
  else
    let s := { s with
      pidPrv := dgram.pulseId
      eventCount := if dgram.isEvent then s.eventCount + 1 else s.eventCount
      trCount := if dgram.isEvent then s.trCount else s.trCount + 1 }
    let idx := (s.eventIdx &&& (p.numBuffers - 1#32)).toNat
    let s := { s with eventIdx := s.eventIdx + 1#32 }
    if ImmData.response event.immData then s.respond app p event polled idx
    else s.acknowledge app p event

/-- What the event builder calls: `process` for an event, with what the monitor requests' transport
    returns during it, and `flush` on a timeout. -/
inductive Op where
  | process (event : EbEvent) (polled : List (BitVec 32))
  | flush

/-- One such call. -/
def step (app : TebApp) (p : TebParams) (s : Teb) : Op → Except TebFault Teb
  | .process event polled => s.process app p event polled
  | .flush => s.flush app p

end Teb

end Lcls2.Eb
