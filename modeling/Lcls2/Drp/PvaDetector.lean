import Lcls2.Drp.PGPDetector

/-!
# The PVA detector of the DRP

Model of `PvaDetector::_worker`, `process`, `_matchUp` and `_timeout` (`drp/PvaDetector.cc`). The worker thread
and the thread of the PV take turns: a step of the worker is one turn of a loop, and the push of a buffer that
it has popped is a step of its own; a step of the PV is to fill a buffer, or to push it.

* A `TimeStamp` is its `value()`: the comparisons of time stamps are those of the values.
* An `SPSCQueue` is the list of what is in it. PV datagrams stand for themselves as numbers of buffers, PGP
  datagrams as what is in the pebble: the pebble has more buffers than the driver, so that none is overwritten.
* `attached` has the PV datagrams whose payload was copied to a PGP datagram. The payload of a transition is
  left out.
* `arrived` and `sent` have what `Pgp::next` returned and what `_sendToTeb` was called with, and `updates` the
  time stamps that `process` was called with.
-/

namespace Lcls2.Drp
open Lcls2.Eb (TransitionId)

/-- `XtcData::Dgram`, as a PV buffer holds it. -/
structure PvDgram where
  time : Nat
  damage : BitVec 16
  payload : List UInt8
  deriving DecidableEq

/-- `Pds::EbDgram`, as the pebble holds it. -/
structure PgpDgram where
  header : TimingHeader
  damage : BitVec 16
  attached : List PvDgram
  deriving DecidableEq

namespace PgpDgram

/-- The datagram that `Pgp::_handle` makes. -/
def new (header : TimingHeader) : PgpDgram := ⟨header, 0#16, []⟩

/-- `Damage::increase`, for a bit. -/
def increase (dgram : PgpDgram) (v : Nat) : PgpDgram :=
  { dgram with damage := dgram.damage ||| ((1#16 <<< v) &&& 0x0fff#16) }

/-- The payload of a PV datagram is added, with its damage. -/
def attach (dgram : PgpDgram) (pvDg : PvDgram) : PgpDgram where
  header := dgram.header
  damage := dgram.damage ||| (pvDg.damage &&& 0x0fff#16)
  attached := dgram.attached ++ [pvDg]

end PgpDgram

/-- `Damage::MissingData`. -/
def missingData : Nat := 5

/-- `Damage::TimedOut`. -/
def timedOut : Nat := 6

/-- `TimeStamp::to_ns`. -/
def toNs (time : Nat) : Nat := time / 2 ^ 32 * 1000000000 + time % 2 ^ 32

/-- `TimeStamp::from_ns`. -/
def fromNs (nsec : Nat) : Nat := nsec / 1000000000 % 2 ^ 32 * 2 ^ 32 + nsec % 1000000000

/-- `TimeMax`. -/
def timeMax : Nat := 2 ^ 64 - 1

/-- `Parameters`, with the number of buffers in the pool. -/
structure PvaParameters where
  tsMatchDegree : Nat
  msTmo : Nat
  nbuffers : Nat

/-- Where the worker is. -/
inductive PvaMode where
  | idle
  | matchUp (time : Nat)
  | giveBack (time : Nat) (pvDg : Nat) (toTeb : Option PgpDgram)
  | timeout (timestamp : Nat) (toTeb : Option PgpDgram)

/-- Why a thread does not go on. -/
inductive PvaFault where
  | waits
  | busy
  deriving DecidableEq

/-- `PvaDetector`. -/
structure PvaDetector where
  running : Bool
  mode : PvaMode
  pgpQueue : List PgpDgram
  pvQueue : List Nat
  bufferFreelist : List Nat
  filling : Option Nat
  buffers : Nat → PvDgram
  updates : List Nat
  arrived : List TimingHeader
  sent : List PgpDgram

namespace PvaDetector

/-- `_compare`. -/
def compare (tsMatchDegree : Nat) (ts1 ts2 : Nat) : Int :=
  if tsMatchDegree = 0 ∧ ts2 ≠ timeMax then 0
  else if tsMatchDegree = 1 then
    -- the fiducial is masked out
    let ts1m := ts1 - ts1 % 2 ^ 17
    let ts2m := ts2 - ts2 % 2 ^ 17
    if ts1m > ts2m then (if ts1m - ts2m > 10000000 then 1 else 0)
    else if ts2m > ts1m then (if ts2m - ts1m > 10000000 then -1 else 0)
    else 0
  else if ts1 > ts2 then 1
  else if ts2 > ts1 then -1
  else 0

variable (p : PvaParameters) (s : PvaDetector)

/-- The detector after `configure`. -/
def new : PvaDetector where
  running := false
  mode := .idle
  pgpQueue := []
  pvQueue := []
  bufferFreelist := List.range p.nbuffers
  filling := none
  buffers _ := ⟨0, 0#16, []⟩
  updates := []
  arrived := []
  sent := []

/-- `_sendToTeb`. -/
def sendToTeb (dgram : PgpDgram) : PvaDetector := { s with sent := s.sent ++ [dgram] }

/-- `Pgp::next` has returned a datagram. -/
def next (header : TimingHeader) : Except PvaFault PvaDetector :=
  match s.mode with
  | .idle =>
    let s := { s with arrived := s.arrived ++ [header] }
    if header.service = .L1Accept ∨ header.service = .SlowUpdate then
      .ok { s with pgpQueue := s.pgpQueue ++ [.new header], mode := .matchUp header.time }
    else if header.service = .Enable then .ok ({ s with running := true }.sendToTeb (.new header))
    else if header.service = .Disable then
      .ok { s with running := false, mode := .timeout timeMax (some (.new header)) }
    else .ok (s.sendToTeb (.new header))
  | _ => .error .busy

/-- The loop by which `_matchUp` drops all PVs but the last where time stamps are ignored. -/
def dropOldest : List Nat → List Nat → List Nat × List Nat
  | pvDg :: next :: rest, free => dropOldest (next :: rest) (free ++ [pvDg])
  | pvs, free => (pvs, free)

/-- `_handleMatch`. -/
def handleMatch (time : Nat) (pvDg : Nat) (pvs : List Nat) (pgpDg : PgpDgram) (pgps : List PgpDgram) : PvaDetector :=
  if pgpDg.header.service = .L1Accept then
    { s with
      pgpQueue := pgps
      pvQueue := pvs
      mode := .giveBack time pvDg (some (pgpDg.attach (s.buffers pvDg))) }
  else if p.tsMatchDegree = 2 then
    { s with pgpQueue := pgps, pvQueue := pvs, mode := .giveBack time pvDg (some pgpDg) }
  else { s with pgpQueue := pgps }.sendToTeb pgpDg

/-- `_handleYounger`. -/
def handleYounger (pgpDg : PgpDgram) (pgps : List PgpDgram) : PvaDetector :=
  { s with pgpQueue := pgps }.sendToTeb
    (if pgpDg.header.service = TransitionId.L1Accept then pgpDg.increase missingData else pgpDg)

/-- `_handleOlder`. -/
def handleOlder (time : Nat) (pvDg : Nat) (pvs : List Nat) : PvaDetector :=
  { s with pvQueue := pvs, mode := .giveBack time pvDg none }

/-- One turn of the loop of `_matchUp`, after which the events that have waited too long are timed out. -/
def matchUp (time : Nat) : PvaDetector :=
  match s.pvQueue, s.pgpQueue with
  | [], _ | _, [] =>
    { s with mode := .timeout (fromNs ((toNs time + 2 ^ 64 - p.msTmo * 1000000 % 2 ^ 64) % 2 ^ 64)) none }
  | _ :: _, pgpDg :: pgps =>
    let (pvQueue, bufferFreelist) :=
      if p.tsMatchDegree = 0 then dropOldest s.pvQueue s.bufferFreelist else (s.pvQueue, s.bufferFreelist)
    let s := { s with pvQueue, bufferFreelist }
    match s.pvQueue with
    | [] => s
    | pvDg :: pvs =>
      let result := compare p.tsMatchDegree (s.buffers pvDg).time pgpDg.header.time
      if result = 0 then s.handleMatch p time pvDg pvs pgpDg pgps
      else if result > 0 then s.handleYounger pgpDg pgps
      else s.handleOlder time pvDg pvs

/-- A buffer that was popped is pushed to the free list, and a datagram that was matched is sent. -/
def giveBack (time : Nat) (pvDg : Nat) (toTeb : Option PgpDgram) : PvaDetector :=
  { s with
    bufferFreelist := s.bufferFreelist ++ [pvDg]
    sent := s.sent ++ toTeb.toList
    mode := .matchUp time }

/-- The end of `_timeout`, after which a transition that swept the queue is sent. -/
def finish (toTeb : Option PgpDgram) : PvaDetector := { s with mode := .idle, sent := s.sent ++ toTeb.toList }

/-- One turn of the loop of `_timeout`. -/
def timeout (timestamp : Nat) (toTeb : Option PgpDgram) : PvaDetector :=
  match s.pgpQueue with
  | [] => s.finish toTeb
  | dgram :: pgps =>
    if dgram.header.time > timestamp then s.finish toTeb
    else { s with pgpQueue := pgps }.sendToTeb
      (if dgram.header.service = TransitionId.L1Accept then dgram.increase timedOut else dgram)

/-- What the worker does next. -/
def worker : Except PvaFault PvaDetector :=
  match s.mode with
  | .idle => .error .waits
  | .matchUp time => .ok (s.matchUp p time)
  | .giveBack time pvDg toTeb => .ok (s.giveBack time pvDg toTeb)
  | .timeout timestamp toTeb => .ok (s.timeout timestamp toTeb)

/-- `process`, up to the push of the buffer. -/
def process (pvDg : PvDgram) : Except PvaFault PvaDetector :=
  match s.filling with
  | some _ => .error .busy
  | none =>
    let s := { s with updates := s.updates ++ [pvDg.time] }
    if s.running then
      match s.bufferFreelist with
      | [] => .ok s
      | buffer :: rest => .ok { s with
          bufferFreelist := rest
          filling := some buffer
          buffers := Function.update s.buffers buffer pvDg }
    else .ok s

/-- The push at the end of `process`. -/
def push : Except PvaFault PvaDetector :=
  match s.filling with
  | none => .error .waits
  | some buffer => .ok { s with pvQueue := s.pvQueue ++ [buffer], filling := none }

end PvaDetector

/-- What happens. -/
inductive PvaOp where
  | next (header : TimingHeader)
  | worker
  | process (pvDg : PvDgram)
  | push

/-- One step. -/
def PvaDetector.step (p : PvaParameters) (s : PvaDetector) : PvaOp → Except PvaFault PvaDetector
  | .next header => s.next header
  | .worker => s.worker p
  | .process pvDg => s.process pvDg
  | .push => s.push

end Lcls2.Drp
