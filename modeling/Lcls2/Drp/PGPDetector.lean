import Lcls2.Eb.EbDgram
import Lcls2.Lib.Run

/-!
# The PGP detector of the DRP

Model of `PGPDetector::reader`, `workerFunc` and `PGPDetector::collector` (`drp/PGPDetector.cc`) with the part
of `EbReceiver::process` (`drp/DrpBase.cc`) that frees the events. The threads take turns: a step is one DMA
buffer of the reader, one event of a worker or of the collector, or one event that is freed.

* `nbuffers` is a power of two, so that `& bufferMask` is `% nbuffers`.
* A DMA buffer is known by the timing header in it, and a datagram in the pebble by the header that it was made
  from. What `det->event` and the trigger primitive put into it is left out.
* An `SPSCQueue` is the list of what is in it.
* `read` has what the reader added to its batches, an event that it marked as broken as `none`, and `handed`
  what the collector did with it: it skipped the event, or handed the datagram to `TebContributor::process`.
-/

namespace Lcls2.Drp
open Lcls2.Eb (TransitionId)

/-- `TimingHeader`. -/
structure TimingHeader where
  evtCounter : Nat
  service : TransitionId
  pulseId : Nat
  time : Nat
  deriving DecidableEq

/-- A DMA buffer, as `dmaReadBulkIndex` returns it. -/
structure Dma where
  size : Nat
  err : Bool
  lane : Fin 8
  timingHeader : TimingHeader

/-- `Parameters`, with the sizes of the memory pool. `timeJump` is the test in doubles for a time that is
    earlier than the last one, or more than a second later. -/
structure PGPParameters where
  nworkers : Nat
  batchSize : Nat
  laneMask : BitVec 8
  nbuffers : Nat
  dmaSize : Nat
  timeJump : Nat → Nat → Bool
  nworkers_pos : 0 < nworkers
  nbuffers_dvd : nbuffers ∣ 2 ^ 24

/-- `PGPEvent`. -/
structure PGPEvent where
  mask : BitVec 8
  buffers : Nat → TimingHeader

namespace PGPEvent

/-- A buffer of a lane is added. -/
def add (event : PGPEvent) (dma : Dma) : PGPEvent where
  mask := event.mask ||| (1#8 <<< dma.lane.val)
  buffers := Function.update event.buffers dma.lane dma.timingHeader

/-- The timing header of the first lane in the event. -/
def timingHeader (event : PGPEvent) : TimingHeader :=
  event.buffers (((List.range 8).find? event.mask.getLsbD).getD 0)

end PGPEvent

/-- `Batch`. -/
structure Batch where
  start : Nat
  size : Nat
  deriving DecidableEq

/-- The indices of the events of a batch. -/
def Batch.indices (nbuffers : Nat) (batch : Batch) : List Nat :=
  (List.range batch.size).map fun i => (batch.start + i) % nbuffers

/-- Why a thread does not go on. -/
inductive PGPFault where
  | dmaOverflowed
  | jumpInEventCounter
  | waits
  deriving DecidableEq

/-- `PGPDetector` and its threads. -/
structure PGPDetector where
  pgpEvents : Nat → PGPEvent
  pebble : Nat → TimingHeader
  batch : Batch
  lastComplete : Nat
  lastTime : Nat
  batchId : Nat
  worker : Nat
  read : List (Option TimingHeader)
  workerInputQueues : Nat → List Batch
  processing : Nat → Option (Batch × Nat)
  workerOutputQueues : Nat → List Batch
  collecting : Option (Batch × Nat)
  collected : Nat
  handed : List (Option TimingHeader)
  sent : List Nat

namespace PGPDetector

/-- A header that stands for memory that nothing was written to. -/
def noHeader : TimingHeader := ⟨0, .ClearReadout, 0, 0⟩

/-- The detector before the reader starts, with `resetEventCounter` done. -/
def new : PGPDetector where
  pgpEvents _ := ⟨0#8, fun _ => noHeader⟩
  pebble _ := noHeader
  batch := ⟨1, 0⟩
  lastComplete := 0
  lastTime := 0
  batchId := 0
  worker := 0
  read := []
  workerInputQueues _ := []
  processing _ := none
  workerOutputQueues _ := []
  collecting := none
  collected := 0
  handed := []
  sent := []

variable (p : PGPParameters) (s : PGPDetector)

/-- `resetEventCounter`. -/
def resetEventCounter : PGPDetector := { s with lastComplete := 0, batch := ⟨1, 0⟩ }

/-- An event is assigned. -/
def setEvent (index : Nat) (event : PGPEvent) : PGPDetector :=
  { s with pgpEvents := Function.update s.pgpEvents index event }

/-- An event is added to the batch. -/
def add (outcome : Option TimingHeader) : PGPDetector :=
  { s with batch := ⟨s.batch.start, s.batch.size + 1⟩, read := s.read ++ [outcome] }

/-- The body of the loop over the events that were skipped. -/
def brokenEvent (e : Nat) : PGPDetector :=
  let brokenEvent := s.pgpEvents (e % p.nbuffers)
  (s.setEvent (e % p.nbuffers) { brokenEvent with mask := 0#8 }).add none

/-- That loop, for so many of them. -/
def brokenEvents : Nat → Nat → PGPDetector → PGPDetector
  | 0, _, s => s
  | count + 1, e, s => brokenEvents count (e + 1) (s.brokenEvent p e)

/-- The batch goes to the worker whose turn it is. -/
def send (timingHeader : TimingHeader) : PGPDetector :=
  { s with
    workerInputQueues := Function.update s.workerInputQueues (s.worker % p.nworkers)
      (s.workerInputQueues (s.worker % p.nworkers) ++ [s.batch])
    worker := s.worker + 1
    batch := ⟨timingHeader.evtCounter % 2 ^ 24 + 1, 0⟩
    batchId := timingHeader.pulseId }

/-- Whether the batch is full, or the event a transition that is not left waiting. -/
def full (timingHeader : TimingHeader) : Prop :=
  (s.batchId ^^^ timingHeader.pulseId) &&& (2 ^ 32 - 1 - (p.batchSize - 1)) ≠ 0 ∨
    (timingHeader.service ≠ .L1Accept ∧ timingHeader.service ≠ .SlowUpdate)

instance (timingHeader : TimingHeader) : Decidable (s.full p timingHeader) := by
  unfold full
  infer_instance

/-- The counter and the time of a complete event are noted. -/
def note (timingHeader : TimingHeader) : PGPDetector :=
  { s with lastComplete := timingHeader.evtCounter % 2 ^ 24, lastTime := timingHeader.time }

/-- What the reader does with a complete event after the events before it. -/
def finish (timingHeader : TimingHeader) : PGPDetector :=
  let s := (s.note timingHeader).add (some timingHeader)
  if s.full p timingHeader then s.send p timingHeader else s

/-- What the reader does with a complete event. -/
def complete (timingHeader : TimingHeader) : Except PGPFault PGPDetector :=
  let evtCounter := timingHeader.evtCounter % 2 ^ 24
  let s := if timingHeader.service = .BeginRun then s.resetEventCounter else s
  if evtCounter ≠ (s.lastComplete + 1) % 2 ^ 24 then
    if timingHeader.service ≠ .L1Accept ∨ p.timeJump s.lastTime timingHeader.time then
      .error .jumpInEventCounter
    else
      -- the counters of the loop have 32 bits
      let count := (evtCounter + 2 ^ 32 - (s.lastComplete + 1)) % 2 ^ 32
      .ok ((brokenEvents p count (s.lastComplete + 1) s).finish p timingHeader)
  else .ok (s.finish p timingHeader)

/-- `PGPDetector::reader`, for one DMA buffer. -/
def reader (dma : Dma) : Except PGPFault PGPDetector :=
  if p.dmaSize < dma.size then .error .dmaOverflowed
  else if dma.err then .ok s
  else
    let current := dma.timingHeader.evtCounter % 2 ^ 24 % p.nbuffers
    let event := (s.pgpEvents current).add dma
    let s := s.setEvent current event
    if event.mask = p.laneMask then s.complete p dma.timingHeader else .ok s

/-- The next thing the worker does: it takes a batch, handles an event, or passes the batch on. -/
def workerFunc (q : Nat) : Except PGPFault PGPDetector :=
  match s.processing q with
  | none =>
    match s.workerInputQueues q with
    | [] => .error .waits
    | batch :: rest => .ok { s with
        workerInputQueues := Function.update s.workerInputQueues q rest
        processing := Function.update s.processing q (some (batch, 0)) }
  | some (batch, i) =>
    if i < batch.size then
      let index := (batch.start + i) % p.nbuffers
      let event := s.pgpEvents index
      .ok { s with
        pebble := if event.mask = 0#8 then s.pebble else Function.update s.pebble index event.timingHeader
        processing := Function.update s.processing q (some (batch, i + 1)) }
    else .ok { s with
      processing := Function.update s.processing q none
      workerOutputQueues := Function.update s.workerOutputQueues q (s.workerOutputQueues q ++ [batch]) }

/-- The next thing the collector does: it takes a batch, handles an event, or goes on to the next worker. -/
def collector : Except PGPFault PGPDetector :=
  match s.collecting with
  | none =>
    match s.workerOutputQueues (s.collected % p.nworkers) with
    | [] => .error .waits
    | batch :: rest => .ok { s with
        workerOutputQueues := Function.update s.workerOutputQueues (s.collected % p.nworkers) rest
        collecting := some (batch, 0) }
  | some (batch, i) =>
    if i < batch.size then
      let index := (batch.start + i) % p.nbuffers
      let event := s.pgpEvents index
      if event.mask = 0#8 then .ok { s with collecting := some (batch, i + 1), handed := s.handed ++ [none] }
      else .ok { s with
        collecting := some (batch, i + 1)
        handed := s.handed ++ [some (s.pebble index)]
        sent := s.sent ++ [index] }
    else .ok { s with collecting := none, collected := s.collected + 1 }

/-- `EbReceiver::process`, for the first event that has not been freed. -/
def free : Except PGPFault PGPDetector :=
  match s.sent with
  | [] => .error .waits
  | index :: rest =>
    let event := s.pgpEvents index
    .ok { s with pgpEvents := Function.update s.pgpEvents index { event with mask := 0#8 }, sent := rest }

end PGPDetector

/-- What the threads do. -/
inductive PGPOp where
  | reader (dma : Dma)
  | worker (q : Nat)
  | collector
  | free

/-- One step. -/
def PGPDetector.step (p : PGPParameters) (s : PGPDetector) : PGPOp → Except PGPFault PGPDetector
  | .reader dma => s.reader p dma
  | .worker q => s.workerFunc p q
  | .collector => s.collector p
  | .free => s.free

/-- A worker or the collector takes a step. -/
def PGPDetector.Moves (p : PGPParameters) (s t : PGPDetector) : Prop :=
  (∃ q, s.workerFunc p q = .ok t) ∨ s.collector p = .ok t

end Lcls2.Drp
