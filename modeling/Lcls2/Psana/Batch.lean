import Lcls2.Psana.PacketFooter
import Lcls2.Psana.EventBuilder

/-!
# Batches of events

Model of `ProxyEvent.as_bytearray` and `EventBuilder.gen_batches` (`psana/eventbuilder.pyx`) and of
`repack_for_bd` (`psana/psexp/node.py`), on the bytes of the dgrams. A Python `dict` is a list of its
items in the order of their insertion.
-/

namespace Lcls2.Psana
open Lib

/-- `sizeof(Xtc)`. -/
def sizeofXtc : Nat := 12

/-- The size that the header of the dgram at an offset gives: the header and the payload, of which
    `xtc.extent` is the size with an `Xtc`. -/
def dgramSizeAt (view : Bytes) (offset : Nat) : Nat :=
  sizeofDgram + (ofLe (slice view (offset + 20) (offset + 24)) - sizeofXtc)

/-- `Dgram.timestamp` of the bytes of a dgram. -/
def headerTimestamp (d : Bytes) : Nat := ofLe (slice d 0 8)

/-- `Dgram.service` of the bytes of a dgram. -/
def headerService (d : Bytes) : Nat := ofLe (slice d 8 12) / 2 ^ 24 % 16

/-- `Dgram(config=..., view=..., offset=...)`, as bytes. -/
def dgramBytesAt (view : Bytes) (offset : Nat) : Except PacketFault Bytes :=
  if view.length < offset + sizeofDgram then .error .truncated
  else
    let size := dgramSizeAt view offset
    if view.length < offset + size then .error .truncated
    else .ok (slice view offset (offset + size))

/-- The bytes of a dgram: its header gives its size. -/
structure SmdDgram where
  bytes : Bytes
  header : sizeofDgram ≤ bytes.length
  sized : dgramSizeAt bytes 0 = bytes.length

/-- `ProxyEvent`, with the bytes of its dgrams. -/
structure SmdEvent where
  pydgrams : List (Option SmdDgram)
  destination : Int
  service : Nat

namespace SmdEvent

/-- The bytes of an event for each stream, none for a missing dgram. -/
def streams (e : SmdEvent) : List Bytes := e.pydgrams.map fun pydg => pydg.elim [] SmdDgram.bytes

/-- `ProxyEvent.as_bytearray`. -/
def asBytearray (e : SmdEvent) : Except PacketFault Bytes :=
  let evtFooter := e.pydgrams.map (fun pydg => pydg.elim 0 (·.bytes.length)) ++ [e.pydgrams.length]
  if ∀ size ∈ evtFooter, fits size then .ok (e.streams.flatten ++ evtFooter.flatMap (toLe 4))
  else .error .overflow

end SmdEvent

/-- The events of a batch as a `bytearray`, and the event sizes. -/
structure Batch where
  bytes : Bytes
  sizes : List Nat
  deriving DecidableEq

/-- `batch_dict` and `step_dict`: the batches by destination. -/
abbrev BatchDict := List (Int × Batch)

namespace BatchDict

/-- A batch for a destination that has none. -/
def touch (d : BatchDict) (destination : Int) : BatchDict :=
  if d.any (·.1 = destination) then d else d ++ [(destination, ⟨[], []⟩)]

/-- Extending the batch of a destination by an event. -/
def extend (d : BatchDict) (destination : Int) (evt : Bytes) : BatchDict :=
  d.map fun (key, batch) =>
    if key = destination then (key, ⟨batch.bytes ++ evt, batch.sizes ++ [evt.length]⟩)
    else (key, batch)

end BatchDict

/-- `array[idx] = value` for an `array('I')`. -/
def assign (array : List Nat) (idx value : Nat) : Except PacketFault (List Nat) :=
  if fits value then
    if idx < array.length then .ok (array.set idx value) else .error .index
  else .error .overflow

/-- The sizes of the events written to the shared footer array, from `evt_idx` on. -/
def assignSizes (array : List Nat) (evtIdx : Nat) : List Nat → Except PacketFault (List Nat)
  | [] => .ok array
  | size :: sizes => do
    let array ← assign array evtIdx size
    assignSizes array (evtIdx + 1) sizes

/-- The footers of all batches; the footer array is shared and keeps what was written before. -/
def addFooters (array : List Nat) : BatchDict → Except PacketFault BatchDict
  | [] => .ok []
  | (key, batch) :: d =>
    if batch.bytes = [] then do
      let d ← addFooters array d
      .ok ((key, batch) :: d)
    else do
      let array ← assignSizes array 0 batch.sizes
      let array ← assign array batch.sizes.length batch.sizes.length
      let footer := (array.take (batch.sizes.length + 1)).flatMap (toLe 4)
      let d ← addFooters array d
      .ok ((key, { batch with bytes := batch.bytes ++ footer }) :: d)

/-- The loop of `gen_batches` over the events. -/
def addEvents (batchDict stepDict : BatchDict) :
    List SmdEvent → Except PacketFault (BatchDict × BatchDict)
  | [] => .ok (batchDict, stepDict)
  | e :: events => do
    let evt ← e.asBytearray
    let batchDict := (batchDict.touch e.destination).extend e.destination evt
    let stepDict := stepDict.touch e.destination
    let stepDict := if e.service ≠ l1Accept then stepDict.extend e.destination evt else stepDict
    addEvents batchDict stepDict events

/-- `EventBuilder.gen_batches`. -/
def genBatches (events : List SmdEvent) : Except PacketFault (BatchDict × BatchDict) := do
  let (batchDict, stepDict) ← addEvents [] [] events
  let batchDict ← addFooters (List.replicate (maxBatchSize + 1) 0) batchDict
  let stepDict ← addFooters (List.replicate (maxBatchSize + 1) 0) stepDict
  .ok (batchDict, stepDict)

/-- One round of the loop of `repack_for_bd`: the next dgram of each step view, whose offset moves
    behind it. -/
def nextDgrams (cursors : List (Bytes × Nat)) : Except PacketFault (List Bytes × List (Bytes × Nat)) := do
  let dgrams ← cursors.mapM fun cursor => dgramBytesAt cursor.1 cursor.2
  .ok (dgrams, List.zipWith (fun cursor d => (cursor.1, cursor.2 + d.length)) cursors dgrams)

/-- The loop of `repack_for_bd` over the missing steps: the step events as bytes, and their sizes. -/
def missingSteps : Nat → List (Bytes × Nat) → Bytes → List Nat → Except PacketFault (Bytes × List Nat)
  | 0, _, _, _ => .error .fuel
  | fuel + 1, cursors, steps, stepSizes =>
    match cursors with
    | [] => .error .index
    | (view, offset) :: _ =>
      if offset < view.length then do
        let (dgrams, cursors) ← nextDgrams cursors
        let stepPf ← PacketFooter.new dgrams.length
        let stepPf ← stepPf.setSizes 0 (dgrams.map List.length)
        let step := dgrams.flatten ++ stepPf.footer
        missingSteps fuel cursors (steps ++ step) (stepSizes ++ [step.length])
      else .ok (steps, stepSizes)

/-- `repack_for_bd`. The loop reads at least a byte of the first view each time round. -/
def repackForBd (smdBatch : Bytes) (stepViews : List Bytes) : Except PacketFault Bytes :=
  match stepViews with
  | [] => .ok smdBatch
  | view :: _ => do
    let batchPf ← PacketFooter.ofView smdBatch
    let (steps, stepSizes) ← missingSteps (view.length + 1) (stepViews.map (·, 0)) [] []
    let newBatchPf ← PacketFooter.new (batchPf.nPackets + stepSizes.length)
    let newBatchPf ← newBatchPf.setSizes 0 stepSizes
    let sizes ← (List.range batchPf.nPackets).mapM fun idx : Nat => batchPf.getSize idx
    let newBatchPf ← newBatchPf.setSizes stepSizes.length sizes
    .ok (steps ++ smdBatch.take (smdBatch.length - batchPf.footer.length) ++ newBatchPf.footer)

end Lcls2.Psana
