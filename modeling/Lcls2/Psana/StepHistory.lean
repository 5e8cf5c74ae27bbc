import Lcls2.Psana.Batch

/-!
# The step history

Model of `StepHistory` and of the way `EventBuilderNode` uses it (`psana/psexp/node.py`). Clients are the
ranks from 1 on.
-/

namespace Lcls2.Psana
open Lib

/-- `StepHistory`. -/
structure StepHistory where
  nSmds : Nat
  bufs : List Bytes
  sendHistory : List (List Nat)
  deriving DecidableEq

/-- Extending each buffer by its view. -/
def extendEach : List Bytes → List Bytes → Except PacketFault (List Bytes)
  | bufs, [] => .ok bufs
  | [], _ :: _ => .error .index
  | buf :: bufs, view :: views => do
    let bufs ← extendEach bufs views
    .ok ((buf ++ view) :: bufs)

/-- Adding the sizes of the views to the sent offsets. -/
def addEach : List Nat → List Bytes → Except PacketFault (List Nat)
  | sent, [] => .ok sent
  | [], _ :: _ => .error .index
  | offset :: sent, view :: views => do
    let sent ← addEach sent views
    .ok ((offset + view.length) :: sent)

namespace StepHistory

/-- `StepHistory.__init__`. -/
def new (clientSize nSmds : Nat) : StepHistory where
  nSmds := nSmds
  bufs := List.replicate nSmds []
  sendHistory := List.replicate (clientSize - 1) (List.replicate nSmds 0)

/-- The offsets sent to a client; rank 0 has no send history. -/
def sentTo (h : StepHistory) (client : Nat) : Except PacketFault (List Nat) :=
  match client with
  | 0 => .error .index
  | idx + 1 =>
    match h.sendHistory[idx]? with
    | none => .error .index
    | some sent => .ok sent

/-- `StepHistory.extend_buffers`, where the views are the step data of the streams. -/
def extendBuffers (h : StepHistory) (views : List Bytes) (client : Nat) :
    Except PacketFault StepHistory := do
  let sent ← h.sentTo client
  let bufs ← extendEach h.bufs views
  let sent ← addEach sent views
  .ok { h with bufs := bufs, sendHistory := h.sendHistory.set (client - 1) sent }

/-- `StepHistory.extend_buffers`, where the views are events. -/
def extendEvents (h : StepHistory) (client : Nat) : List Bytes → Except PacketFault StepHistory
  | [] => .ok h
  | evt :: evts => do
    let pf ← PacketFooter.ofView evt
    if pf.nPackets ≠ h.nSmds then .error .assertion
    else do
      let dgrams ← pf.splitPackets
      let h ← h.extendBuffers dgrams client
      h.extendEvents client evts

/-- `StepHistory.get_buffer`. -/
def getBuffer (h : StepHistory) (client : Nat) : Except PacketFault (List Bytes × StepHistory) :=
  if h.nSmds = 0 then .ok ([], h)
  else do
    let sent ← h.sentTo client
    let views := List.zipWith (fun buf offset => if offset < buf.length then buf.drop offset else [])
      h.bufs sent
    let sent := List.zipWith (fun buf offset => if offset < buf.length then buf.length else offset)
      h.bufs sent
    .ok (views, { h with sendHistory := h.sendHistory.set (client - 1) sent })

end StepHistory

/-- `EventBuilderNode` with the messages it has sent to `BigData` nodes. -/
structure EventBuilderNode where
  stepHist : StepHistory
  messages : List (Nat × Bytes)

/-- What `EventBuilderNode.start` does to the history: the batch of a destination goes to a client,
    or, when there are no more chunks, only the missing steps. -/
inductive NodeOp where
  | batch (client : Nat) (evts : List SmdEvent) (destination : Int)
  | missing (client : Nat)

namespace EventBuilderNode

/-- `EventBuilderNode.__init__`. -/
def new (bdSize nConfigs : Nat) : EventBuilderNode := ⟨.new bdSize nConfigs, []⟩

/-- `dict[key]`. -/
def item (d : BatchDict) (key : Int) : Except PacketFault Batch :=
  match d.find? (·.1 = key) with
  | none => .error .index
  | some (_, batch) => .ok batch

/-- Updating the history with the steps of a batch that is on its way. -/
def extendSteps (h : StepHistory) (client nsteps : Nat) (stepBatch : Bytes) :
    Except PacketFault StepHistory :=
  if 0 < nsteps ∧ 0 < stepBatch.length then do
    let stepPf ← PacketFooter.ofView stepBatch
    let evts ← stepPf.splitPackets
    h.extendEvents client evts
  else .ok h

/-- The part of `start` and `_send_to_dest` that sends the batch of a destination to a client; `evts`
    are the events of the build. -/
def sendBatch (s : EventBuilderNode) (client : Nat) (evts : List SmdEvent) (destination : Int) :
    Except PacketFault EventBuilderNode := do
  let (smdBatchDict, stepBatchDict) ← genBatches evts
  let smdBatch ← item smdBatchDict destination
  let (missing, stepHist) ← s.stepHist.getBuffer client
  let message ← repackForBd smdBatch.bytes missing
  let stepBatch ← item stepBatchDict destination
  let nsteps := evts.countP fun e => e.service ≠ l1Accept
  let stepHist ← extendSteps stepHist client nsteps stepBatch.bytes
  .ok ⟨stepHist, s.messages ++ [(client, message)]⟩

/-- The part of `start` that sends the missing steps after the last chunk; an empty message is not
    sent. -/
def sendMissing (s : EventBuilderNode) (client : Nat) : Except PacketFault EventBuilderNode := do
  let (missing, stepHist) ← s.stepHist.getBuffer client
  let message ← repackForBd [] missing
  .ok ⟨stepHist, if message = [] then s.messages else s.messages ++ [(client, message)]⟩

/-- One step of the node towards the history. -/
def step (s : EventBuilderNode) : NodeOp → Except PacketFault EventBuilderNode
  | .batch client evts destination => s.sendBatch client evts destination
  | .missing client => s.sendMissing client

end EventBuilderNode

end Lcls2.Psana
