import Lcls2.Psana.StepHistory

/-!
# Serving the BigData nodes

Model of the main loop of `EventBuilderNode.start` (`psana/psexp/node.py`). A step takes the loop from
one wait to the next: a chunk arrives, the batches of a build are there, or a rank is ready. The
dictionary of the batches that are left is the events of the build and the keys that are left.
-/

namespace Lcls2.Psana
open Lib

/-- Where the loop waits: for the next build; for a rank that takes the batch of destination 0; for
    the ranks of the keys that are left; or, after an invalid destination, for the next chunk. -/
inductive Serving where
  | idle
  | any (evts : List SmdEvent)
  | named (evts : List SmdEvent) (keys : List Int)
  | left

/-- What comes in: a chunk, the next build of the chunk, or the request of a rank. -/
inductive ServeOp where
  | chunk
  | build (evts : List SmdEvent)
  | ready (rank : Nat)

/-- What stops the loop: input that it does not wait for, or a fault in packing. -/
inductive ServeFault where
  | outOfTurn
  | packing (fault : PacketFault)

/-- The state of `EventBuilderNode.start`. -/
structure BdServer where
  nBdNodes : Nat
  node : EventBuilderNode
  waitingBds : List Nat
  serving : Serving

namespace BdServer

/-- The start of the loop. -/
def new (nBdNodes nConfigs : Nat) : BdServer :=
  ⟨nBdNodes, .new (nBdNodes + 1) nConfigs, [], .idle⟩

/-- Sending the batch of a key to a rank. -/
def send (s : BdServer) (rank : Nat) (evts : List SmdEvent) (key : Int) :
    Except ServeFault BdServer :=
  match s.node.sendBatch rank evts key with
  | .error fault => .error (.packing fault)
  | .ok node => .ok { s with node }

/-- The loop over a copy of `waiting_bds`. -/
def sendWaiting (evts : List SmdEvent) :
    List Nat → List Int → BdServer → Except ServeFault (List Int × BdServer)
  | [], keys, s => .ok (keys, s)
  | destRank :: copiedWaitingBds, keys, s =>
    if (destRank : Int) ∈ keys then do
      let s ← s.send destRank evts destRank
      let left := { s with waitingBds := s.waitingBds.erase destRank }
      sendWaiting evts copiedWaitingBds (keys.erase destRank) left
    else sendWaiting evts copiedWaitingBds keys s

/-- `while smd_batch_dict`, up to the next request. -/
def serve (s : BdServer) (evts : List SmdEvent) (keys : List Int) : Except ServeFault BdServer := do
  let (keys, s) ← sendWaiting evts s.waitingBds keys s
  .ok { s with serving := if keys = [] then .idle else .named evts keys }

/-- A build whose batches have the given keys. -/
def serveBuild (s : BdServer) (evts : List SmdEvent) (keys : List Int) :
    Except ServeFault BdServer :=
  if 0 ∈ keys then
    match s.waitingBds.getLast? with
    | some rank => { s with waitingBds := s.waitingBds.dropLast }.send rank evts 0
    | none => .ok { s with serving := .any evts }
  else if ∃ key ∈ keys, (s.nBdNodes : Int) < key then .ok { s with serving := .left }
  else s.serve evts keys

/-- A rank that is ready while the keys are left. -/
def serveRank (s : BdServer) (evts : List SmdEvent) (keys : List Int) (rank : Nat) :
    Except ServeFault BdServer :=
  if (rank : Int) ∈ keys then do
    let s ← s.send rank evts rank
    s.serve evts (keys.erase rank)
  else { s with waitingBds := s.waitingBds ++ [rank] }.serve evts keys

/-- From one wait to the next. -/
def step (s : BdServer) : ServeOp → Except ServeFault BdServer
  | .chunk =>
    match s.serving with
    | .idle | .left => .ok { s with serving := .idle }
    | _ => .error .outOfTurn
  | .build evts =>
    match s.serving with
    | .idle =>
      match genBatches evts with
      | .error fault => .error (.packing fault)
      | .ok (smdBatchDict, _) => s.serveBuild evts (smdBatchDict.map (·.1))
    | _ => .error .outOfTurn
  | .ready rank =>
    match s.serving with
    | .any evts => { s with serving := .idle }.send rank evts 0
    | .named evts keys => s.serveRank evts keys rank
    | _ => .error .outOfTurn

end BdServer

end Lcls2.Psana
