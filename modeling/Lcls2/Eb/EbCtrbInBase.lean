import Lcls2.Eb.ResultDgram
import Lcls2.Eb.TebContributor

/-!
# Matching results with inputs

Model of `Pds::Eb::EbCtrbInBase` (`eb/EbCtrbInBase.cc`): results batches come from the TEBs and are
matched, in pulse ID order, with the input batches that `TebContributor` pushed on `_pending`.

* A pointer into a batch is a `Cursor`: its slot and the datagrams from there to the end of the batch.
  Reading behind the last is the fault `overrun`.
* `_matchUp` is a loop that runs while the other thread pushes. One round of it is `iterate`; the local
  variable `inputs` of the loop is the member `_inputs`, and `looping` says that the loop has not ended.
* `process`, which the DRP overrides, is the history `processed` of its arguments.
* A `throw` or a failed `assert` stops the receiver.
-/

namespace Lcls2.Eb
open Lcls2.Lib

/-- A pointer to a datagram of a batch. -/
structure Cursor (δ : Type) where
  adx : Nat
  chain : List δ
  deriving DecidableEq

/-- What a pointer leads to, with the slots. -/
def Cursor.entries {δ : Type} (c : Cursor δ) : List (δ × Nat) := c.chain.zipIdx c.adx

/-- The reasons for a `throw`, a failed `assert` or a read behind the end of a batch. -/
inductive CtrbFault where
  | resultDidntAdvance | inputDidntAdvance | assertion | overrun
  deriving DecidableEq, Repr

/-- `EbCtrbInBase`, with the queue `_pending` of its `TebContributor`. -/
structure EbCtrbInBase where
  pending : List (Cursor EbDgram)
  inputs : Option (Cursor EbDgram)
  deferred : List (Cursor ResultDgram)
  iPidPrv : Nat
  looping : Bool
  processed : List (ResultDgram × Nat)
  batchCount : UInt64
  eventCount : UInt64
  missing : UInt64
  bypassCount : UInt64
  noProgCount : UInt64
  prvNPCnt : UInt64

/-- `ResultDgram result(*inputs, 0); result.persist(true); result.setEOL()`. -/
def bypassResult (input : EbDgram) : ResultDgram := ((ResultDgram.new input 0).setPersist true).setEOL

namespace EbCtrbInBase

/-- The state after `configure` in a process that has handled no input yet. -/
def configured : EbCtrbInBase where
  pending := []
  inputs := none
  deferred := []
  iPidPrv := 0
  looping := false
  processed := []
  batchCount := 0
  eventCount := 0
  missing := 0
  bypassCount := 0
  noProgCount := 0
  prvNPCnt := 0

/-- `EbCtrbInBase::_defer`: results batches are kept in the order of their first pulse IDs. -/
def defer (results : Cursor ResultDgram) :
    List (Cursor ResultDgram) → Except CtrbFault (List (Cursor ResultDgram))
  | [] => .ok [results]
  | batch :: it =>
    match results.chain, batch.chain with
    | r :: _, b :: _ =>
      if r.pulseId = b.pulseId then .error .assertion
      else if r.pulseId < b.pulseId then .ok (results :: batch :: it)
      else (defer results it).map (batch :: ·)
    | _, _ => .error .overrun

/-- `process(*result, idx)` and what is counted with it. -/
def processResult (s : EbCtrbInBase) (result : ResultDgram) (idx : Nat) : EbCtrbInBase :=
  { s with
    iPidPrv := result.pulseId
    processed := s.processed ++ [(result, idx)]
    eventCount := s.eventCount + 1 }

/-- A result without an input: it is missed if a match was expected and the input not fixed up. -/
def discardResult (p : TebCtrbParams) (s : EbCtrbInBase) (result : ResultDgram) : EbCtrbInBase :=
  if result.readoutGroups &&& p.readoutGroup ≠ 0#16 ∧ result.readoutGroups &&& p.contractor = 0#16 then
    { s with missing := s.missing + 1 }
  else s

/-- What `_deliver` leaves in its two arguments. -/
abbrev Left := Option (Cursor ResultDgram) × Option (Cursor EbDgram)

/-- The loop of `EbCtrbInBase::_deliver`. -/
def deliverLoop (p : TebCtrbParams) :
    List ResultDgram → List EbDgram → (rAdx iAdx idx : Nat) → EbCtrbInBase →
    Except CtrbFault (EbCtrbInBase × Left)
  | result :: rs, input :: is, rAdx, iAdx, idx, s =>
    if result.pulseId ≤ input.pulseId then
      if result.pulseId = 0 then .error .resultDidntAdvance
      else if result.pulseId = input.pulseId then
        if input.pulseId ≤ s.iPidPrv then .error .inputDidntAdvance
        else
          let s := s.processResult result idx
          if input.isEOL then .ok (s, if result.isEOL then none else some ⟨rAdx + 1, rs⟩, none)
          else if result.isEOL then .ok (s, none, some ⟨iAdx + 1, is⟩)
          else deliverLoop p rs is (rAdx + 1) (iAdx + 1) (idx + 1) s
      else
        let s := s.discardResult p result
        if result.isEOL then .ok (s, none, some ⟨iAdx, input :: is⟩)
        else deliverLoop p rs (input :: is) (rAdx + 1) iAdx idx s
    else .ok (s, some ⟨rAdx, result :: rs⟩, some ⟨iAdx, input :: is⟩)
  | _, _, _, _, _, _ => .error .overrun

/-- `EbCtrbInBase::_deliver`. -/
def deliver (p : TebCtrbParams) (s : EbCtrbInBase) (results : Cursor ResultDgram)
    (inputs : Cursor EbDgram) : Except CtrbFault (EbCtrbInBase × Left) :=
  deliverLoop p results.chain inputs.chain results.adx inputs.adx (p.index inputs.adx) s

/-- `EbCtrbInBase::_deliverBypass`. -/
def deliverBypass (p : TebCtrbParams) (s : EbCtrbInBase) (inputs : Cursor EbDgram) (input : EbDgram) :
    Except CtrbFault EbCtrbInBase := do
  let (s, left) ← s.deliver p ⟨0, [bypassResult input]⟩ inputs
  match left, s.pending with
  | (none, none), ins :: pending =>
    if ins.chain.head?.map EbDgram.pulseId = some input.pulseId then
      .ok { s with
        inputs := none
        pending
        bypassCount := s.bypassCount + 1
        eventCount := s.eventCount + 1 }
    else .error .assertion
  | _, _ => .error .assertion

/-- The part of a round of `_matchUp` that handles a results batch. The round makes no progress if both
    pointers are where they were, and then ends the loop. -/
def deliverDeferred (p : TebCtrbParams) (s : EbCtrbInBase) (inputs : Cursor EbDgram)
    (results : Cursor ResultDgram) (deferred : List (Cursor ResultDgram)) :
    Except CtrbFault EbCtrbInBase := do
  let (s, results', inputs') ← s.deliver p results inputs
  let pending := if inputs'.isNone then s.pending.tail else s.pending
  match results' with
  | none => .ok { s with inputs := inputs', pending, deferred, prvNPCnt := s.noProgCount }
  | some rest => do
    let deferred ← defer rest deferred
    if rest.adx = results.adx ∧ inputs'.map Cursor.adx = some inputs.adx then
      .ok { s with
        inputs := inputs', pending, deferred, noProgCount := s.noProgCount + 1, looping := false }
    else .ok { s with inputs := inputs', pending, deferred, prvNPCnt := s.noProgCount }

/-- One round of the loop of `EbCtrbInBase::_matchUp`. -/
def iterate (p : TebCtrbParams) (s : EbCtrbInBase) : Except CtrbFault EbCtrbInBase :=
  match s.inputs.or s.pending.head? with
  | none => .ok { s with looping := false }
  | some inputs =>
    match inputs.chain with
    | [] => .error .overrun
    | input :: _ =>
      if !p.common input then s.deliverBypass p inputs input
      else
        match s.deferred with
        | [] => .ok { s with inputs := some inputs, looping := false }
        | results :: deferred => s.deliverDeferred p inputs results deferred

/-- What happens to the receiver: an input batch is pushed on `_pending`, a results batch arrives, the
    wait for one times out, or the loop of `_matchUp` goes round. -/
inductive Op where
  | push (batch : Cursor EbDgram)
  | receive (results : Cursor ResultDgram)
  | timeout
  | iterate

/-- One such action. `receive` and `timeout` are `_process` up to the loop of `_matchUp`. -/
def step (p : TebCtrbParams) (s : EbCtrbInBase) : Op → Except CtrbFault EbCtrbInBase
  | .push batch => .ok { s with pending := s.pending ++ [batch] }
  | .receive results => do
    let deferred ← defer results s.deferred
    pure { s with deferred, looping := true, batchCount := s.batchCount + 1 }
  | .timeout => .ok { s with looping := true }
  | .iterate => s.iterate p

/-- The inputs of a run, with their slots. -/
def inputsOf (as : List Op) : List (EbDgram × Nat) :=
  as.flatMap fun
    | .push batch => batch.entries
    | _ => []

/-- The results of a run. -/
def resultsOf (as : List Op) : List ResultDgram :=
  as.flatMap fun
    | .receive results => results.chain
    | _ => []

/-- The inputs that are still to be delivered. -/
def undelivered (s : EbCtrbInBase) : List (EbDgram × Nat) :=
  match s.inputs with
  | some inputs => inputs.entries ++ s.pending.tail.flatMap Cursor.entries
  | none => s.pending.flatMap Cursor.entries

/-- The results that wait for their turn. -/
def waiting (s : EbCtrbInBase) : List ResultDgram := s.deferred.flatMap (·.chain)

end EbCtrbInBase

end Lcls2.Eb
