import Lcls2.Eb.BatchManager
import Lcls2.Eb.EventBuilder
import Lcls2.Lib.Region

/-!
# The contributor's side of the trigger

Model of `Pds::Eb::TebContributor` (`eb/TebContributor.cc`): datagrams lie in consecutive slots of the
batch region, and `process` cuts them into batches that go to the input queue `_pending` of
`EbCtrbInBase` and, for contractors, to a TEB.

* The region is `mem`; a pointer to a datagram is its slot. The end-of-list bit is set in place.
* `linksConfigure` sorts the links by TEB ID, so a link is its index.
* The transport is the oracle `Transport`; what is posted is kept in `posts` as it is at that moment.
* A batch also carries the datagrams that became its end, in order: the history `appended`, which no
  definition reads. `delivered` is the part of `_pending` that was popped.
* An `abort` stops the contributor.
-/

namespace Lcls2.Eb
open Lcls2.Lib

/-- The part of `TebCtrbParams` that the contributor and its `EbCtrbInBase` read, with the size of
    `_links` and of `_pending`. -/
structure TebCtrbParams where
  partition : Nat
  readoutGroup : BitVec 16
  contractor : BitVec 16
  maxInputSize : Nat
  maxEntries : BitVec 32
  builders : BitVec 64
  links : Nat
  numBuffers : Nat

namespace TebCtrbParams

/-- `_numEbs`. -/
def numEbs (p : TebCtrbParams) : Nat := (sources p.builders).length

/-- `_batMan`. -/
def batMan (p : TebCtrbParams) : BatchManager := ⟨p.maxEntries⟩

/-- The common readout group triggered. -/
def common (p : TebCtrbParams) (d : EbDgram) : Bool :=
  d.readoutGroups &&& (1#16 <<< p.partition) ≠ 0#16

/-- The contributor provides input for the datagram. -/
def provides (p : TebCtrbParams) (d : EbDgram) : Bool := d.readoutGroups &&& p.contractor ≠ 0#16

/-- `TebContributor::index`: the offset into the region is an `unsigned`. -/
def index (p : TebCtrbParams) (slot : Nat) : Nat := slot * p.maxInputSize % 2 ^ 32 / p.maxInputSize

/-- In a region below 4 GiB the index of a datagram is its slot. -/
lemma index_eq {p : TebCtrbParams} {slot : Nat} (pos : 0 < p.maxInputSize)
    (small : p.numBuffers * p.maxInputSize ≤ 2 ^ 32) (fits : slot < p.numBuffers) :
    p.index slot = slot := by
  have lt : slot * p.maxInputSize < p.numBuffers * p.maxInputSize := Nat.mul_lt_mul_of_pos_right fits pos
  rw [index, Nat.mod_eq_of_lt (Nat.lt_of_lt_of_le lt small), Nat.mul_div_cancel _ pos]

end TebCtrbParams

/-- The links: transition buffer indices that come back, and the result of each `post`. -/
structure Transport where
  polled : Nat → List Nat
  waited : Nat → Option Nat
  postRc : Nat → Int

/-- `Batch`, with the history of its datagrams. -/
structure Batch where
  start : Nat
  end_ : Nat
  contractor : Bool
  appended : List EbDgram

/-- What is pushed on `_pending`: the start of a batch. -/
structure Pushed where
  start : Nat
  appended : List EbDgram

/-- The slots of a batch. -/
def Pushed.has (c : Pushed) (slot : Nat) : Prop :=
  c.start ≤ slot ∧ slot < c.start + c.appended.length

/-- What is posted to a TEB. -/
inductive Post where
  | batch (dst start : Nat) (entries : List EbDgram) (pushed : Pushed)
  | transition (dst idx : Nat) (dgram : EbDgram) (rc : Int)

/-- The reasons for an `abort`, a division by zero or an access out of range. -/
inductive Abort where
  | overflow | division | noLink | postFailed | payload | noTrBuffer
  deriving DecidableEq, Repr

structure TebContributor where
  mem : Nat → EbDgram
  next : Nat
  batch : Option Batch
  pending : List Pushed
  delivered : List Pushed
  trBuffers : Nat → List Nat
  polls : Nat
  posts : List Post
  eventCount : UInt64
  batchCount : UInt64

/-- `_getTrBufIdx`: what the link returned goes to the back of the list; an empty list is waited on. -/
def getTrBufIdx (polled : List Nat) (waited : Option Nat) (lst : List Nat) :
    Option (Nat × List Nat) :=
  match lst ++ polled with
  | [] => waited.map fun idx => (idx, [])
  | idx :: lst => some (idx, lst)

namespace TebContributor

/-- The state after `startup`; the region and the first slot are arbitrary. -/
def startup (mem : Nat → EbDgram) (next : Nat) (trBuffers : Nat → List Nat) : TebContributor where
  mem
  next
  batch := none
  pending := []
  delivered := []
  trBuffers
  polls := 0
  posts := []
  eventCount := 0
  batchCount := 0

/-- `EbDgram::setEOL` on the datagram in a slot. -/
def setEOL (s : TebContributor) (slot : Nat) : TebContributor :=
  { s with mem := Function.update s.mem slot (s.mem slot).setEOL }

/-- The push on `_pending` and the check behind it. -/
def push (p : TebCtrbParams) (s : TebContributor) (c : Pushed) : Except Abort TebContributor :=
  let s := { s with pending := s.pending ++ [c] }
  if s.pending.length < p.numBuffers then .ok s else .error .overflow

/-- The part of `TebContributor::_post(const Batch&)` that sends a contractor's batch to its TEB. -/
def send (net : Transport) (p : TebCtrbParams) (s : TebContributor) (b : Batch) :
    Except Abort TebContributor :=
  if !b.contractor then .ok s
  else if p.maxEntries = 0#32 ∨ p.numEbs = 0 then .error .division
  else
    let dst := ((s.mem b.start).pulseId / p.maxEntries.toNat) % p.numEbs
    if p.links ≤ dst then .error .noLink
    else if net.postRc s.posts.length < 0 then .error .postFailed
    else
      let entries := slots s.mem b.start (b.end_ - b.start + 1)
      .ok { s with posts := s.posts ++ [.batch dst b.start entries ⟨b.start, b.appended⟩] }

/-- `TebContributor::_post(const Batch&)`. -/
def postBatch (net : Transport) (p : TebCtrbParams) (s : TebContributor) (b : Batch) :
    Except Abort TebContributor := do
  let s ← (s.setEOL b.end_).push p ⟨b.start, b.appended⟩
  let s ← s.send net p b
  pure { s with batchCount := s.batchCount + 1 }

/-- `_batch = {dgram, contractor}`. -/
def newBatch (p : TebCtrbParams) (s : TebContributor) (slot : Nat) : Batch where
  start := slot
  end_ := slot
  contractor := p.provides (s.mem slot)
  appended := [(s.mem slot).copy]

/-- `_batch.end = dgram; _batch.contractor |= contractor`. The history gains what becomes the end. -/
def append (p : TebCtrbParams) (s : TebContributor) (b : Batch) (slot : Nat) : Batch :=
  { b with
    end_ := slot
    contractor := b.contractor || p.provides (s.mem slot)
    appended := if b.end_ = slot then b.appended else b.appended ++ [(s.mem slot).copy] }

/-- Posting the open batch, if there is one, and forgetting it. -/
def closeBatch (net : Transport) (p : TebCtrbParams) (s : TebContributor) :
    Except Abort TebContributor :=
  match s.batch with
  | none => .ok s
  | some b => do
    let s ← s.postBatch net p b
    pure { s with batch := none }

/-- The part of `process` for an expired batch: it is posted and the datagram starts the next one. -/
def expire (net : Transport) (p : TebCtrbParams) (s : TebContributor) (b : Batch) (slot : Nat)
    (expired : Bool) : Except Abort (TebContributor × Batch) :=
  if expired then do
    let s ← s.postBatch net p b
    pure (s, s.newBatch p slot)
  else .ok (s, b)

/-- The part of `process` that puts a datagram into a batch. -/
def addToBatch (net : Transport) (p : TebCtrbParams) (s : TebContributor) (b : Batch) (slot : Nat) :
    Except Abort TebContributor :=
  let dgram := s.mem slot
  let flush := flushes dgram
  let expired := p.batMan.expired dgram.pulseId (s.mem b.start).pulseId
  if !expired && !flush then .ok { s with batch := some (s.append p b slot) }
  else do
    let (s, b) ← s.expire net p b slot expired
    if flush then
      let s ← s.postBatch net p (s.append p b slot)
      pure { s with batch := none }
    else pure { s with batch := some b }

/-- On wrapping, the batch at the end of the region is posted. -/
def wrap (net : Transport) (p : TebCtrbParams) (s : TebContributor) (slot : Nat) :
    Except Abort TebContributor :=
  if slot = 0 then s.closeBatch net p else .ok s

/-- The part of `process` for a datagram of the common readout group. -/
def batchDgram (net : Transport) (p : TebCtrbParams) (s : TebContributor) (slot : Nat) :
    Except Abort TebContributor := do
  let s ← s.wrap net p slot
  s.addToBatch net p (s.batch.getD (s.newBatch p slot)) slot

/-- The part of `process` for a datagram that bypasses the TEB. -/
def bypass (net : Transport) (p : TebCtrbParams) (s : TebContributor) (slot : Nat) :
    Except Abort TebContributor := do
  let s ← s.closeBatch net p
  let s := s.setEOL slot
  s.push p ⟨slot, [(s.mem slot).copy]⟩

/-- The loop of `TebContributor::_post(const EbDgram*)` over the links. -/
def forward (net : Transport) (dst slot : Nat) :
    List Nat → TebContributor → Except Abort TebContributor
  | [], s => .ok s
  | src :: links, s =>
    if src ≠ dst then
      match getTrBufIdx (net.polled s.polls) (net.waited s.polls) (s.trBuffers src) with
      | none => .error .noTrBuffer
      | some (idx, lst) =>
        forward net dst slot links
          { s with
            polls := s.polls + 1
            trBuffers := Function.update s.trBuffers src lst
            posts := s.posts ++ [.transition src idx (s.mem slot) (net.postRc s.posts.length)] }
    else forward net dst slot links s

/-- `TebContributor::_post(const EbDgram*)`. -/
def postDgram (net : Transport) (p : TebCtrbParams) (s : TebContributor) (slot : Nat) :
    Except Abort TebContributor :=
  if p.links < 2 then .ok s
  else
    let s := s.setEOL slot
    if p.maxEntries = 0#32 ∨ p.numEbs = 0 then .error .division
    else
      let dst := ((s.mem slot).pulseId / p.maxEntries.toNat) % p.numEbs
      if (s.mem slot).sizeofPayload > 0 then .error .payload
      else forward net dst slot (List.range p.links) s

/-- The part of `process` before the event is counted. -/
def place (net : Transport) (p : TebCtrbParams) (s : TebContributor) (slot : Nat) :
    Except Abort TebContributor :=
  if p.common (s.mem slot) then s.batchDgram net p slot else s.bypass net p slot

/-- `TebContributor::process`. -/
def process (net : Transport) (p : TebCtrbParams) (s : TebContributor) (slot : Nat) :
    Except Abort TebContributor := do
  let dgram := s.mem slot
  let s ← s.place net p slot
  let s := { s with eventCount := s.eventCount + 1 }
  if !dgram.isEvent && p.provides dgram then s.postDgram net p slot else pure s

/-- What happens to a contributor: the DRP writes a datagram into the next slot and has it processed,
    or `EbCtrbInBase` pops a batch from `_pending`. -/
inductive Op where
  | process (d : EbDgram)
  | release

/-- One such action. The constructors of `EbDgram` leave no control bits in what they write. -/
def step (net : Transport) (p : TebCtrbParams) (s : TebContributor) :
    Op → Except Abort TebContributor
  | .process d => do
    let t ← { s with mem := Function.update s.mem s.next d.copy }.process net p s.next
    pure { t with next := (s.next + 1) % p.numBuffers }
  | .release =>
    match s.pending with
    | [] => .ok s
    | c :: pending => .ok { s with pending, delivered := s.delivered ++ [c] }

/-- The datagrams of a run. -/
def inputs (as : List Op) : List EbDgram :=
  as.filterMap fun
    | .process d => some d.copy
    | .release => none

/-- All batches there have been, oldest first. -/
def closed (s : TebContributor) : List Pushed := s.delivered ++ s.pending

/-- What a reader finds from a slot on, up to and including the first end-of-list bit. -/
def read (p : TebCtrbParams) (s : TebContributor) (start : Nat) : Option (List EbDgram) :=
  walk EbDgram.isEOL EbDgram.copy (slots s.mem start (p.numBuffers - start))

end TebContributor

end Lcls2.Eb
