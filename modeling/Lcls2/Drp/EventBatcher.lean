import Lcls2.Lib.Bytes

/-!
# Event batcher

Model of `psdaq/drp/EventBatcher.hh`. A batch is a header and subframes, each of them its data and a tail, all padded to
lines. `EvtBatcherIterator` goes through a batch from its end.

Pointers are offsets from the header. What the language leaves undefined (reading outside the buffer, a shift out of
the type) is a fault.
-/

namespace Lcls2.Drp
open Lib

/-- What `next` throws, and what it may do instead. -/
inductive BatcherFault where
  | corrupt | outside | shift
  deriving DecidableEq, Repr

/-- `EvtBatcherHeader::lineWidth`. -/
def lineWidth (w : Nat) : Nat := 2 <<< w

/-- The `width` of an `EvtBatcherHeader`: the upper half of its first byte. -/
def headerWidth (first : UInt8) : Nat := first.toNat / 16

/-- `EvtBatcherSubFrameTail`, with its place in the buffer. -/
structure EvtBatcherSubFrameTail where
  pos : Int
  size : BitVec 32
  tdest : UInt8
  tuser_first : UInt8
  tuser_last : UInt8
  width : UInt8
  deriving DecidableEq

namespace EvtBatcherSubFrameTail

/-- The tail at some place. -/
def read (buf : Bytes) (p : Int) : Except BatcherFault EvtBatcherSubFrameTail :=
  if 0 ≤ p ∧ p + 8 ≤ buf.length then
    let bs := slice buf p.toNat (p.toNat + 8)
    .ok ⟨p, .ofNat 32 (ofLe (bs.take 4)), bs.getD 4 0, bs.getD 5 0, bs.getD 6 0, bs.getD 7 0⟩
  else .error .outside

/-- `_totSize`. The size 0 is only logged. -/
def totSize (t : EvtBatcherSubFrameTail) : Except BatcherFault (BitVec 32) :=
  if t.width.toNat < 31 then
    let lw := BitVec.ofNat 32 (lineWidth t.width.toNat)
    .ok ((t.size + lw - 1) &&& ~~~(lw - 1))
  else .error .shift

/-- `data`, where there is a total size. -/
def data (t : EvtBatcherSubFrameTail) : Int :=
  match t.totSize with
  | .ok tot => t.pos - tot.toNat
  | .error _ => t.pos

end EvtBatcherSubFrameTail

/-- `EvtBatcherIterator`, with no `next` where that is null. -/
structure EvtBatcherIterator where
  lw : Nat
  cursor : Option Int
  stop : Int
  deriving DecidableEq

namespace EvtBatcherIterator

/-- The constructor, from the header at the start of the buffer and its length. -/
def new (buf : Bytes) : Except BatcherFault EvtBatcherIterator :=
  match buf with
  | [] => .error .outside
  | first :: _ =>
    let lw := lineWidth (headerWidth first)
    .ok ⟨lw, some ((buf.length : Int) - lw), lw⟩

/-- `next`. -/
def next (buf : Bytes) (it : EvtBatcherIterator) :
    Except BatcherFault (Option EvtBatcherSubFrameTail × EvtBatcherIterator) :=
  match it.cursor with
  | none => .ok (none, it)
  | some p => do
    let save ← EvtBatcherSubFrameTail.read buf p
    let tot ← save.totSize
    -- jumped backwards too far
    if p - tot.toNat < it.stop then .error .corrupt
    -- the last one
    else if p - tot.toNat = it.stop then .ok (some save, { it with cursor := none })
    -- the two are added in 32 bits
    else .ok (some save, { it with cursor := some (p - (tot + BitVec.ofNat 32 it.lw).toNat) })

/-- How an iteration ends: with no more subframes, with a fault, or not within the fuel. -/
inductive Ending where
  | done | fault (f : BatcherFault) | fuel
  deriving DecidableEq

/-- Calling `next` until it returns null. -/
def iterate (buf : Bytes) : (fuel : Nat) → EvtBatcherIterator → List EvtBatcherSubFrameTail × Ending
  | 0, _ => ([], .fuel)
  | fuel + 1, it =>
    match it.next buf with
    | .error f => ([], .fault f)
    | .ok (none, _) => ([], .done)
    | .ok (some save, it) =>
      let rest := iterate buf fuel it
      (save :: rest.1, rest.2)

/-- The subframes of a buffer. -/
def subframes (buf : Bytes) (fuel : Nat) : List EvtBatcherSubFrameTail × Ending :=
  match new buf with
  | .error f => ([], .fault f)
  | .ok it => iterate buf fuel it

end EvtBatcherIterator

end Lcls2.Drp
