import Lcls2.Psana.Batch

/-!
# The smalldata reader

Model of `SmdReader` (`psana/smdreader.pyx`) and of the `ParallelReader` it reads its files with
(`psana/parallelreader.pyx`).

* The arrays that hold one value for each file are one `Stream` per file.
* `ts_arr`, `sv_arr`, `st_offset_arr` and `en_offset_arr` are one list of entries. They and the chunk
  grow to what has been written; what is behind the ready events is left from earlier reads.
* `winner = -1` is `none`, and so is `intg_stream_id = -1`.
* The environment decides how many bytes each `read` returns, and how often `get` retries.
-/

namespace Lcls2.Psana
open Lib

/-- `TransitionId.EndRun`. -/
def endRun : Nat := 5

/-- `TransitionId.SlowUpdate`. -/
def slowUpdate : Nat := 10

/-- What stops a view: an index outside of an array. -/
inductive ReadFault where
  | index | overflow
  deriving DecidableEq

/-- What the arrays hold for one dgram: timestamp, service, start and end offset. -/
structure Entry where
  ts : Nat
  sv : Nat
  st : Nat
  en : Nat
  deriving DecidableEq

/-- `Buffer` of `parallelreader.pxd`. -/
structure Buffer where
  chunk : Bytes := []
  got : Nat := 0
  readyOffset : Nat := 0
  nReadyEvents : Nat := 0
  seenOffset : Nat := 0
  nSeenEvents : Nat := 0
  timestamp : Nat := 0
  entries : List Entry := []
  foundEndrun : Bool := false
  endrunTs : Nat := 0

namespace Buffer

/-- The entry of the next dgram, of the given size. -/
def record (b : Buffer) (ts sv size : Nat) : Buffer :=
  let entry := ⟨ts, sv, b.readyOffset, b.readyOffset + size⟩
  { b with
    entries := b.entries.take b.nReadyEvents ++ entry :: b.entries.drop (b.nReadyEvents + 1)
    timestamp := ts
    readyOffset := b.readyOffset + size
    nReadyEvents := b.nReadyEvents + 1 }

/-- Copying a dgram behind the others, with its entry. -/
def append (b : Buffer) (ts sv : Nat) (d : Bytes) : Buffer :=
  { b with chunk := writeAt b.chunk b.readyOffset d }.record ts sv d.length

/-- Whether a dgram of the buffer has not been seen. -/
def hasUnseen (b : Buffer) : Bool := 0 < b.nReadyEvents - b.nSeenEvents

/-- An `EndRun` leaves its timestamp. -/
def noteEndrun (b : Buffer) (ts sv : Nat) : Buffer :=
  if sv = endRun then { b with endrunTs := ts } else b

/-- The loop of `view`: the last event from `iEnd` on with a timestamp up to the limit. -/
def searchEnd (b : Buffer) (limitTs : Nat) : Nat → Nat → Nat
  | 0, iEnd => iEnd
  | fuel + 1, iEnd =>
    if (b.entries[iEnd + 1]?).any (·.ts ≤ limitTs) ∧ iEnd < b.nReadyEvents - 1 then
      b.searchEnd limitTs fuel (iEnd + 1)
    else iEnd

/-- The offsets at which the dgrams from one to another start and end. -/
def blockSize (b : Buffer) (iStart iEnd : Nat) : Nat :=
  ((b.entries[iEnd]?).elim 0 Entry.en) - ((b.entries[iStart]?).elim 0 Entry.st)

end Buffer

/-- The loop of `just_read` over what was read: the dgrams of the chunk, and a copy of those that are
    not L1Accepts. A turn takes at least the header of a dgram. -/
def scan : Nat → Buffer → Buffer → Buffer × Buffer
  | 0, buf, stepBuf => (buf, stepBuf)
  | fuel + 1, buf, stepBuf =>
    if sizeofDgram ≤ buf.got - buf.readyOffset then
      let size := dgramSizeAt buf.chunk buf.readyOffset
      if size ≤ buf.got - buf.readyOffset then
        let d := slice buf.chunk buf.readyOffset (buf.readyOffset + size)
        let ts := headerTimestamp d
        let sv := headerService d
        let stepBuf := if sv ≠ l1Accept then stepBuf.append ts sv d else stepBuf
        scan fuel ((buf.noteEndrun ts sv).record ts sv size) stepBuf
      else (buf, stepBuf)
    else (buf, stepBuf)

/-- What the reader has for one file; `unread` is what is left of the file. -/
structure Stream where
  unread : Bytes
  buf : Buffer := {}
  stepBuf : Buffer := {}
  iStart : Nat := 0
  iEnd : Nat := 0
  iStepbufStart : Nat := 0
  iStepbufEnd : Nat := 0
  iStBuf : Nat := 0
  blockSizeBuf : Nat := 0
  iStStepbuf : Nat := 0
  blockSizeStepbuf : Nat := 0

namespace Stream

/-- The loop of `get` that resets the indices of a file without unseen events. -/
def reset (s : Stream) : Stream :=
  if s.buf.hasUnseen then s
  else { s with iStart := 0, iEnd := 0, iStepbufStart := 0, iStepbufEnd := 0 }

/-- The chunk after a read that returns `data`: what was not ready is copied to the start. -/
def refill (buf : Buffer) (data : Bytes) : Buffer :=
  let left := slice buf.chunk buf.readyOffset buf.got
  let chunk := if 0 < buf.got - buf.readyOffset ∧ 0 < buf.readyOffset then writeAt buf.chunk 0 left
    else buf.chunk
  { buf with
    chunk := writeAt chunk (buf.got - buf.readyOffset) data
    got := buf.got - buf.readyOffset + data.length
    readyOffset := 0
    nReadyEvents := 0
    seenOffset := 0
    nSeenEvents := 0 }

/-- `ParallelReader.just_read` for one file. -/
def justRead (chunksize : Nat) (s : Stream) (want : Nat) : Stream :=
  if s.buf.hasUnseen then s
  else
    let room := chunksize - (s.buf.got - s.buf.readyOffset)
    let data := s.unread.take (min want room)
    let buf := refill s.buf data
    let stepBuf := { s.stepBuf with readyOffset := 0, nReadyEvents := 0, seenOffset := 0, nSeenEvents := 0 }
    let (buf, stepBuf) := scan (buf.got + 1) buf stepBuf
    { s with unread := s.unread.drop (min want room), buf, stepBuf }

/-- The part of the loop of `view` about all dgrams. -/
def moveBlock (s : Stream) (limitTs firstTs : Nat) : Stream :=
  if s.iStart < s.buf.nReadyEvents then
    let iEnd := if firstTs ≠ limitTs then s.buf.searchEnd limitTs s.buf.nReadyEvents s.iStart
      else s.iStart
    let last := (s.buf.entries[iEnd]?).elim (⟨0, 0, 0, 0⟩ : Entry) id
    { s with
      iEnd
      iStBuf := s.iStart
      blockSizeBuf := s.buf.blockSize s.iStart iEnd
      buf := { s.buf with
        seenOffset := last.en
        nSeenEvents := iEnd + 1
        foundEndrun := s.buf.foundEndrun || last.sv = endRun }
      iStart := iEnd + 1 }
  else { s with iEnd := s.iStart }

/-- The part of the loop of `view` about the dgrams that are not L1Accepts. -/
def moveStepBlock (s : Stream) (limitTs : Nat) : Stream :=
  if s.iStepbufStart < s.stepBuf.nReadyEvents ∧
      (s.stepBuf.entries[s.iStepbufStart]?).any (·.ts ≤ limitTs) then
    let iEnd := s.stepBuf.searchEnd limitTs s.stepBuf.nReadyEvents s.iStepbufStart
    let last := (s.stepBuf.entries[iEnd]?).elim (⟨0, 0, 0, 0⟩ : Entry) id
    { s with
      iStepbufEnd := iEnd
      iStStepbuf := s.iStepbufStart
      blockSizeStepbuf := s.stepBuf.blockSize s.iStepbufStart iEnd
      stepBuf := { s.stepBuf with seenOffset := last.en, nSeenEvents := iEnd + 1 }
      iStepbufStart := iEnd + 1 }
  else { s with iStepbufEnd := s.iStepbufStart, iStStepbuf := 0, blockSizeStepbuf := 0 }

/-- The loop of `view` for one file. -/
def move (limitTs : Nat) (s : Stream) : Except ReadFault Stream :=
  match s.buf.entries[s.iStart]? with
  | none => .error .index
  | some first =>
    let s := { s with iStBuf := 0, blockSizeBuf := 0 }
    if limitTs < first.ts then .ok s
    else .ok ((s.moveBlock limitTs first.ts).moveStepBlock limitTs)

/-- The bytes of a block, of which `st` is the index of the first dgram. -/
def block (buf : Buffer) (st size : Nat) : Bytes :=
  match buf.entries[st]? with
  | none => []
  | some entry => slice buf.chunk entry.st (entry.st + size)

end Stream

/-- `SmdReader`. `fakebuf` is what is in `_fakebuf`. -/
structure SmdReader where
  chunksize : Nat
  fakestepFlag : Bool
  streams : List Stream
  winner : Option Nat := none
  nViewEvents : Nat := 0
  winnerLastSv : Nat := 0
  winnerLastTs : Nat := 0
  nextFakeTs : Nat := 0
  fakebuf : Bytes := []

/-- A dgram that `DgramEdit` makes for a transition, without data. -/
def fakeDgram (transitionId ts : Nat) : Bytes :=
  toLe 8 ts ++ toLe 4 (transitionId * 2 ^ 24) ++ List.replicate 8 0 ++ toLe 4 sizeofXtc

/-- `Disable`, `EndStep`, `BeginStep` and `Enable`, at consecutive timestamps. -/
def fakeSteps (ts : Nat) : List Bytes :=
  [fakeDgram 9 ts, fakeDgram 7 (ts + 1), fakeDgram 6 (ts + 2), fakeDgram 8 (ts + 3)]

namespace SmdReader

/-- `SmdReader.__init__`. -/
def new (chunksize : Nat) (fakestepFlag : Bool) (files : List Bytes) : SmdReader :=
  { chunksize, fakestepFlag, streams := files.map fun unread => { unread } }

/-- `SmdReader.is_complete`. -/
def isComplete (r : SmdReader) : Bool := r.streams.all (·.buf.hasUnseen)

/-- `SmdReader.found_endrun`. -/
def foundEndrun (r : SmdReader) : Bool := r.streams.all (·.buf.foundEndrun)

/-- `ParallelReader.just_read`, where each `read` returns up to the bytes given. -/
def justRead (r : SmdReader) (wants : List Nat) : SmdReader :=
  { r with streams := r.streams.mapIdx fun i s => s.justRead r.chunksize (wants.getD i 0) }

/-- `SmdReader.get`, with some retries. -/
def get (r : SmdReader) (wants : List Nat) (retries : List (List Nat)) : SmdReader :=
  if r.foundEndrun then r
  else { retries.foldl justRead ({ r with streams := r.streams.map Stream.reset }.justRead wants) with
    winner := none }

/-- The search of `view` for the slowest stream: the winner and the limit so far. -/
def slowest : Nat → List Stream → Option Nat → Nat → Option Nat
  | _, [], winner, _ => winner
  | i, s :: streams, winner, limitTs =>
    if s.buf.timestamp < limitTs ∨ limitTs = 0 then slowest (i + 1) streams (some i) s.buf.timestamp
    else slowest (i + 1) streams winner limitTs

/-- The winner of a view. -/
def selectWinner (r : SmdReader) (intgStreamId : Option Nat) : Option Nat :=
  match intgStreamId with
  | some stream => some stream
  | none =>
    match r.winner with
    | some winner => some winner
    | none => slowest 0 r.streams none 0

/-- What `view` finds in the winner's buffer: the number of events in the window, the entry of the
    last one, and the limit. -/
def window (buf : Buffer) (batchSize : Nat) : Except ReadFault (Nat × Entry × Nat) :=
  let nViewEvents := buf.nReadyEvents - buf.nSeenEvents
  let cut := batchSize < nViewEvents
  let eob := if cut then buf.nSeenEvents + batchSize else buf.nReadyEvents
  match eob with
  | 0 => .error .index
  | iEob + 1 =>
    match buf.entries[iEob]? with
    | none => .error .index
    | some last =>
      .ok (if cut then batchSize else nViewEvents, last, if cut then last.ts else buf.timestamp)

/-- The winner of a view and what it finds in its buffer. -/
def selectWindow (r : SmdReader) (batchSize : Nat) (intgStreamId : Option Nat) :
    Except ReadFault (Nat × Nat × Entry × Nat) :=
  match r.selectWinner intgStreamId with
  | none => .error .index
  | some winner =>
    match r.streams[winner]? with
    | none => .error .index
    | some s => do
      let (nViewEvents, last, limitTs) ← window s.buf batchSize
      .ok (winner, nViewEvents, last, limitTs)

/-- `SmdReader.view`. -/
def view (r : SmdReader) (batchSize : Nat) (intgStreamId : Option Nat) : Except ReadFault SmdReader := do
  let (winner, nViewEvents, last, limitTs) ← r.selectWindow batchSize intgStreamId
  let streams ← r.streams.mapM (·.move limitTs)
  .ok { r with
    streams, winner := some winner, nViewEvents, winnerLastSv := last.sv, winnerLastTs := last.ts,
    nextFakeTs := 0, fakebuf := [] }

/-- `SmdReader.get_fake_buffer`, with `get_next_fake_ts`. -/
def getFakeBuffer (r : SmdReader) : SmdReader :=
  if r.fakestepFlag ∧ (r.winnerLastSv = l1Accept ∨ r.winnerLastSv = slowUpdate) then
    if r.fakebuf = [] then
      let nextFakeTs := if r.nextFakeTs = 0 then r.winnerLastTs + 1 else r.nextFakeTs
      { r with nextFakeTs, fakebuf := (fakeSteps nextFakeTs).flatten }
    else r
  else r

/-- What `show` returns for a block that is not empty. -/
def showBlock (r : SmdReader) (iBuf : Nat) (view : Bytes) : Bytes × SmdReader :=
  let r := r.getFakeBuffer
  if 0 < r.fakebuf.length then
    (view ++ r.fakebuf,
      { r with nViewEvents := if r.winner = some iBuf then r.nViewEvents + 4 else r.nViewEvents })
  else (view, r)

/-- `SmdReader.show`. -/
def show_ (r : SmdReader) (iBuf : Nat) (stepBuf : Bool) : Except ReadFault (Bytes × SmdReader) :=
  match r.streams[iBuf]? with
  | none => .error .index
  | some s =>
    let buf := if stepBuf then s.stepBuf else s.buf
    let size := if stepBuf then s.blockSizeStepbuf else s.blockSizeBuf
    let st := if stepBuf then s.iStStepbuf else s.iStBuf
    if 0 < size then .ok (r.showBlock iBuf (Stream.block buf st size)) else .ok ([], r)

end SmdReader

end Lcls2.Psana
