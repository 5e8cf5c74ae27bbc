import Lcls2.Drp.Fifo

/-!
# The buffered file writer

Model of `Drp::BufferedFileWriterMT` (`drp/FileWriter.cc`): two threads that pass buffers through the
FIFOs `m_free` and `m_pend`. A step is one FIFO operation of one thread, or what a thread does between
two of them; the `write` of a buffer may take many steps. The metrics and the log are left out.
-/

namespace Lcls2.Drp

/-- `BufferedFileWriterMT::Buffer`; `p` names a block of memory. -/
structure Buffer where
  p : Nat
  count : Nat
  deriving DecidableEq, Repr

/-- Where the thread that calls the writer is: between calls, or before the named operation. A flush
    knows whether `close` made it. -/
inductive Caller where
  | idle
  | pend (data : List UInt8) (ts : BitVec 64)
  | test (data : List UInt8) (ts : BitVec 64)
  | pop (data : List UInt8) (ts : BitVec 64)
  | push (b : Buffer) (data : List UInt8) (ts : BitVec 64)
  | pendNext (data : List UInt8)
  | fill (data : List UInt8)
  | flush (closing : Bool)
  | flushPop (closing : Bool)
  | flushPush (b : Buffer) (closing : Bool)
  | pendn (closing : Bool)

/-- Where the `run` thread is: before `m_pend.pend`, writing a buffer of which it has output
    `done` bytes, or with a buffer that it has popped and not recycled. -/
inductive Runner where
  | pend
  | writing (b : Buffer) (done : Nat)
  | popped (slot : Nat)

/-- `FIFO_DEPTH` and `m_bufferSize`. -/
structure FileWriterParams where
  depth : Nat
  bufferSize : Nat
  depth_pos : 0 < depth

/-- `BufferedFileWriterMT` with its memory and its two threads. `file` is the file opened last and
    `given` the events it was given. -/
structure BufferedFileWriterMT where
  fd : Nat
  batchStarttime : BitVec 64
  free : Fifo Buffer
  pend : Fifo Buffer
  mem : Nat → Nat → UInt8
  caller : Caller
  runner : Runner
  file : List UInt8
  given : List UInt8

/-- Why a step is not taken: the thread waits, the call comes during another call, or `writeEvent`
    throws since the event does not fit. -/
inductive WriterFault where
  | blocked
  | busy
  | tooSmall
  deriving DecidableEq, Repr

/-- The calls. -/
inductive WriterCall where
  | open_ (fd : Nat)
  | writeEvent (data : List UInt8) (ts : BitVec 64)
  | flush
  | close

/-- A call, the next step of the calling thread, and the next step of the `run` thread, which may
    output up to `n` bytes. -/
inductive WriterOp where
  | call (c : WriterCall)
  | caller
  | run (n : Nat)

/-- `TimeStamp::seconds`. -/
def seconds (ts : BitVec 64) : BitVec 32 := (ts >>> 32).setWidth 32

namespace BufferedFileWriterMT

/-- The bytes of a buffer. -/
def contents (mem : Nat → Nat → UInt8) (b : Buffer) : List UInt8 :=
  (List.range b.count).map (mem b.p)

/-- `memcpy(b.p + b.count, data, size)`. -/
def memcpy (mem : Nat → Nat → UInt8) (b : Buffer) (data : List UInt8) : Nat → Nat → UInt8 :=
  fun p i =>
    if p = b.p ∧ b.count ≤ i ∧ i < b.count + data.length then data.getD (i - b.count) 0 else mem p i

/-- The constructor, with `_initialize`: every buffer is free. -/
def start (p : FileWriterParams) (mem : Nat → Nat → UInt8) : BufferedFileWriterMT where
  fd := 0
  batchStarttime := 0
  free := (List.range p.depth).foldl (fun f i => (f.push ⟨i, 0⟩).1) (.new p.depth p.depth_pos ⟨0, 0⟩)
  pend := .new p.depth p.depth_pos ⟨0, 0⟩
  mem := mem
  caller := .idle
  runner := .pend
  file := []
  given := []

/-- The calling thread. -/
def callerStep (p : FileWriterParams) (s : BufferedFileWriterMT) :
    Except WriterFault BufferedFileWriterMT :=
  match s.caller with
  | .idle => .error .blocked
  | .pend data ts => if s.free.empty then .error .blocked else .ok { s with caller := .test data ts }
  | .test data ts =>
    let age := seconds ts - seconds s.batchStarttime
    if p.bufferSize - s.free.front.count < data.length ∨ 2#32 < age then
      .ok { s with caller := .pop data ts }
    else .ok { s with caller := .fill data }
  | .pop data ts => .ok { s with free := s.free.pop, caller := .push s.free.front data ts }
  | .push b data ts =>
    .ok { s with pend := (s.pend.push b).1, batchStarttime := ts, caller := .pendNext data }
  | .pendNext data => if s.free.empty then .error .blocked else .ok { s with caller := .fill data }
  | .fill data =>
    let b := s.free.front
    if p.bufferSize - b.count < data.length then .error .tooSmall
    else
      .ok { s with
        mem := memcpy s.mem b data
        free := s.free.set s.free.head { b with count := b.count + data.length }
        caller := .idle }
  | .flush closing =>
    if !s.free.empty && decide (0 < s.free.front.count) then
      .ok { s with caller := .flushPop closing }
    else .ok { s with caller := .pendn closing }
  | .flushPop closing => .ok { s with free := s.free.pop, caller := .flushPush s.free.front closing }
  | .flushPush b closing =>
    .ok { s with pend := (s.pend.push b).1, batchStarttime := 0, caller := .pendn closing }
  | .pendn closing =>
    if s.pend.empty then .ok { s with fd := if closing then 0 else s.fd, caller := .idle }
    else .error .blocked

/-- `BufferedFileWriterMT::run`; while there is no file open, the bytes go elsewhere. -/
def runStep (n : Nat) (s : BufferedFileWriterMT) : Except WriterFault BufferedFileWriterMT :=
  match s.runner with
  | .pend => if s.pend.empty then .error .blocked else .ok { s with runner := .writing s.pend.front 0 }
  | .writing b done =>
    if done < b.count then
      let output := ((contents s.mem b).drop done).take n
      .ok { s with
        file := if s.fd = 0 then s.file else s.file ++ output
        runner := .writing b (done + output.length) }
    else .ok { s with pend := s.pend.pop, runner := .popped s.pend.head }
  | .popped slot =>
    let b := { s.pend.array slot with count := 0 }
    .ok { s with pend := s.pend.set slot b, free := (s.free.push b).1, runner := .pend }

/-- `writeEvent`, `flush` and `close` up to their first FIFO operation, and `open` on a file that it
    creates. -/
def call (s : BufferedFileWriterMT) : WriterCall → BufferedFileWriterMT
  | .open_ fd => { s with fd := fd, file := [], given := [] }
  | .writeEvent data ts =>
    { s with
      batchStarttime := if s.batchStarttime = 0 then ts else s.batchStarttime
      caller := .pend data ts
      given := s.given ++ data }
  | .flush => { s with caller := .flush false }
  | .close => if 0 < s.fd then { s with caller := .flush true } else { s with fd := 0 }

/-- One step of the two threads. -/
def step (p : FileWriterParams) (s : BufferedFileWriterMT) :
    WriterOp → Except WriterFault BufferedFileWriterMT
  | .call c =>
    match s.caller with
    | .idle => .ok (s.call c)
    | _ => .error .busy
  | .caller => s.callerStep p
  | .run n => s.runStep n

end BufferedFileWriterMT

end Lcls2.Drp
