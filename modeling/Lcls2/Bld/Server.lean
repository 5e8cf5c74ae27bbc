import Mathlib
import Lcls2.Lib.Bytes

/-!
# BLD packets

Model of `Bld::Server`, `Bld::Client` and `Bld::Header` (`psdaq/bld`). A buffer is its bytes; what `new`
leaves in it is arbitrary. A packet that is sent is the next one that is received.
-/

namespace Lcls2.Bld

open Lib

/-- Memory of a fixed size. -/
abbrev Memory (size : Nat) := { bytes : Bytes // bytes.length = size }

/-- The `uint64_t` at a position. -/
def word64 (buffer : Bytes) (pos : Nat) : UInt64 := .ofNat (ofLe (slice buffer pos (pos + 8)))

/-- The `uint32_t` at a position. -/
def word32 (buffer : Bytes) (pos : Nat) : UInt32 := .ofNat (ofLe (slice buffer pos (pos + 4)))

namespace Header

def sizeofFirst : Nat := 20

def sizeofNext : Nat := 4

def MTU : Nat := 8192

/-- `Header(pulseId, timeStamp, src)`. -/
def first (pulseId timeStamp : UInt64) (src : UInt32) : Bytes :=
  toLe 8 pulseId.toNat ++ toLe 8 timeStamp.toNat ++ toLe 4 src.toNat

/-- The word of `Header(pulseId, timeStamp, ref)`, from the pulse ID and the time stamp in `ref`. -/
def offsets (pulseId timeStamp q0 q1 : UInt64) : UInt32 :=
  (((pulseId - q0) &&& 0xfff) <<< 20).toUInt32 ||| ((timeStamp - q1) &&& 0xfffff).toUInt32

/-- `Header(pulseId, timeStamp, ref)`. -/
def next (pulseId timeStamp : UInt64) (ref : Bytes) : Bytes :=
  toLe 4 (offsets pulseId timeStamp (word64 ref 0) (word64 ref 8)).toNat

/-- `done`. -/
def done (hdr : Bytes) (pulseId : UInt64) : Bool := 1023 < pulseId - word64 hdr 0

/-- `pulseId`. -/
def pulseId (hdr : Bytes) : UInt64 := word64 hdr 0

/-- `id`. -/
def id (hdr : Bytes) : UInt32 := word32 hdr 16

end Header

/-- `Server`, with the packets it has sent. -/
structure Server where
  id : UInt32
  buffer : Bytes
  bufferNext : Nat
  sent : List Bytes

/-- A write outside the buffer. -/
inductive Fault where
  | outOfBounds
  deriving DecidableEq

namespace Server

/-- `Server::Server` and `setID`. -/
def new (id : UInt32) (memory : Memory Header.MTU) : Server := ⟨id, memory.1, 0, []⟩

/-- Writing at `_buffer_next`, which moves on. -/
def put (s : Server) (data : Bytes) : Except Fault Server :=
  if s.bufferNext + data.length ≤ s.buffer.length then
    .ok { s with
      buffer := writeAt s.buffer s.bufferNext data
      bufferNext := s.bufferNext + data.length }
  else .error .outOfBounds

/-- `flush`. -/
def flush (s : Server) : Server :=
  if s.bufferNext ≠ 0 then { s with sent := s.sent ++ [s.buffer.take s.bufferNext], bufferNext := 0 } else s

/-- `publish`. -/
def publish (s : Server) (pulseId timeStamp : UInt64) (T : Bytes) : Except Fault Server :=
  let header :=
    if s.bufferNext ≠ 0 then Header.next pulseId timeStamp s.buffer
    else Header.first pulseId timeStamp s.id
  (s.put header).bind fun s =>
    (s.put T).bind fun s =>
      .ok (if s.bufferNext + T.length > Header.MTU ∨ Header.done s.buffer pulseId then s.flush else s)

end Server

/-- `Client`. -/
structure Client where
  id : UInt32
  buffer : Bytes
  bufferSize : Nat
  bufferNext : Nat

namespace Client

/-- `Client::Client` and `setID`. -/
def new (id : UInt32) (memory : Memory Header.MTU) : Client := ⟨id, memory.1, 0, 0⟩

/-- `fetch`: the result and what is written to `payload`, if anything; it waits if it has to receive a
    packet and there is none. -/
def fetch (c : Client) (sizeofT : Nat) (packets : List Bytes) :
    Option ((UInt64 × Option Bytes) × Client × List Bytes) :=
  if c.bufferNext + sizeofT > c.bufferSize then
    match packets with
    | [] => none
    | packet :: packets =>
      let packet := packet.take Header.MTU
      let c := { c with buffer := writeAt c.buffer 0 packet }
      if Header.id c.buffer ≠ c.id then some ((0, none), c, packets)
      else
        let payload := slice c.buffer Header.sizeofFirst (Header.sizeofFirst + sizeofT)
        some ((Header.pulseId c.buffer, some payload),
          { c with bufferSize := packet.length, bufferNext := Header.sizeofFirst + sizeofT }, packets)
  else
    let result := Header.pulseId c.buffer + (word32 c.buffer c.bufferNext >>> 20).toUInt64
    let start := c.bufferNext + Header.sizeofNext
    some ((result, some (slice c.buffer start (start + sizeofT))),
      { c with bufferNext := start + sizeofT }, packets)

end Client

/-- What is published, with a payload of one size. -/
structure Entry (T : Nat) where
  pulseId : UInt64
  timeStamp : UInt64
  payload : Memory T

/-- A call of the server. -/
inductive Op (T : Nat) where
  | publish (entry : Entry T)
  | flush

/-- The server after a call. -/
def Server.step {T : Nat} (s : Server) : Op T → Except Fault Server
  | .publish e => s.publish e.pulseId e.timeStamp e.payload.1
  | .flush => .ok s.flush

end Lcls2.Bld
