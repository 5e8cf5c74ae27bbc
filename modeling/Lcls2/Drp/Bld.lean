import Mathlib
import Lcls2.Bld.Server

/-!
# Receiving BLD packets

Model of `Bld` in `psdaq/drp/BldDetectorSlow.cc`.
-/

namespace Lcls2.Drp

open Lib Lcls2.Bld

/-- `Bld`; `m_payload` is the position it points to. -/
structure Bld where
  timestampPos : Nat
  pulseIdPos : Nat
  headerSize : Nat
  payloadSize : Nat
  bufferSize : Nat
  position : Nat
  buffer : Bytes
  payload : Nat
  timestampCorr : UInt64
  pulseId : UInt64
  pulseIdJump : UInt32

namespace Bld

def MTU : Nat := 9000

/-- `Bld::Bld` with the positions of the LCLS-II style. -/
def new (payloadSize : Nat) (memory : Memory MTU) : Bld where
  timestampPos := 8
  pulseIdPos := 0
  headerSize := 20
  payloadSize := payloadSize
  bufferSize := 0
  position := 0
  buffer := memory.1
  payload := 0
  timestampCorr := 0
  pulseId := 0
  pulseIdJump := 0

/-- `headerTimestamp`. -/
def headerTimestamp (b : Bld) : UInt64 := word64 b.buffer b.timestampPos - b.timestampCorr

/-- `headerPulseId`. -/
def headerPulseId (b : Bld) : UInt64 := word64 b.buffer b.pulseIdPos

/-- The end of `next`: the jump of the pulse ID is noted. -/
def jump (b : Bld) (pulseId : UInt64) : Bld :=
  { b with pulseId, pulseIdJump := (pulseId - b.pulseId).toUInt32 }

/-- The first event of the packet in the buffer. -/
def first (b : Bld) : UInt64 × Bld :=
  (b.headerTimestamp,
    { b with payload := b.headerSize, position := b.headerSize + b.payloadSize }.jump b.headerPulseId)

/-- `next`; it waits if it has to receive a packet and there is none. -/
def next (b : Bld) (packets : List Bytes) : Option (UInt64 × Bld × List Bytes) :=
  if b.position + b.payloadSize + 4 > b.bufferSize then
    match packets with
    | [] => none
    | packet :: packets =>
      let packet := packet.take MTU
      let event := { b with buffer := writeAt b.buffer 0 packet, bufferSize := packet.length }.first
      some (event.1, event.2, packets)
  else if b.position = 0 then some (b.first.1, b.first.2, packets)
  else
    let word := word32 b.buffer b.position
    let timestamp := b.headerTimestamp + (word &&& 0xfffff).toUInt64
    let pulseId := b.headerPulseId + (word >>> 20 &&& 0xfff).toUInt64
    let moved := { b with payload := b.position + 4, position := b.position + 4 + b.payloadSize }
    some (timestamp, moved.jump pulseId, packets)

end Bld

end Lcls2.Drp
