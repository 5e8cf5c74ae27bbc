import Lcls2.Eb.EbDgram

/-!
# Trigger results

Model of `Pds::Eb::ResultDgram` (`eb/ResultDgram.hh`): an `EbDgram` with the trigger decision in the
bit fields of a data word and the number of a monitor buffer.
-/

namespace Lcls2.Eb

/-- `ResultDgram`. -/
structure ResultDgram extends EbDgram where
  data : BitVec 32
  monBufNo : BitVec 32
  deriving DecidableEq, Repr

namespace ResultDgram

/-- `ResultDgram::ResultDgram`: the payload is what a result adds to an `EbDgram`, that is 8 bytes. -/
def new (dgram : EbDgram) (id : Nat) : ResultDgram where
  toEbDgram := { dgram.copy with src := id, sizeofPayload := 8 }
  data := 0#32
  monBufNo := 0#32

/-- `ResultDgram::persist(bool)`, the field of bit 1. -/
def setPersist (r : ResultDgram) (value : Bool) : ResultDgram :=
  { r with data := (r.data &&& ~~~2#32) ||| (BitVec.ofBool value).setWidth 32 <<< 1 }

/-- `ResultDgram::persist` and `prescale`, bits 1 and 0. -/
def persist (r : ResultDgram) : Bool := r.data &&& 2#32 ≠ 0#32

def setPrescale (r : ResultDgram) (value : Bool) : ResultDgram :=
  { r with data := (r.data &&& ~~~1#32) ||| (BitVec.ofBool value).setWidth 32 }

/-- `ResultDgram::monitor`, the four bits from bit 2. -/
def monitor (r : ResultDgram) : BitVec 32 := (r.data &&& 0x3c#32) >>> 2

def setMonitor (r : ResultDgram) (value : BitVec 32) : ResultDgram :=
  { r with data := (r.data &&& ~~~0x3c#32) ||| ((value <<< 2) &&& 0x3c#32) }

/-- `EbDgram::setEOL` on a result. -/
def setEOL (r : ResultDgram) : ResultDgram := { r with toEbDgram := r.toEbDgram.setEOL }

/-- A result without the end-of-list bit. -/
def copy (r : ResultDgram) : ResultDgram := { r with toEbDgram := r.toEbDgram.copy }

@[simp] lemma setEOL_isEOL (r : ResultDgram) : r.setEOL.isEOL = true := r.toEbDgram.setEOL_isEOL

@[simp] lemma setEOL_pulseId (r : ResultDgram) : r.setEOL.pulseId = r.pulseId := r.toEbDgram.setEOL_pulseId

@[simp] lemma copy_pulseId (r : ResultDgram) : r.copy.pulseId = r.pulseId := r.toEbDgram.copy_pulseId

@[simp] lemma setEOL_copy (r : ResultDgram) : r.setEOL.copy = r.copy := by
  rw [copy, setEOL, EbDgram.setEOL_copy]
  rfl

end ResultDgram

end Lcls2.Eb
