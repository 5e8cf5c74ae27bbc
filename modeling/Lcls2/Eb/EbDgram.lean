import Mathlib

/-!
# Event-builder datagrams

The part of `Pds::EbDgram` (`service/EbDgram.hh`) and of the `XtcData::Dgram` below it that the
event-builder path reads: the pulse ID word, whose top byte also carries the end-of-list bit, the
`env` word with the service and the readout groups, the source and the payload size.
-/

namespace Lcls2.Eb

/-- `XtcData::TransitionId::Value`. -/
inductive TransitionId where
  | ClearReadout | Reset | Configure | Unconfigure | BeginRun | EndRun | BeginStep | EndStep
  | Enable | Disable | SlowUpdate | Unused_11 | L1Accept
  | other (value : Nat)
  deriving DecidableEq, Repr

/-- The transition with a given service number. -/
def TransitionId.ofNat : Nat → TransitionId
  | 0 => .ClearReadout | 1 => .Reset | 2 => .Configure | 3 => .Unconfigure
  | 4 => .BeginRun | 5 => .EndRun | 6 => .BeginStep | 7 => .EndStep
  | 8 => .Enable | 9 => .Disable | 10 => .SlowUpdate | 11 => .Unused_11 | 12 => .L1Accept
  | n => .other n

/-- The service number of a transition. -/
def TransitionId.toNat : TransitionId → Nat
  | .ClearReadout => 0 | .Reset => 1 | .Configure => 2 | .Unconfigure => 3
  | .BeginRun => 4 | .EndRun => 5 | .BeginStep => 6 | .EndStep => 7
  | .Enable => 8 | .Disable => 9 | .SlowUpdate => 10 | .Unused_11 => 11 | .L1Accept => 12
  | .other n => n

@[simp] lemma TransitionId.toNat_ofNat (n : Nat) : (TransitionId.ofNat n).toNat = n := by
  simp only [ofNat]
  split <;> rfl

/-- The 56 bits of the pulse ID word that hold the pulse ID. -/
def pidMask : BitVec 64 := 0x00ffffffffffffff#64

/-- `1ULL << (6 + 56)`. -/
def eolBit : BitVec 64 := 0x4000000000000000#64

/-- The datagram as the event builder and its contributors see it. -/
structure EbDgram where
  pulseIdAndControl : BitVec 64
  env : BitVec 32
  src : Nat
  sizeofPayload : Nat
  deriving DecidableEq, Repr

namespace EbDgram

/-- `PulseId::pulseId`. -/
def pulseId (d : EbDgram) : Nat := (d.pulseIdAndControl &&& pidMask).toNat

/-- `EbDgram::setEOL`. -/
def setEOL (d : EbDgram) : EbDgram :=
  { d with pulseIdAndControl := d.pulseIdAndControl ||| eolBit }

/-- `EbDgram::isEOL`. -/
def isEOL (d : EbDgram) : Bool := d.pulseIdAndControl &&& eolBit != 0#64

/-- `Transition::control`. -/
def control (d : EbDgram) : BitVec 32 := (d.env >>> 24) &&& 0xff#32

/-- `Transition::service`. -/
def service (d : EbDgram) : TransitionId := .ofNat (d.control &&& 0xf#32).toNat

/-- `Transition::isEvent`. -/
def isEvent (d : EbDgram) : Bool := d.service = .L1Accept

/-- `TransitionBase::readoutGroups`. -/
def readoutGroups (d : EbDgram) : BitVec 16 := d.env.setWidth 16

/-- `EbDgram(const PulseId&, const Dgram&)`: the copy drops the control bits, the end-of-list bit
    among them. -/
def copy (d : EbDgram) : EbDgram :=
  { d with pulseIdAndControl := d.pulseIdAndControl &&& pidMask }

lemma pulseId_lt (d : EbDgram) : d.pulseId < 2 ^ 56 := by
  have h : d.pulseId ≤ pidMask.toNat := by
    rw [pulseId, BitVec.toNat_and]
    exact Nat.and_le_right
  exact Nat.lt_of_le_of_lt h (by decide)

@[simp] lemma setEOL_pulseId (d : EbDgram) : d.setEOL.pulseId = d.pulseId := by
  have h : eolBit &&& pidMask = 0#64 := by decide
  simp only [pulseId, setEOL]
  rw [BitVec.and_comm, BitVec.and_or_distrib_left, BitVec.and_comm pidMask eolBit, h,
    BitVec.or_zero, BitVec.and_comm]

@[simp] lemma setEOL_isEOL (d : EbDgram) : d.setEOL.isEOL = true := by
  have h : (d.pulseIdAndControl ||| eolBit) &&& eolBit = eolBit := by
    rw [BitVec.and_comm, BitVec.and_or_distrib_left]
    ext i hi
    simp +contextual
  simp only [isEOL, setEOL, h]
  decide

@[simp] lemma setEOL_env (d : EbDgram) : d.setEOL.env = d.env := rfl
@[simp] lemma setEOL_src (d : EbDgram) : d.setEOL.src = d.src := rfl
@[simp] lemma setEOL_service (d : EbDgram) : d.setEOL.service = d.service := rfl
@[simp] lemma setEOL_isEvent (d : EbDgram) : d.setEOL.isEvent = d.isEvent := rfl
@[simp] lemma setEOL_readoutGroups (d : EbDgram) : d.setEOL.readoutGroups = d.readoutGroups := rfl

@[simp] lemma copy_pulseId (d : EbDgram) : d.copy.pulseId = d.pulseId := by
  simp [pulseId, copy, BitVec.and_assoc]

@[simp] lemma copy_isEOL (d : EbDgram) : d.copy.isEOL = false := by
  have h : pidMask &&& eolBit = 0#64 := by decide
  simp [isEOL, copy, BitVec.and_assoc, h]

@[simp] lemma copy_service (d : EbDgram) : d.copy.service = d.service := rfl
@[simp] lemma copy_isEvent (d : EbDgram) : d.copy.isEvent = d.isEvent := rfl
@[simp] lemma copy_readoutGroups (d : EbDgram) : d.copy.readoutGroups = d.readoutGroups := rfl

@[simp] lemma copy_copy (d : EbDgram) : d.copy.copy = d.copy := by
  simp [copy, BitVec.and_assoc]

/-- A copy does not see the bit. -/
@[simp] lemma setEOL_copy (d : EbDgram) : d.setEOL.copy = d.copy := by
  have h : eolBit &&& pidMask = 0#64 := by decide
  simp only [copy, setEOL]
  rw [BitVec.and_comm, BitVec.and_or_distrib_left, BitVec.and_comm pidMask eolBit, h, BitVec.or_zero,
    BitVec.and_comm]

/-- Setting the bit twice is setting it once. -/
@[simp] lemma setEOL_setEOL (d : EbDgram) : d.setEOL.setEOL = d.setEOL := by
  simp [setEOL, BitVec.or_assoc]

end EbDgram

/-- The datagram closes its batch: a transition other than a `SlowUpdate`. -/
def flushes (d : EbDgram) : Bool := d.service ≠ .L1Accept ∧ d.service ≠ .SlowUpdate

end Lcls2.Eb
