import Mathlib
import Lcls2.Lib.Run

/-!
# Gaps in the frame counts of an encoder

Model of `UdpEncoder::process`, `_readFrame`, `_junkFrame` and `event` (`psdaq/drp/UdpEncoder.cc`). The datagrams in the
socket are frames. `freed` returns a buffer to the free list, as the worker does after it has used a datagram.
-/

namespace Lcls2.Drp
open Lib

/-- `ntohs`, and `htons`. -/
def ntohs (n : UInt16) : UInt16 := .ofNat (n.toNat % 256 * 256 + n.toNat / 256)

/-- `ntohl`. -/
def ntohl (n : UInt32) : UInt32 :=
  .ofNat (n.toNat % 2 ^ 8 * 2 ^ 24 + n.toNat / 2 ^ 8 % 2 ^ 8 * 2 ^ 16 + n.toNat / 2 ^ 16 % 2 ^ 8 * 2 ^ 8 +
    n.toNat / 2 ^ 24)

/-- `encoder_frame_t`, without the fields that nothing reads. -/
structure EncoderFrame where
  frameCount : UInt16
  majorVersion : UInt16
  minorVersion : UInt8
  microVersion : UInt8
  hardwareID : List UInt8
  encoderValue : UInt32
  timing : UInt32
  scale : UInt16
  error : UInt8
  mode : UInt8
  scaleDenom : UInt16
  deriving DecidableEq

namespace EncoderFrame

/-- The frame in the byte order of the host. -/
def swapped (frame : EncoderFrame) : EncoderFrame :=
  { frame with
    frameCount := ntohs frame.frameCount
    majorVersion := ntohs frame.majorVersion
    encoderValue := ntohl frame.encoderValue
    timing := ntohl frame.timing
    scale := ntohs frame.scale
    scaleDenom := ntohs frame.scaleDenom }

/-- The frame that `_readFrame` returns where the expected count is missing. -/
def synthesised (expect16 : UInt16) : EncoderFrame where
  frameCount := ntohs expect16
  majorVersion := ntohs 2
  minorVersion := 0
  microVersion := 0
  hardwareID := List.replicate 16 0
  encoderValue := 0
  timing := 0
  scale := 0
  error := 0
  mode := 0
  scaleDenom := 0

/-- The frame as the names of `RawDef` hold it: of the hardware id what `snprintf` prints to 16 bytes. -/
def raw (frame : EncoderFrame) : EncoderFrame :=
  { frame with hardwareID := (frame.hardwareID.takeWhile (· ≠ 0)).take 15 }

end EncoderFrame

/-- A datagram that `event` has filled, with its damage. -/
structure RawDgram where
  missingData : Bool
  outOfOrder : Bool
  raw : EncoderFrame
  deriving DecidableEq

/-- `recvfrom` finds no frame. -/
inductive UdpFault where
  | noFrame
  deriving DecidableEq

/-- What happens: a frame arrives, the receiver calls `process`, a buffer is returned, running is set. -/
inductive UdpAction where
  | arrive (frame : EncoderFrame)
  | process
  | freed
  | running (on : Bool)
  deriving DecidableEq

/-- `UdpEncoder`, with what it has pushed to `m_pvQueue` so far, and the messages that it has sent. -/
structure UdpEncoder where
  socket : List EncoderFrame
  running : Bool
  freelist : Nat
  pvQueue : List RawDgram
  count : UInt32
  countOffset : UInt32
  resetHwCount : Bool
  outOfOrder : Bool
  missingData : Bool
  notified : List String

namespace UdpEncoder

/-- After `configure`. -/
def configured (buffers : Nat) : UdpEncoder where
  socket := []
  running := false
  freelist := buffers
  pvQueue := []
  count := 0
  countOffset := 0
  resetHwCount := true
  outOfOrder := false
  missingData := false
  notified := []

variable (s : UdpEncoder)

/-- `setMissingData`. -/
def setMissingData (errMsg : String) : UdpEncoder :=
  if s.missingData then s else { s with missingData := true, notified := s.notified ++ [errMsg] }

/-- `setOutOfOrder`. -/
def setOutOfOrder (errMsg : String) : UdpEncoder :=
  if s.outOfOrder then s else { s with outOfOrder := true, notified := s.notified ++ [errMsg] }

/-- The count that `_readFrame` expects. -/
def expect16 : UInt16 := (1 + s.count + s.countOffset).toUInt16

/-- `_readFrame`: a frame, and whether it is one that is missing. -/
def readFrame : Except UdpFault (EncoderFrame × Bool × UdpEncoder) :=
  match s.socket with
  | [] => .error .noFrame
  | frame :: socket =>
    if s.resetHwCount = false ∧ ntohs frame.frameCount ≠ s.expect16 then .ok (.synthesised s.expect16, true, s)
    else .ok (frame.swapped, false, { s with socket })

/-- `_junkFrame`. -/
def junkFrame : UdpEncoder := { s with socket := s.socket.tail }

/-- The frame counter is reset with the first frame. -/
def resetCount (frame : EncoderFrame) : UdpEncoder :=
  if s.resetHwCount then
    { s with count := 0, countOffset := frame.frameCount.toUInt32 - 1, resetHwCount := false }
  else s

/-- The check for the out-of-order condition, with the frame counter before and after it is updated. -/
def checkOrder (frame : EncoderFrame) : UdpEncoder :=
  let stuck16 := (s.count + s.countOffset).toUInt16
  let count := s.count + 1
  let sum16 := (count + s.countOffset).toUInt16
  let s := { s with count }
  if frame.frameCount = stuck16 then
    s.setOutOfOrder s!"Out-of-order: frame count {stuck16} repeated in consecutive frames"
  else if frame.frameCount ≠ sum16 then
    s.setOutOfOrder (s!"Out-of-order: hw count ({frame.frameCount}) != sw count ({count.toUInt16}) + " ++
      s!"offset ({s.countOffset}) == ({sum16})")
  else s

/-- `event`, for a buffer from the free list, that is pushed to `m_pvQueue` after it. -/
def event : Except UdpFault UdpEncoder := do
  let (frame, missing, s) ← s.readFrame
  let s := if missing then s.setMissingData s!"Missing data for frame {frame.frameCount}" else s
  let s := (s.resetCount frame).checkOrder frame
  return { s with pvQueue := s.pvQueue ++ [⟨missing, s.outOfOrder, frame.raw⟩] }

/-- `process`. -/
def process : Except UdpFault UdpEncoder :=
  if s.running then
    match s.freelist with
    | 0 => .ok s.junkFrame
    | freelist + 1 => { s with freelist }.event
  else .ok s.junkFrame

/-- One action. -/
def step : UdpAction → Except UdpFault UdpEncoder
  | .arrive frame => .ok { s with socket := s.socket ++ [frame] }
  | .process => s.process
  | .freed => .ok { s with freelist := s.freelist + 1 }
  | .running on => .ok { s with running := on }

end UdpEncoder

/-- What is to be emitted for a count. -/
inductive Slot where
  | received (frame : EncoderFrame)
  | missing (count : UInt16)

/-- The counts between one that came last and the next one, which may be the same after a whole turn. -/
def countsBetween (last next : UInt16) : List Slot :=
  (List.range (next - last - 1).toNat).map fun i => .missing (last + 1 + .ofNat i)

/-- What is to be emitted for frames after a count. -/
def slotsAfter (last : UInt16) : List EncoderFrame → List Slot
  | [] => []
  | frame :: frames =>
    countsBetween last (ntohs frame.frameCount) ++ .received frame :: slotsAfter (ntohs frame.frameCount) frames

/-- What is to be emitted for frames. -/
def slotsOf : List EncoderFrame → List Slot
  | [] => []
  | frame :: frames => .received frame :: slotsAfter (ntohs frame.frameCount) frames

/-- A datagram is the one to be emitted: with the data of the frame and no damage, or an empty one that is marked. -/
def Shows (d : RawDgram) : Slot → Prop
  | .received frame => d = ⟨false, false, frame.swapped.raw⟩
  | .missing count => d.missingData = true ∧ d.outOfOrder = false ∧ d.raw.frameCount = count ∧
      d.raw.encoderValue = 0 ∧ d.raw.timing = 0 ∧ d.raw.scale = 0 ∧ d.raw.scaleDenom = 0 ∧ d.raw.mode = 0 ∧
      d.raw.error = 0 ∧ d.raw.hardwareID = []

/-- The frame that arrives. -/
def UdpAction.frame : UdpAction → Option EncoderFrame
  | .arrive frame => some frame
  | _ => none

/-- The frames that have arrived. -/
def arrived (as : List UdpAction) : List EncoderFrame := as.filterMap UdpAction.frame

namespace UdpEncoder

/-- What has been emitted is the first part of what is to be emitted for the frames that have arrived, and all of it
    where no frame waits. -/
def Fills (as : List UdpAction) (s : UdpEncoder) : Prop :=
  ∃ shown rest, slotsOf (arrived as) = shown ++ rest ∧ List.Forall₂ Shows s.pvQueue shown ∧ (s.socket = [] → rest = [])

/-- `process` is called while it is running, with a free buffer. -/
def Served (_ : List UdpAction) (s : UdpEncoder) : UdpAction → Prop
  | .process => s.running = true ∧ s.freelist ≠ 0
  | _ => True

instance decidableServed (as : List UdpAction) (s : UdpEncoder) : (a : UdpAction) → Decidable (Served as s a)
  | .process => inferInstanceAs (Decidable (_ ∧ _))
  | .arrive _ => .isTrue trivial
  | .freed => .isTrue trivial
  | .running _ => .isTrue trivial

/-- And where it finds that a count is missing, that is one with two equal bytes. -/
def Even (as : List UdpAction) (s : UdpEncoder) (a : UdpAction) : Prop :=
  Served as s a ∧ (a = .process → s.resetHwCount = false →
    (∀ frame ∈ s.socket.head?, ntohs frame.frameCount ≠ s.expect16) → ntohs s.expect16 = s.expect16)

instance decidableEven (as : List UdpAction) (s : UdpEncoder) (a : UdpAction) : Decidable (Even as s a) :=
  inferInstanceAs (Decidable (_ ∧ (_ → _ → _ → _)))

section emission
variable {s t : UdpEncoder} {as : List UdpAction} {frame : EncoderFrame}

/-- The count that was emitted last. -/
def last (s : UdpEncoder) : UInt16 := (s.count + s.countOffset).toUInt16

/-- What is to be emitted for frames from a state on. -/
def pending (s : UdpEncoder) (frames : List EncoderFrame) : List Slot :=
  if s.resetHwCount then slotsOf frames else slotsAfter s.last frames

/-- The count that is expected is the one after the last. -/
lemma expect16_eq (s : UdpEncoder) : s.expect16 = s.last + 1 := by
  rw [expect16, last, UInt32.add_assoc, UInt32.add_comm, UInt32.toUInt16_add]
  rfl

/-- No count is the one after it. -/
lemma ne_succ (n : UInt16) : n ≠ n + 1 := by
  intro e
  have := congrArg UInt16.toNat e
  rw [UInt16.toNat_add] at this
  have lt := n.toNat_lt
  have one : (1 : UInt16).toNat = 1 := rfl
  omega

/-- The check says out of order where the count is not the one after the last. -/
lemma checkOrder_spec (s : UdpEncoder) (frame : EncoderFrame) :
    (s.checkOrder frame).outOfOrder = (s.outOfOrder || decide (frame.frameCount ≠ s.last + 1)) ∧
      (s.checkOrder frame).last = s.last + 1 ∧ (s.checkOrder frame).socket = s.socket ∧
      (s.checkOrder frame).pvQueue = s.pvQueue ∧ (s.checkOrder frame).resetHwCount = s.resetHwCount := by
  have sum : (s.count + 1 + s.countOffset).toUInt16 = s.last + 1 := by
    rw [← expect16_eq, expect16, UInt32.add_comm s.count]
  have kept : ∀ {s : UdpEncoder} {m}, (s.setOutOfOrder m).outOfOrder = true ∧ (s.setOutOfOrder m).last = s.last ∧
      (s.setOutOfOrder m).socket = s.socket ∧ (s.setOutOfOrder m).pvQueue = s.pvQueue ∧
      (s.setOutOfOrder m).resetHwCount = s.resetHwCount := by
    intro s m
    rw [setOutOfOrder]
    split
    · rename_i set
      exact ⟨set, rfl, rfl, rfl, rfl⟩
    · exact ⟨rfl, rfl, rfl, rfl, rfl⟩
  rw [checkOrder]
  simp only [sum]
  split
  · rename_i stuck
    obtain ⟨out, same, rest⟩ := @kept { s with count := s.count + 1 } _
    have wrong : frame.frameCount ≠ s.last + 1 := by
      intro e
      exact ne_succ s.last (stuck.symm.trans e)
    rw [out, decide_eq_true wrong, Bool.or_true]
    exact ⟨rfl, same.trans sum, rest⟩
  · split
    · rename_i wrong
      obtain ⟨out, same, rest⟩ := @kept { s with count := s.count + 1 } _
      rw [out, decide_eq_true wrong, Bool.or_true]
      exact ⟨rfl, same.trans sum, rest⟩
    · rename_i right
      rw [decide_eq_false right, Bool.or_false]
      exact ⟨rfl, sum, rfl, rfl, rfl⟩

/-- The message that data is missing changes nothing else. -/
lemma setMissingData_spec (s : UdpEncoder) (m : String) :
    (s.setMissingData m).outOfOrder = s.outOfOrder ∧ (s.setMissingData m).last = s.last ∧
      (s.setMissingData m).socket = s.socket ∧ (s.setMissingData m).pvQueue = s.pvQueue ∧
      (s.setMissingData m).resetHwCount = s.resetHwCount := by
  rw [setMissingData]
  split
  · exact ⟨rfl, rfl, rfl, rfl, rfl⟩
  · exact ⟨rfl, rfl, rfl, rfl, rfl⟩

/-- With the first frame, the count before it is the last. -/
lemma resetCount_spec (s : UdpEncoder) (frame : EncoderFrame) :
    (s.resetCount frame).outOfOrder = s.outOfOrder ∧
      (s.resetCount frame).last + 1 = (if s.resetHwCount then frame.frameCount else s.last + 1) ∧
      (s.resetCount frame).socket = s.socket ∧ (s.resetCount frame).pvQueue = s.pvQueue ∧
      (s.resetCount frame).resetHwCount = false := by
  rw [resetCount]
  split
  · refine ⟨rfl, ?_, rfl, rfl, rfl⟩
    show (0 + (frame.frameCount.toUInt32 - 1)).toUInt16 + 1 = frame.frameCount
    rw [UInt32.zero_add, UInt32.toUInt16_sub, UInt16.toUInt16_toUInt32]
    exact UInt16.sub_add_cancel _ _
  · rename_i counting
    exact ⟨rfl, rfl, rfl, rfl, Bool.eq_false_iff.mpr counting⟩

/-- What `event` does: a frame that is expected is emitted, or an empty one while it stays in the socket. -/
lemma event_spec (h : s.event = .ok t) :
    ∃ frame frames, s.socket = frame :: frames ∧ t.resetHwCount = false ∧
      (((s.resetHwCount = true ∨ ntohs frame.frameCount = s.last + 1) ∧ t.socket = frames ∧
          t.last = ntohs frame.frameCount ∧ t.outOfOrder = s.outOfOrder ∧
          t.pvQueue = s.pvQueue ++ [⟨false, t.outOfOrder, frame.swapped.raw⟩]) ∨
        (s.resetHwCount = false ∧ ntohs frame.frameCount ≠ s.last + 1 ∧ t.socket = s.socket ∧
          t.last = s.last + 1 ∧ t.outOfOrder = (s.outOfOrder || decide (ntohs (s.last + 1) ≠ s.last + 1)) ∧
          t.pvQueue = s.pvQueue ++ [⟨true, t.outOfOrder, (EncoderFrame.synthesised (s.last + 1)).raw⟩])) := by
  obtain ⟨⟨frame, missing, s'⟩, read, h⟩ := bind_ok h
  cases h
  rw [readFrame] at read
  split at read
  · cases read
  · rename_i first frames socket
    refine ⟨first, frames, socket, ?_⟩
    rw [expect16_eq] at read
    split at read
    · rename_i gap
      cases read
      simp only [if_true]
      generalize message : toString "Missing data for frame " ++ _ = m
      obtain ⟨out₁, last₁, socket₁, queue₁, reset₁⟩ := setMissingData_spec s m
      obtain ⟨out₂, last₂, socket₂, queue₂, reset₂⟩ := resetCount_spec (s.setMissingData m) (.synthesised (s.last + 1))
      obtain ⟨out₃, last₃, socket₃, queue₃, reset₃⟩ := checkOrder_spec
        ((s.setMissingData m).resetCount (.synthesised (s.last + 1))) (.synthesised (s.last + 1))
      rw [reset₁, gap.1, if_neg Bool.false_ne_true, last₁] at last₂
      rw [last₂] at last₃ out₃
      refine ⟨reset₃.trans reset₂, .inr ⟨gap.1, gap.2, (socket₃.trans socket₂).trans socket₁, last₃, ?_, ?_⟩⟩
      · exact out₃.trans (by rw [out₂, out₁]; rfl)
      · show _ ++ _ = _
        rw [queue₃, queue₂, queue₁]
    · rename_i expected
      cases read
      simp only [if_neg Bool.false_ne_true]
      obtain ⟨out₂, last₂, socket₂, queue₂, reset₂⟩ := resetCount_spec { s with socket := frames } first.swapped
      obtain ⟨out₃, last₃, socket₃, queue₃, reset₃⟩ :=
        checkOrder_spec ({ s with socket := frames }.resetCount first.swapped) first.swapped
      have next : (({ s with socket := frames } : UdpEncoder).resetCount first.swapped).last + 1 =
          ntohs first.frameCount ∧ (s.resetHwCount = true ∨ ntohs first.frameCount = s.last + 1) := by
        cases counting : s.resetHwCount with
        | true =>
          rw [counting] at last₂
          exact ⟨last₂, .inl rfl⟩
        | false =>
          rw [counting] at last₂
          have same : ntohs first.frameCount = s.last + 1 := by
            by_contra other
            exact expected ⟨counting, other⟩
          exact ⟨last₂.trans same.symm, .inr same⟩
      rw [next.1] at last₃ out₃
      have fine : first.swapped.frameCount = ntohs first.frameCount := rfl
      rw [decide_eq_false (not_not.mpr fine), Bool.or_false] at out₃
      refine ⟨reset₃.trans reset₂, .inl ⟨next.2, socket₃.trans socket₂, last₃, out₃.trans out₂, ?_⟩⟩
      show _ ++ _ = _
      rw [queue₃, queue₂]

/-- One more than the predecessor of a number that is not 0. -/
lemma pred_toNat {n : UInt16} (some_ : n ≠ 0) : n.toNat = (n - 1).toNat + 1 := by
  have pos : n.toNat ≠ 0 := fun e => some_ (UInt16.toNat_inj.mp e)
  rw [UInt16.toNat_sub]
  have lt := n.toNat_lt
  have one : (1 : UInt16).toNat = 1 := rfl
  omega

/-- Where counts are missing the first of them is the one after the last. -/
lemma countsBetween_cons {last next : UInt16} (other : next ≠ last + 1) :
    countsBetween last next = .missing (last + 1) :: countsBetween (last + 1) next := by
  have fewer : next - (last + 1) - 1 = next - last - 1 - 1 := by rw [sub_add_eq_sub_sub]
  have some_ : next - last - 1 ≠ 0 := by
    intro e
    rw [sub_sub] at e
    exact other (sub_eq_zero.mp e)
  rw [countsBetween, pred_toNat some_, List.range_succ_eq_map, List.map_cons, List.map_map, countsBetween, fewer]
  congr 1
  · exact congrArg Slot.missing (UInt16.add_zero _)
  · apply List.map_congr_left
    intro i _
    show Slot.missing (last + 1 + .ofNat (i + 1)) = .missing (last + 1 + 1 + .ofNat i)
    rw [UInt16.ofNat_add, UInt16.add_assoc (last + 1), UInt16.add_comm (.ofNat i)]
    rfl

/-- Between a count and the one after it nothing is missing. -/
lemma countsBetween_succ (last : UInt16) : countsBetween last (last + 1) = [] := by
  have none_ : last + 1 - last - 1 = 0 := by rw [add_sub_cancel_left, sub_self]
  rw [countsBetween, none_]
  rfl

/-- Where the next frame is not the expected one, the expected count is to be emitted first. -/
lemma slotsAfter_missing {last : UInt16} {frames : List EncoderFrame} (other : ntohs frame.frameCount ≠ last + 1) :
    slotsAfter last (frame :: frames) = .missing (last + 1) :: slotsAfter (last + 1) (frame :: frames) := by
  rw [slotsAfter, slotsAfter, countsBetween_cons other, List.cons_append]

/-- Where it is the expected one, it is to be emitted. -/
lemma slotsAfter_expected {last : UInt16} {frames : List EncoderFrame} (same : ntohs frame.frameCount = last + 1) :
    slotsAfter last (frame :: frames) = .received frame :: slotsAfter (ntohs frame.frameCount) frames := by
  rw [slotsAfter, same, countsBetween_succ, List.nil_append]

/-- Nothing is out of order, and what has been emitted and what is pending is what is to be emitted, whatever else
    arrives. -/
structure Emitting (as : List UdpAction) (s : UdpEncoder) : Prop where
  ordered : s.outOfOrder = false
  shown : ∃ shown, List.Forall₂ Shows s.pvQueue shown ∧
    ∀ more, slotsOf (arrived as ++ more) = shown ++ s.pending (s.socket ++ more)

/-- Then what has been emitted is as it should be. -/
lemma Emitting.fills (emitting : Emitting as s) : Fills as s := by
  obtain ⟨shown, shows_, all⟩ := emitting.shown
  have now := all []
  rw [List.append_nil, List.append_nil] at now
  refine ⟨shown, s.pending s.socket, now, shows_, ?_⟩
  intro none_
  rw [none_, pending]
  split
  · rfl
  · rfl

/-- One more datagram that is the one to be emitted. -/
lemma Emitting.emit {as} {d : RawDgram} {slot : Slot} (emitting : Emitting as s) (ordered : t.outOfOrder = false)
    (queue : t.pvQueue = s.pvQueue ++ [d]) (right : Shows d slot)
    (pending : ∀ more, s.pending (s.socket ++ more) = slot :: t.pending (t.socket ++ more)) :
    Emitting (as ++ [.process]) t := by
  obtain ⟨shown, shows_, all⟩ := emitting.shown
  refine ⟨ordered, shown ++ [slot], ?_, ?_⟩
  · rw [queue]
    exact List.rel_append shows_ (.cons right .nil)
  · intro more
    have same : arrived (as ++ [.process]) = arrived as := by
      rw [arrived, List.filterMap_append]
      exact List.append_nil _
    rw [same, all, pending, List.append_assoc]
    rfl

/-- An action that leaves the frames and the datagrams. -/
lemma Emitting.keep {a : UdpAction} (emitting : Emitting as s) (none_ : a.frame = none)
    (ordered : t.outOfOrder = s.outOfOrder) (queue : t.pvQueue = s.pvQueue)
    (pending : ∀ more, t.pending (t.socket ++ more) = s.pending (s.socket ++ more)) : Emitting (as ++ [a]) t := by
  obtain ⟨shown, shows_, all⟩ := emitting.shown
  refine ⟨ordered.trans emitting.ordered, shown, queue ▸ shows_, ?_⟩
  intro more
  have same : arrived (as ++ [a]) = arrived as := by
    rw [arrived, List.filterMap_append, List.filterMap_cons, none_]
    exact List.append_nil _
  rw [same, all, pending]

/-- Where it is running and there is a buffer, `process` is `event`. -/
lemma process_served (served : Served as s .process) (h : s.process = .ok t) :
    ∃ freelist, { s with freelist }.event = .ok t := by
  rw [process, if_pos served.1] at h
  cases free : s.freelist with
  | zero => exact absurd free served.2
  | succ freelist =>
    rw [free] at h
    exact ⟨freelist, h⟩

/-- The empty frame is the one to be emitted where its count has equal bytes. -/
lemma synthesised_shows {count : UInt16} (even : ntohs count = count) :
    Shows ⟨true, false, (EncoderFrame.synthesised count).raw⟩ (.missing count) :=
  ⟨rfl, rfl, even, rfl, rfl, rfl, rfl, rfl, rfl, rfl⟩

/-- A call of `process` that finds no count missing, or one with equal bytes. -/
lemma Emitting.process (emitting : Emitting as s) (even : Even as s .process) (h : s.process = .ok t) :
    Emitting (as ++ [.process]) t := by
  obtain ⟨freelist, event⟩ := process_served even.1 h
  obtain ⟨frame, frames, socket, reset, expected | gap⟩ := event_spec event
  · obtain ⟨first, rest, last, out, queue⟩ := expected
    have ordered : t.outOfOrder = false := out.trans emitting.ordered
    rw [ordered] at queue
    have right : Shows ⟨false, false, frame.swapped.raw⟩ (.received frame) := rfl
    apply emitting.emit ordered queue right
    intro more
    have socket : s.socket = frame :: frames := socket
    rw [socket, pending, pending, reset, rest, last, List.cons_append]
    cases counting : s.resetHwCount with
    | true => rfl
    | false =>
      cases first with
      | inl start => cases counting.symm.trans start
      | inr same => exact slotsAfter_expected same
  · obtain ⟨counting, other, same, last, out, queue⟩ := gap
    have socket : s.socket = frame :: frames := socket
    have counting : s.resetHwCount = false := counting
    have equal : ntohs (s.last + 1) = s.last + 1 := by
      have := even.2 rfl counting
      rw [socket, expect16_eq] at this
      apply this
      intro f mem
      cases mem
      exact other
    have ordered : t.outOfOrder = false := by
      refine out.trans ?_
      show (s.outOfOrder || decide (ntohs (s.last + 1) ≠ s.last + 1)) = false
      rw [emitting.ordered, decide_eq_false (not_not.mpr equal)]
      rfl
    rw [ordered] at queue
    apply emitting.emit ordered queue (synthesised_shows equal)
    intro more
    have same : t.socket = s.socket := same
    have last : t.last = s.last + 1 := last
    rw [same, socket, pending, pending, reset, counting, last]
    exact slotsAfter_missing other

/-- Every action that meets the condition. -/
lemma Emitting.next {a : UdpAction} (emitting : Emitting as s) (even : Even as s a) (h : s.step a = .ok t) :
    Emitting (as ++ [a]) t := by
  cases a with
  | arrive frame =>
    cases h
    obtain ⟨shown, shows_, all⟩ := emitting.shown
    refine ⟨emitting.ordered, shown, shows_, ?_⟩
    intro more
    have here : arrived (as ++ [.arrive frame]) ++ more = arrived as ++ (frame :: more) := by
      rw [arrived, List.filterMap_append, List.append_assoc]
      rfl
    rw [here, all]
    show shown ++ s.pending _ = shown ++ s.pending _
    rw [List.append_assoc]
    rfl
  | process => exact emitting.process even h
  | freed =>
    cases h
    exact emitting.keep rfl rfl rfl fun _ => rfl
  | running on =>
    cases h
    exact emitting.keep rfl rfl rfl fun _ => rfl

/-- A datagram that is out of order is not the one to be emitted. -/
lemma not_fills {d : RawDgram} (mem : d ∈ s.pvQueue) (out : d.outOfOrder = true) : ¬ Fills as s := by
  rintro ⟨shown, rest, -, shows_, -⟩
  obtain ⟨i, lt, here⟩ := List.getElem_of_mem mem
  have right := shows_.get lt (shows_.length_eq ▸ lt)
  rw [List.get_eq_getElem, here] at right
  cases slot : shown.get ⟨i, shows_.length_eq ▸ lt⟩ with
  | received frame =>
    rw [slot] at right
    cases right
    cases out
  | missing count =>
    rw [slot] at right
    cases right.2.1.symm.trans out

/-- A call of `process` that emits what it should found no count missing, or one with equal bytes. -/
lemma even_of_fills (served : Served as s .process) (h : s.process = .ok t) (fills : Fills (as ++ [.process]) t) :
    Even as s .process := by
  refine ⟨served, ?_⟩
  intro _ counting gap
  obtain ⟨freelist, event⟩ := process_served served h
  obtain ⟨frame, frames, socket, -, expected | missing⟩ := event_spec event
  · have socket : s.socket = frame :: frames := socket
    have other := gap frame (by rw [socket]; rfl)
    cases expected.1 with
    | inl start => cases counting.symm.trans start
    | inr same => exact absurd (same.trans s.expect16_eq.symm) other
  · obtain ⟨-, -, -, -, out, queue⟩ := missing
    by_contra uneven
    rw [expect16_eq] at uneven
    have out : t.outOfOrder = (s.outOfOrder || decide (ntohs (s.last + 1) ≠ s.last + 1)) := out
    rw [decide_eq_true uneven, Bool.or_true] at out
    have mem : ⟨true, t.outOfOrder, (EncoderFrame.synthesised (s.last + 1)).raw⟩ ∈ t.pvQueue := by
      rw [queue]
      exact List.mem_append_right _ (List.mem_singleton.mpr rfl)
    exact not_fills mem out fills

end emission

/-- While it is running with free buffers, the datagrams for the received and the missing counts are emitted in order
    and without out-of-order damage, in every state of a run, exactly where each missing count that is met has two equal
    bytes. -/
theorem gaps_iff (buffers : Nat) (as : List UdpAction) (s : UdpEncoder)
    (run : Run step Served (configured buffers) as s) :
    (∀ bs t, bs <+: as → Run step Served (configured buffers) bs t → Fills bs t) ↔
      Run step Even (configured buffers) as s := by
  have start : Emitting [] (configured buffers) := ⟨rfl, [], .nil, fun _ => rfl⟩
  apply Run.everywhere_iff (I := Emitting) (P := Fills) start start.fills ?_ ?_ run
  · intro as s a t emitting even h
    exact emitting.next even h
  · intro as s a t emitting _ served h
    constructor
    · intro fills
      cases a with
      | process => exact even_of_fills served h fills
      | arrive frame => exact ⟨trivial, nofun⟩
      | freed => exact ⟨trivial, nofun⟩
      | running on => exact ⟨trivial, nofun⟩
    · intro even
      exact (emitting.next even h).fills

/-- A frame of an encoder, with a count in network byte order. -/
def sentFrame (frameCount : UInt16) : EncoderFrame where
  frameCount := frameCount
  majorVersion := ntohs 2
  minorVersion := 0
  microVersion := 0
  hardwareID := List.replicate 16 0
  encoderValue := ntohl 170000
  timing := ntohl 54321
  scale := ntohs 1
  error := 0
  mode := 0
  scaleDenom := ntohs 150

/-- A run in which a frame is followed by another one, and `process` is called while one waits. -/
def twoFrames (first second : UInt16) : List UdpAction :=
  [.running true, .arrive (sentFrame (ntohs first)), .process, .arrive (sentFrame (ntohs second)), .process, .process]

/-- A missing count with equal bytes. -/
theorem gap_of_257 :
    ∃ s, Run step Served (configured 8) (twoFrames 256 258) s ∧
      ∀ bs t, bs <+: twoFrames 256 258 → Run step Served (configured 8) bs t → Fills bs t := by
  obtain ⟨s, run, -⟩ := Run.of_replay_any step Even (configured 8) (twoFrames 256 258) (fun _ => true)
    (by decide +kernel)
  have served : Run step Served (configured 8) (twoFrames 256 258) s := run.mono fun _ _ _ even => even.1
  exact ⟨s, served, (gaps_iff 8 _ s served).mpr run⟩

/-- A missing count whose bytes differ is emitted with its bytes swapped, and then all is out of order. -/
theorem gap_of_2 :
    ∃ s, Run step Served (configured 8) (twoFrames 1 3) s ∧
      s.pvQueue.map (fun d => (d.raw.frameCount, d.missingData, d.outOfOrder)) =
        [(1, false, false), (512, true, true), (3, false, true)] ∧ ¬ Fills (twoFrames 1 3) s := by
  obtain ⟨s, run, test⟩ := Run.of_replay_any step Served (configured 8) (twoFrames 1 3)
    (fun s => s.pvQueue.map (fun d => (d.raw.frameCount, d.missingData, d.outOfOrder)) =
      [(1, false, false), (512, true, true), (3, false, true)]) (by decide +kernel)
  have queue := of_decide_eq_true test
  refine ⟨s, run, queue, ?_⟩
  have mem : (3, false, true) ∈ s.pvQueue.map (fun d => (d.raw.frameCount, d.missingData, d.outOfOrder)) := by
    rw [queue]
    decide
  obtain ⟨d, there, e⟩ := List.mem_map.mp mem
  exact not_fills there (Prod.mk.inj (Prod.mk.inj e).2).2

end UdpEncoder

end Lcls2.Drp
