import Lcls2.Lib.Frames
import Lcls2.Xtc.Header

/-!
# The file reader

Model of `XtcFileIterator` (`xtc/src/XtcFileIterator.cc`): the header of a datagram is read into a buffer that is
used over and over, and then as much payload as the header in the buffer says.

* `::read` of a file: what is left of the file, up to `maxRead` bytes a call, and `-1` when the size is no
  `ssize_t`.
* A header is taken for complete when any byte of it was read: the others are those of the datagram before, or
  what the buffer was allocated with.
-/

namespace Lcls2.Xtc
open Lib

/-- `XtcFileIterator`; `_maxDgramSize` is the length of `_buf`. -/
structure XtcFileIterator where
  file : Bytes
  pos : Nat
  buf : Bytes
  deriving DecidableEq

/-- The header does not fit the buffer. -/
inductive Overrun where
  | header
  deriving DecidableEq, Repr

/-- What a call of `read(2)` transfers at most. -/
def maxRead : Nat := 0x7ffff000

/-- What `read(2)` returns when `left` bytes are left of the file. -/
def readRet (left count : Nat) : Int := if 2 ^ 63 ≤ count then -1 else (min (min count maxRead) left : Nat)

namespace XtcFileIterator

/-- The bytes that are still to be read. -/
def rest (s : XtcFileIterator) : Bytes := s.file.drop s.pos

/-- What `::read` of a size puts at an offset of the buffer. -/
def fill (s : XtcFileIterator) (offset size : Nat) : XtcFileIterator :=
  { s with
    pos := s.pos + min size s.rest.length
    buf := writeAt s.buf offset (s.rest.take size) }

/-- The part of `XtcFileIterator::next` after the header. -/
def readPayload (s : XtcFileIterator) : Option Bytes × XtcFileIterator :=
  let payload := sizeofPayload (extent s.buf xtcOfDgram)
  let payloadSize := toSize payload
  if s.buf.length < (payloadSize + sizeofDgram) % 2 ^ 64 then (none, s)
  else
    let sz := readRet s.rest.length payloadSize
    let s := s.fill sizeofDgram sz.toNat
    if sz ≠ payload then (none, s) else (some (s.buf.take (sizeofDgram + payload.toNat)), s)

/-- `XtcFileIterator::next`: the datagram in the buffer, if there is one. -/
def next (s : XtcFileIterator) : Except Overrun (Option Bytes × XtcFileIterator) :=
  if s.rest.length = 0 then .ok (none, s)
  else if s.buf.length < sizeofDgram then .error .header
  else .ok (s.fill 0 sizeofDgram).readPayload

/-- `XtcFileIterator::rewind`. -/
def rewind (s : XtcFileIterator) : XtcFileIterator := { s with pos := 0 }

/-- The datagrams that calls of `next` return up to the first null. -/
inductive Reads : XtcFileIterator → List Bytes → Prop where
  | null {s s'} :
    s.next = .ok (none, s') →
    Reads s []
  | dgram {s s' d ds} :
    s.next = .ok (some d, s') →
    Reads s' ds →
    Reads s (d :: ds)

end XtcFileIterator

/-! ## Datagrams of a byte stream -/

/-- The size of the datagram at the front, if it is complete and fits a buffer. Its extent counts the header of
    its `Xtc`. -/
def dgramSize (maxDgramSize : Nat) (bs : Bytes) : Option Nat :=
  let size := xtcOfDgram + extent bs xtcOfDgram
  if sizeofDgram ≤ size ∧ size ≤ maxDgramSize ∧ size ≤ bs.length then some size else none

/-- A datagram has bytes, and they are all there. -/
lemma dgramSize_framing (maxDgramSize : Nat) : Framing (dgramSize maxDgramSize) := by
  intro bs n found
  simp only [dgramSize] at found
  split at found
  · rename_i complete
    cases found
    exact ⟨Nat.lt_of_lt_of_le (by decide) complete.1, complete.2.2⟩
  · cases found

/-- The complete datagrams that fit a buffer, and what follows them. -/
def dgrams (maxDgramSize : Nat) (bs : Bytes) : List Bytes × Bytes := frames (dgramSize maxDgramSize) bs

namespace XtcFileIterator

/-- The header that `next` finds once the bytes `tail` are left, where `stale` is in the buffer. -/
def lastHeader (stale tail : Bytes) : Bytes := writeAt (stale.take sizeofDgram) 0 (tail.take sizeofDgram)

/-- The last bytes of a file are not taken for a datagram. -/
def EndsClean (maxDgramSize : Nat) (stale tail : Bytes) : Prop :=
  tail = [] ∨
    sizeofDgram ≤ maxDgramSize ∧ extent (lastHeader stale tail) xtcOfDgram ≠ 11 ∧
      (tail.length < sizeofDgram → extent (lastHeader stale tail) xtcOfDgram ≠ 12)

/-- Every datagram is read by one call, and the last bytes are not taken for one. -/
def ReadsWell (s : XtcFileIterator) : Prop :=
  (∀ d ∈ (dgrams s.buf.length s.rest).1, d.length ≤ sizeofDgram + maxRead) ∧
    EndsClean s.buf.length ((dgrams s.buf.length s.rest).1.getLast?.getD s.buf) (dgrams s.buf.length s.rest).2

/-! ## The header -/

/-- The extent of a datagram is in its header. -/
lemma extent_of_take {bs bs' : Bytes} (same : bs.take sizeofDgram = bs'.take sizeofDgram) :
    extent bs xtcOfDgram = extent bs' xtcOfDgram := by
  have cut : ∀ mem : Bytes, extent mem xtcOfDgram = ofLe ((mem.take sizeofDgram).drop 20) := fun _ => rfl
  rw [cut, cut, same]

/-- Whether the header in the buffer is taken for that of a datagram, when `left` bytes follow. -/
def Taken (maxDgramSize left extent : Nat) : Prop :=
  ¬ maxDgramSize < (toSize (sizeofPayload extent) + sizeofDgram) % 2 ^ 64 ∧
    readRet left (toSize (sizeofPayload extent)) = sizeofPayload extent

/-- It is when the datagram fits and is complete, and also when its extent is one short of the header. -/
lemma taken_iff {maxDgramSize left extent : Nat} (room : sizeofDgram ≤ maxDgramSize) (lt : extent < 2 ^ 32) :
    Taken maxDgramSize left extent ↔
      extent = 11 ∨ 12 ≤ extent ∧ extent + 12 ≤ maxDgramSize ∧ extent - 12 ≤ left ∧ extent - 12 ≤ maxRead := by
  unfold Taken toSize readRet sizeofDgram maxRead at *
  cases Nat.lt_or_ge extent (2 ^ 31 + 12) with
  | inl small =>
    rw [sizeofPayload_of_le small]
    cases Nat.lt_or_ge extent 12 with
    | inl short =>
      -- the payload is negative, and so is what `read` returns
      have size : (((extent : Int) - 12) % 2 ^ 64).toNat = 2 ^ 64 + extent - 12 := by omega
      rw [size, if_pos (by omega)]
      omega
    | inr long =>
      have size : (((extent : Int) - 12) % 2 ^ 64).toNat = extent - 12 := by omega
      rw [size, if_neg (by omega)]
      omega
  | inr large =>
    rw [sizeofPayload_of_ge lt large]
    have size : (((extent : Int) - 12 - 2 ^ 32) % 2 ^ 64).toNat = 2 ^ 64 + extent - 12 - 2 ^ 32 := by omega
    rw [size, if_pos (by omega)]
    omega

/-! ## A call -/

variable {s : XtcFileIterator}

/-- Reading moves on in the file. -/
lemma rest_fill (s : XtcFileIterator) (offset size : Nat) : (s.fill offset size).rest = s.rest.drop size := by
  have move : (s.fill offset size).rest = s.rest.drop (min size s.rest.length) := by
    rw [rest, fill, rest, List.drop_drop]
  rw [move]
  cases Nat.le_total size s.rest.length with
  | inl le => rw [Nat.min_eq_left le]
  | inr ge => rw [Nat.min_eq_right ge, List.drop_length, List.drop_eq_nil_of_le ge]

/-- The buffer stays as long as it is. -/
lemma length_fill {offset size : Nat} (room : offset + (s.rest.take size).length ≤ s.buf.length) :
    (s.fill offset size).buf.length = s.buf.length := by
  rw [fill, writeAt, List.length_append, List.length_append, List.length_drop, List.length_take]
  omega

/-- The header in the buffer once `next` has read some of it. -/
lemma header_fill (s : XtcFileIterator) :
    (s.fill 0 sizeofDgram).buf.take sizeofDgram = lastHeader s.buf s.rest := by
  have part : (s.rest.take sizeofDgram).length ≤ sizeofDgram := List.length_take_le _ _
  rw [fill, lastHeader, writeAt, writeAt, List.take_zero, List.nil_append, List.take_zero, List.nil_append,
    Nat.zero_add, List.take_append, List.take_of_length_le part, List.drop_take]

/-- A call returns null when the header is not taken for one of a datagram. -/
lemma readPayload_none :
    s.readPayload.1 = none ↔ ¬ Taken s.buf.length s.rest.length (extent s.buf xtcOfDgram) := by
  simp only [readPayload]
  split
  · rename_i larger
    simp only [Taken, larger, not_true_eq_false, false_and, not_false_eq_true]
  · rename_i fits
    split
    · rename_i short
      simp only [Taken, short, and_false, not_false_eq_true]
    · rename_i whole
      simp only [reduceCtorEq, false_iff, not_not]
      exact ⟨fits, not_not.mp whole⟩

/-- A datagram that is taken is returned as it lies in the buffer. -/
lemma readPayload_some (taken : Taken s.buf.length s.rest.length (extent s.buf xtcOfDgram)) :
    let payload := sizeofPayload (extent s.buf xtcOfDgram)
    let s' := s.fill sizeofDgram payload.toNat
    s.readPayload = (some (s'.buf.take (sizeofDgram + payload.toNat)), s') := by
  intro payload s'
  obtain ⟨fits, whole⟩ := taken
  simp only [readPayload, if_neg fits]
  rw [whole, if_neg (not_not.mpr rfl)]

/-- The sizes as numbers. -/
lemma sizes : sizeofDgram = 24 ∧ xtcOfDgram = 12 ∧ maxRead = 2147479552 := ⟨rfl, rfl, rfl⟩

/-- The complete datagram at the front, if it fits and one call can read it. -/
lemma next_frame {n : Nat} (found : dgramSize s.buf.length s.rest = some n) (short : n ≤ sizeofDgram + maxRead) :
    ∃ s', s.next = .ok (some (s.rest.take n), s') ∧ s'.rest = s.rest.drop n ∧ s'.buf.length = s.buf.length ∧
      s'.buf.take sizeofDgram = (s.rest.take n).take sizeofDgram := by
  simp only [dgramSize] at found
  split at found
  · rename_i complete
    cases found
    obtain ⟨header, fits, whole⟩ := complete
    have sizes := sizes
    have room : sizeofDgram ≤ s.buf.length := header.trans fits
    have there : sizeofDgram ≤ s.rest.length := header.trans whole
    have headerLength : (s.rest.take sizeofDgram).length = sizeofDgram := by
      rw [List.length_take, Nat.min_eq_left there]
    have length := @length_fill s 0 sizeofDgram (by rw [headerLength]; omega)
    have read : (s.fill 0 sizeofDgram).buf.take sizeofDgram = s.rest.take sizeofDgram := by
      have cut := @take_writeAt s.buf 0 (s.rest.take sizeofDgram) (Nat.zero_le s.buf.length)
      rw [headerLength, Nat.zero_add, List.take_zero, List.nil_append] at cut
      exact cut
    have same : extent (s.fill 0 sizeofDgram).buf xtcOfDgram = extent s.rest xtcOfDgram := extent_of_take read
    have long : 12 ≤ extent s.rest xtcOfDgram := by
      omega
    have left : (s.fill 0 sizeofDgram).rest.length = s.rest.length - sizeofDgram := by
      rw [rest_fill, List.length_drop]
    -- The checks of `next` pass.
    have taken : Taken (s.fill 0 sizeofDgram).buf.length (s.fill 0 sizeofDgram).rest.length
        (extent (s.fill 0 sizeofDgram).buf xtcOfDgram) := by
      rw [length, left, same, taken_iff room (extent_lt _ _)]
      omega
    have payload : (sizeofPayload (extent s.rest xtcOfDgram)).toNat = extent s.rest xtcOfDgram - 12 := by
      have small : extent s.rest xtcOfDgram < 2 ^ 31 + 12 := by omega
      rw [sizeofPayload_of_le small]
      omega
    have size : sizeofDgram + (extent s.rest xtcOfDgram - 12) = xtcOfDgram + extent s.rest xtcOfDgram := by
      omega
    have call := readPayload_some taken
    simp only [same, payload] at call
    have payloadLength : ((s.fill 0 sizeofDgram).rest.take (extent s.rest xtcOfDgram - 12)).length
        = extent s.rest xtcOfDgram - 12 := by
      rw [List.length_take, left]
      omega
    let s' := (s.fill 0 sizeofDgram).fill sizeofDgram (extent s.rest xtcOfDgram - 12)
    have bytes : s'.buf.take (sizeofDgram + (extent s.rest xtcOfDgram - 12))
        = s.rest.take (sizeofDgram + (extent s.rest xtcOfDgram - 12)) := by
      have cut := @take_writeAt (s.fill 0 sizeofDgram).buf sizeofDgram
        ((s.fill 0 sizeofDgram).rest.take (extent s.rest xtcOfDgram - 12)) (room.trans length.ge)
      rw [payloadLength] at cut
      apply cut.trans
      rw [read, rest_fill, ← List.take_add]
    refine ⟨s', ?_, ?_, ?_, ?_⟩
    · have some : s.rest.length ≠ 0 := by
        omega
      rw [next, if_neg some, if_neg (Nat.not_lt.mpr room), call, bytes, size]
    · rw [rest_fill, rest_fill, List.drop_drop, size]
    · rw [length_fill, length]
      rw [payloadLength, length, size]
      exact fits
    · have header := congrArg (List.take sizeofDgram) bytes
      rwa [List.take_take, Nat.min_eq_left (Nat.le_add_right _ _), size] at header
  · cases found

/-- A call with room for the header, where something is left. -/
lemma next_eq (some : s.rest ≠ []) (room : sizeofDgram ≤ s.buf.length) :
    s.next = .ok (s.fill 0 sizeofDgram).readPayload := by
  rw [next, if_neg (fun zero => some (List.eq_nil_of_length_eq_zero zero)), if_neg (Nat.not_lt.mpr room)]

/-- The header in the buffer is no longer than a header. -/
lemma length_lastHeader (stale tail : Bytes) : (lastHeader stale tail).length ≤ sizeofDgram := by
  rw [lastHeader, writeAt, List.take_zero, List.nil_append, List.length_append, List.length_drop, List.length_take,
    List.length_take]
  omega

/-- When a call returns null, in terms of the header it finds. -/
lemma next_null_iff (some : s.rest ≠ []) (room : sizeofDgram ≤ s.buf.length) :
    (∃ s', s.next = .ok (none, s')) ↔
      ¬ Taken s.buf.length (s.rest.length - sizeofDgram) (extent (lastHeader s.buf s.rest) xtcOfDgram) := by
  have part : (s.rest.take sizeofDgram).length ≤ sizeofDgram := List.length_take_le _ _
  have length := @length_fill s 0 sizeofDgram (by omega)
  have header : extent (s.fill 0 sizeofDgram).buf xtcOfDgram = extent (lastHeader s.buf s.rest) xtcOfDgram := by
    apply extent_of_take
    rw [header_fill, List.take_of_length_le (length_lastHeader s.buf s.rest)]
  have left : (s.fill 0 sizeofDgram).rest.length = s.rest.length - sizeofDgram := by
    rw [rest_fill, List.length_drop]
  have null := readPayload_none (s := s.fill 0 sizeofDgram)
  rw [length, left, header] at null
  rw [next_eq some room, ← null]
  constructor
  · rintro ⟨s', call⟩
    rw [Except.ok.injEq] at call
    rw [call]
  · intro none
    exact ⟨_, congrArg Except.ok (Prod.ext none rfl)⟩

/-- A whole header is the one in the file. -/
lemma extent_lastHeader {stale tail : Bytes} (whole : sizeofDgram ≤ tail.length) :
    extent (lastHeader stale tail) xtcOfDgram = extent tail xtcOfDgram := by
  apply extent_of_take
  have header : (tail.take sizeofDgram).length = sizeofDgram := by
    rw [List.length_take, Nat.min_eq_left whole]
  have cut := @take_writeAt (stale.take sizeofDgram) 0 (tail.take sizeofDgram) (Nat.zero_le _)
  rw [header, Nat.zero_add, List.take_zero, List.nil_append] at cut
  exact cut

/-- A datagram that is too long for one call ends the iteration. -/
lemma next_long {n : Nat} (found : dgramSize s.buf.length s.rest = some n) (long : sizeofDgram + maxRead < n) :
    ∃ s', s.next = .ok (none, s') := by
  simp only [dgramSize] at found
  split at found
  · rename_i complete
    cases found
    obtain ⟨header, fits, whole⟩ := complete
    have sizes := sizes
    have some : s.rest ≠ [] := by
      intro nil
      rw [nil, List.length_nil] at whole
      omega
    rw [next_null_iff some (header.trans fits), extent_lastHeader (header.trans whole),
      taken_iff (header.trans fits) (extent_lt _ _)]
    omega
  · cases found

/-- At the end a call returns null just when the last bytes are not taken for a datagram. -/
lemma next_end (found : dgramSize s.buf.length s.rest = none) :
    (∃ s', s.next = .ok (none, s')) ↔ EndsClean s.buf.length s.buf s.rest := by
  have sizes := sizes
  cases left : s.rest with
  | nil =>
    refine ⟨fun _ => .inl rfl, fun _ => ⟨s, ?_⟩⟩
    rw [next, left, List.length_nil, if_pos rfl]
  | cons b bs =>
    have some : s.rest ≠ [] := by
      rw [left]
      exact List.cons_ne_nil b bs
    rw [← left]
    cases Nat.lt_or_ge s.buf.length sizeofDgram with
    | inl small =>
      -- not even the header fits the buffer
      constructor
      · rintro ⟨s', call⟩
        rw [next, if_neg (fun zero => some (List.eq_nil_of_length_eq_zero zero)), if_pos small] at call
        cases call
      · rintro (nil | clean)
        · exact absurd nil some
        · exact absurd clean.1 (Nat.not_le.mpr small)
    | inr room =>
      rw [next_null_iff some room, taken_iff room (extent_lt _ _), EndsClean]
      cases Nat.lt_or_ge s.rest.length sizeofDgram with
      | inl short =>
        have nothing : s.rest.length - sizeofDgram = 0 := by omega
        rw [nothing]
        constructor
        · intro h
          refine .inr ⟨room, ?_, ?_⟩
          · omega
          · omega
        · rintro (nil | ⟨-, eleven, twelve⟩)
          · exact absurd nil some
          · have twelve := twelve short
            omega
      | inr whole =>
        have incomplete : ¬ (sizeofDgram ≤ xtcOfDgram + extent s.rest xtcOfDgram ∧
            xtcOfDgram + extent s.rest xtcOfDgram ≤ s.buf.length ∧
            xtcOfDgram + extent s.rest xtcOfDgram ≤ s.rest.length) := by
          simp only [dgramSize] at found
          split at found
          · cases found
          · assumption
        rw [extent_lastHeader whole]
        constructor
        · intro h
          refine .inr ⟨room, ?_, ?_⟩
          · omega
          · omega
        · rintro (nil | ⟨-, eleven, -⟩)
          · exact absurd nil some
          · omega

/-! ## All calls -/

/-- What the last bytes are taken for depends on the header in the buffer only. -/
lemma EndsClean_of_take {maxDgramSize : Nat} {stale stale' tail : Bytes}
    (same : stale.take sizeofDgram = stale'.take sizeofDgram) :
    EndsClean maxDgramSize stale tail ↔ EndsClean maxDgramSize stale' tail := by
  rw [EndsClean, EndsClean, lastHeader, lastHeader, same]

/-- The calls of `next` return the complete datagrams that fit the buffer, and then null, just when each of them
    can be read by one call and the last bytes of the file are not taken for one more, together with what is in
    the buffer. -/
theorem reads_iff (s : XtcFileIterator) : Reads s (dgrams s.buf.length s.rest).1 ↔ s.ReadsWell := by
  generalize bound : s.rest.length = m
  induction m using Nat.strong_induction_on generalizing s with
  | _ m ih =>
    cases found : dgramSize s.buf.length s.rest with
    | none =>
      have none : dgrams s.buf.length s.rest = ([], s.rest) := frames_none found
      rw [ReadsWell, none]
      constructor
      · intro reads
        cases reads with
        | null call => exact ⟨fun d mem => absurd mem List.not_mem_nil, (next_end found).mp ⟨_, call⟩⟩
      · rintro ⟨-, clean⟩
        obtain ⟨s', call⟩ := (next_end found).mpr clean
        exact .null call
    | some n =>
      have framing := dgramSize_framing s.buf.length
      obtain ⟨pos, there⟩ := framing s.rest n found
      have first : dgrams s.buf.length s.rest =
          (s.rest.take n :: (dgrams s.buf.length (s.rest.drop n)).1, (dgrams s.buf.length (s.rest.drop n)).2) :=
        frames_some framing found
      have size : (s.rest.take n).length = n := by
        rw [List.length_take, Nat.min_eq_left there]
      rw [ReadsWell, first]
      -- A payload of more than `maxRead` bytes takes more than one call.
      cases Nat.lt_or_ge (sizeofDgram + maxRead) n with
      | inl long =>
        obtain ⟨s', null⟩ := next_long found long
        constructor
        · intro reads
          cases reads with
          | dgram call _ =>
            rw [null] at call
            cases call
        · rintro ⟨short, -⟩
          have short := short _ List.mem_cons_self
          omega
      | inr short =>
        obtain ⟨s', call, rest, length, header⟩ := next_frame found short
        have later : Reads s' (dgrams s'.buf.length s'.rest).1 ↔ s'.ReadsWell := by
          refine ih (m - n) (by omega) s' ?_
          rw [rest, List.length_drop, bound]
        rw [ReadsWell, rest, length] at later
        have reads : Reads s (s.rest.take n :: (dgrams s.buf.length (s.rest.drop n)).1) ↔
            Reads s' (dgrams s.buf.length (s.rest.drop n)).1 := by
          constructor
          · intro reads
            cases reads with
            | dgram call' reads =>
              rw [call] at call'
              cases call'
              exact reads
          · exact .dgram call
        -- At the end the buffer still has the header of the last datagram.
        have stale : EndsClean s.buf.length
              ((s.rest.take n :: (dgrams s.buf.length (s.rest.drop n)).1).getLast?.getD s.buf)
              (dgrams s.buf.length (s.rest.drop n)).2 ↔
            EndsClean s.buf.length ((dgrams s.buf.length (s.rest.drop n)).1.getLast?.getD s'.buf)
              (dgrams s.buf.length (s.rest.drop n)).2 := by
          cases others : (dgrams s.buf.length (s.rest.drop n)).1 with
          | nil => exact EndsClean_of_take header.symm
          | cons d ds => rw [List.getLast?_cons_cons]; exact EndsClean_of_take (by simp [List.getLast?_cons])
        rw [reads, later, stale, List.forall_mem_cons, size]
        exact ⟨fun ⟨h, clean⟩ => ⟨⟨short, h⟩, clean⟩, fun ⟨⟨_, h⟩, clean⟩ => ⟨h, clean⟩⟩

/-- A datagram without payload, and a file that ends one byte after it. -/
def emptyDgram : Bytes := List.replicate 20 0 ++ [12, 0, 0, 0]

def cutShort : XtcFileIterator where
  file := emptyDgram ++ [7]
  pos := 0
  buf := List.replicate 64 0

/-- The byte is taken for a datagram: its header is that of the one before from the second byte on. -/
theorem stale_dgram :
    (dgrams cutShort.buf.length cutShort.rest).1 = [emptyDgram] ∧
      ¬ Reads cutShort (dgrams cutShort.buf.length cutShort.rest).1 ∧
      Reads cutShort [emptyDgram, 7 :: emptyDgram.drop 1] := by
  let s₁ : XtcFileIterator := ⟨emptyDgram ++ [7], 24, emptyDgram ++ List.replicate 40 0⟩
  let s₂ : XtcFileIterator := ⟨emptyDgram ++ [7], 25, 7 :: emptyDgram.drop 1 ++ List.replicate 40 0⟩
  have complete : (dgrams cutShort.buf.length cutShort.rest).1 = [emptyDgram] := by decide +kernel
  have first : cutShort.next = .ok (some emptyDgram, s₁) := by decide +kernel
  have second : s₁.next = .ok (some (7 :: emptyDgram.drop 1), s₂) := by decide +kernel
  have last : s₂.next = .ok (none, s₂) := by decide +kernel
  refine ⟨complete, ?_, .dgram first (.dgram second (.null last))⟩
  rw [complete]
  intro reads
  cases reads with
  | dgram call later =>
    rw [first] at call
    cases call
    cases later with
    | null call =>
      rw [second] at call
      cases call

end XtcFileIterator

end Lcls2.Xtc
