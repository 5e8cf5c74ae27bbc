import Mathlib
import Lcls2.Bld.Server

/-!
# What a server packs

A packet is the list of its entries, the first of which the others refer to. The server's buffer is the
encoding of the entries that it has not sent yet; a publish fails exactly where its entry does not fit.
-/

namespace Lcls2.Bld

open Lib

variable {T : Nat}

/-- The bytes of an entry that is not the first of its packet. -/
def Entry.bytes (f e : Entry T) : Bytes :=
  toLe 4 (Header.offsets e.pulseId e.timeStamp f.pulseId f.timeStamp).toNat ++ e.payload.1

/-- The bytes of a packet. -/
def encode (id : UInt32) : List (Entry T) → Bytes
  | [] => []
  | f :: rest => Header.first f.pulseId f.timeStamp id ++ f.payload.1 ++ rest.flatMap f.bytes

/-- The length of a packet. -/
def packetSize (T entries : Nat) : Nat := 16 + (4 + T) * entries

/-- Whether an entry that is appended closes its packet. -/
def Closes (held : List (Entry T)) (e : Entry T) : Prop :=
  packetSize T (held.length + 1) + T > Header.MTU ∨ 1023 < e.pulseId - (held.headD e).pulseId

instance (held : List (Entry T)) (e : Entry T) : Decidable (Closes held e) :=
  inferInstanceAs (Decidable (_ ∨ _))

/-- The packets that calls send, with a `flush` at their end, from what is held. -/
def pack : List (Entry T) → List (Op T) → List (List (Entry T))
  | held, [] => if held = [] then [] else [held]
  | held, .flush :: ops => (if held = [] then [] else [held]) ++ pack [] ops
  | held, .publish e :: ops =>
    if Closes held e then (held ++ [e]) :: pack [] ops else pack (held ++ [e]) ops

/-- What every call publishes. -/
def published : List (Op T) → List (Entry T)
  | [] => []
  | .flush :: ops => published ops
  | .publish e :: ops => e :: published ops

/-- Every entry fits in the buffer after those that are held. -/
def Room : List (Entry T) → List (Op T) → Prop
  | _, [] => True
  | _, .flush :: ops => Room [] ops
  | held, .publish e :: ops =>
    packetSize T (held.length + 1) ≤ Header.MTU ∧
      Room (if Closes held e then [] else held ++ [e]) ops

@[simp] lemma Header.first_length (pulseId timeStamp : UInt64) (src : UInt32) :
    (Header.first pulseId timeStamp src).length = 20 := by
  simp only [Header.first, List.length_append, toLe_length]

@[simp] lemma Entry.bytes_length (f e : Entry T) : (f.bytes e).length = 4 + T := by
  rw [Entry.bytes, List.length_append, toLe_length, e.payload.2]

/-- A packet is as long as its number of entries says. -/
lemma encode_length (id : UInt32) {held : List (Entry T)} (h : held ≠ []) :
    (encode id held).length = packetSize T held.length := by
  cases held with
  | nil => exact absurd rfl h
  | cons f rest =>
    rw [encode, List.length_append, List.length_append, Header.first_length, f.payload.2,
      table_length f.bytes_length, packetSize, List.length_cons]
    ring

/-- A packet grows at its end. -/
lemma encode_concat (id : UInt32) (f : Entry T) (rest : List (Entry T)) (e : Entry T) :
    encode id (f :: rest ++ [e]) = encode id (f :: rest) ++ f.bytes e := by
  rw [List.cons_append, encode, encode, List.flatMap_append, List.flatMap_singleton, List.append_assoc,
    List.append_assoc, List.append_assoc]

/-- A number that is read where it was written. -/
lemma word64_of_slice {buffer : Bytes} {pos : Nat} {n : UInt64}
    (h : slice buffer pos (pos + 8) = toLe 8 n.toNat) : word64 buffer pos = n := by
  have lt : n.toNat < 256 ^ 8 := n.toNat_lt
  rw [word64, h, ofLe_toLe lt, UInt64.ofNat_toNat]

lemma word32_of_slice {buffer : Bytes} {pos : Nat} {n : UInt32}
    (h : slice buffer pos (pos + 4) = toLe 4 n.toNat) : word32 buffer pos = n := by
  have lt : n.toNat < 256 ^ 4 := n.toNat_lt
  rw [word32, h, ofLe_toLe lt, UInt32.ofNat_toNat]

/-- What a header says, wherever it is at the start of a buffer. -/
lemma Header.first_read {buffer rest : Bytes} {pulseId timeStamp : UInt64} {src : UInt32}
    (h : buffer = Header.first pulseId timeStamp src ++ rest) :
    word64 buffer 0 = pulseId ∧ word64 buffer 8 = timeStamp ∧ word32 buffer 16 = src := by
  subst h
  refine ⟨word64_of_slice ?_, word64_of_slice ?_, word32_of_slice ?_⟩
  · have h := slice_append [] (toLe 8 pulseId.toNat) (toLe 8 timeStamp.toNat ++ toLe 4 src.toNat ++ rest)
    simpa [Header.first, List.append_assoc] using h
  · have h := slice_append (toLe 8 pulseId.toNat) (toLe 8 timeStamp.toNat) (toLe 4 src.toNat ++ rest)
    simpa [Header.first, List.append_assoc] using h
  · have h := slice_append (toLe 8 pulseId.toNat ++ toLe 8 timeStamp.toNat) (toLe 4 src.toNat) rest
    simpa [Header.first, List.append_assoc] using h

namespace Server

/-- The buffer holds the entries that are not sent yet. -/
structure Holds (s : Server) (id : UInt32) (held : List (Entry T)) : Prop where
  name : s.id = id
  length : s.buffer.length = Header.MTU
  next : s.bufferNext = (encode id held).length
  bytes : s.buffer.take s.bufferNext = encode id held

variable {s : Server} {id : UInt32} {held : List (Entry T)}

/-- Nothing is held where the buffer is empty. -/
lemma Holds.next_zero (h : s.Holds id held) : s.bufferNext = 0 ↔ held = [] := by
  constructor
  · intro zero
    by_contra ne
    have length := h.next
    rw [zero, encode_length id ne, packetSize] at length
    omega
  · rintro rfl
    exact h.next

/-- The buffer starts with the header of the first entry. -/
lemma Holds.read {f : Entry T} {rest : List (Entry T)} (h : s.Holds id (f :: rest)) :
    word64 s.buffer 0 = f.pulseId ∧ word64 s.buffer 8 = f.timeStamp := by
  have e : s.buffer = Header.first f.pulseId f.timeStamp id ++
      (f.payload.1 ++ rest.flatMap f.bytes ++ s.buffer.drop s.bufferNext) := by
    conv_lhs => rw [← List.take_append_drop s.bufferNext s.buffer, h.bytes, encode]
    simp only [List.append_assoc]
  have read := Header.first_read e
  exact ⟨read.1, read.2.1⟩

/-- Writing behind what is written. -/
lemma put_ok {data : Bytes} (room : s.bufferNext + data.length ≤ s.buffer.length) :
    ∃ s', s.put data = .ok s' ∧ s'.id = s.id ∧ s'.sent = s.sent ∧ s'.buffer.length = s.buffer.length ∧
      s'.bufferNext = s.bufferNext + data.length ∧
      s'.buffer.take s'.bufferNext = s.buffer.take s.bufferNext ++ data := by
  rw [put, if_pos room]
  refine ⟨_, rfl, rfl, rfl, ?_, rfl, take_writeAt data (by omega)⟩
  simp only [writeAt, List.length_append, List.length_take, List.length_drop]
  omega

/-- The bytes that a publish appends. -/
lemma Holds.header (h : s.Holds id held) (e : Entry T) :
    encode id held ++ (if s.bufferNext ≠ 0 then Header.next e.pulseId e.timeStamp s.buffer
      else Header.first e.pulseId e.timeStamp s.id) ++ e.payload.1 = encode id (held ++ [e]) := by
  cases held with
  | nil =>
    rw [if_neg (not_not_intro (h.next_zero.mpr rfl)), h.name]
    simp only [encode, List.nil_append, List.flatMap_nil, List.append_nil]
  | cons f rest =>
    rw [if_pos (mt h.next_zero.mp (List.cons_ne_nil f rest)), encode_concat, Header.next, h.read.1, h.read.2,
      Entry.bytes, List.append_assoc]

/-- A packet with one more entry. -/
lemma encode_concat_length (id : UInt32) (held : List (Entry T)) (e : Entry T) :
    (encode id (held ++ [e])).length = packetSize T (held.length + 1) := by
  rw [encode_length id (by simp), List.length_append, List.length_singleton]

/-- A flush sends what is held. -/
lemma Holds.flush (h : s.Holds id held) :
    s.flush.Holds id ([] : List (Entry T)) ∧
      s.flush.sent = s.sent ++ (if held = [] then [] else [encode id held]) := by
  unfold Server.flush
  split
  next ne =>
    rw [if_neg (mt h.next_zero.mpr ne)]
    exact ⟨⟨h.name, h.length, rfl, rfl⟩, congrArg (fun p => s.sent ++ [p]) h.bytes⟩
  next zero =>
    have empty := h.next_zero.mp (not_not.mp zero)
    subst empty
    rw [if_pos rfl, List.append_nil]
    exact ⟨h, rfl⟩

/-- A publish whose entry fits: it is held, or sent with what was held. -/
lemma Holds.publish (h : s.Holds id held) (e : Entry T)
    (room : packetSize T (held.length + 1) ≤ Header.MTU) :
    ∃ s', s.publish e.pulseId e.timeStamp e.payload.1 = .ok s' ∧
      if Closes held e then
        s'.Holds id ([] : List (Entry T)) ∧ s'.sent = s.sent ++ [encode id (held ++ [e])]
      else s'.Holds id (held ++ [e]) ∧ s'.sent = s.sent := by
  have bytes := h.header e
  have total := encode_concat_length id held e
  simp only [Server.publish]
  generalize (if s.bufferNext ≠ 0 then Header.next e.pulseId e.timeStamp s.buffer
    else Header.first e.pulseId e.timeStamp s.id) = header at bytes
  have lengths : s.bufferNext + header.length + T = packetSize T (held.length + 1) := by
    rw [← total, ← bytes, h.next, List.length_append, List.length_append, e.payload.2]
  have fits1 : s.bufferNext + header.length ≤ s.buffer.length := by
    rw [h.length]
    omega
  obtain ⟨s1, put1, id1, sent1, length1, next1, take1⟩ := put_ok fits1
  have fits2 : s1.bufferNext + e.payload.1.length ≤ s1.buffer.length := by
    rw [length1, h.length, next1, e.payload.2]
    omega
  obtain ⟨s2, put2, id2, sent2, length2, next2, take2⟩ := put_ok fits2
  have holds : s2.Holds id (held ++ [e]) := by
    refine ⟨id2.trans (id1.trans h.name), length2.trans (length1.trans h.length), ?_, ?_⟩
    · rw [next2, next1, e.payload.2, lengths, total]
    · rw [take2, take1, h.bytes, bytes]
  -- the test for sending sees the entry that was appended
  have test : (s2.bufferNext + e.payload.1.length > Header.MTU ∨ Header.done s2.buffer e.pulseId = true) ↔
      Closes held e := by
    have first : word64 s2.buffer 0 = (held.headD e).pulseId := by
      cases held with
      | nil =>
        have holds : s2.Holds id [e] := holds
        exact holds.read.1
      | cons f rest =>
        have holds : s2.Holds id (f :: (rest ++ [e])) := holds
        exact holds.read.1
    rw [Header.done, first, decide_eq_true_eq, holds.next, total, e.payload.2, Closes]
  rw [put1]
  simp only [Except.bind]
  rw [put2]
  refine ⟨_, rfl, ?_⟩
  split
  next closes =>
    rw [if_pos (test.mpr closes)]
    have flush := holds.flush
    rw [if_neg (by simp), sent2, sent1] at flush
    exact flush
  next stays =>
    rw [if_neg (mt test.mp stays)]
    exact ⟨holds, sent2.trans sent1⟩

/-- A publish whose entry does not fit writes outside the buffer. -/
lemma Holds.publish_fault (h : s.Holds id held) (e : Entry T)
    (room : ¬packetSize T (held.length + 1) ≤ Header.MTU) :
    s.publish e.pulseId e.timeStamp e.payload.1 = .error .outOfBounds := by
  have bytes := h.header e
  have total := encode_concat_length id held e
  simp only [Server.publish]
  generalize (if s.bufferNext ≠ 0 then Header.next e.pulseId e.timeStamp s.buffer
    else Header.first e.pulseId e.timeStamp s.id) = header at bytes
  have lengths : s.bufferNext + header.length + T = packetSize T (held.length + 1) := by
    rw [← total, ← bytes, h.next, List.length_append, List.length_append, e.payload.2]
  by_cases fits : s.bufferNext + header.length ≤ s.buffer.length
  · obtain ⟨s1, put1, id1, sent1, length1, next1, take1⟩ := put_ok fits
    have full : ¬s1.bufferNext + e.payload.1.length ≤ s1.buffer.length := by
      rw [length1, h.length, next1, e.payload.2]
      omega
    rw [put1]
    simp only [Except.bind]
    rw [put, if_neg full]
  · rw [put, if_neg fits]
    rfl

/-- Calls, with a flush at their end, send the packets of their entries if every entry fits, and write
    outside the buffer if one does not. -/
lemma Holds.run (h : s.Holds id held) (ops : List (Op T)) :
    (Room held ops → ∃ s', (ops ++ [Op.flush]).foldlM Server.step s = .ok s' ∧
      s'.sent = s.sent ++ (pack held ops).map (encode id)) ∧
    (¬Room held ops → (ops ++ [Op.flush]).foldlM Server.step s = .error .outOfBounds) := by
  induction ops generalizing s held with
  | nil =>
    refine ⟨fun _ => ⟨s.flush, rfl, ?_⟩, fun no => absurd trivial no⟩
    rw [h.flush.2, pack]
    split <;> rfl
  | cons op ops ih =>
    cases op with
    | flush =>
      obtain ⟨sends, faults⟩ := ih h.flush.1
      refine ⟨fun room => ?_, fun no => faults no⟩
      obtain ⟨s', run, sent⟩ := sends room
      refine ⟨s', run, ?_⟩
      rw [sent, h.flush.2, pack, List.append_assoc, List.map_append]
      split <;> rfl
    | publish e =>
      by_cases room : packetSize T (held.length + 1) ≤ Header.MTU
      · obtain ⟨s1, step, next⟩ := h.publish e room
        have first : (Op.publish e :: ops ++ [Op.flush]).foldlM Server.step s =
            (ops ++ [Op.flush]).foldlM Server.step s1 := by
          rw [List.cons_append, List.foldlM_cons]
          show s.publish e.pulseId e.timeStamp e.payload.1 >>= _ = _
          rw [step, ok_bind]
        simp only [Room, pack]
        by_cases closes : Closes held e
        · rw [if_pos closes] at next
          simp only [if_pos closes]
          obtain ⟨sends, faults⟩ := ih next.1
          refine ⟨fun all => ?_, fun no => first.trans (faults fun rest => no ⟨room, rest⟩)⟩
          obtain ⟨s', run, sent⟩ := sends all.2
          refine ⟨s', first.trans run, ?_⟩
          rw [sent, next.2, List.append_assoc]
          rfl
        · rw [if_neg closes] at next
          simp only [if_neg closes]
          obtain ⟨sends, faults⟩ := ih next.1
          refine ⟨fun all => ?_, fun no => first.trans (faults fun rest => no ⟨room, rest⟩)⟩
          obtain ⟨s', run, sent⟩ := sends all.2
          exact ⟨s', first.trans run, by rw [sent, next.2]⟩
      · refine ⟨fun all => absurd all.1 room, fun _ => ?_⟩
        rw [List.cons_append, List.foldlM_cons]
        show s.publish e.pulseId e.timeStamp e.payload.1 >>= _ = _
        rw [h.publish_fault e room]
        rfl

end Server

end Lcls2.Bld
