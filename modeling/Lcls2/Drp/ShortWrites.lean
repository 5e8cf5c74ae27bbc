import Lcls2.Lib.Run
import Lcls2.Lib.Bytes
import Lcls2.Drp.FileWriter

/-!
# Short writes

Model of `_write` and of `Drp::BufferedFileWriter` (`drp/FileWriter.cc`), where `write(2)` may output
less than it is asked for. After a short write the loop of `_write` goes on at `buffer + sz`, where `sz`
is what the last `write` has output, not what all of them have. So the second piece is the right one
and the third is not, and `_write` returns the size of the last piece.
-/

namespace Lcls2.Drp
open Lib

/-- What a call of `_write` has appended to the file, and what it returns; `none` is an error. -/
structure Written where
  output : Bytes
  ret : Option Nat
  deriving DecidableEq, Repr

/-- `Drp::BufferedFileWriter`. `file` is the file opened last and `given` the events it was given. -/
structure BufferedFileWriter where
  fd : Nat
  count : Nat
  batchStarttime : BitVec 64
  buffer : Bytes
  file : Bytes
  given : Bytes

/-- Why a call does not return: `write` has not, it has failed, or the event does not fit. -/
inductive WriteFault where
  | blocked
  | failed
  | tooSmall
  deriving DecidableEq, Repr

/-- The calls, each with what the `write`s that it makes return. -/
inductive BufferedOp where
  | open_ (fd : Nat)
  | writeEvent (data : Bytes) (ts : BitVec 64) (rets : List (Option Nat))
  | close (rets : List (Option Nat))

namespace BufferedFileWriter

/-- The loop of `_write`: the last `write` has output `sz` of the `count` bytes it was asked for. -/
def writeLoop (buffer : Bytes) (sz count : Nat) : List (Option Nat) → Option Written
  | [] => if sz = count then some ⟨[], some sz⟩ else none
  | ret :: rets =>
    if sz = count then some ⟨[], some sz⟩
    else
      match ret with
      | none => some ⟨[], none⟩
      | some sz' =>
        (writeLoop buffer sz' (count - sz) rets).map fun w =>
          { w with output := slice buffer sz (sz + sz') ++ w.output }

/-- `_write(fd, buffer, count)`, where `rets` are the return values of `write`. -/
def write (buffer : Bytes) (count : Nat) : List (Option Nat) → Option Written
  | [] => none
  | none :: _ => some ⟨[], none⟩
  | some sz :: rets =>
    (writeLoop buffer sz count rets).map fun w => { w with output := slice buffer 0 sz ++ w.output }

/-- The constructor; it leaves `m_fd` as it finds it. -/
def start (fd bufferSize : Nat) : BufferedFileWriter where
  fd := fd
  count := 0
  batchStarttime := 0
  buffer := List.replicate bufferSize 0
  file := []
  given := []

/-- The time of the first event of the batch. -/
def starttime (s : BufferedFileWriter) (ts : BitVec 64) : BitVec 64 :=
  if s.batchStarttime = 0 then ts else s.batchStarttime

/-- Whether the buffer is written out before an event: the event does not fit, or the batch is too
    old. -/
def full (s : BufferedFileWriter) (data : Bytes) (ts : BitVec 64) : Prop :=
  s.buffer.length - s.count < data.length ∨ 2#32 < seconds ts - seconds (s.starttime ts)

instance (s : BufferedFileWriter) (data : Bytes) (ts : BitVec 64) : Decidable (s.full data ts) :=
  inferInstanceAs (Decidable (_ ∨ _))

/-- The buffer is written out and a new batch starts. -/
def writeOut (s : BufferedFileWriter) (output : Bytes) (ts : BitVec 64) : BufferedFileWriter :=
  { s with file := s.file ++ output, count := 0, batchStarttime := ts }

/-- The `memcpy` at the end of `writeEvent`. -/
def copy (s : BufferedFileWriter) (data : Bytes) : Except WriteFault BufferedFileWriter :=
  if s.buffer.length - s.count < data.length then .error .tooSmall
  else
    .ok { s with
      buffer := writeAt s.buffer s.count data
      count := s.count + data.length
      given := s.given ++ data }

/-- `BufferedFileWriter::writeEvent`. -/
def writeEvent (s : BufferedFileWriter) (data : Bytes) (ts : BitVec 64) (rets : List (Option Nat)) :
    Except WriteFault BufferedFileWriter :=
  if s.full data ts then
    match write s.buffer s.count rets with
    | none => .error .blocked
    | some ⟨_, none⟩ => .error .failed
    | some ⟨output, some _⟩ => (s.writeOut output ts).copy data
  else copy { s with batchStarttime := s.starttime ts } data

/-- `BufferedFileWriter::close`; what `_write` returns is not looked at. -/
def close (s : BufferedFileWriter) (rets : List (Option Nat)) : Except WriteFault BufferedFileWriter :=
  if 0 < s.fd then
    if 0 < s.count then
      match write s.buffer s.count rets with
      | none => .error .blocked
      | some w => .ok { s.writeOut w.output 0 with fd := 0 }
    else .ok { s with fd := 0 }
  else .ok { s with fd := 0 }

/-- One call; `open` creates its file. -/
def step (s : BufferedFileWriter) : BufferedOp → Except WriteFault BufferedFileWriter
  | .open_ fd => .ok { s with fd := fd, file := [], given := [] }
  | .writeEvent data ts rets => s.writeEvent data ts rets
  | .close rets => s.close rets

/-- The `write`s of a call each output something, and together the bytes they are asked for. -/
def Served : Nat → List (Option Nat) → Prop
  | _, [] => False
  | _, none :: _ => False
  | count, some sz :: rets => sz = count ∧ rets = [] ∨ 0 < sz ∧ sz < count ∧ Served (count - sz) rets

instance decidableServed : (count : Nat) → (rets : List (Option Nat)) → Decidable (Served count rets)
  | _, [] => .isFalse id
  | _, none :: _ => .isFalse id
  | count, some sz :: rets =>
    have := decidableServed (count - sz) rets
    inferInstanceAs (Decidable (_ ∨ _))

/-- Events come while a file is open, and at most the first `write` of a call is short. -/
def Allowed (_ : List BufferedOp) (s : BufferedFileWriter) : BufferedOp → Prop
  | .open_ fd => s.fd = 0 ∧ 0 < fd
  | .writeEvent data ts rets => 0 < s.fd ∧ (s.full data ts → Served s.count rets ∧ rets.length ≤ 2)
  | .close rets => 0 < s.count → Served s.count rets ∧ rets.length ≤ 2

variable {buffer data : Bytes} {count sz : Nat} {rets : List (Option Nat)} {s t : BufferedFileWriter}
  {ts : BitVec 64} {w : Written}

/-- The first `write` outputs everything. -/
lemma write_whole (buffer : Bytes) (count : Nat) :
    write buffer count [some count] = some ⟨buffer.take count, some count⟩ := by
  simp [write, writeLoop, slice]

/-- The first `write` is short and the second is not. -/
lemma write_once_short (lt : sz < count) :
    write buffer count [some sz, some (count - sz)] =
      some ⟨buffer.take count, some (count - sz)⟩ := by
  have more : sz ≠ count := Nat.ne_of_lt lt
  have pieces : slice buffer 0 sz ++ slice buffer sz (sz + (count - sz)) = buffer.take count := by
    have := take_append_slice buffer sz (count - sz)
    rw [Nat.add_sub_of_le (Nat.le_of_lt lt)] at this ⊢
    exact this
  simp only [write, writeLoop, if_neg more, if_true, Option.map_some, List.append_nil, pieces]

/-- `_write` returns what its last `write` has output. -/
lemma writeLoop_ret (buffer : Bytes) (served : Served (count - sz) rets) (more : sz < count) :
    ∃ output n, writeLoop buffer sz count rets = some ⟨output, some n⟩ ∧ n ≤ count - sz := by
  induction rets generalizing sz count with
  | nil => exact served.elim
  | cons ret rets ih =>
    cases ret with
    | none => exact served.elim
    | some sz' =>
      simp only [writeLoop, if_neg (Nat.ne_of_lt more)]
      rcases served with ⟨rfl, rfl⟩ | ⟨some_, more', served⟩
      · refine ⟨slice buffer sz (sz + (count - sz)), count - sz, ?_, Nat.le_refl _⟩
        simp [writeLoop]
      · obtain ⟨output, n, e, le⟩ := ih served more'
        exact ⟨_, n, by rw [e]; rfl, Nat.le_trans le (Nat.sub_le _ _)⟩

/-- `_write` returns the size exactly when its first `write` has output everything. -/
lemma write_size_iff (served : Served count rets) :
    write buffer count rets = some ⟨buffer.take count, some count⟩ ↔ rets.length = 1 := by
  cases rets with
  | nil => exact served.elim
  | cons ret rets =>
    cases ret with
    | none => exact served.elim
    | some sz =>
      rcases served with ⟨rfl, rfl⟩ | ⟨some_, more, served⟩
      · exact iff_of_true (write_whole buffer sz) rfl
      · obtain ⟨output, n, e, le⟩ := writeLoop_ret buffer served more
        apply iff_of_false
        · -- what is returned is at most what the first `write` has left over
          intro h
          rw [write, e] at h
          have size : n = count := by simpa using congrArg (Option.map Written.ret) h
          omega
        · intro h
          rw [List.length_cons, Nat.add_eq_right, List.length_eq_zero_iff] at h
          rw [h] at served
          exact served

/-- After two short `write`s the third piece starts where the second `write` got to by itself, at
    `buffer + b`. -/
lemma write_third (buffer : Bytes) {a b c : Nat} (served : Served (count - a - b) (some c :: rets))
    (second : 0 < b) (more : a + b < count) :
    ∃ output ret, write buffer count (some a :: some b :: some c :: rets) =
      some ⟨slice buffer 0 a ++ slice buffer a (a + b) ++ (slice buffer b (b + c) ++ output), ret⟩ := by
  have a_ne : a ≠ count := by omega
  have b_ne : b ≠ count - a := by omega
  have rest : ∃ w, writeLoop buffer c (count - a - b) rets = some w := by
    rcases served with ⟨rfl, rfl⟩ | ⟨_, more, served⟩
    · refine ⟨⟨[], some (count - a - b)⟩, ?_⟩
      simp [writeLoop]
    · obtain ⟨output, n, e, _⟩ := writeLoop_ret buffer served more
      exact ⟨_, e⟩
  obtain ⟨w, rest⟩ := rest
  refine ⟨w.output, w.ret, ?_⟩
  simp only [write, writeLoop, if_neg a_ne, if_neg b_ne, rest, Option.map_some, List.append_assoc]

/-- The byte of a buffer that a third piece misses. -/
lemma third_misses {a b c : Nat} (first : 0 < a) (third : 0 < c) (more : a + b < count)
    (output : Bytes) :
    slice ((List.replicate count 0).set (a + b) 1) 0 a ++
        slice ((List.replicate count 0).set (a + b) 1) a (a + b) ++
        (slice ((List.replicate count 0).set (a + b) 1) b (b + c) ++ output) ≠
      ((List.replicate count 0).set (a + b) 1).take count := by
  intro e
  have length : (slice ((List.replicate count (0 : UInt8)).set (a + b) 1) 0 a ++
      slice ((List.replicate count 0).set (a + b) 1) a (a + b)).length = a + b := by
    simp only [slice, List.length_append, List.length_drop, List.length_take, List.length_set,
      List.length_replicate]
    omega
  -- the byte at `a + b` is the first of the third piece, the one at `b`
  have byte := congrArg (·[a + b]?) e
  simp only [List.getElem?_append_right (Nat.le_of_eq length), length, Nat.sub_self] at byte
  have b_lt : b < count := by omega
  have b_ne : a + b ≠ b := by omega
  simp [slice, third, more, b_lt] at byte
  rw [List.getElem_set_ne b_ne, List.getElem_replicate] at byte
  cases byte

/-- The bytes are right, whatever they are, exactly when at most the first `write` is short. -/
lemma write_bytes_iff (served : Served count rets) :
    (∀ buffer : Bytes, count ≤ buffer.length →
      (write buffer count rets).map Written.output = some (buffer.take count)) ↔ rets.length ≤ 2 := by
  cases rets with
  | nil => exact served.elim
  | cons ret rets =>
    cases ret with
    | none => exact served.elim
    | some a =>
      rcases served with ⟨rfl, rfl⟩ | ⟨first, more, served⟩
      · exact iff_of_true (fun buffer _ => by rw [write_whole]; rfl) (Nat.le_succ 1)
      · cases rets with
        | nil => exact served.elim
        | cons ret rets =>
          cases ret with
          | none => exact served.elim
          | some b =>
            rcases served with ⟨rfl, rfl⟩ | ⟨second, more', served⟩
            · exact iff_of_true (fun buffer _ => by rw [write_once_short more]; rfl) (Nat.le_refl 2)
            · apply iff_of_false
              · cases rets with
                | nil => exact served.elim
                | cons ret rets =>
                  cases ret with
                  | none => exact served.elim
                  | some c =>
                    have third : 0 < c := by
                      rcases served with ⟨rfl, _⟩ | ⟨third, _⟩
                      · omega
                      · exact third
                    have more : a + b < count := by omega
                    intro h
                    obtain ⟨output, ret, e⟩ := write_third
                      ((List.replicate count 0).set (a + b) 1) served second more
                    have h := h ((List.replicate count 0).set (a + b) 1) (by simp)
                    rw [e] at h
                    exact third_misses first third more output (Option.some.inj h)
              · cases rets with
                | nil => exact absurd served id
                | cons ret rets =>
                  simp only [List.length_cons]
                  omega

/-- The file and the buffer hold the events, in order. -/
structure Inv (s : BufferedFileWriter) : Prop where
  fits : s.count ≤ s.buffer.length
  stream : s.file ++ s.buffer.take s.count = s.given
  rest : s.fd = 0 → s.count = 0

/-- Writing the buffer out moves its bytes to the file. -/
lemma Inv.writeOut (inv : Inv s) (isOpen : 0 < s.fd) (ts : BitVec 64) :
    Inv (s.writeOut (s.buffer.take s.count) ts) := by
  constructor
  · exact Nat.zero_le _
  · show s.file ++ s.buffer.take s.count ++ [] = s.given
    rw [List.append_nil]
    exact inv.stream
  · exact fun closed => absurd closed (Nat.ne_of_gt isOpen)

/-- Copying an event puts it at the end. -/
lemma Inv.copy (inv : Inv s) (isOpen : 0 < s.fd) (h : s.copy data = .ok t) : Inv t := by
  rw [BufferedFileWriter.copy] at h
  split at h
  · cases h
  · rename_i room
    cases h
    have fits := inv.fits
    constructor
    · show s.count + data.length ≤ (writeAt s.buffer s.count data).length
      simp only [writeAt, List.length_append, List.length_take, List.length_drop]
      omega
    · show s.file ++ (writeAt s.buffer s.count data).take (s.count + data.length) = s.given ++ data
      rw [take_writeAt data fits, ← List.append_assoc, inv.stream]
    · exact fun closed => absurd closed (Nat.ne_of_gt isOpen)

/-- What `_write` outputs when at most its first `write` is short. -/
lemma write_output (served : Served count rets) (short : rets.length ≤ 2)
    (fits : count ≤ buffer.length) (h : write buffer count rets = some w) :
    w.output = buffer.take count := by
  have bytes := (write_bytes_iff served).mpr short buffer fits
  rw [h] at bytes
  exact Option.some.inj bytes

/-- Every call keeps the invariant. -/
lemma Inv.step {as : List BufferedOp} {op : BufferedOp} (inv : Inv s) (ok : Allowed as s op)
    (h : s.step op = .ok t) : Inv t := by
  cases op with
  | open_ fd =>
    cases h
    have empty := inv.rest ok.1
    constructor
    · exact inv.fits
    · show [] ++ s.buffer.take s.count = []
      rw [empty]
      rfl
    · exact fun closed => absurd closed (Nat.ne_of_gt ok.2)
  | writeEvent data ts rets =>
    obtain ⟨isOpen, ok⟩ := ok
    rw [BufferedFileWriter.step, writeEvent] at h
    split at h
    · rename_i full
      obtain ⟨served, short⟩ := ok full
      cases hw : write s.buffer s.count rets with
      | none =>
        rw [hw] at h
        cases h
      | some w =>
        have output := write_output served short inv.fits hw
        rw [hw] at h
        obtain ⟨bytes, ret⟩ := w
        cases output
        cases ret with
        | none => cases h
        | some n => exact (inv.writeOut isOpen ts).copy isOpen h
    · have same : Inv { s with batchStarttime := s.starttime ts } := ⟨inv.fits, inv.stream, inv.rest⟩
      exact same.copy isOpen h
  | close rets =>
    rw [BufferedFileWriter.step, close] at h
    split at h
    · rename_i isOpen
      split at h
      · rename_i filled
        obtain ⟨served, short⟩ := ok filled
        cases hw : write s.buffer s.count rets with
        | none =>
          rw [hw] at h
          cases h
        | some w =>
          have output := write_output served short inv.fits hw
          rw [hw] at h
          cases h
          have out := inv.writeOut isOpen 0
          rw [← output] at out
          exact ⟨out.fits, out.stream, fun _ => rfl⟩
      · rename_i empty
        cases h
        exact ⟨inv.fits, inv.stream, fun _ => Nat.eq_zero_of_not_pos empty⟩
    · rename_i closed
      cases h
      exact ⟨inv.fits, inv.stream, fun _ => inv.rest (Nat.eq_zero_of_not_pos closed)⟩

lemma inv_start (fd bufferSize : Nat) : Inv (start fd bufferSize) := ⟨Nat.zero_le _, rfl, fun _ => rfl⟩

/-- `_write` outputs its bytes and returns their number exactly when its first `write` outputs them all.
    The bytes are right, whatever they are, exactly when at most the first `write` is short, and as
    long as this is so the file and the buffer hold the events that were given. -/
theorem survives_short_writes (fd bufferSize : Nat) :
    (∀ (buffer : Bytes) (count : Nat) (rets : List (Option Nat)), Served count rets →
      (write buffer count rets = some ⟨buffer.take count, some count⟩ ↔ rets.length = 1)) ∧
    (∀ (count : Nat) (rets : List (Option Nat)), Served count rets →
      ((∀ buffer : Bytes, count ≤ buffer.length →
        (write buffer count rets).map Written.output = some (buffer.take count)) ↔
        rets.length ≤ 2)) ∧
    ∀ (as : List BufferedOp) (s : BufferedFileWriter), Run step Allowed (start fd bufferSize) as s →
      s.file ++ s.buffer.take s.count = s.given ∧ (s.fd = 0 → s.file = s.given) := by
  refine ⟨fun _ _ _ => write_size_iff, fun _ _ => write_bytes_iff, ?_⟩
  intro as s run
  have next : ∀ as s op t, Inv s → Allowed as s op → s.step op = .ok t → Inv t :=
    fun _ _ _ _ inv ok h => inv.step ok h
  have inv := run.invariant (P := fun _ s => Inv s) (inv_start fd bufferSize) next
  refine ⟨inv.stream, ?_⟩
  intro closed
  have stream := inv.stream
  rwa [inv.rest closed, List.take_zero, List.append_nil] at stream

instance (as : List BufferedOp) (s : BufferedFileWriter) : (op : BufferedOp) → Decidable (Allowed as s op)
  | .open_ fd => inferInstanceAs (Decidable (s.fd = 0 ∧ 0 < fd))
  | .writeEvent data ts rets =>
    inferInstanceAs (Decidable (0 < s.fd ∧
      (s.full data ts → Served s.count rets ∧ rets.length ≤ 2)))
  | .close rets => inferInstanceAs (Decidable (0 < s.count → Served s.count rets ∧ rets.length ≤ 2))

/-- The second event does not fit behind the first, which is output in two pieces. -/
def shortOps : List BufferedOp :=
  [.open_ 3, .writeEvent [1, 2, 3] 5 [], .writeEvent [4, 5] 6 [some 1, some 2], .close [some 2]]

/-- The file holds both events, the pieces of three bytes are the right ones, and only a `write` of
    everything makes `_write` return 3. -/
theorem survives_short_writes_twice :
    (∃ s, Run step Allowed (start 0 4) shortOps s ∧ s.given = [1, 2, 3, 4, 5] ∧ s.file = s.given) ∧
      write [1, 2, 3] 3 [some 3] = some ⟨[1, 2, 3], some 3⟩ ∧
      (write [1, 2, 3] 3 [some 1, some 2]).map Written.output = some [1, 2, 3] := by
  obtain ⟨whole, bytes, stream⟩ := survives_short_writes 0 4
  refine ⟨?_, (whole [1, 2, 3] 3 [some 3] (by decide)).mpr rfl,
    (bytes 3 [some 1, some 2] (by decide)).mpr (by decide) [1, 2, 3] (by decide)⟩
  obtain ⟨s, run, h⟩ := Run.of_replay_any step Allowed (start 0 4) shortOps
    (fun s => s.fd = 0 ∧ s.given = [1, 2, 3, 4, 5]) (by decide +kernel)
  obtain ⟨closed, given⟩ := of_decide_eq_true h
  exact ⟨s, run, given, (stream shortOps s run).2 closed⟩

/-- Of the four bytes 10, 11, 12 and 13, output as one, one and two, the last two come from
    `buffer + 1`, and `_write` returns 2. -/
theorem third_piece_wrong :
    Served 4 [some 1, some 1, some 2] ∧
      write [10, 11, 12, 13] 4 [some 1, some 1, some 2] = some ⟨[10, 11, 11, 12], some 2⟩ ∧
      write [10, 11, 12, 13] 4 [some 1, some 3] = some ⟨[10, 11, 12, 13], some 3⟩ := by
  decide

end BufferedFileWriter

end Lcls2.Drp
